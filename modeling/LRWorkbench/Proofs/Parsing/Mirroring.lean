import LRWorkbench.Proofs.Parsing.Building

/-!
# What is built is built again elsewhere

Where another text agrees with the old one as far as anything was looked at, a run that meets the
same token in the same state builds the same (`Parser.Builds.mirrored`). Which other things stand
before, in the text or on the stack, does not matter.
-/

namespace LRWorkbench.Parsing

open Subtree Text

namespace Stack

variable {a b : Nat} {stack : Stack}

/-- Moving an entry to another place of the text leaves its subtree as it is. -/
theorem isIgnored_entry_moved (a b : Nat) (e : Entry) :
    (e.moved a b).subtree.isIgnored = e.subtree.isIgnored := rfl

@[simp] theorem state_map_moved (a b : Nat) (stack : Stack) :
    state (stack.map (Entry.moved a b)) = state stack := by
  cases stack <;> rfl

@[simp] theorem stateAbove_map_moved (a b q : Nat) (stack : Stack) :
    stateAbove q (stack.map (Entry.moved a b)) = stateAbove q stack := by
  cases stack <;> rfl

/-- What waits is pushed in the same order wherever it stands. -/
theorem pushAllIgnored_map_moved (a b : Nat) (stack : Stack) (entries : List (Subtree × Nat)) :
    pushAllIgnored (stack.map (Entry.moved a b)) (entries.map (Parser.movedEntry a b)) =
      (pushAllIgnored stack entries).map (Entry.moved a b) := by
  rw [pushAllIgnored_eq, pushAllIgnored_eq, List.map_append, List.map_reverse, List.map_map,
    List.map_map, state_map_moved]
  rfl

end Stack

namespace Parser

variable {s s' : Setting} {a b stop q : Nat} {first token : Token} {p p' : Parser}
  {production : Nat} {rule : TableProduction} {g : PreparedGrammar}

@[simp] theorem stackScanner_map_moved (a b : Nat) (stack : Stack) :
    stackScanner (stack.map (Entry.moved a b)) = stackScanner stack := by
  cases stack <;> rfl

/-- What the steps of a production are put together to stands as far behind the one place as behind
the other. -/
theorem entryOver_moved {steps : List Entry} (hsteps : ∀ e ∈ steps, a ≤ e.start) {state stop : Nat}
    (hstop : steps = [] → a ≤ stop) (scanner : ScannerState) :
    entryOver s production rule (token.moved a b) (steps.map (Entry.moved a b)) state
        (b + (stop - a)) scanner =
      (entryOver s production rule token steps state stop scanner).moved a b := by
  have hstart : ((steps.map (Entry.moved a b)).head?.map (·.start)).getD (b + (stop - a)) =
      b + ((steps.head?.map (·.start)).getD stop - a) := by
    cases steps <;> rfl
  have hle : a ≤ (steps.head?.map (·.start)).getD stop := by
    cases steps with
    | nil => exact hstop rfl
    | cons e steps => exact hsteps e (List.mem_cons_self ..)
  have hlook : (token.moved a b).lookaheadEnd - (b + ((steps.head?.map (·.start)).getD stop - a)) =
      token.lookaheadEnd - (steps.head?.map (·.start)).getD stop := by
    simp only [Token.moved]
    omega
  have hsubtrees : (steps.map (Entry.moved a b)).map (·.subtree) = steps.map (·.subtree) := by
    rw [List.map_map]
    rfl
  rw [entryOver, entryOver, hstart, hlook, hsubtrees]
  cases s.table.goto? state rule.lhs <;> rfl

/-- A reduction within a piece of a stack does the same behind another place. -/
theorem reduceAbove_moved {front : Stack} (hfront : ∀ e ∈ front, a ≤ e.start)
    (hstep : Stack.steps front ≠ []) (q : Nat) :
    reduceAbove s production rule (token.moved a b) q (front.map (Entry.moved a b)) =
      (reduceAbove s production rule token q front).map (Entry.moved a b) := by
  -- Popping asks only whether an entry is ignored, which moving does not change. So it takes the
  -- moved entries of what it took before.
  have hignored : Stack.splitIgnored [] (front.map (Entry.moved a b)) =
      ((Stack.splitIgnored [] front).1.map (Entry.moved a b),
        (Stack.splitIgnored [] front).2.map (Entry.moved a b)) :=
    Stack.splitIgnored_map (Stack.isIgnored_entry_moved a b) front []
  have hsub : (Stack.splitIgnored [] front).2 <:+ front := by
    obtain ⟨trailing, hsplit, -⟩ := Stack.splitIgnored_spec (Eq.refl (Stack.splitIgnored [] front))
    exact ⟨trailing, hsplit.symm⟩
  have hkept := Stack.steps_splitIgnored [] front
  rw [reduceAbove, reduceAbove, hignored]
  generalize Stack.splitIgnored [] front = split at hsub hkept ⊢
  obtain ⟨trailing, stack⟩ := split
  dsimp only at hsub hkept ⊢
  rw [← hkept] at hstep
  have hnonempty := splitSteps_ne_nil rule.length hstep
  obtain ⟨taken, hstack, htaken, -⟩ :=
    Stack.splitSteps_spec (Eq.refl (Stack.splitSteps [] rule.length stack))
  have hsplit : Stack.splitSteps [] rule.length (stack.map (Entry.moved a b)) =
      ((Stack.splitSteps [] rule.length stack).1.map (Entry.moved a b),
        (Stack.splitSteps [] rule.length stack).2.map (Entry.moved a b)) :=
    Stack.splitSteps_map (Stack.isIgnored_entry_moved a b) stack [] rule.length
  rw [hsplit]
  generalize Stack.splitSteps [] rule.length stack = split at hnonempty hstack htaken ⊢
  obtain ⟨steps, rest⟩ := split
  dsimp only at hnonempty hstack htaken ⊢
  have hsteps : ∀ e ∈ steps, a ≤ e.start := by
    intro e he
    rw [htaken, List.append_nil, List.mem_reverse] at he
    refine hfront e (hsub.subset ?_)
    rw [hstack]
    exact List.mem_append_left _ he
  have htrailing : (trailing.map (Entry.moved a b)).map (fun e => (e.subtree, e.start)) =
      (trailing.map fun e => (e.subtree, e.start)).map (movedEntry a b) := by
    rw [List.map_map, List.map_map]
    rfl
  rw [htrailing, ← Stack.pushAllIgnored_map_moved, List.map_cons, Stack.stateAbove_map_moved,
    stackScanner_map_moved]
  congr 2
  -- A phrase without steps starts where the rest stops. If nothing is left, then there are steps.
  cases rest with
  | nil =>
    have hne := hnonempty rfl
    rw [entryOver_of_ne_nil (by simpa using hne) _ _ (b + (Stack.stop [] - a)) _ (stackScanner [])]
    exact entryOver_moved hsteps (fun h => absurd h hne) _
  | cons top rest =>
    have htop : a ≤ top.start := by
      refine hfront top (hsub.subset ?_)
      rw [hstack]
      exact List.mem_append_right _ (List.mem_cons_self ..)
    have hstop : Stack.stop ((top :: rest).map (Entry.moved a b)) =
        b + (Stack.stop (top :: rest) - a) := by
      change b + (top.start - a) + top.subtree.length = b + (top.start + top.subtree.length - a)
      omega
    rw [hstop]
    exact entryOver_moved hsteps (fun _ => Nat.le_trans htop (Nat.le_add_right ..)) _

variable {r r' : Parser} {front back front' back' piece rest rest' : List Char}

/-- Stacks that mirror each other have as many steps for productions. -/
theorem length_steps_eq {stack stack' : Stack} (h : stack'.map Entry.plain =
    (stack.map (Entry.moved a b)).map Entry.plain) :
    (Stack.steps stack').length = (Stack.steps stack).length := by
  rw [← List.length_map Entry.plain, ← Stack.steps_map Stack.isIgnored_entry_plain, h,
    Stack.steps_map Stack.isIgnored_entry_plain, List.length_map,
    Stack.steps_map (Stack.isIgnored_entry_moved a b), List.length_map]

/-- A parser and its mirror image look up the same row of the table. -/
theorem Mirrors.state_eq (h : Mirrors a b stop s s' p p' front back front' back') :
    p'.state = p.state :=
  (Parser.state_eq h.plain).trans (Stack.state_map_moved a b p.stack)

/-- Shifting tokens that are alike leads to parsers that are alike. -/
theorem Mirrors.shift (h : Mirrors a b stop s s' r r' front back front' back') {next : Nat}
    (hleaf : (s'.leaf (token.moved a b) r'.state next token.errorMode).plain =
      (s.leaf token r.state next token.errorMode).plain) :
    Mirrors a b stop s s' (r.shift s next token) (r'.shift s' next (token.moved a b))
      front back front' back' := by
  obtain ⟨hplain, htext, htext', hposition, hposition', hle, hagree⟩ := h
  obtain ⟨hstack, hpending, hplace, hscanner, hlex⟩ := plain_eq_iff.mp hplain
  refine ⟨plain_eq_iff.mpr ⟨?_, rfl, hplace, hscanner, hlex⟩, htext, htext', hposition, hposition',
    hle, hagree⟩
  have hflush : r'.flush.stack.map Entry.plain =
      (r.flush.stack.map (Entry.moved a b)).map Entry.plain := by
    rw [flush, flush, ← Stack.pushAllIgnored_map_moved, ← Stack.pushAllIgnored_map_plain,
      ← Stack.pushAllIgnored_map_plain, hstack, hpending]
    rfl
  have hentry : (Entry.mk next (s'.leaf (token.moved a b) r'.state next token.errorMode)
      (token.moved a b).start).plain = ((Entry.mk next
        (s.leaf token r.state next token.errorMode) token.start).moved a b).plain := by
    rw [Entry.plain, hleaf]
    rfl
  exact congrArg₂ List.cons hentry hflush

/-- Reductions before tokens that are alike lead to parsers that are alike. -/
theorem Mirrors.reduce (h : Mirrors a b stop s s' p p' front back front' back')
    (htable : s'.table = s.table) (hstarts : ∀ e ∈ p.stack, a ≤ e.start)
    (hstep : Stack.steps p.stack ≠ []) (production : Nat) (rule : TableProduction) (token : Token)
    (q : Nat) :
    Mirrors a b stop s s'
      { p with
        stack := reduceAbove s production rule token q p.stack
        lexState := some p.lookState }
      { p' with
        stack := reduceAbove s' production rule (token.moved a b) q p'.stack
        lexState := some p'.lookState } front back front' back' := by
  have hlook := (lookState_eq h.plain).trans (lookState_moved a b p)
  obtain ⟨hplain, htext, htext', hposition, hposition', hle, hagree⟩ := h
  obtain ⟨hstack, hpending, hplace, hscanner, -⟩ := plain_eq_iff.mp hplain
  refine ⟨plain_eq_iff.mpr ⟨?_, hpending, hplace, hscanner, congrArg some hlook⟩, htext, htext',
    hposition, hposition', hle, hagree⟩
  refine (plain_reduceAbove hstack htable production rule (token.moved a b) q).trans ?_
  exact congrArg (List.map Entry.plain) (reduceAbove_moved hstarts hstep q)

/-- **What is built is built again** where the text agrees as far as anything was looked at. -/
theorem Builds.mirrored (h : Builds s stop q first p) (hg : g.Compiles s.table)
    (hlanguage : s'.language = s.language) (hl : s.language.IsHonest)
    (hk : s.language.KeepsAccount) (htakes : first.Takes s.text front piece rest)
    (htakes' : (first.moved a b).Takes s'.text front' piece rest')
    (hagree : Agree (stop - first.stop) rest rest') (ha : a ≤ first.start)
    (hextra : first.isExtra = false) :
    ∃ p' front back front' back', Builds s' (b + (stop - a)) q (first.moved a b) p' ∧
      Mirrors a b stop s s' p p' front back front' back' := by
  have htable : s'.table = s.table := congrArg Language.table hlanguage
  -- What a token looked at ends before the edit, and so it does when both are moved.
  have hcalm : ∀ {token : Token}, CalmToken stop token →
      CalmToken (b + (stop - a)) (token.moved a b) := by
    rintro token ⟨hmode, hle⟩
    refine ⟨hmode, ?_⟩
    simp only [Token.moved]
    omega
  induction h with
  | @first next action =>
    have hstart := htakes.start_eq
    have hstop := htakes.stop_eq
    refine ⟨_, _, _, _, _, .first (by rw [htable]; exact action), ?_, htakes.text_eq,
      htakes'.text_eq, ?_, ?_, ?_, hagree⟩
    · refine plain_eq_iff.mpr ⟨?_, rfl, rfl, rfl, rfl⟩
      have hleaf := plain_leaf_moved htakes htakes' ha q q next first.errorMode
      exact congrArg (fun t => [Entry.mk next t (b + (first.start - a))]) hleaf
    · rw [byteLength_append]
      exact hstop
    · rw [byteLength_append]
      exact htakes'.stop_eq
    · dsimp only
      omega
  | shift before reads calm action ih =>
    obtain ⟨p', _, _, _, _, hbuilds, hp⟩ := ih
    obtain ⟨r', _, _, _, _, hreads, hr, hleaf⟩ :=
      reads.mirrored hlanguage hl hk hg.sparesEnd hp calm
    rw [← hp.state_eq, ← htable] at action
    exact ⟨_, _, _, _, _, .shift hbuilds hreads (hcalm calm) action, hr.shift (hleaf ..)⟩
  | reduce before reads calm action rule_eq step le ih =>
    obtain ⟨p', _, _, _, _, hbuilds, hp⟩ := ih
    obtain ⟨r', _, _, _, _, hreads, -, -⟩ :=
      reads.mirrored hlanguage hl hk hg.sparesEnd hp calm
    have hbuilt := before.built hg htakes hextra
    rw [← hp.state_eq, ← htable] at action
    rw [← htable] at rule_eq
    -- Plain stacks are equal, so as many steps can be popped.
    have hlength := length_steps_eq (plain_eq_iff.mp hp.plain).1
    refine ⟨_, _, _, _, _, .reduce hbuilds hreads (hcalm calm) action rule_eq ?_ ?_,
      hp.reduce htable (fun e he => ?_) step ..⟩
    · intro hnil
      rw [hnil] at hlength
      exact step (List.length_eq_zero_iff.mp hlength.symm)
    · rwa [hlength]
    · refine Nat.le_trans ha (hbuilt.linedUp.le.2 (e.subtree, e.start) ?_)
      exact List.mem_reverse.mpr (List.mem_map_of_mem he)

end Parser

end LRWorkbench.Parsing
