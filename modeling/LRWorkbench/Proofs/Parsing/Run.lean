import LRWorkbench.Parsing.Parser
import LRWorkbench.Parsing.Stack
import LRWorkbench.Proofs.Parsing.Edit

/-!
# Runs of the parser

`Parser.Reaches s token p` says that a run gets to the parser `p` with `token` next, and
`Setting.Yields s tree` that it ends with a tree. What holds at the start and is kept by each move
holds wherever a run gets to.

A setting is **genuine** if it is that of a text parsed for the first time, or that of a text that
edits really made of the text of a tree which a genuine setting yields.
-/

/-!
### What is split off a stack

Entries are taken off a stack from the top. Those that are **not ignored** are the steps of
productions; `Stack.steps` lists them.
-/

namespace LRWorkbench.Parsing.Stack

/-- The entries that are steps of productions, the top first. -/
def steps (stack : Stack) : List Entry := stack.filter fun e => !e.subtree.isIgnored

theorem steps_cons_of_ignored {e : Entry} {stack : Stack} (he : e.subtree.isIgnored = true) :
    steps (e :: stack) = steps stack := by
  simp [steps, he]

theorem steps_cons_of_not_ignored {e : Entry} {stack : Stack} (he : e.subtree.isIgnored = false) :
    steps (e :: stack) = e :: steps stack := by
  simp [steps, he]

@[simp] theorem steps_append (front rest : Stack) :
    steps (front ++ rest) = steps front ++ steps rest :=
  List.filter_append ..

theorem steps_eq_nil {front : Stack} (h : ∀ e ∈ front, e.subtree.isIgnored = true) :
    steps front = [] :=
  List.filter_eq_nil_iff.mpr fun e he => by simp [h e he]

theorem grammarStates_eq (stack : Stack) : grammarStates stack = (steps stack).map (·.state) ++ [0] :=
  rfl

/-- The entries on top that are ignored are split off, down to the topmost step. -/
theorem splitIgnored_spec {found trailing : List Entry} {stack rest : Stack}
    (h : splitIgnored found stack = (trailing, rest)) :
    ∃ front, stack = front ++ rest ∧ trailing = front.reverse ++ found ∧
      ∀ e ∈ front, e.subtree.isIgnored = true := by
  induction stack generalizing found with
  | nil =>
    obtain ⟨rfl, rfl⟩ := Prod.mk.inj h
    exact ⟨[], rfl, rfl, fun _ he => absurd he List.not_mem_nil⟩
  | cons e stack ih =>
    rw [splitIgnored] at h
    split at h
    · rename_i he
      obtain ⟨front, rfl, rfl, hfront⟩ := ih h
      refine ⟨e :: front, rfl, by simp, fun e' he' => ?_⟩
      rcases List.mem_cons.mp he' with rfl | he'
      · exact he
      · exact hfront e' he'
    · obtain ⟨rfl, rfl⟩ := Prod.mk.inj h
      exact ⟨[], rfl, rfl, fun _ he => absurd he List.not_mem_nil⟩

/-- Entries are split off until there are enough steps among them, so the last one is a step. -/
theorem splitSteps_spec {found children : List Entry} {count : Nat} {stack rest : Stack}
    (h : splitSteps found count stack = (children, rest)) :
    ∃ front, stack = front ++ rest ∧ children = front.reverse ++ found ∧
      (count ≤ (steps stack).length → (steps front).length = count ∧
        ∀ e, front.getLast? = some e → e.subtree.isIgnored = false) := by
  have hnone : (steps []).length = 0 ∧
      ∀ e, ([] : Stack).getLast? = some e → e.subtree.isIgnored = false :=
    ⟨rfl, fun e he => by cases he⟩
  induction stack generalizing found count with
  | nil =>
    cases count with
    | zero =>
      obtain ⟨rfl, rfl⟩ := Prod.mk.inj h
      exact ⟨[], rfl, rfl, fun _ => hnone⟩
    | succ count =>
      obtain ⟨rfl, rfl⟩ := Prod.mk.inj h
      exact ⟨[], rfl, rfl, fun hle => absurd hle (Nat.not_succ_le_zero count)⟩
  | cons e stack ih =>
    cases count with
    | zero =>
      obtain ⟨rfl, rfl⟩ := Prod.mk.inj h
      exact ⟨[], rfl, rfl, fun _ => hnone⟩
    | succ count =>
      rw [splitSteps] at h
      obtain ⟨front, rfl, rfl, hfront⟩ := ih h
      refine ⟨e :: front, rfl, by simp, fun hle => ?_⟩
      cases he : e.subtree.isIgnored with
      | true =>
        rw [he, if_pos rfl] at hfront
        rw [steps_cons_of_ignored he] at hle ⊢
        obtain ⟨hlength, hlast⟩ := hfront hle
        refine ⟨hlength, fun e' he' => hlast e' ?_⟩
        cases front with
        | nil => cases hlength
        | cons e₂ front => exact he'
      | false =>
        rw [he] at hfront
        rw [steps_cons_of_not_ignored he, List.length_cons] at hle ⊢
        obtain ⟨hlength, hlast⟩ := hfront (Nat.le_of_succ_le_succ hle)
        refine ⟨congrArg Nat.succ hlength, fun e' he' => ?_⟩
        cases front with
        | nil =>
          obtain rfl := Option.some.inj he'
          exact he
        | cons e₂ front => exact hlast e' he'

/-- The entries that are put on top for subtrees that take no step. -/
theorem pushAllIgnored_spec (stack : Stack) (entries : List (Subtree × Nat)) :
    ∃ front, pushAllIgnored stack entries = front ++ stack ∧
      front.map (fun e => (e.subtree, e.start)) = entries.reverse ∧
      ∀ e ∈ front, e.state = state stack := by
  induction entries generalizing stack with
  | nil => exact ⟨[], rfl, rfl, fun _ he => absurd he List.not_mem_nil⟩
  | cons entry entries ih =>
    obtain ⟨front, hfront, hentries, hstate⟩ := ih (pushIgnored stack entry.1 entry.2)
    refine ⟨front ++ [⟨state stack, entry.1, entry.2⟩], ?_, ?_, fun e he => ?_⟩
    · rw [List.append_assoc]
      exact hfront
    · rw [List.map_append, hentries, List.reverse_cons]
      rfl
    · rcases List.mem_append.mp he with he | he
      · exact hstate e he
      · rw [List.mem_singleton.mp he]

/-! ### Entries may change as long as the same ones are ignored -/

section

variable {f : Entry → Entry} (hf : ∀ e, (f e).subtree.isIgnored = e.subtree.isIgnored)

include hf

theorem splitIgnored_map (stack : Stack) (found : List Entry) :
    splitIgnored (found.map f) (stack.map f) =
      ((splitIgnored found stack).1.map f, (splitIgnored found stack).2.map f) := by
  induction stack generalizing found with
  | nil => rfl
  | cons e stack ih =>
    rw [List.map_cons, splitIgnored, splitIgnored, hf]
    split
    · exact ih (e :: found)
    · rfl

theorem splitSteps_map (stack : Stack) (found : List Entry) (count : Nat) :
    splitSteps (found.map f) count (stack.map f) =
      ((splitSteps found count stack).1.map f, (splitSteps found count stack).2.map f) := by
  induction stack generalizing found count with
  | nil => cases count <;> rfl
  | cons e stack ih =>
    cases count with
    | zero => rfl
    | succ count =>
      rw [List.map_cons, splitSteps, splitSteps, hf]
      exact ih (e :: found) _

theorem steps_map (stack : Stack) : steps (stack.map f) = (steps stack).map f := by
  rw [steps, steps, List.filter_map]
  simp only [Function.comp_def, hf]

end

end LRWorkbench.Parsing.Stack

namespace LRWorkbench.Parsing

variable {A : Type} [ByteAutomaton A]

namespace Parser

/-! ### Moves -/

/-- The moves of a parser with a token next, and when they are made. -/
inductive Move (s : Setting A) (token : Token) (p : Parser) : Outcome A → Prop where
  | shift {next : Nat} (action : s.table.action p.state token.symbol = .shift next)
      (fresh : toReuse? s p token = none) :
      Move s token p (.more (read s (p.shift s next token)).1 (read s (p.shift s next token)).2)
  | takeOver {next after : Nat} {t : Subtree}
      (action : s.table.action p.state token.symbol = .shift next)
      (reuse : toReuse? s p token = some (t, after)) :
      Move s token p
        (.more (read s (p.takeOver token t after)).1 (read s (p.takeOver token t after)).2)
  | reduce {production : Nat} (action : s.table.action p.state token.symbol = .reduce production) :
      Move s token p (.more token (p.reduce s production token))
  | accept (action : s.table.action p.state token.symbol = .accept) :
      Move s token p (.done (p.accept s))
  | resume {r : Recovery} {p' : Parser}
      (action : s.table.action p.state token.symbol = .error)
      (found : findRecovery s [] ⟨[], token⟩ s.window p = some (r, p')) :
      Move s token p (.more (Parser.resume s r p').1 (Parser.resume s r p').2)
  | giveUp (action : s.table.action p.state token.symbol = .error)
      (none : findRecovery s [] ⟨[], token⟩ s.window p = none) (isEnd : token.isEnd = false) :
      Move s token p
        (.more (read s (giveUpToken s p token)).1 (read s (giveUpToken s p token)).2)
  | abandon (action : s.table.action p.state token.symbol = .error)
      (none : findRecovery s [] ⟨[], token⟩ s.window p = none) (isEnd : token.isEnd = true) :
      Move s token p (.done (p.abandon s))

/-- Every step is a move. -/
theorem move_step (s : Setting A) (p : Parser) (token : Token) : Move s token p (step s p token) := by
  rw [step]
  split
  · rename_i next haction
    cases hreuse : toReuse? s p token with
    | none => exact .shift haction hreuse
    | some found => exact .takeOver haction hreuse
  · rename_i production haction
    exact .reduce haction
  · rename_i haction
    exact .accept haction
  · rename_i haction
    rw [recover]
    split
    · rename_i r p' hfound
      exact .resume haction hfound
    · rename_i hnone
      split
      · rename_i hend
        exact .abandon haction hnone hend
      · rename_i hend
        exact .giveUp haction hnone (Bool.eq_false_iff.mpr hend)

/-- What a reduction does: entries are taken off the stack, ignored ones first and then those that
the steps of the production are among; a node is put in place of the latter, and the ignored ones
are put back. -/
theorem exists_of_reduce (s : Setting A) (p : Parser) (token : Token) {production : Nat}
    {rule : TableProduction} (hrule : s.table.production? production = some rule) :
    ∃ trailing front rest start node,
      p.stack = trailing ++ (front ++ rest) ∧
      (∀ e ∈ trailing, e.subtree.isIgnored = true) ∧
      (rule.length ≤ (Stack.steps p.stack).length → (Stack.steps front).length = rule.length ∧
        ∀ e, front.getLast? = some e → e.subtree.isIgnored = false) ∧
      start = ((front.reverse.head?.map (·.start)).getD (Stack.stop rest)) ∧
      node = Subtree.build s.generation rule.lhs (some production)
        (front.reverse.map (·.subtree)) (Stack.state rest) (token.lookaheadEnd - start)
        token.errorMode (stackScanner rest) ∧
      p.reduce s production token = { p with
        stack := Stack.pushAllIgnored
          (match s.table.goto? (Stack.state rest) rule.lhs with
          | some next => ⟨next, node, start⟩ :: rest
          | none => Stack.pushIgnored rest (Subtree.buildError s.generation [node]
              (Stack.state rest) (stackScanner rest)) start)
          (trailing.reverse.map fun e => (e.subtree, e.start)) } := by
  obtain ⟨⟨ignored, stack⟩, hignored⟩ : ∃ split, Stack.splitIgnored [] p.stack = split := ⟨_, rfl⟩
  obtain ⟨⟨steps, rest⟩, hsteps⟩ : ∃ split, Stack.splitSteps [] rule.length stack = split :=
    ⟨_, rfl⟩
  obtain ⟨trailing, hstack, rfl, htrailing⟩ := Stack.splitIgnored_spec hignored
  obtain ⟨front, rfl, rfl, hcount⟩ := Stack.splitSteps_spec hsteps
  refine ⟨trailing, front, rest, _, _, hstack, htrailing, fun hle => hcount ?_, rfl, rfl, ?_⟩
  · rwa [hstack, Stack.steps_append, Stack.steps_eq_nil htrailing, List.nil_append] at hle
  · cases hgoto : s.table.goto? (Stack.state rest) rule.lhs <;>
      simp only [reduce, hrule, hignored, hsteps, List.append_nil, hgoto]

theorem stack_readAheadOn (s : Setting A) (extras : List (Subtree × Nat)) (fuel : Nat) (p : Parser) :
    (readAheadOn s extras fuel p).2.stack = p.stack ∧
      (readAheadOn s extras fuel p).2.pending = p.pending := by
  induction fuel generalizing extras p with
  | zero => exact ⟨rfl, rfl⟩
  | succ fuel ih =>
    rw [readAheadOn]
    split
    · exact ih _ _
    · exact ⟨rfl, rfl⟩

/-- The token that is found ahead is no extra, and what stands before it are the leaves of extras. -/
theorem spec_readAheadOn {s : Setting A} {P : Subtree → Prop}
    (hleaf : ∀ token q, token.isExtra = true → P (s.leaf token q q true))
    {extras : List (Subtree × Nat)} (h : ∀ e ∈ extras, P e.1) (fuel : Nat) (p : Parser) :
    (∀ e ∈ (readAheadOn s extras fuel p).1.extras, P e.1) ∧
      (readAheadOn s extras fuel p).1.token.isExtra = false := by
  induction fuel generalizing extras p with
  | zero => exact ⟨h, rfl⟩
  | succ fuel ih =>
    rw [readAheadOn]
    split
    · rename_i hextra
      refine ih (fun e he => ?_) _
      rcases List.mem_append.mp he with he | he
      · exact h e he
      · rw [List.mem_singleton.mp he]
        exact hleaf _ _ hextra
    · rename_i hextra
      exact ⟨h, Bool.eq_false_iff.mpr hextra⟩

theorem spec_readAhead {s : Setting A} {P : Subtree → Prop}
    (hleaf : ∀ token q, token.isExtra = true → P (s.leaf token q q true)) (p : Parser) :
    (∀ e ∈ (readAhead s p).1.extras, P e.1) ∧ (readAhead s p).1.token.isExtra = false :=
  spec_readAheadOn hleaf (fun _ h => absurd h List.not_mem_nil) _ p

/-- A recovery that is found: the token at hand can follow, or it is skipped for the next one. -/
inductive Finds (s : Setting A) : List Ahead → Ahead → Parser → Recovery → Parser → Prop
  | here {skipped : List Ahead} {current : Ahead} {p : Parser} {popped : Nat}
      (pops : popsFor? s.table p.stack skipped.length current.token.symbol = some popped) :
      Finds s skipped current p ⟨skipped, current, popped⟩ p
  | behind {skipped : List Ahead} {current : Ahead} {p p' : Parser} {r : Recovery}
      (goesOn : current.token.isEnd = false)
      (further : Finds s (skipped ++ [current]) (readAhead s p).1 (readAhead s p).2 r p') :
      Finds s skipped current p r p'

theorem finds_of_findRecovery {s : Setting A} {skipped : List Ahead} {current : Ahead} {window : Nat}
    {p p' : Parser} {r : Recovery} (h : findRecovery s skipped current window p = some (r, p')) :
    Finds s skipped current p r p' := by
  induction window generalizing skipped current p with
  | zero =>
    rw [findRecovery] at h
    split at h
    · rename_i hpops
      cases h
      exact .here hpops
    · cases h
  | succ window ih =>
    rw [findRecovery] at h
    split at h
    · rename_i hpops
      cases h
      exact .here hpops
    · dsimp only at h
      split at h
      · cases h
      · rename_i hend
        exact .behind (Bool.eq_false_iff.mpr hend) (ih h)

/-- Looking for a recovery leaves the stack alone. -/
theorem stack_findRecovery {s : Setting A} {skipped : List Ahead} {current : Ahead} {window : Nat}
    {p p' : Parser} {r : Recovery} (h : findRecovery s skipped current window p = some (r, p')) :
    p'.stack = p.stack ∧ p'.pending = p.pending := by
  replace h := finds_of_findRecovery h
  induction h with
  | here => exact ⟨rfl, rfl⟩
  | behind _ _ ih =>
    obtain ⟨hstack, hpending⟩ := stack_readAheadOn s [] (s.length + 1) _
    exact ⟨ih.1.trans hstack, ih.2.trans hpending⟩

/-- The way that is found to get over an error takes off entries such that the token can follow, and
what holds of all that is found ahead holds of what is skipped. -/
theorem spec_of_findRecovery {s : Setting A} {P : Ahead → Prop} (hahead : ∀ p, P (readAhead s p).1)
    {skipped : List Ahead} {current : Ahead} {window : Nat} {p p' : Parser} {r : Recovery}
    (h : findRecovery s skipped current window p = some (r, p')) (hskipped : ∀ a ∈ skipped, P a)
    (hcurrent : P current) :
    (∀ a ∈ r.skipped, P a) ∧ P r.resume ∧
      popsFor? s.table p.stack r.skipped.length r.resume.token.symbol = some r.popped := by
  replace h := finds_of_findRecovery h
  induction h with
  | here pops => exact ⟨hskipped, hcurrent, pops⟩
  | behind _ _ ih =>
    rw [← (stack_readAheadOn s [] (s.length + 1) _).1]
    refine ih (fun a ha => ?_) (hahead _)
    rcases List.mem_append.mp ha with ha | ha
    · exact hskipped a ha
    · rw [List.mem_singleton.mp ha]
      exact hcurrent

/-- A subtree of the old tree that is taken over for a token, and the state after it. -/
structure Reused (s : Setting A) (p : Parser) (token : Token) (t : Subtree) (after : Nat)
    (r : Reuse) (oldStart : Nat) : Prop where
  reuse : s.reuse = some r
  errorMode : token.errorMode = false
  isEnd : token.isEnd = false
  place : r.edits.toOld? token.start = some oldStart
  candidate : t ∈ r.candidates oldStart
  isLeaf : t.isLeaf = false
  isError : t.isError = false
  hasError : t.hasError = false
  isFragile : t.isFragile = false
  length : t.length ≠ 0
  lexState : t.info.lexState.isSome
  parseState : t.info.parseState = p.state
  untouched : r.isUntouched t oldStart = true
  firstLeaf : ∃ first, t.firstLeaf? = some first ∧ first.symbol = token.symbol ∧
    first.length = token.length
  scanner : t.info.scannerBefore = token.scannerBefore
  goto : s.table.goto? p.state t.symbol = some after

theorem exists_of_toReuse {s : Setting A} {p : Parser} {token : Token} {t : Subtree} {after : Nat}
    (h : toReuse? s p token = some (t, after)) :
    ∃ r oldStart, Reused s p token t after r oldStart := by
  rw [toReuse?] at h
  split at h
  · cases h
  rename_i hmode
  split at h
  · cases h
  rename_i r hr
  split at h
  · cases h
  rename_i oldStart hold
  obtain ⟨t', ht', hsome⟩ := List.exists_of_findSome?_eq_some h
  obtain ⟨next, hnext, heq⟩ := Option.map_eq_some_iff.mp hsome
  obtain ⟨rfl, rfl⟩ := Prod.mk.inj heq
  rw [reusable?] at hnext
  split at hnext
  · cases hnext
  rename_i hnode
  split at hnext
  · cases hnext
  rename_i first hfirst
  split at hnext
  · cases hnext
  rename_i hsame
  simp only [Bool.or_eq_true, decide_eq_true_eq, Bool.not_eq_true', not_or, Bool.not_eq_true,
    Option.isNone_iff_eq_none, ne_eq, Decidable.not_not, Bool.not_eq_false] at hmode hnode hsame
  obtain ⟨⟨⟨⟨⟨⟨⟨hleaf, herror⟩, hflag⟩, hfragile⟩, hlength⟩, hlex⟩, hstate⟩, huntouched⟩ := hnode
  exact ⟨r, oldStart, {
    reuse := hr
    errorMode := hmode.1
    isEnd := hmode.2
    place := hold
    candidate := ht'
    isLeaf := hleaf
    isError := herror
    hasError := hflag
    isFragile := hfragile
    length := hlength
    lexState := Option.isSome_iff_ne_none.mpr hlex
    parseState := hstate
    untouched := huntouched
    firstLeaf := ⟨first, hfirst, hsame.1.1, hsame.1.2⟩
    scanner := hsame.2
    goto := hnext }⟩

/-! ### Runs -/

/-- Whether a run gets to a parser with a token next. -/
inductive Reaches (s : Setting A) : Token → Parser → Prop where
  | start : Reaches s (read s start).1 (read s start).2
  | step {token token' : Token} {p p' : Parser} (reached : Reaches s token p)
      (move : step s p token = .more token' p') : Reaches s token' p'

/-- A run that ends gets to a last move. -/
theorem exists_last_of_run {s : Setting A} {fuel : Nat} {token : Token} {p : Parser}
    {tree : SyntaxTree A} (h : run s fuel token p = some tree) (hp : Reaches s token p) :
    ∃ token' p', Reaches s token' p' ∧ step s p' token' = .done tree := by
  induction fuel generalizing token p with
  | zero => cases h
  | succ fuel ih =>
    rw [run] at h
    split at h
    · rename_i made hmade
      obtain rfl := Option.some.inj h
      exact ⟨token, p, hp, hmade⟩
    · rename_i token' p' hmove
      exact ih h (hp.step hmove)

end Parser

/-- Whether the run of a setting ends with a tree. -/
def Setting.Yields (s : Setting A) (tree : SyntaxTree A) : Prop :=
  ∃ fuel, Parser.runFromStart s fuel = some tree

theorem Setting.Yields.exists_last {s : Setting A} {tree : SyntaxTree A} (h : s.Yields tree) :
    ∃ token p, Parser.Reaches s token p ∧ Parser.step s p token = .done tree := by
  obtain ⟨fuel, hrun⟩ := h
  exact Parser.exists_last_of_run hrun .start

/-- A run does not end in two ways. -/
theorem Parser.run_unique {s : Setting A} {fuel fuel' : Nat} {token : Token} {p : Parser}
    {tree tree' : SyntaxTree A} (h : run s fuel token p = some tree)
    (h' : run s fuel' token p = some tree') : tree' = tree := by
  induction fuel generalizing fuel' token p with
  | zero => cases h
  | succ fuel ih =>
    cases fuel' with
    | zero => cases h'
    | succ fuel' =>
      rw [run] at h h'
      cases hstep : step s p token with
      | done made =>
        rw [hstep] at h h'
        exact Option.some.inj (h'.symm.trans h)
      | more token' p' =>
        rw [hstep] at h h'
        exact ih h h'

/-- Wherever a run that ends gets to, it goes on to the same end. -/
theorem Parser.Reaches.exists_run {s : Setting A} {token : Token} {p : Parser} {tree : SyntaxTree A}
    (h : Reaches s token p) (hyields : s.Yields tree) : ∃ fuel, run s fuel token p = some tree := by
  induction h with
  | start => exact hyields
  | step reached move ih =>
    obtain ⟨fuel, hrun⟩ := ih
    cases fuel with
    | zero => cases hrun
    | succ fuel =>
      rw [run, move] at hrun
      exact ⟨fuel, hrun⟩

/-- A run ends with what it ends with from where it gets to. -/
theorem Parser.Reaches.yields {s : Setting A} {token : Token} {p : Parser} {tree : SyntaxTree A}
    (h : Reaches s token p) {fuel : Nat} (hrun : run s fuel token p = some tree) :
    s.Yields tree := by
  induction h generalizing fuel with
  | start => exact ⟨fuel, hrun⟩
  | @step token token' p p' reached move ih =>
    have hrun' : run s (fuel + 1) token p = some tree := by
      rw [run, move]
      exact hrun
    exact ih hrun'

/-- The settings of texts in a language that are parsed, or parsed again after edits. -/
inductive Setting.Genuine (l : Language A) : Setting A → Prop where
  | fresh (text : List Char) (window : Nat) : Genuine l (.fresh l text window)
  | edited {s : Setting A} {old : SyntaxTree A} {edits : List Edit} {set : EditSet} {text : List Char}
      {window : Nat} (before : Genuine l s) (yields : s.Yields old)
      (accepted : EditSet.of edits (Text.byteLength old.text) (Text.byteLength text) = .ok set)
      (turns : set.Turns old.text text) : Genuine l (.edited old set text window)

end LRWorkbench.Parsing
