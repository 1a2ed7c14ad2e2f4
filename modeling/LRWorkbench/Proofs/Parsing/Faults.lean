import LRWorkbench.Proofs.Parsing.Regrowth
import LRWorkbench.Proofs.Tree.Outline

/-!
# Error nodes stay

The error nodes in what is on the stack, or waits, are listed with their places by `Parser.faults`.
Reading, shifting, reducing and accepting leave them as they are, and getting over an error adds one
for what is given up (`faults_of_error`). So none is lost on the way to the tree
(`Reaches.faults_subset_of_run`), and a run that ends with a tree without errors never meets a token it
can do nothing with (`Reaches.action_ne_error`).
-/

namespace LRWorkbench.Parsing

open Lalr PreparedGrammar Subtree

namespace Parser

variable {g : PreparedGrammar} {s : Setting} {p p' r : Parser} {token token' : Token}
variable {start : Extent} {ts us : List Subtree}

/-- The error nodes in what is on the stack or waits, with their places. -/
def faults (p : Parser) : List (Subtree × Extent) := faultsOf Extent.zero p.content

theorem faultsOf_append_leaves (hus : ∀ t ∈ us, t.isLeaf = true) :
    faultsOf start (ts ++ us) = faultsOf start ts := by
  rw [faultsOf_append, faultsOf_of_leaves hus, List.append_nil]

/-- What holds the same error nodes and ends where other subtrees end may take their place. -/
theorem faultsOf_congr {vs : List Subtree} (hfaults : ∀ start, faultsOf start vs = faultsOf start us)
    (hstop : ∀ start, stopOf start vs = stopOf start us) (back : List Subtree) :
    faultsOf start (ts ++ vs ++ back) = faultsOf start (ts ++ us ++ back) := by
  rw [List.append_assoc, List.append_assoc, faultsOf_append, faultsOf_append, faultsOf_append,
    faultsOf_append, hfaults, hstop]

/-! ### Moves that leave them as they are -/

theorem Reads.faults_eq (h : Reads s p token r) : r.faults = p.faults := by
  obtain ⟨extras, hcontent, hextras⟩ := h.content
  rw [faults, hcontent, faultsOf_append_leaves hextras]
  rfl

theorem content_shift (next : Nat) : (p.shift s next token).content =
    p.content ++ [s.leaf token p.state next token.errorMode] := by
  rw [content]
  change Stack.subtrees (⟨next, s.leaf token p.state next token.errorMode, token.start⟩ ::
    p.flush.stack) ++ [] = _
  rw [List.append_nil, Stack.subtrees_cons, subtrees_flush]

theorem faults_shift (next : Nat) : (p.shift s next token).faults = p.faults := by
  rw [faults, content_shift, faultsOf_append_leaves]
  · rfl
  · intro t ht
    rw [List.mem_singleton.mp ht]
    rfl

theorem Sound.faults_reduce (h : p.Sound g) (hg : g.Compiles s.table) {production : Nat}
    (haction : s.table.action p.state token.symbol = .reduce production) :
    (p.reduce s production token).faults = p.faults := by
  obtain ⟨trailing, front, rest, made, next, start, node, hreduced⟩ :=
    exists_reduced h.viable hg haction
  have hsymbol : (g.nonTerminalSymbol made.lhs).isError = false :=
    decide_eq_false (hg.nonTerminalSymbol_ne_error (hg.lhs_lt hreduced.made_eq))
  have hbefore : p.content = Stack.subtrees rest ++ Stack.subtrees front ++
      (Stack.subtrees trailing ++ p.pending.map (·.1)) := by
    rw [content, hreduced.stack_eq, Stack.subtrees_append, Stack.subtrees_append, List.append_assoc]
  have hafter : (p.reduce s production token).content = Stack.subtrees rest ++ [node] ++
      (Stack.subtrees trailing ++ p.pending.map (·.1)) := by
    rw [hreduced.reduce_eq, content, Stack.subtrees_pushAllIgnored, Stack.subtrees_cons, List.map_map,
      List.map_reverse, ← List.append_assoc]
    rfl
  rw [faults, faults, hbefore, hafter, hreduced.node_eq, List.map_reverse]
  exact faultsOf_congr (fun start => faultsOf_build _ _ _ _ _ _ hsymbol)
    (fun start => stopOf_build ..) _

/-- The complete tree has the error nodes of what it is made of. -/
theorem Sound.faultsOf_accept (h : p.Sound g) (hg : g.Compiles s.table) (hcovers : Covers s token p)
    (haction : s.table.action p.state token.symbol = .accept) :
    faultsOf Extent.zero [(p.accept s).root] = p.faults := by
  obtain ⟨t, production, before, after, hstart⟩ := h.exists_accepted hg haction
  have hsymbol : t.isError = false := decide_eq_false hstart.known
  have hstartSymbol : s.table.startSymbol.isError = false := by
    rw [hg.startSymbol_eq, ← hstart.symbol]
    exact hsymbol
  have hcontent : p.content = before ++ [t] ++ after := by
    rw [← subtrees_flush, hstart.subtrees, List.append_assoc]
    rfl
  -- the node for the start symbol ends where its children end
  obtain ⟨text, piece, rest, -, hspells, -⟩ := hcovers
  rw [hcontent] at hspells
  obtain ⟨_, _, -, hspells, -⟩ := spellsAll_append.mp hspells
  obtain ⟨_, u, -, -, ht⟩ := spellsAll_append.mp hspells
  obtain ⟨v, w, rfl, ht, hnil⟩ := spellsAll_cons.mp ht
  have hfaults (start : Extent) : faultsOf start t.children = faultsOf start [t] := by
    rw [faultsOf_singleton, isFault, hsymbol]
    rfl
  have hstop (start : Extent) : stopOf start t.children = stopOf start [t] := by
    have hsize : stopOf Extent.zero t.children = t.size := by
      rw [ht.size_eq, ← Extent.of_nil, (ht.children hstart.isLeaf).stopOf_eq, List.nil_append]
    rw [← Extent.add_zero start, stopOf_add, hsize]
    rfl
  rw [Parser.accept, hstart.unwrapped, faults, hcontent]
  refine (faultsOf_build _ _ _ _ _ _ hstartSymbol).trans ?_
  rw [← List.append_assoc]
  exact faultsOf_congr hfaults hstop _

/-! ### Moves that add one -/

/-- An error node that is put on a stack comes behind the error nodes there. -/
theorem faults_of_error {stack : Stack} {generation parseState place : Nat} {scanner : ScannerState}
    (h : p.stack = Stack.pushIgnored stack (buildError generation ts parseState scanner) place) :
    p.faults = faultsOf Extent.zero (Stack.subtrees stack) ++
      ((buildError generation ts parseState scanner, stopOf Extent.zero (Stack.subtrees stack)) ::
        faultsOf (stopOf Extent.zero (Stack.subtrees stack)) (ts ++ p.pending.map (·.1))) := by
  rw [faults, content, h, Stack.pushIgnored, Stack.subtrees_cons, List.append_assoc, faultsOf_append,
    faultsOf_append, faultsOf_append, faultsOf_buildError, buildError, stopOf_build]
  rfl

/-- What is lost when entries are taken off the stack, with what waits then, begins with the entries
and what waited. -/
theorem exists_lost_append (s : Setting) (p : Parser) (r : Recovery) (q : Nat) : ∃ more,
    (((p.stack.take r.popped).reverse.map fun e => (e.subtree, e.start)) ++
        givenUp s q p.pending r.skipped).map (·.1) ++
      (if r.skipped.isEmpty then p.pending else r.resume.extras).map (·.1) =
    Stack.subtrees (p.stack.take r.popped) ++ p.pending.map (·.1) ++ more := by
  have htaken : ((p.stack.take r.popped).reverse.map fun e => (e.subtree, e.start)).map (·.1) =
      Stack.subtrees (p.stack.take r.popped) := by
    rw [List.map_map, List.map_reverse]
    rfl
  rw [List.map_append, htaken]
  cases r.skipped with
  | nil => exact ⟨[], by simp [givenUp]⟩
  | cons first rest =>
    rw [givenUp, List.map_append]
    exact ⟨_, (congrArg (· ++ _) (List.append_assoc ..).symm).trans (List.append_assoc ..)⟩

/-- Getting over an error makes an error node and keeps those that there are. -/
theorem faults_resume {r : Recovery} {symbol : Symbol}
    (h : popsFor? s.table p.stack r.skipped.length symbol = some r.popped) :
    p.faults ⊆ (resume s r p).2.faults ∧ (resume s r p).2.faults ≠ [] := by
  have hne := lost_ne_nil h (Stack.state (p.stack.drop r.popped))
  obtain ⟨more, hmore⟩ := exists_lost_append s p r (Stack.state (p.stack.drop r.popped))
  obtain ⟨⟨first, start⟩, rest, hlost⟩ := List.exists_cons_of_ne_nil hne
  have hstack : (resume s r p).2.stack = Stack.pushIgnored (p.stack.drop r.popped)
      (buildError s.generation (((first, start) :: rest).map (·.1))
        (Stack.state (p.stack.drop r.popped)) r.resume.token.scannerBefore) start := by
    rw [resume]
    dsimp only
    rw [hlost]
  have hsplit : Stack.subtrees p.stack = Stack.subtrees (p.stack.drop r.popped) ++
      Stack.subtrees (p.stack.take r.popped) := by
    rw [← Stack.subtrees_append, List.take_append_drop]
  have hpending : (resume s r p).2.pending =
      if r.skipped.isEmpty then p.pending else r.resume.extras := rfl
  rw [faults_of_error hstack, hpending, ← hlost, hmore, faults, content, hsplit, List.append_assoc,
    faultsOf_append, faultsOf_append _ (Stack.subtrees _ ++ _)]
  refine ⟨fun fault hfault => ?_, by simp⟩
  rcases List.mem_append.mp hfault with hfault | hfault
  · exact List.mem_append_left _ hfault
  · exact List.mem_append_right _ (List.mem_cons_of_mem _ (List.mem_append_left _ hfault))

/-- Giving up a token makes an error node of it, behind those that there are. -/
theorem faults_giveUpToken : (giveUpToken s p token).faults = p.faults ++
    [(buildError s.generation [s.leaf token p.flush.state p.flush.state true] p.flush.state
      token.scannerAfter, stopOf Extent.zero p.content)] := by
  have hstack : (giveUpToken s p token).stack = Stack.pushIgnored p.flush.stack
      (buildError s.generation [s.leaf token p.flush.state p.flush.state true] p.flush.state
        token.scannerAfter) token.start := rfl
  have hnone (start : Extent) : faultsOf start ([s.leaf token p.flush.state p.flush.state true] ++
      (giveUpToken s p token).pending.map (·.1)) = [] :=
    faultsOf_of_leaves fun t ht => List.mem_singleton.mp ht ▸ rfl
  rw [faults_of_error hstack, subtrees_flush, hnone]
  rfl

/-! ### Runs that need no recovery -/

section

variable (hg : g.Compiles s.table) (hfresh : s.reuse = none)
include hg hfresh

theorem Reaches.sound_of_fresh (h : Reaches s token p) : p.Sound g ∧ token.isExtra = false :=
  h.sound hg fun _ hr => nomatch hfresh.symm.trans hr

theorem Reaches.covers_of_fresh (h : Reaches s token p) : Covers s token p :=
  h.covers hg fun _ hr => nomatch hfresh.symm.trans hr

/-- No move loses an error node, and one is made where an error is met. -/
theorem Reaches.faults_subset (h : Reaches s token p)
    (hmove : Parser.step s p token = .more token' p') : p.faults ⊆ p'.faults ∧
      (s.table.action p.state token.symbol = .error → p'.faults ≠ []) := by
  have hcovers := h.covers_of_fresh hg hfresh
  have hread {q : Parser} {front back : List Char} (hspells : Spells s q front back) :
      (read s q).2.faults = q.faults := (hspells.reads hg.sparesEnd).faults_eq
  have hkind := move_step s p token
  rw [hmove] at hkind
  cases hkind with
  | @shift next action fresh =>
    have hend := hg.isEnd_of_shift action
    obtain ⟨front, back, hspells⟩ := hcovers.shift hend next
    rw [hread hspells, faults_shift]
    exact ⟨List.Subset.refl _, fun herror => nomatch action.symm.trans herror⟩
  | takeOver action reuse =>
    obtain ⟨r, oldStart, hreused⟩ := exists_of_toReuse reuse
    exact nomatch hfresh.symm.trans hreused.reuse
  | reduce action =>
    rw [(h.sound_of_fresh hg hfresh).1.faults_reduce hg action]
    exact ⟨List.Subset.refl _, fun herror => nomatch action.symm.trans herror⟩
  | @resume r p' action found =>
    obtain ⟨-, -, hpops⟩ := spec_of_findRecovery (P := fun _ => True) (fun _ => trivial) found
      (fun _ _ => trivial) trivial
    obtain ⟨hstack, hpending⟩ := stack_findRecovery found
    have hfaults : p'.faults = p.faults := by rw [faults, content, hstack, hpending]; rfl
    rw [← hstack] at hpops
    obtain ⟨hsubset, hne⟩ := faults_resume hpops
    exact ⟨hfaults ▸ hsubset, fun _ => hne⟩
  | giveUp action none isEnd =>
    obtain ⟨front, back, hspells⟩ := hcovers.giveUpToken isEnd
    rw [hread hspells, faults_giveUpToken]
    exact ⟨List.subset_append_left .., fun _ => by simp⟩

/-- **No error node is lost**: wherever a run gets to, those that there are come into the tree, and so
does one for an error that is met. -/
theorem Reaches.faults_subset_of_run (h : Reaches s token p) {fuel : Nat} {tree : SyntaxTree}
    (hrun : run s fuel token p = some tree) : p.faults ⊆ faultsOf Extent.zero [tree.root] ∧
      (s.table.action p.state token.symbol = .error → faultsOf Extent.zero [tree.root] ≠ []) := by
  induction fuel generalizing token p with
  | zero => cases hrun
  | succ fuel ih =>
    rw [run] at hrun
    split at hrun
    · rename_i made hdone
      obtain rfl := Option.some.inj hrun
      have hkind := move_step s p token
      rw [hdone] at hkind
      cases hkind with
      | accept action =>
        rw [(h.sound_of_fresh hg hfresh).1.faultsOf_accept hg (h.covers_of_fresh hg hfresh) action]
        refine ⟨List.Subset.refl _, fun herror => ?_⟩
        cases action.symm.trans herror
      | abandon action none isEnd =>
        change p.faults ⊆ faultsOf Extent.zero [buildError ..] ∧ (_ → faultsOf Extent.zero
          [buildError ..] ≠ [])
        rw [faultsOf_buildError, subtrees_flush]
        exact ⟨List.subset_cons_self .., fun _ => List.cons_ne_nil _ _⟩
    · rename_i token' p' hmove
      obtain ⟨hsubset, herror⟩ := h.faults_subset hg hfresh hmove
      obtain ⟨hrest, -⟩ := ih (h.step hmove) hrun
      exact ⟨List.Subset.trans hsubset hrest, fun haction hnil =>
        herror haction (List.subset_nil.mp (hnil ▸ hrest))⟩

/-- **A run that ends without errors finds something to do with every token.** -/
theorem Reaches.action_ne_error (h : Reaches s token p) {tree : SyntaxTree} (hyields : s.Yields tree)
    (hclean : tree.hasError = false) : s.table.action p.state token.symbol ≠ .error := by
  intro haction
  obtain ⟨fuel, hrun⟩ := h.exists_run hyields
  refine (h.faults_subset_of_run hg hfresh hrun).2 haction ?_
  obtain ⟨last, q, hreaches, hdone⟩ := hyields.exists_last
  obtain ⟨-, hderived, -⟩ := spec_of_done (hreaches.sound_of_fresh hg hfresh).1 hg hdone
  exact hderived.faultsOf_eq_nil hclean

end

end Parser

end LRWorkbench.Parsing
