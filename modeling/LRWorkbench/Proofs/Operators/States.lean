import LRWorkbench.Proofs.Lalr.Expected
import LRWorkbench.Proofs.Lalr.Rows
import LRWorkbench.Proofs.Operators.Expressions

/-!
# States for operators

The states for a grammar of operators complete one production at most (`HasOperators.eq_of_complete`),
and an operator is only shifted within its own production. So there are no conflicts but those
between an operator that is complete and the next one, which their levels and sides settle: all
rows of the table can be made (`HasOperators.exists_rows`).
-/

namespace LRWorkbench.Operators

open Lalr Augmented PreparedGrammar

/-- Whether a prepared grammar has the symbols and productions of operators. -/
structure HasOperators (g : PreparedGrammar) (ops : List Operator) : Prop where
  terminalCount : g.terminalCount = ops.length + 2
  phraseCount : g.nonTerminals.size = 1
  size : g.productions.size = ops.length + 1
  operators : ∀ i op, ops[i]? = some op → g.productions[i]? = some (operatorProduction ops op i)
  atoms : g.productions[ops.length]? = some (atomProduction ops)

/-- The grammar that is prepared from the operators has them. -/
theorem hasOperators_prepared (name : String) (ops : List Operator) (atom : AtomRule) :
    HasOperators (prepared name ops atom) ops where
  terminalCount := by simp [prepared, PreparedGrammar.terminalCount]
  phraseCount := rfl
  size := by simp [prepared, operatorProductions]
  operators := by
    intro i op hop
    have hlt := (List.getElem?_eq_some_iff.mp hop).choose
    have hlength : (operatorProductions ops ops 0).length = ops.length := by simp [operatorProductions]
    rw [prepared, List.getElem?_toArray, List.getElem?_append_left (by rwa [hlength]), operatorProductions,
      List.getElem?_map, List.getElem?_zipIdx, hop, Nat.zero_add]
    rfl
  atoms := by
    have hlength : (operatorProductions ops ops 0).length = ops.length := by simp [operatorProductions]
    rw [prepared, List.getElem?_toArray, List.getElem?_append_right (Nat.le_of_eq hlength), hlength,
      Nat.sub_self]
    rfl

/-- What follows a dot in the productions of operators. -/
inductive Next (ops : List Operator) : Item → Symbol → Prop where
  | left {i : Nat} (hi : i < ops.length) : Next ops ⟨i, 0⟩ (exprSymbol ops)
  | operator {i : Nat} (hi : i < ops.length) : Next ops ⟨i, 1⟩ (operatorSymbol i)
  | right {i : Nat} (hi : i < ops.length) : Next ops ⟨i, 2⟩ (exprSymbol ops)
  | atom : Next ops ⟨ops.length, 0⟩ (atomSymbol ops)
  | whole : Next ops ⟨ops.length + 1, 0⟩ (exprSymbol ops)

/-- The items with the dot at the end. -/
inductive Full (ops : List Operator) : Item → Prop where
  | operator {i : Nat} (hi : i < ops.length) : Full ops ⟨i, 3⟩
  | atom : Full ops ⟨ops.length, 1⟩
  | whole : Full ops ⟨ops.length + 1, 1⟩

namespace HasOperators

variable {g : PreparedGrammar} {ops : List Operator} (h : HasOperators g ops)
include h

theorem exprSymbol_eq : g.nonTerminalSymbol 0 = exprSymbol ops := by
  rw [nonTerminalSymbol, ← PreparedGrammar.terminalCount, h.terminalCount]
  rfl

/-- The production of the whole comes behind those of the operators and the atom. -/
theorem whole_eq : (augment g).whole = ops.length + 1 := h.size

/-- An operator stands between two expressions. -/
theorem symbolsOf_operator {i : Nat} (hi : i < ops.length) :
    (augment g).symbolsOf i = [exprSymbol ops, operatorSymbol i, exprSymbol ops] :=
  symbolsOf_augment (h.operators i _ (List.getElem?_eq_getElem hi))

theorem symbolsOf_atom : (augment g).symbolsOf ops.length = [atomSymbol ops] :=
  symbolsOf_augment h.atoms

theorem symbolsOf_whole : (augment g).symbolsOf (ops.length + 1) = [exprSymbol ops] := by
  rw [← h.whole_eq, Augmented.symbolsOf_whole, h.exprSymbol_eq]

/-- There are no further productions. -/
theorem symbolsOf_cases (p : Nat) : p < ops.length ∨ p = ops.length ∨ p = ops.length + 1 ∨
    (augment g).symbolsOf p = [] := by
  by_cases hp : p < ops.length + 2
  · omega
  · right; right; right
    rw [Augmented.symbolsOf, Array.getElem?_eq_none]
    · rfl
    · rw [size_rhs_augment, h.size]
      omega

/-- What stands behind the dot of an item is an expression, an operator, or the atom. -/
theorem next_iff {item : Item} {s : Symbol} : (augment g).next? item = some s ↔ Next ops item s := by
  obtain ⟨p, dot⟩ := item
  rw [Augmented.next?]
  constructor
  · intro hs
    dsimp only at hs
    rcases h.symbolsOf_cases p with hp | rfl | rfl | hp
    · rw [h.symbolsOf_operator hp] at hs
      have hdot := (List.getElem?_eq_some_iff.mp hs).choose
      rw [List.length_cons, List.length_cons, List.length_singleton] at hdot
      obtain rfl | rfl | rfl : dot = 0 ∨ dot = 1 ∨ dot = 2 := by omega
      · obtain rfl := Option.some.inj hs
        exact .left hp
      · obtain rfl := Option.some.inj hs
        exact .operator hp
      · obtain rfl := Option.some.inj hs
        exact .right hp
    · rw [h.symbolsOf_atom] at hs
      obtain rfl := Nat.lt_one_iff.mp (List.getElem?_eq_some_iff.mp hs).choose
      obtain rfl := Option.some.inj hs
      exact .atom
    · rw [h.symbolsOf_whole] at hs
      obtain rfl := Nat.lt_one_iff.mp (List.getElem?_eq_some_iff.mp hs).choose
      obtain rfl := Option.some.inj hs
      exact .whole
    · rw [hp] at hs
      cases hs
  · intro hs
    cases hs with
    | left hi | operator hi | right hi =>
      dsimp only
      rw [h.symbolsOf_operator hi]
      rfl
    | atom =>
      dsimp only
      rw [h.symbolsOf_atom]
      rfl
    | whole =>
      dsimp only
      rw [h.symbolsOf_whole]
      rfl

/-- Complete items have their dot behind all symbols. -/
theorem full_of_isComplete {q : Nat} {item : Item} (hitem : item ∈ g.itemsAt q)
    (hcomplete : (augment g).isComplete item = true) : Full ops item := by
  have hdot := dot_eq_of_isComplete hitem hcomplete
  have hlt := (hasItem_of_mem_itemsAt hitem).1
  rw [size_rhs_augment, h.size] at hlt
  obtain ⟨p, dot⟩ := item
  dsimp only at hdot hlt
  obtain hp | rfl | rfl : p < ops.length ∨ p = ops.length ∨ p = ops.length + 1 := by omega
  · rw [h.symbolsOf_operator hp] at hdot
    exact hdot ▸ .operator hp
  · rw [h.symbolsOf_atom] at hdot
    exact hdot ▸ .atom
  · rw [h.symbolsOf_whole] at hdot
    exact hdot ▸ .whole

theorem isComplete_of_full {item : Item} (hfull : Full ops item) :
    (augment g).isComplete item = true := by
  rw [Augmented.isComplete, Option.isNone_iff_eq_none, Augmented.next?]
  cases hfull with
  | operator hi =>
    dsimp only
    rw [h.symbolsOf_operator hi]
    rfl
  | atom =>
    dsimp only
    rw [h.symbolsOf_atom]
    rfl
  | whole =>
    dsimp only
    rw [h.symbolsOf_whole]
    rfl

/-! ### One complete item at most -/

/-- A dot that has moved went over the symbol that leads to the state. -/
theorem exists_next {q p dot : Nat} (hitem : ⟨p, dot + 1⟩ ∈ g.itemsAt q) {q' : Nat} {s : Symbol}
    (hleads : g.Leads q' s q) : Next ops ⟨p, dot⟩ s ∧ ⟨p, dot⟩ ∈ g.itemsAt q' := by
  obtain ⟨other, hother, hs, heq⟩ := hleads.retreat hitem (Nat.succ_ne_zero dot)
  obtain rfl : ⟨p, dot⟩ = other := by
    obtain ⟨p', dot'⟩ := other
    simpa [Item.advance] using heq
  exact ⟨h.next_iff.mp hs, hother⟩

/-- Two operators do not wait for their right operands in one state. -/
theorem eq_of_right {q i j : Nat} (hi : ⟨i, 2⟩ ∈ g.itemsAt q) (hj : ⟨j, 2⟩ ∈ g.itemsAt q) :
    i = j := by
  obtain ⟨q', s, hleads⟩ := exists_leads_of_dot_ne_zero hi (Nat.succ_ne_zero 1)
  obtain ⟨hs, -⟩ := h.exists_next hi hleads
  obtain ⟨hs', -⟩ := h.exists_next hj hleads
  cases hs
  cases hs'
  rfl

/-- The whole input does not begin where an operator waits for its right operand. -/
theorem not_whole_of_right {q i : Nat} (hi : ⟨i, 2⟩ ∈ g.itemsAt q) :
    ⟨ops.length + 1, 0⟩ ∉ g.itemsAt q := by
  obtain ⟨q', s, hleads⟩ := exists_leads_of_dot_ne_zero hi (Nat.succ_ne_zero 1)
  have hstart := hleads.startItem_not_mem
  rwa [Augmented.startItem, h.whole_eq] at hstart

/-- What follows a dot is one symbol. -/
theorem next_unique {item : Item} {s t : Symbol} (hs : Next ops item s) (ht : Next ops item t) :
    s = t :=
  Option.some.inj ((h.next_iff.mpr hs).symm.trans (h.next_iff.mpr ht))

omit h in
theorem atomSymbol_ne_exprSymbol : atomSymbol ops ≠ exprSymbol ops := fun heq =>
  Nat.succ_ne_self _ (congrArg Symbol.index heq).symm

/-- **A state completes one production at most.** -/
theorem eq_of_full {q : Nat} {a b : Item} (ha : a ∈ g.itemsAt q) (hb : b ∈ g.itemsAt q)
    (hfull : Full ops a) (hfull' : Full ops b) : a = b := by
  have hdot : a.dot ≠ 0 := by
    cases hfull <;> exact Nat.succ_ne_zero _
  obtain ⟨q', s, hleads⟩ := exists_leads_of_dot_ne_zero ha hdot
  cases hfull with
  | operator hi =>
    obtain ⟨hs, hright⟩ := h.exists_next ha hleads
    cases hs
    cases hfull' with
    | operator hj => rw [h.eq_of_right hright (h.exists_next hb hleads).2]
    | atom => exact absurd (h.next_unique .atom (h.exists_next hb hleads).1) atomSymbol_ne_exprSymbol
    | whole => exact absurd (h.exists_next hb hleads).2 (h.not_whole_of_right hright)
  | atom =>
    obtain ⟨hs, -⟩ := h.exists_next ha hleads
    obtain rfl := h.next_unique hs .atom
    cases hfull' with
    | operator hj =>
      have hs' := h.next_unique (h.exists_next hb hleads).1 (.right hj)
      exact absurd hs' atomSymbol_ne_exprSymbol
    | atom => rfl
    | whole =>
      exact absurd (h.next_unique (h.exists_next hb hleads).1 .whole) atomSymbol_ne_exprSymbol
  | whole =>
    obtain ⟨hs, hwhole⟩ := h.exists_next ha hleads
    obtain rfl := h.next_unique hs .whole
    cases hfull' with
    | operator hj =>
      exact absurd hwhole (h.not_whole_of_right (h.exists_next hb hleads).2)
    | atom => exact absurd (h.next_unique .atom (h.exists_next hb hleads).1) atomSymbol_ne_exprSymbol
    | whole => rfl

/-! ### Rows -/

section

variable {q : Nat} {state : State} (hstate : g.automaton.states[q]? = some state)
include hstate

/-- Items with the dot at the end are in kernels, so that there is each of them once. -/
theorem nodup_complete : ((g.itemsAt q).filter (augment g).isComplete).Nodup := by
  have hkernel := (linked_states hstate).1
  have hitems : g.itemsAt q =
      state.kernel ++ ((augment g).closureKinds state.kernel).flatMap (augment g).itemsOf := by
    rw [itemsAt, hkernel]
    rfl
  have hbegins : (((augment g).closureKinds state.kernel).flatMap (augment g).itemsOf).filter
      (augment g).isComplete = [] := by
    rw [List.filter_eq_nil_iff]
    intro item hitem hcomplete
    obtain ⟨kind, -, hkind⟩ := List.mem_flatMap.mp hitem
    have hfull := h.full_of_isComplete (hitems ▸ List.mem_append_right _ hitem) hcomplete
    have hdot := (mem_itemsOf hkind).1
    cases hfull <;> cases hdot
  rw [hitems, List.filter_append, hbegins, List.append_nil]
  refine List.Nodup.filter _ ((isKernel_kernelAt hkernel).ordered.imp ?_)
  rintro a _ hlt rfl
  exact Std.Irrefl.irrefl a hlt

/-- On each terminal one production is complete at most. -/
theorem completedOn_cases (s : Symbol) : g.automaton.completedOn q s = [] ∨
    ∃ item set, (item, set) ∈ g.automaton.closureOf q ∧ Full ops item ∧ set.contains s = true ∧
      g.automaton.completedOn q s = [item.production] := by
  have hnodup : (((g.automaton.complete (g.automaton.closureOf q)).filter
      fun entry => entry.2.contains s).map (·.1)).Nodup := by
    have hsublist : List.Sublist (((g.automaton.complete (g.automaton.closureOf q)).filter
        fun entry => entry.2.contains s).map (·.1)) ((g.itemsAt q).filter (augment g).isComplete) := by
      rw [← map_fst_closureOf hstate, List.filter_map]
      exact List.filter_sublist.map _
    exact (h.nodup_complete hstate).sublist hsublist
  have hmem : ∀ entry ∈ (g.automaton.complete (g.automaton.closureOf q)).filter
      (fun entry => entry.2.contains s), entry ∈ g.automaton.closureOf q ∧
        Full ops entry.1 ∧ entry.1 ∈ g.itemsAt q ∧ entry.2.contains s = true := by
    intro entry hentry
    obtain ⟨hentry, hset⟩ := List.mem_filter.mp hentry
    obtain ⟨hentry, hcomplete⟩ := List.mem_filter.mp hentry
    have hitem := mem_itemsAt hstate hentry
    exact ⟨hentry, h.full_of_isComplete hitem hcomplete, hitem, hset⟩
  rw [Automaton.completedOn]
  generalize (g.automaton.complete (g.automaton.closureOf q)).filter
    (fun entry => entry.2.contains s) = entries at hnodup hmem ⊢
  cases entries with
  | nil => exact .inl rfl
  | cons first rest =>
    right
    cases rest with
    | nil =>
      obtain ⟨hentry, hfull, -, hset⟩ := hmem first (List.mem_singleton_self _)
      exact ⟨first.1, first.2, hentry, hfull, hset, rfl⟩
    | cons second rest =>
      -- they would be the same item
      obtain ⟨-, hfull, hitem, -⟩ := hmem first (List.mem_cons_self ..)
      obtain ⟨-, hfull', hitem', -⟩ := hmem second (List.mem_cons_of_mem _ (List.mem_cons_self ..))
      rw [List.map_cons, List.nodup_cons] at hnodup
      refine absurd ?_ hnodup.1
      rw [h.eq_of_full hitem hitem' hfull hfull']
      exact List.mem_cons_self ..

end

omit h in
/-- No dot stands before the end of the input. -/
theorem not_next_end {item : Item} : ¬Next ops item .endOfInput := by
  generalize hs : Symbol.endOfInput = s
  intro hnext
  cases hnext <;> exact Nat.succ_ne_zero _ (congrArg Symbol.index hs).symm

omit h in
/-- An atom is next only at the start of the production for it. -/
theorem eq_of_next_atom {item : Item} (hnext : Next ops item (atomSymbol ops)) :
    item = ⟨ops.length, 0⟩ := by
  generalize hs : atomSymbol ops = s at hnext
  cases hnext with
  | left | right | whole => exact absurd hs atomSymbol_ne_exprSymbol
  | operator hi => exact absurd (Nat.succ.inj (congrArg Symbol.index hs)) (Nat.ne_of_gt hi)
  | atom => rfl

omit h in
/-- An operator is next only behind the first expression of its production. -/
theorem eq_of_next_operator {i : Nat} (hi : i < ops.length) {item : Item}
    (hnext : Next ops item (operatorSymbol i)) : item = ⟨i, 1⟩ := by
  have hne : ∀ k, ops.length + k = i → False := by omega
  generalize hs : operatorSymbol i = s at hnext
  cases hnext with
  | operator hj => rw [Nat.succ.inj (congrArg Symbol.index hs)]
  | left | right | whole =>
    exact absurd (Nat.succ.inj (congrArg Symbol.index hs)).symm (hne 1)
  | atom => exact absurd (Nat.succ.inj (congrArg Symbol.index hs)).symm (hne 0)

/-- Nothing comes after an atom before it is an expression. -/
theorem itemsAt_of_atom {q : Nat} (hatom : ⟨ops.length, 1⟩ ∈ g.itemsAt q) {item : Item}
    (hitem : item ∈ g.itemsAt q) : item = ⟨ops.length, 1⟩ := by
  obtain ⟨kernel, hkernel, -⟩ := mem_kernel_of_dot_ne_zero hatom Nat.one_ne_zero
  obtain ⟨q', s, hleads⟩ := exists_leads_of_dot_ne_zero hatom Nat.one_ne_zero
  obtain rfl := h.next_unique (h.exists_next hatom hleads).1 .atom
  have hitems : g.itemsAt q = (augment g).closure kernel := by
    rw [itemsAt, hkernel]
    rfl
  have hall : ∀ item ∈ kernel, item = ⟨ops.length, 1⟩ := by
    intro item hmem
    have hmem' : item ∈ g.itemsAt q := hitems ▸ mem_closure_of_mem hmem
    have hdot : item.dot ≠ 0 := by
      rcases (isKernel_kernelAt hkernel).moved with rfl | hmoved
      · exact absurd (hitems ▸ mem_closure_of_mem (List.mem_singleton_self _)) hleads.startItem_not_mem
      · exact hmoved item hmem
    obtain ⟨p, dot⟩ := item
    obtain ⟨dot, rfl⟩ := Nat.exists_eq_succ_of_ne_zero hdot
    cases eq_of_next_atom (h.exists_next hmem' hleads).1
    rfl
  -- so the kernel is all there is
  have hkinds : (augment g).closureKinds kernel = [] := by
    have hroots : kernel.filterMap (augment g).nextKind? = [] := by
      rw [List.filterMap_eq_nil_iff]
      intro item hmem
      rw [hall item hmem, nextKind?,
        Option.isNone_iff_eq_none.mp (h.isComplete_of_full .atom)]
      rfl
    rw [closureKinds, hroots, Graph.reachFrom]
    cases (augment g).grammar.nonTerminals.size <;> rfl
  rw [hitems, Augmented.closure, hkinds] at hitem
  exact hall item (by simpa using hitem)

/-- Behind an atom there is nothing to go on with. -/
theorem not_mem_transitions {q : Nat} {state : State} (hstate : g.automaton.states[q]? = some state)
    (hatom : ⟨ops.length, 1⟩ ∈ g.itemsAt q) {s : Symbol} {r : Nat} :
    (s, r) ∉ state.transitions := by
  intro hr
  obtain ⟨item, hitem, hs⟩ := (Leads.of_transition hstate hr).exists_item
  rw [h.itemsAt_of_atom hatom hitem] at hs
  have hcomplete := h.isComplete_of_full .atom
  rw [Augmented.isComplete, hs] at hcomplete
  cases hcomplete

/-! ### Decisions -/

section

variable {i : Nat} {op : Operator} (hop : ops[i]? = some op)
include hop

/-- The production of an operator has the level and the side of the operator. -/
theorem levelOf_eq : g.automaton.levelOf i = op.level := by
  have hrule : g.automaton.grammar.productions[i]? = some (operatorProduction ops op i) := h.operators i op hop
  rw [Automaton.levelOf, hrule]
  rfl

theorem assocOf_eq : g.automaton.assocOf i = some op.side := by
  have hrule : g.automaton.grammar.productions[i]? = some (operatorProduction ops op i) := h.operators i op hop
  rw [Automaton.assocOf, hrule]
  rfl

theorem shiftLevel_eq : g.automaton.shiftLevel ⟨i, 1⟩ = op.level := by
  have hrule : g.automaton.grammar.productions[i]? = some (operatorProduction ops op i) := h.operators i op hop
  rw [Automaton.shiftLevel, hrule]
  rfl

/-- An operator that has its operands is reduced if it comes first. -/
theorem shiftReduce_eq (q : Nat) (s : Symbol) (items : List Item) :
    g.automaton.shiftReduce q s items i =
      .ok (if comesFirst op (highest (items.map g.automaton.shiftLevel)) then .reduce
        else .shift) := by
  rw [Automaton.shiftReduce, h.levelOf_eq hop, h.assocOf_eq hop]
  generalize highest (items.map g.automaton.shiftLevel) = level
  rcases lt_trichotomy level op.level with hlt | rfl | hgt
  · simp [comesFirst, hlt]
  · cases hside : op.side <;> simp [comesFirst, hside]
  · simp [comesFirst, hgt, hgt.not_gt, hgt.ne']

/-- A conflict between an operator behind and one ahead is resolved by their levels, and by the side
if these are the same. -/
theorem decide_operator (q : Nat) (s : Symbol) (target : Nat) (items : List Item) :
    g.automaton.decide q s (some target) items [i] =
      .ok (if comesFirst op (highest (items.map g.automaton.shiftLevel)) then (.reduce i, 1)
        else (.shift target, 1)) := by
  have hwhole : i ≠ g.automaton.augmented.whole := by
    have hlt := (List.getElem?_eq_some_iff.mp hop).choose
    have hwhole : g.automaton.augmented.whole = ops.length + 1 := h.whole_eq
    omega
  rw [Automaton.decide]
  simp only [List.isEmpty_cons, Bool.false_eq_true, if_false, bind, Except.bind, pure, Except.pure,
    if_neg hwhole, h.shiftReduce_eq hop]
  split <;> simp_all

end

/-- Where nothing is to be shifted there is no conflict. -/
theorem decide_reduce {p : Nat} (hp : p < ops.length + 1) (q : Nat) (s : Symbol)
    (items : List Item) : g.automaton.decide q s none items [p] = .ok (.reduce p, 0) := by
  have hwhole : g.automaton.augmented.whole = ops.length + 1 := h.whole_eq
  have hne : p ≠ g.automaton.augmented.whole := hwhole ▸ Nat.ne_of_lt hp
  change (if p = g.automaton.augmented.whole then Except.ok (Action.accept, 0)
    else Except.ok (Action.reduce p, 0)) = _
  rw [if_neg hne]

/-- The whole is accepted. -/
theorem decide_whole (q : Nat) (s : Symbol) (target? : Option Nat) (items : List Item) :
    g.automaton.decide q s target? items [ops.length + 1] = .ok (.accept, 0) := by
  have hwhole : g.automaton.augmented.whole = ops.length + 1 := h.whole_eq
  rw [← hwhole]
  change (if g.automaton.augmented.whole = g.automaton.augmented.whole then
    Except.ok (Action.accept, 0) else _) = _
  rw [if_pos rfl]

/-- All decisions can be made. -/
theorem exists_decide {q : Nat} {state : State} (hstate : g.automaton.states[q]? = some state)
    (s : Symbol) {target? : Option Nat} (items : List Item)
    (htarget : ∀ r, target? = some r → (s, r) ∈ state.transitions) :
    ∃ cell, g.automaton.decide q s target? items (g.automaton.completedOn q s) = .ok cell := by
  rcases h.completedOn_cases hstate s with hnil | ⟨item, set, hentry, hfull, -, hone⟩
  · rw [hnil]
    exact ⟨_, rfl⟩
  rw [hone]
  have hitem := mem_itemsAt hstate hentry
  cases hfull with
  | operator hi =>
    have hop := List.getElem?_eq_getElem hi
    cases target? with
    | none => exact ⟨_, h.decide_reduce (Nat.lt_succ_of_lt hi) q s items⟩
    | some target => exact ⟨_, h.decide_operator hop q s target items⟩
  | atom =>
    cases target? with
    | none => exact ⟨_, h.decide_reduce (Nat.lt_succ_self _) q s items⟩
    | some target => exact absurd (htarget target rfl) (h.not_mem_transitions hstate hitem)
  | whole => exact ⟨_, h.decide_whole q s target? items⟩

/-- **All rows can be made.** -/
theorem exists_rows : ∃ rows, g.automaton.rows = .ok rows :=
  Automaton.exists_rows fun _ _ hstate s _ items htarget =>
    h.exists_decide hstate s items htarget

end HasOperators

end LRWorkbench.Operators
