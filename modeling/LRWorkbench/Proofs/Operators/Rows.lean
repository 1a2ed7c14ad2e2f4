import LRWorkbench.Proofs.Operators.States

/-!
# What the rows say about operators

An expression stands for the whole input or for the right operand of an operator. Where one may
begin, atoms are shifted and then reduced (`Opens.atom`), and its phrase leads to a state that has
it (`Opens.exists_goto`). There the next operator is shifted (`Holds.shift`), unless the expression
is the right operand of an operator that comes first, which is then reduced (`Holds.reduce`).
-/

namespace LRWorkbench.Operators

open Lalr Augmented PreparedGrammar

/-- Whether a terminal may follow an expression: it is an operator or the end of the input. -/
def Follows (ops : List Operator) (s : Symbol) : Prop :=
  s = .endOfInput ∨ ∃ i < ops.length, s = operatorSymbol i

/-- The item with the dot before an expression: the whole input, or the right operand of the
operator at a place. -/
def slotItem (ops : List Operator) : Option Nat → Item
  | none => ⟨ops.length + 1, 0⟩
  | some i => ⟨i, 2⟩

/-- What follows the production that an expression is the last step of. -/
def FollowsSlot (ops : List Operator) : Option Nat → Symbol → Prop
  | none, s => s = .endOfInput
  | some _, s => Follows ops s

/-- Whether an expression may begin in a state, as the whole input or a right operand. -/
structure Opens (g : PreparedGrammar) (ops : List Operator) (q : Nat) (slot : Option Nat) : Prop where
  known : ∀ i, slot = some i → i < ops.length
  slot : ∀ s, FollowsSlot ops slot s → g.Expects q (slotItem ops slot) s
  begins : ∀ p ≤ ops.length, ∀ s, Follows ops s → g.Expects q ⟨p, 0⟩ s

/-- Whether a state has an expression, as the whole input or a right operand. -/
structure Holds (g : PreparedGrammar) (ops : List Operator) (q : Nat) (slot : Option Nat) : Prop where
  known : ∀ i, slot = some i → i < ops.length
  slot : ∀ s, FollowsSlot ops slot s → g.Expects q (slotItem ops slot).advance s
  left : ∀ i < ops.length, ∀ s, Follows ops s → g.Expects q ⟨i, 1⟩ s

/-- What is done when nothing follows an expression. -/
def closing : Option Nat → Action
  | none => .accept
  | some i => .reduce i

theorem highest_eq {levels : List Int} {level : Int} (hne : levels ≠ [])
    (hall : ∀ l ∈ levels, l = level) : highest levels = level := by
  obtain ⟨top, htop⟩ := Option.ne_none_iff_exists'.mp (mt List.max?_eq_none_iff.mp hne)
  rw [highest, htop]
  exact hall top (List.max?_mem htop)

namespace HasOperators

variable {g : PreparedGrammar} {ops : List Operator} (h : HasOperators g ops)
include h

theorem lhs_lt : ∀ p ∈ g.productions, p.lhs < g.nonTerminals.size := by
  intro rule hrule
  obtain ⟨p, hp, rfl⟩ := Array.mem_iff_getElem.mp hrule
  have hrule := Array.getElem?_eq_getElem hp
  rw [h.phraseCount]
  obtain hlt | rfl : p < ops.length ∨ p = ops.length := by
    have hsize := h.size
    omega
  · rw [h.operators p _ (List.getElem?_eq_getElem hlt)] at hrule
    rw [← Option.some.inj hrule]
    exact Nat.zero_lt_one
  · rw [h.atoms] at hrule
    rw [← Option.some.inj hrule]
    exact Nat.zero_lt_one

theorem terminalCount_pos : 0 < g.terminalCount := by
  rw [h.terminalCount]
  exact Nat.succ_pos _

theorem isTerminal_of_follows {s : Symbol} (hs : Follows ops s) : g.isTerminal s = true := by
  refine decide_eq_true ?_
  have hcount := h.terminalCount
  rw [PreparedGrammar.terminalCount] at hcount
  obtain rfl | ⟨i, hi, rfl⟩ := hs
  · exact hcount ▸ Nat.succ_pos _
  · rw [hcount]
    exact Nat.succ_lt_succ (Nat.lt_succ_of_lt hi)

theorem isTerminal_atom : g.isTerminal (atomSymbol ops) = true := by
  have hcount := h.terminalCount
  rw [PreparedGrammar.terminalCount] at hcount
  exact decide_eq_true (hcount ▸ Nat.lt_succ_self _)

/-- The production of an expression, of an operator or of atoms. -/
theorem exists_production {p : Nat} (hp : p ≤ ops.length) :
    ∃ rule, g.productions[p]? = some rule ∧ rule.lhs = 0 := by
  rcases Nat.lt_or_eq_of_le hp with hlt | rfl
  · exact ⟨_, h.operators p _ (List.getElem?_eq_getElem hlt), rfl⟩
  · exact ⟨_, h.atoms, rfl⟩

/-! ### Beginnings -/

theorem derives_expr : g.Derives (exprSymbol ops) [atomSymbol ops] := by
  rw [← h.exprSymbol_eq]
  exact .phrase h.atoms (.cons (.terminal h.isTerminal_atom) .nil)

theorem nextKind?_eq {item : Item} (hnext : Next ops item (exprSymbol ops)) :
    (augment g).nextKind? item = some 0 := by
  rw [nextKind?, h.next_iff.mpr hnext]
  exact nonTerminalIndex?_eq_some.mpr h.exprSymbol_eq.symm

/-- Where an expression comes next and nothing after it, all productions begin, with what follows
it expected after them. -/
theorem begins_of_last {q : Nat} {item : Item} {s : Symbol} (hexpects : g.Expects q item s)
    (hnext : Next ops item (exprSymbol ops)) (hlast : (augment g).afterNext item = [])
    {p : Nat} (hp : p ≤ ops.length) : g.Expects q ⟨p, 0⟩ s := by
  obtain ⟨rule, hrule, hlhs⟩ := h.exists_production hp
  have hrest : g.DerivesAll ((augment g).afterNext item) [] := by
    rw [hlast]
    exact .nil
  exact hexpects.begins hrule (hlhs ▸ h.nextKind?_eq hnext) hrest rfl

/-- Before anything is read, the whole input begins. -/
theorem opens_start : Opens g ops 0 none where
  known := fun i hi => by cases hi
  slot := by
    rintro s rfl
    have hstart := expects_start h.lhs_lt h.terminalCount_pos
    rwa [startItem, h.whole_eq] at hstart
  begins := by
    have hstart := expects_start h.lhs_lt h.terminalCount_pos
    have hlast : (augment g).afterNext (augment g).startItem = [] := by
      rw [afterNext, startItem, h.whole_eq, h.symbolsOf_whole]
      rfl
    have hnext : Next ops (augment g).startItem (exprSymbol ops) := by
      rw [startItem, h.whole_eq]
      exact .whole
    intro p hp s hs
    obtain rfl | ⟨i, hi, rfl⟩ := hs
    · exact h.begins_of_last hstart hnext hlast hp
    · -- an expression may be the left operand of an operator
      have hleft := h.begins_of_last hstart hnext hlast (Nat.le_of_lt hi)
      obtain ⟨rule, hrule, hlhs⟩ := h.exists_production hp
      have hterminal := h.isTerminal_of_follows (.inr ⟨i, hi, rfl⟩)
      have hrest : g.DerivesAll ((augment g).afterNext ⟨i, 0⟩)
          ([operatorSymbol i] ++ ([atomSymbol ops] ++ [])) := by
        rw [afterNext, h.symbolsOf_operator hi]
        exact .cons (.terminal hterminal) (.cons h.derives_expr .nil)
      exact hleft.begins hrule (hlhs ▸ h.nextKind?_eq (.left hi)) hrest rfl

/-- After an operator, its right operand begins. -/
theorem opens_right {q i : Nat} (hi : i < ops.length)
    (hexpects : ∀ s, Follows ops s → g.Expects q ⟨i, 2⟩ s) : Opens g ops q (some i) where
  known := fun j hj => Option.some.inj hj ▸ hi
  slot := hexpects
  begins := by
    intro p hp s hs
    refine h.begins_of_last (hexpects s hs) (.right hi) ?_ hp
    rw [afterNext, h.symbolsOf_operator hi]
    rfl

end HasOperators

/-! ### Actions -/

section

variable {g : PreparedGrammar} {ops : List Operator} (h : HasOperators g ops)
include h

namespace HasOperators

theorem exists_transition {q : Nat} {item : Item} {s t : Symbol} (hexpects : g.Expects q item s)
    (hnext : Next ops item t) :
    ∃ state r, g.automaton.states[q]? = some state ∧ (t, r) ∈ state.transitions := by
  obtain ⟨state, r, hstate, hr, -⟩ :=
    hexpects.advance h.lhs_lt h.terminalCount_pos (h.next_iff.mpr hnext)
  exact ⟨state, r, hstate, hr⟩

/-- What is expected stays so over a step, in the one state that it leads to. -/
theorem expects_advance {q r : Nat} {state : State} {item : Item} {s t : Symbol}
    (hstate : g.automaton.states[q]? = some state) (hr : (t, r) ∈ state.transitions)
    (hexpects : g.Expects q item s) (hnext : Next ops item t) : g.Expects r item.advance s := by
  obtain ⟨state', r', hstate', hr', hadvance⟩ :=
    hexpects.advance h.lhs_lt h.terminalCount_pos (h.next_iff.mpr hnext)
  obtain rfl := Option.some.inj (hstate.symm.trans hstate')
  obtain rfl := Option.some.inj
    (((transition?_eq_some hstate).mpr hr).symm.trans ((transition?_eq_some hstate).mpr hr'))
  exact hadvance

/-- A production that is complete on a terminal is the only one. -/
theorem completedOn_eq {q : Nat} {state : State} (hstate : g.automaton.states[q]? = some state)
    {item : Item} {s : Symbol} (hexpects : g.Expects q item s) (hfull : Full ops item) :
    g.automaton.completedOn q s = [item.production] := by
  obtain ⟨set, hentry, hset⟩ := hexpects.exists_mem_closureOf h.lhs_lt h.terminalCount_pos
  have hmem : item.production ∈ g.automaton.completedOn q s :=
    Automaton.mem_completedOn.mpr ⟨_, hentry, rfl, h.isComplete_of_full hfull, hset⟩
  rcases h.completedOn_cases hstate s with hnil | ⟨other, -, -, -, -, hone⟩
  · rw [hnil] at hmem
    cases hmem
  · rw [hone] at hmem ⊢
    rw [List.mem_singleton.mp hmem]

/-- The items that shift an operator are at its level. -/
theorem highest_shiftingOn {q : Nat} {state : State}
    (hstate : g.automaton.states[q]? = some state) {j : Nat} {op : Operator}
    (hop : ops[j]? = some op) (hitem : ⟨j, 1⟩ ∈ g.itemsAt q) :
    highest ((g.automaton.shiftingOn q (operatorSymbol j)).map g.automaton.shiftLevel) =
      op.level := by
  have hj := (List.getElem?_eq_some_iff.mp hop).choose
  have hall : ∀ item ∈ g.automaton.shiftingOn q (operatorSymbol j), item = ⟨j, 1⟩ := by
    intro item hmem
    obtain ⟨-, hnext, -⟩ := Automaton.mem_shiftingOn.mp hmem
    exact eq_of_next_operator hj (h.next_iff.mp hnext)
  have hmem : ⟨j, 1⟩ ∈ g.automaton.shiftingOn q (operatorSymbol j) := by
    refine Automaton.mem_shiftingOn.mpr ⟨?_, h.next_iff.mpr (.operator hj),
      h.isTerminal_of_follows (.inr ⟨j, hj, rfl⟩)⟩
    rwa [map_fst_closureOf hstate]
  refine highest_eq (List.ne_nil_of_mem (List.mem_map_of_mem hmem)) fun level hlevel => ?_
  obtain ⟨item, hitem, rfl⟩ := List.mem_map.mp hlevel
  rw [hall item hitem, h.shiftLevel_eq hop]

end HasOperators

variable {rows : Rows} (hrows : g.automaton.rows = .ok rows)
include hrows

namespace HasOperators

omit h in
/-- Where nothing is complete, a terminal is shifted. -/
theorem action_shift {q r : Nat} {state : State} {s : Symbol}
    (hstate : g.automaton.states[q]? = some state) (hs : g.isTerminal s = true)
    (hr : (s, r) ∈ state.transitions) (hnil : g.automaton.completedOn q s = []) :
    rows.action g q s = .shift r := by
  obtain ⟨target?, items, count, hdecide, -, htarget, hnone⟩ :=
    Rows.decide_action hrows hstate hs (.inl ⟨r, hr⟩)
  rw [hnil] at hdecide
  have htransition := (transition?_eq_some hstate).mpr hr
  cases target? with
  | none => exact absurd ((hnone rfl).symm.trans htransition) (by simp)
  | some target =>
    have heq := htransition.symm.trans ((transition?_eq_some hstate).mpr (htarget target rfl).1)
    rw [← Option.some.inj heq] at hdecide
    exact (congrArg Prod.fst (Except.ok.inj hdecide)).symm

/-- What is complete on a terminal is up against the shift of the terminal, if there is one. -/
theorem decide_full {q : Nat} {item : Item} {s : Symbol} (hexpects : g.Expects q item s)
    (hfull : Full ops item) :
    ∃ state target? items count, g.automaton.states[q]? = some state ∧
      g.automaton.decide q s target? items [item.production] = .ok (rows.action g q s, count) ∧
      (∀ r, target? = some r → (s, r) ∈ state.transitions ∧ items = g.automaton.shiftingOn q s) ∧
      (target? = none → state.transition? s = none) := by
  obtain ⟨state, -, -, -, hstate, -, -, -⟩ := hexpects.exists_kernel h.lhs_lt
  have hone := h.completedOn_eq hstate hexpects hfull
  have hs : g.isTerminal s = true :=
    decide_eq_true (hexpects.index_lt h.lhs_lt h.terminalCount_pos)
  obtain ⟨target?, items, count, hdecide, -, htarget, hnone⟩ :=
    Rows.decide_action hrows hstate hs (.inr (hone ▸ List.cons_ne_nil _ _))
  exact ⟨state, target?, items, count, hstate, hone ▸ hdecide, htarget, hnone⟩

/-- An atom is reduced. -/
theorem action_atom {q : Nat} {s : Symbol} (hexpects : g.Expects q ⟨ops.length, 1⟩ s) :
    rows.action g q s = .reduce ops.length := by
  obtain ⟨state, target?, items, count, hstate, hdecide, htarget, -⟩ :=
    h.decide_full hrows hexpects .atom
  have hitem := hexpects.mem_itemsAt h.lhs_lt h.terminalCount_pos
  cases target? with
  | none =>
    rw [h.decide_reduce (Nat.lt_succ_self _)] at hdecide
    exact (congrArg Prod.fst (Except.ok.inj hdecide)).symm
  | some target => exact absurd (htarget target rfl).1 (h.not_mem_transitions hstate hitem)

/-- The whole input is accepted. -/
theorem action_whole {q : Nat} {s : Symbol} (hexpects : g.Expects q ⟨ops.length + 1, 1⟩ s) :
    rows.action g q s = .accept := by
  obtain ⟨state, target?, items, count, -, hdecide, -, -⟩ := h.decide_full hrows hexpects .whole
  rw [h.decide_whole] at hdecide
  exact (congrArg Prod.fst (Except.ok.inj hdecide)).symm

/-- An operator that has its operands is reduced at the end of the input. -/
theorem action_end {q i : Nat} (hi : i < ops.length) (hexpects : g.Expects q ⟨i, 3⟩ .endOfInput) :
    rows.action g q .endOfInput = .reduce i := by
  obtain ⟨state, target?, items, count, hstate, hdecide, htarget, -⟩ :=
    h.decide_full hrows hexpects (.operator hi)
  cases target? with
  | none =>
    rw [h.decide_reduce (Nat.lt_succ_of_lt hi)] at hdecide
    exact (congrArg Prod.fst (Except.ok.inj hdecide)).symm
  | some target =>
    obtain ⟨item, -, hnext⟩ := (Leads.of_transition hstate (htarget target rfl).1).exists_item
    exact absurd (h.next_iff.mp hnext) not_next_end

/-- An operator that has its operands is reduced before another one if it comes first; otherwise
the other one is shifted. -/
theorem action_operator {q r i j : Nat} {op op' : Operator} {state : State}
    (hstate : g.automaton.states[q]? = some state) (hop : ops[i]? = some op)
    (hop' : ops[j]? = some op') (hexpects : g.Expects q ⟨i, 3⟩ (operatorSymbol j))
    (hitem : ⟨j, 1⟩ ∈ g.itemsAt q) (hr : (operatorSymbol j, r) ∈ state.transitions) :
    rows.action g q (operatorSymbol j) =
      if comesFirst op op'.level then .reduce i else .shift r := by
  have hi := (List.getElem?_eq_some_iff.mp hop).choose
  obtain ⟨state', target?, items, count, hstate', hdecide, htarget, hnone⟩ :=
    h.decide_full hrows hexpects (.operator hi)
  obtain rfl := Option.some.inj (hstate.symm.trans hstate')
  have htransition := (transition?_eq_some hstate).mpr hr
  cases target? with
  | none => exact absurd ((hnone rfl).symm.trans htransition) (by simp)
  | some target =>
    obtain ⟨hleads, rfl⟩ := htarget target rfl
    obtain rfl := Option.some.inj
      (htransition.symm.trans ((transition?_eq_some hstate).mpr hleads))
    rw [h.decide_operator hop, h.highest_shiftingOn hstate hop' hitem] at hdecide
    exact (congrArg Prod.fst (Except.ok.inj hdecide)).symm.trans (apply_ite Prod.fst ..)

end HasOperators

/-! ### Expressions -/

section

variable {q : Nat} {slot : Option Nat} (hopens : Opens g ops q slot)
include hopens

omit h hrows in
theorem Opens.next : Next ops (slotItem ops slot) (exprSymbol ops) := by
  cases slot with
  | none => exact .whole
  | some i => exact .right (hopens.known i rfl)

omit hrows in
/-- Nothing is complete where an expression begins. -/
theorem Opens.completedOn_eq {state : State} (hstate : g.automaton.states[q]? = some state)
    (s : Symbol) : g.automaton.completedOn q s = [] := by
  rcases h.completedOn_cases hstate s with hnil | ⟨item, set, hentry, hfull, -, -⟩
  · exact hnil
  exfalso
  have hitem := mem_itemsAt hstate hentry
  have hdot : item.dot ≠ 0 := by
    cases hfull <;> exact Nat.succ_ne_zero _
  obtain ⟨q', t, hleads⟩ := exists_leads_of_dot_ne_zero hitem hdot
  cases slot with
  | none =>
    -- nothing leads to where the whole input begins
    have hstart := (hopens.slot .endOfInput rfl).mem_itemsAt h.lhs_lt h.terminalCount_pos
    refine hleads.startItem_not_mem ?_
    rwa [startItem, h.whole_eq]
  | some i =>
    -- only the operator leads to where its right operand begins
    have hi := hopens.known i rfl
    have hright := (hopens.slot .endOfInput (.inl rfl)).mem_itemsAt h.lhs_lt h.terminalCount_pos
    obtain rfl := h.next_unique (h.exists_next hright hleads).1 (.operator hi)
    cases hfull <;>
      cases HasOperators.eq_of_next_operator hi (h.exists_next hitem hleads).1

/-- An atom is shifted where an expression begins, and then reduced. -/
theorem Opens.atom : ∃ r, rows.action g q (atomSymbol ops) = .shift r ∧
    ∀ s, Follows ops s → rows.action g r s = .reduce ops.length := by
  have hbegins := hopens.begins ops.length (Nat.le_refl _)
  obtain ⟨state, r, hstate, hr⟩ := h.exists_transition (hbegins .endOfInput (.inl rfl)) .atom
  refine ⟨r, HasOperators.action_shift hrows hstate h.isTerminal_atom hr
    (hopens.completedOn_eq h hstate _), fun s hs => ?_⟩
  exact h.action_atom hrows (h.expects_advance hstate hr (hbegins s hs) .atom)

/-- The phrase of an expression leads to a state that has it. -/
theorem Opens.exists_goto : ∃ r, rows.goto? g q 0 = some r ∧ Holds g ops r slot := by
  obtain ⟨t, ht⟩ : ∃ t, FollowsSlot ops slot t := by
    cases slot with
    | none => exact ⟨.endOfInput, rfl⟩
    | some i => exact ⟨.endOfInput, .inl rfl⟩
  obtain ⟨state, r, hstate, hr⟩ := h.exists_transition (hopens.slot t ht) hopens.next
  refine ⟨r, ?_, hopens.known, fun s hs => ?_, fun i hi s hs => ?_⟩
  · refine Rows.goto?_eq_some hrows ?_ hstate (h.exprSymbol_eq ▸ hr)
    rw [h.phraseCount]
    exact Nat.zero_lt_one
  · exact h.expects_advance hstate hr (hopens.slot s hs) hopens.next
  · exact h.expects_advance hstate hr (hopens.begins i (Nat.le_of_lt hi) s hs) (.left hi)

end

section

variable {q : Nat}

/-- An operator is shifted after the left operand that the whole input begins with. -/
theorem Holds.shift_of_whole (hholds : Holds g ops q none) {j : Nat} (hj : j < ops.length) :
    ∃ r, rows.action g q (operatorSymbol j) = .shift r ∧ Opens g ops r (some j) := by
  have hleft := hholds.left j hj
  obtain ⟨state, r, hstate, hr⟩ := h.exists_transition (hleft .endOfInput (.inl rfl)) (.operator hj)
  have hs : g.isTerminal (operatorSymbol j) = true := h.isTerminal_of_follows (.inr ⟨j, hj, rfl⟩)
  refine ⟨r, HasOperators.action_shift hrows hstate hs hr ?_, h.opens_right hj fun s hs =>
    h.expects_advance hstate hr (hleft s hs) (.operator hj)⟩
  rcases h.completedOn_cases hstate (operatorSymbol j) with hnil | ⟨item, set, hentry, hfull, hset, -⟩
  · exact hnil
  -- the whole input is complete at its end only
  have hwhole := (hholds.slot .endOfInput rfl).mem_itemsAt h.lhs_lt h.terminalCount_pos
  obtain rfl := h.eq_of_full (mem_itemsAt hstate hentry) hwhole hfull .whole
  have hend := eq_end_of_mem_closureOf hentry h.whole_eq.symm hset
  exact absurd (congrArg Symbol.index hend) (Nat.succ_ne_zero _)

/-- After a right operand the next operator is shifted, unless the one before it comes first. -/
theorem Holds.shift_of_right {i j : Nat} {op op' : Operator} (hholds : Holds g ops q (some i))
    (hop : ops[i]? = some op) (hop' : ops[j]? = some op') :
    ∃ r, rows.action g q (operatorSymbol j) =
        (if comesFirst op op'.level then .reduce i else .shift r) ∧ Opens g ops r (some j) := by
  have hj := (List.getElem?_eq_some_iff.mp hop').choose
  have hleft := hholds.left j hj
  obtain ⟨state, r, hstate, hr⟩ := h.exists_transition (hleft .endOfInput (.inl rfl)) (.operator hj)
  have hitem := (hleft .endOfInput (.inl rfl)).mem_itemsAt h.lhs_lt h.terminalCount_pos
  exact ⟨r, h.action_operator hrows hstate hop hop' (hholds.slot _ (.inr ⟨j, hj, rfl⟩)) hitem hr,
    h.opens_right hj fun s hs => h.expects_advance hstate hr (hleft s hs) (.operator hj)⟩

/-- At the end of the input, the whole input is accepted and operators with both operands are
reduced. -/
theorem Holds.action_end {slot : Option Nat} (hholds : Holds g ops q slot) :
    rows.action g q .endOfInput = closing slot := by
  cases slot with
  | none => exact h.action_whole hrows (hholds.slot .endOfInput rfl)
  | some i =>
    exact h.action_end hrows (hholds.known i rfl) (hholds.slot .endOfInput (.inl rfl))

end

end

end LRWorkbench.Operators
