import LRWorkbench.Proofs.Lalr.Lookahead
import LRWorkbench.Proofs.Lalr.Path
import LRWorkbench.Proofs.Lalr.Resolution
import LRWorkbench.Proofs.Prepared.WellFormed
import Mathlib.Algebra.Order.BigOperators.Group.List
import Mathlib.Algebra.Order.Monoid.Canonical.Defs
import Mathlib.Algebra.Order.Ring.Nat

/-!
# Rows follow the items of their states

What the rows of a grammar say is justified by the items of the state:

* a shift and a goto lead where the symbol leads (`Rows.leads_of_shift`, `Rows.leads_of_goto`);
* a production is reduced, or the input accepted, where it is complete (`Rows.complete_of_reduce`,
  `Rows.complete_of_accept`);
* a phrase that may begin in a state has a goto there (`Rows.exists_goto`).

Where no conflict was decided, no move got lost: a terminal that leads somewhere is shifted
(`Rows.action_eq_shift`), and what an item completes on a terminal is reduced or accepted
(`Rows.action_of_complete`).
-/

namespace LRWorkbench

open PreparedGrammar Lalr Lalr.Augmented

theorem PreparedGrammar.WellFormed.terminalCount_pos {g : PreparedGrammar} (h : g.WellFormed) :
    0 < g.terminalCount := by
  obtain ⟨t, ht, -⟩ := Option.map_eq_some_iff.mp h.first
  exact (Array.getElem?_eq_some_iff.mp ht).choose

/-- No transition goes over the end of the input. -/
theorem PreparedGrammar.WellFormed.ne_end_of_leads {g : PreparedGrammar} (h : g.WellFormed)
    {q r : Nat} {s : Symbol} (hleads : g.Leads q s r) : s ≠ .endOfInput := by
  obtain ⟨item, hitem, hs⟩ := hleads.exists_item
  have hlt := (hasItem_of_mem_itemsAt hitem).1
  rw [size_rhs_augment] at hlt
  have hmem := List.mem_of_getElem? hs
  by_cases hwhole : item.production = g.productions.size
  · have hsymbols : (augment g).symbolsOf item.production = [g.nonTerminalSymbol 0] := by
      rw [hwhole]
      exact symbolsOf_whole
    rw [hsymbols, List.mem_singleton] at hmem
    rw [hmem]
    exact fun heq => Nat.ne_of_gt h.terminalCount_pos (congrArg Symbol.index heq)
  · obtain ⟨rule, hrule⟩ : ∃ rule, g.productions[item.production]? = some rule :=
      ⟨_, Array.getElem?_eq_getElem (by omega)⟩
    rw [symbolsOf_augment hrule] at hmem
    obtain ⟨step, hstep, rfl⟩ := List.mem_map.mp hmem
    exact h.steps rule (Array.mem_of_getElem? hrule) step hstep

namespace Lalr.Rows

/-- What to do in a state on a terminal. -/
def action (rows : Rows) (g : PreparedGrammar) (q : Nat) (s : Symbol) : Action :=
  if g.isTerminal s then rows.actions[q * g.terminalCount + s.index]?.getD .error else .error

/-- Where a phrase kind leads from a state. -/
def goto? (rows : Rows) (g : PreparedGrammar) (q kind : Nat) : Option Nat :=
  (rows.gotos[q * g.nonTerminals.size + kind]?).join

variable {g : PreparedGrammar} {rows : Rows} {q r p : Nat} {s : Symbol}

/-- A place in the rows is in the row of one of the states. -/
theorem exists_state {width i size : Nat} (hsize : size = g.automaton.states.size * width)
    (hlt : q * width + i < size) : ∃ state, g.automaton.states[q]? = some state := by
  have hq : q < g.automaton.states.size := Nat.lt_of_mul_lt_mul_right (a := width) (by omega)
  exact ⟨_, Array.getElem?_eq_getElem hq⟩

variable (h : g.automaton.rows = .ok rows)
include h

/-! ### Actions -/

/-- An action that is no error is in the row of its state. -/
theorem exists_cells {action : Action} (haction : rows.action g q s = action)
    (hne : action ≠ .error) : g.isTerminal s ∧ ∃ state cells,
      g.automaton.states[q]? = some state ∧ g.automaton.cells q state = .ok cells ∧
      (g.automaton.actionRow cells)[s.index]? = some action := by
  rw [Rows.action] at haction
  split at haction
  · rename_i hs
    have hcell : rows.actions[q * g.terminalCount + s.index]? = some action := by
      cases hfound : rows.actions[q * g.terminalCount + s.index]? with
      | none =>
        rw [hfound] at haction
        exact absurd haction.symm hne
      | some found =>
        rw [hfound] at haction
        exact congrArg some haction
    obtain ⟨state, hstate⟩ := exists_state (Automaton.size_of_rows h).1
      (Array.getElem?_eq_some_iff.mp hcell).choose
    obtain ⟨⟨cells, hcells, hrow⟩, -⟩ := Automaton.rows_spec h hstate
    exact ⟨hs, state, cells, hstate, hcells, (hrow _ (of_decide_eq_true hs)).symm.trans hcell⟩
  · exact absurd haction.symm hne

/-- Every action but an error is called for by the items of the state. -/
theorem justified {action : Action} (haction : rows.action g q s = action)
    (hne : action ≠ .error) : g.isTerminal s ∧ ∃ state, g.automaton.states[q]? = some state ∧
      g.automaton.Justified q state s action := by
  obtain ⟨hs, state, cells, hstate, hcells, hcell⟩ := exists_cells h haction hne
  refine ⟨hs, state, hstate, ?_⟩
  rcases Automaton.exists_of_actionRow hcell with herror | ⟨count, hmem⟩
  · exact absurd herror hne
  · exact Automaton.justified_of_mem_cells hcells hmem

/-- A terminal that is shifted leads to the state that the parser goes to. -/
theorem leads_of_shift (haction : rows.action g q s = .shift r) :
    g.isTerminal s ∧ g.Leads q s r := by
  obtain ⟨hs, state, hstate, hjustified⟩ := justified h haction (by simp)
  exact ⟨hs, .of_transition hstate hjustified⟩

/-- A production that is reduced is complete in the state. -/
theorem complete_of_reduce (haction : rows.action g q s = .reduce p) :
    ∃ rule, g.productions[p]? = some rule ∧ ⟨p, rule.symbols.length⟩ ∈ g.itemsAt q := by
  obtain ⟨-, state, hstate, hwhole, ⟨item, set⟩, hentry, rfl, hcomplete, -⟩ :=
    justified h haction (by simp)
  have hitem : item ∈ g.itemsAt q := mem_itemsAt hstate hentry
  dsimp only at hwhole hcomplete ⊢
  have hlt := (hasItem_of_mem_itemsAt hitem).1
  have hne : item.production ≠ g.productions.size := hwhole
  rw [size_rhs_augment] at hlt
  obtain ⟨rule, hrule⟩ : ∃ rule, g.productions[item.production]? = some rule :=
    ⟨_, Array.getElem?_eq_getElem (by omega)⟩
  refine ⟨_, hrule, ?_⟩
  have hdot := dot_eq_of_isComplete hitem hcomplete
  rw [symbolsOf_augment hrule] at hdot
  rw [← hdot]
  exact hitem

/-- The input is accepted where it is complete, and at its end only. -/
theorem complete_of_accept (haction : rows.action g q s = .accept) :
    ⟨(augment g).whole, 1⟩ ∈ g.itemsAt q ∧ s = .endOfInput := by
  obtain ⟨-, state, hstate, ⟨item, set⟩, hentry, hwhole, hcomplete, hset⟩ :=
    justified h haction (by simp)
  refine ⟨?_, eq_end_of_mem_closureOf hentry hwhole hset⟩
  have hitem : item ∈ g.itemsAt q := mem_itemsAt hstate hentry
  have hdot := dot_eq_of_isComplete hitem hcomplete
  have hwhole' : item.production = (augment g).whole := hwhole
  rw [hwhole', symbolsOf_whole] at hdot
  have heq : item = ⟨(augment g).whole, 1⟩ := by
    rw [← hwhole']
    cases item
    exact congrArg _ hdot
  exact heq ▸ hitem

/-! ### Gotos -/

/-- Where a phrase leads is told by a transition. -/
theorem exists_transition_of_goto {kind : Nat} (hkind : kind < g.nonTerminals.size)
    (hgoto : rows.goto? g q kind = some r) : ∃ state, g.automaton.states[q]? = some state ∧
      (g.nonTerminalSymbol kind, r) ∈ state.transitions := by
  have hcell := Option.join_eq_some_iff.mp hgoto
  obtain ⟨state, hstate⟩ := exists_state (Automaton.size_of_rows h).2
    (Array.getElem?_eq_some_iff.mp hcell).choose
  obtain ⟨-, hrow⟩ := Automaton.rows_spec h hstate
  obtain ⟨s, hs, hindex⟩ := Automaton.exists_of_gotoRow ((hrow kind hkind).symm.trans hcell)
  obtain rfl := nonTerminalIndex?_eq_some.mp hindex
  exact ⟨state, hstate, hs⟩

/-- A phrase leads to the state that the parser goes to. -/
theorem leads_of_goto {kind : Nat} (hkind : kind < g.nonTerminals.size)
    (hgoto : rows.goto? g q kind = some r) : g.Leads q (g.nonTerminalSymbol kind) r := by
  obtain ⟨state, hstate, hmem⟩ := exists_transition_of_goto h hkind hgoto
  exact .of_transition hstate hmem

/-- A phrase that leads somewhere has a goto to there. -/
theorem goto?_eq_some {kind : Nat} (hkind : kind < g.nonTerminals.size) {state : State}
    (hstate : g.automaton.states[q]? = some state)
    (hmem : (g.nonTerminalSymbol kind, r) ∈ state.transitions) :
    rows.goto? g q kind = some r := by
  obtain ⟨-, hrow⟩ := Automaton.rows_spec h hstate
  obtain ⟨r', hr'⟩ := Automaton.exists_gotoRow (m := g.automaton) hmem
    (nonTerminalIndex?_eq_some.mpr rfl) hkind
  have hgoto : rows.goto? g q kind = some r' :=
    congrArg Option.join ((hrow kind hkind).trans hr')
  obtain ⟨state', hstate', hmem'⟩ := exists_transition_of_goto h hkind hgoto
  obtain rfl := Option.some.inj (hstate.symm.trans hstate')
  rw [hgoto, ← (transition?_eq_some hstate).mpr hmem', (transition?_eq_some hstate).mpr hmem]

/-- A phrase that may come next in a state has a goto there. -/
theorem exists_goto {item : Item} (hitem : item ∈ g.itemsAt q) {kind : Nat}
    (hnext : (augment g).nextKind? item = some kind) (hkind : kind < g.nonTerminals.size) :
    ∃ r, rows.goto? g q kind = some r := by
  obtain ⟨state, hstate⟩ := exists_kernelAt hitem
  obtain ⟨s, hs, hindex⟩ := Option.bind_eq_some_iff.mp hnext
  obtain ⟨r, hr⟩ := exists_transition hstate hitem hs
  obtain rfl := nonTerminalIndex?_eq_some.mp hindex
  exact ⟨r, goto?_eq_some h hkind hstate hr⟩

end Lalr.Rows

end LRWorkbench

namespace LRWorkbench.Lalr

/-! ### Tables without conflicts -/

namespace Automaton

variable {m : Automaton} {place : Nat} {state : State} {s : Symbol}
  {cells : List (Symbol × Action × Nat)}

/-- A decision without a conflict: there is one move at most. -/
theorem undisputed_of_decide {target? : Option Nat} {items : List Item} {productions : List Nat}
    {action : Action} (h : m.decide place s target? items productions = .ok (action, 0)) :
    (productions = [] ∧ action = (target?.map Action.shift).getD .error) ∨
      ∃ p, productions = [p] ∧ (p = m.augmented.whole ∧ action = .accept ∨
        p ≠ m.augmented.whole ∧ target? = none ∧ action = .reduce p) := by
  obtain ⟨hnil, hcell⟩ | ⟨p, count, -, hone, ⟨hwhole, hcell⟩ | ⟨hwhole, ⟨hnone, hcell⟩ |
    ⟨target, -, hcell | hcell⟩⟩⟩ := decide_cases h
  · exact .inl ⟨hnil, congrArg Prod.fst hcell⟩
  · obtain ⟨rfl, rfl⟩ := Prod.mk.inj hcell
    exact .inr ⟨p, hone rfl, .inl ⟨hwhole, rfl⟩⟩
  · obtain ⟨rfl, rfl⟩ := Prod.mk.inj hcell
    exact .inr ⟨p, hone rfl, .inr ⟨hwhole, hnone, rfl⟩⟩
  · exact absurd (congrArg Prod.snd hcell) (Nat.succ_ne_zero count).symm
  · exact absurd (congrArg Prod.snd hcell) (Nat.succ_ne_zero count).symm

theorem transition?_eq_none (h : ∀ r, (s, r) ∉ state.transitions) : state.transition? s = none := by
  rw [State.transition?, Option.map_eq_none_iff, List.find?_eq_none]
  rintro ⟨t, r⟩ ht heq
  obtain rfl : t = s := of_decide_eq_true heq
  exact h r ht

/-- Every terminal that leads somewhere or completes something has a cell. -/
theorem exists_mem_cells (h : m.cells place state = .ok cells) (hs : m.grammar.isTerminal s)
    (hmove : (∃ r, (s, r) ∈ state.transitions) ∨ m.completedOn place s ≠ []) :
    ∃ cell, (s, cell) ∈ cells := by
  rw [Automaton.cells] at h
  obtain ⟨shifted, hshifted, h⟩ := bind_eq_ok.mp h
  obtain ⟨reduced, hreduced, h⟩ := bind_eq_ok.mp h
  cases h
  by_cases hr : ∃ r, (s, r) ∈ state.transitions
  · obtain ⟨r, hr⟩ := hr
    obtain ⟨made, hmade, hdecide⟩ := exists_mem_of_mapM hshifted
      (List.mem_filter.mpr ⟨hr, hs⟩)
    obtain ⟨cell, -, heq⟩ := bind_eq_ok.mp hdecide
    cases heq
    exact ⟨cell, List.mem_append_left _ hmade⟩
  · have hcompleted := hmove.resolve_left hr
    have hother : s ∈ ((List.range m.grammar.terminalCount).map Symbol.mk).filter fun s =>
        (state.transition? s).isNone && !(m.completedOn place s).isEmpty := by
      refine List.mem_filter.mpr ⟨List.mem_map.mpr ⟨s.index, ?_, rfl⟩, ?_⟩
      · exact List.mem_range.mpr (of_decide_eq_true hs)
      · rw [transition?_eq_none (not_exists.mp hr)]
        simpa using hcompleted
    obtain ⟨made, hmade, hdecide⟩ := exists_mem_of_mapM hreduced hother
    obtain ⟨cell, -, heq⟩ := bind_eq_ok.mp hdecide
    cases heq
    exact ⟨cell, List.mem_append_right _ hmade⟩

/-- The row has one of the cells of a terminal. -/
theorem exists_actionRow (m : Automaton) (hs : m.grammar.isTerminal s) (h : ∃ cell, (s, cell) ∈ cells) :
    ∃ cell, (s, cell) ∈ cells ∧ (m.actionRow cells)[s.index]? = some cell.1 := by
  obtain ⟨cell, hcell⟩ := h
  have hlt : s.index < (Array.replicate m.grammar.terminalCount Action.error).size := by
    rw [Array.size_replicate]
    exact of_decide_eq_true hs
  obtain ⟨⟨t, found⟩, ht, hindex, hrow⟩ | ⟨hnone, -⟩ := @exists_foldl_setIfInBounds _ _ cells
    (fun cell => cell.1.index) (fun cell => cell.2.1) _ _ hlt
  · obtain rfl : t = s := congrArg Symbol.mk hindex
    exact ⟨found, ht, hrow⟩
  · exact absurd rfl (hnone _ hcell)

/-- The count over some cells is at least that of each. -/
theorem le_foldl_count (count : Nat) (cells : List (Symbol × Action × Nat)) :
    count ≤ cells.foldl (fun n cell => n + cell.2.2) count ∧
      ∀ cell ∈ cells, cell.2.2 ≤ cells.foldl (fun n cell => n + cell.2.2) count := by
  induction cells generalizing count with
  | nil => exact ⟨Nat.le_refl _, fun cell hcell => absurd hcell List.not_mem_nil⟩
  | cons first cells ih =>
    rw [List.foldl_cons]
    obtain ⟨hle, hrest⟩ := ih (count + first.2.2)
    refine ⟨Nat.le_trans (Nat.le_add_right ..) hle, fun cell hcell => ?_⟩
    rcases List.mem_cons.mp hcell with rfl | hcell
    · exact Nat.le_trans (Nat.le_add_left ..) hle
    · exact hrest cell hcell

/-- Where no conflict was decided, no cell has one. -/
theorem count_of_addRows {rows out : Rows} {rest : List (State × Nat)}
    (h : m.addRows rows rest = .ok out) : rows.resolved ≤ out.resolved ∧
      ∀ entry ∈ rest, ∀ cells, m.cells entry.2 entry.1 = .ok cells →
        ∀ cell ∈ cells, cell.2.2 ≤ out.resolved := by
  induction rest generalizing rows with
  | nil =>
    cases h
    exact ⟨Nat.le_refl _, fun entry hentry => absurd hentry List.not_mem_nil⟩
  | cons first rest ih =>
    rw [addRows] at h
    obtain ⟨cells, hcells, h⟩ := bind_eq_ok.mp h
    obtain ⟨hle, hrest⟩ := ih h
    obtain ⟨hbefore, hcell⟩ := le_foldl_count rows.resolved cells
    refine ⟨Nat.le_trans hbefore hle, fun entry hentry cells' hcells' cell hmem => ?_⟩
    rcases List.mem_cons.mp hentry with rfl | hentry
    · obtain rfl := Except.ok.inj (hcells.symm.trans hcells')
      exact Nat.le_trans (hcell cell hmem) hle
    · exact hrest entry hentry cells' hcells' cell hmem

end Automaton

namespace Rows

open PreparedGrammar Augmented

variable {g : PreparedGrammar} {rows : Rows} {q r p : Nat} {s : Symbol} {state : State}
  (h : g.automaton.rows = .ok rows) (hresolved : rows.resolved = 0)
  (hstate : g.automaton.states[q]? = some state) (hs : g.isTerminal s)

include h hstate hs in
/-- The action on a terminal that leads somewhere or completes something is decided by the items of
the state. -/
theorem decide_action
    (hmove : (∃ r, (s, r) ∈ state.transitions) ∨ g.automaton.completedOn q s ≠ []) :
    ∃ target? items count,
      g.automaton.decide q s target? items (g.automaton.completedOn q s) =
        .ok (rows.action g q s, count) ∧ count ≤ rows.resolved ∧
      (∀ r, target? = some r → (s, r) ∈ state.transitions ∧
        items = g.automaton.shiftingOn q s) ∧
      (target? = none → state.transition? s = none) := by
  obtain ⟨⟨cells, hcells, hrow⟩, -⟩ := Automaton.rows_spec h hstate
  obtain ⟨⟨action, count⟩, hcell, haction⟩ :=
    g.automaton.exists_actionRow hs (Automaton.exists_mem_cells hcells hs hmove)
  have hcount : count ≤ rows.resolved := by
    obtain ⟨-, hle⟩ := Automaton.count_of_addRows h
    have hentry : (state, q) ∈ g.automaton.states.toList.zipIdx :=
      List.mem_zipIdx_iff_getElem?.mpr (by simpa using hstate)
    exact hle _ hentry cells hcells _ hcell
  have heq : rows.action g q s = action := by
    rw [Rows.action, if_pos hs]
    exact congrArg (·.getD .error) ((hrow _ (of_decide_eq_true hs)).trans haction)
  obtain ⟨target?, items, hdecide, htarget, hnone⟩ := Automaton.decide_of_mem_cells hcells hcell
  exact ⟨target?, items, count, heq ▸ hdecide, hcount, htarget, hnone⟩

include h hresolved hstate hs

/-- A terminal that leads somewhere is shifted. -/
theorem action_eq_shift (hg : g.WellFormed) (hr : (s, r) ∈ state.transitions) :
    rows.action g q s = .shift r := by
  obtain ⟨target?, items, count, hdecide, hcount, htarget, hnone⟩ :=
    decide_action h hstate hs (.inl ⟨r, hr⟩)
  obtain rfl : count = 0 := Nat.le_zero.mp (hresolved ▸ hcount)
  have htransition := (transition?_eq_some hstate).mpr hr
  cases target? with
  | none => exact absurd (htransition.symm.trans (hnone rfl)) (by simp)
  | some target =>
    obtain rfl : r = target := Option.some.inj
      (htransition.symm.trans ((transition?_eq_some hstate).mpr (htarget target rfl).1))
    obtain ⟨-, haction⟩ | ⟨p, hp, ⟨hwhole, -⟩ | ⟨-, hnone, -⟩⟩ :=
      Automaton.undisputed_of_decide hdecide
    · exact haction
    · -- the whole input is complete at its end only
      have hmem : p ∈ g.automaton.completedOn q s := hp ▸ List.mem_singleton_self p
      obtain ⟨⟨item, set⟩, hentry, hitem, -, hset⟩ := Automaton.mem_completedOn.mp hmem
      have hend := eq_end_of_mem_closureOf hentry (hitem.trans hwhole) hset
      exact absurd hend (hg.ne_end_of_leads (.of_transition hstate hr))
    · cases hnone

/-- What is complete on a terminal is reduced, or accepted if it is the whole input. -/
theorem action_of_complete {item : Item} {set : TerminalSet}
    (hitem : (item, set) ∈ g.automaton.closureOf q) (hcomplete : (augment g).isComplete item)
    (hset : set.contains s) :
    item.production = (augment g).whole ∧ rows.action g q s = .accept ∨
      item.production ≠ (augment g).whole ∧ rows.action g q s = .reduce item.production := by
  have hmem : item.production ∈ g.automaton.completedOn q s :=
    Automaton.mem_completedOn.mpr ⟨_, hitem, rfl, hcomplete, hset⟩
  obtain ⟨target?, items, count, hdecide, hcount, -, -⟩ :=
    decide_action h hstate hs (.inr (List.ne_nil_of_mem hmem))
  obtain rfl : count = 0 := Nat.le_zero.mp (hresolved ▸ hcount)
  obtain ⟨hnil, -⟩ | ⟨p, hp, hmove⟩ := Automaton.undisputed_of_decide hdecide
  · rw [hnil] at hmem
    cases hmem
  · rw [hp] at hmem
    obtain rfl := List.mem_singleton.mp hmem
    exact hmove.imp id fun ⟨hne, _, haction⟩ => ⟨hne, haction⟩

end Rows

end LRWorkbench.Lalr
