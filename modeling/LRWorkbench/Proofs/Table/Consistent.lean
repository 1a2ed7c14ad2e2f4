import LRWorkbench.Table.Basic

/-!
# What consistency means

The check of a table goes through its parts one after the other. `ParseTable.isConsistent` says
what is known of a table that passed it.
-/

namespace LRWorkbench

/-- Whether the numbers of a table fit together. -/
structure TableParts.Consistent (t : TableParts) : Prop where
  terminalCount_pos : 0 < t.terminalCount
  terminalCount_lt : t.terminalCount < t.symbols.size
  stateCount_pos : 0 < t.stateCount
  symbols : ∀ place info, t.symbols[place]? = some info → t.symbolFault? place info = none
  size_actions : t.actions.size = t.stateCount * t.terminalCount
  size_gotos : t.gotos.size = t.stateCount * t.nonTerminalCount
  actions : ∀ a ∈ t.actions, t.actionFault? a = none
  gotos : ∀ q ∈ t.gotos, t.gotoFault? q = none
  productions : ∀ p ∈ t.productions, t.productionFault? p = none
  patterns : ∀ s ∈ t.lex.patternSymbols, t.patternFault? s = none

theorem ParseTable.isConsistent {A : Type} [ByteAutomaton A] (t : ParseTable A) : t.parts.Consistent := by
  have h := t.consistent
  simp only [TableParts.fault?] at h
  split at h
  · cases h
  rename_i hterminals
  split at h
  · cases h
  split at h
  · cases h
  rename_i hstates
  obtain ⟨hsymbolFaults, h⟩ := Option.or_eq_none_iff.mp h
  split at h
  · cases h
  rename_i hactions
  split at h
  · cases h
  rename_i hgotos
  obtain ⟨hactionFaults, h⟩ := Option.or_eq_none_iff.mp h
  obtain ⟨hgotoFaults, h⟩ := Option.or_eq_none_iff.mp h
  obtain ⟨hproductionFaults, h⟩ := Option.or_eq_none_iff.mp h
  split at h
  · cases h
  simp only [Bool.or_eq_true, decide_eq_true_eq, not_or, Nat.not_le] at hterminals
  exact {
    terminalCount_pos := Nat.pos_of_ne_zero hterminals.1
    terminalCount_lt := hterminals.2
    stateCount_pos := Nat.pos_of_ne_zero hstates
    symbols := fun place info hinfo =>
      List.findSome?_eq_none_iff.mp hsymbolFaults (info, place)
        (List.mem_zipIdx_iff_getElem?.mpr (by rwa [Array.getElem?_toList]))
    size_actions := Decidable.not_not.mp hactions
    size_gotos := Decidable.not_not.mp hgotos
    actions := fun a ha =>
      List.findSome?_eq_none_iff.mp hactionFaults a (Array.mem_toList_iff.mpr ha)
    gotos := fun q hq =>
      List.findSome?_eq_none_iff.mp hgotoFaults q (Array.mem_toList_iff.mpr hq)
    productions := fun p hp =>
      List.findSome?_eq_none_iff.mp hproductionFaults p (Array.mem_toList_iff.mpr hp)
    patterns := List.findSome?_eq_none_iff.mp h }

namespace ParseTable

variable {A : Type} [ByteAutomaton A] {t : ParseTable A} {state next production : Nat} {s : Symbol}

theorem actionFault?_action (t : ParseTable A) (state : Nat) (s : Symbol) :
    t.parts.actionFault? (t.action state s) = none := by
  rw [action]
  split
  · cases hat : t.parts.actions[state * t.parts.terminalCount + s.index]? with
    | none => rfl
    | some a => exact t.isConsistent.actions a (Array.mem_of_getElem? hat)
  · rfl

/-- Shifts lead to states of the table. -/
theorem lt_of_action_shift (h : t.action state s = .shift next) : next < t.parts.stateCount := by
  have hfault := t.actionFault?_action state s
  rw [h, TableParts.actionFault?] at hfault
  split at hfault
  · assumption
  · cases hfault

/-- Reductions are by productions of the table. -/
theorem lt_of_action_reduce (h : t.action state s = .reduce production) :
    production < t.parts.productions.size := by
  have hfault := t.actionFault?_action state s
  rw [h, TableParts.actionFault?] at hfault
  split at hfault
  · assumption
  · cases hfault

theorem isTerminal_of_action_shift (h : t.action state s = .shift next) : t.isTerminal s = true := by
  rw [action] at h
  split at h
  · assumption
  · cases h

/-- Phrases lead to states of the table. -/
theorem lt_of_goto? (h : t.goto? state s = some next) : next < t.parts.stateCount := by
  rw [goto?] at h
  split at h
  · cases h
  · have hfault := t.isConsistent.gotos _ (Array.mem_of_getElem? (Option.join_eq_some_iff.mp h))
    rw [TableParts.gotoFault?] at hfault
    split at hfault
    · assumption
    · cases hfault

end ParseTable

end LRWorkbench
