import LRWorkbench.Lalr.Resolution
import LRWorkbench.Proofs.Except

/-!
# Conflicts leave justified actions

However a conflict is decided, the winner is one of the moves that the items of the state call for:
it is shifted over a transition, or a production that is complete is reduced
(`Automaton.justified_of_mem_cells`). Nothing else gets into the rows of the table
(`Automaton.exists_of_actionRow`, `Automaton.exists_of_gotoRow`).
-/

namespace LRWorkbench.Lalr

namespace Automaton

variable {m : Automaton} {place : Nat} {terminal : Symbol} {items : List Item}
  {productions : List Nat}

/-- The production that wins among complete ones is one of those of the highest level. -/
theorem mem_top_of_reduceReduce {p : Nat} (h : m.reduceReduce place terminal productions = .ok p) :
    p ∈ productions.filter fun p => m.levelOf p = highest (productions.map m.levelOf) := by
  rw [reduceReduce] at h
  split at h
  · rename_i single htop
    obtain rfl := Except.ok.inj h
    exact htop ▸ List.mem_singleton_self single
  · split at h
    · split at h
      · rename_i first hmin
        obtain rfl := Except.ok.inj h
        exact List.min?_mem hmin
      · cases h
    · cases h

/-- Of several complete productions one of them is left, whatever decides between them. -/
theorem mem_of_reduceReduce {p : Nat}
    (h : m.reduceReduce place terminal productions = .ok p) : p ∈ productions :=
  (List.mem_filter.mp (mem_top_of_reduceReduce h)).1

/-- What a decision between one complete production and the shift may be. -/
theorem decide_one_cases {target? : Option Nat} {cell : Action × Nat} {p count : Nat}
    (h : (if p = m.augmented.whole then pure (Action.accept, count)
      else
        match target? with
        | none => pure (Action.reduce p, count)
        | some target => do
          match ← m.shiftReduce place terminal items p with
          | .shift => pure (Action.shift target, count + 1)
          | .reduce => pure (Action.reduce p, count + 1)) = .ok cell) :
    p = m.augmented.whole ∧ cell = (.accept, count) ∨
      p ≠ m.augmented.whole ∧ (target? = none ∧ cell = (.reduce p, count) ∨
        ∃ target, target? = some target ∧
          (cell = (.shift target, count + 1) ∨ cell = (.reduce p, count + 1))) := by
  split at h
  · rename_i hwhole
    cases h
    exact .inl ⟨hwhole, rfl⟩
  rename_i hwhole
  refine .inr ⟨hwhole, ?_⟩
  cases target? with
  | none =>
    cases h
    exact .inl ⟨rfl, rfl⟩
  | some target =>
    obtain ⟨winner, -, h⟩ := bind_eq_ok.mp h
    refine .inr ⟨target, rfl, ?_⟩
    cases winner with
    | shift =>
      cases h
      exact .inl rfl
    | reduce =>
      cases h
      exact .inr rfl

/-- What a decision may be. If productions are complete, one of them is up against the shift; it is
the only one unless that was decided too. -/
theorem decide_cases {target? : Option Nat} {cell : Action × Nat}
    (h : m.decide place terminal target? items productions = .ok cell) :
    (productions = [] ∧ cell = ((target?.map Action.shift).getD .error, 0)) ∨
      ∃ p count, p ∈ productions ∧ (count = 0 → productions = [p]) ∧
        (p = m.augmented.whole ∧ cell = (.accept, count) ∨
          p ≠ m.augmented.whole ∧ (target? = none ∧ cell = (.reduce p, count) ∨
            ∃ target, target? = some target ∧
              (cell = (.shift target, count + 1) ∨ cell = (.reduce p, count + 1)))) := by
  unfold Automaton.decide at h
  split at h
  · rename_i hempty
    refine .inl ⟨List.isEmpty_iff.mp hempty, ?_⟩
    cases target? <;> (cases h; rfl)
  right
  dsimp only at h
  split at h
  · exact ⟨_, _, List.mem_singleton_self _, fun _ => rfl, decide_one_cases h⟩
  · obtain ⟨p, hp, h⟩ := bind_eq_ok.mp h
    exact ⟨p, 1, mem_of_reduceReduce hp, by simp, decide_one_cases h⟩

/-- An action that a decision may lead to: the terminal is shifted to where it leads, or a
production is reduced that is complete. -/
def Decided (m : Automaton) (target? : Option Nat) (productions : List Nat) : Action → Prop
  | .error => True
  | .shift target => target? = some target
  | .reduce p => p ∈ productions ∧ p ≠ m.augmented.whole
  | .accept => m.augmented.whole ∈ productions

theorem decided_of_decide {target? : Option Nat} {cell : Action × Nat}
    (h : m.decide place terminal target? items productions = .ok cell) :
    m.Decided target? productions cell.1 := by
  obtain ⟨-, rfl⟩ | ⟨p, count, hmem, -, ⟨rfl, rfl⟩ | ⟨hwhole, ⟨-, rfl⟩ |
    ⟨target, rfl, rfl | rfl⟩⟩⟩ := decide_cases h
  · cases target? with
    | none => trivial
    | some target => exact rfl
  · exact hmem
  · exact ⟨hmem, hwhole⟩
  · exact rfl
  · exact ⟨hmem, hwhole⟩

/-! ### The cells of a state -/

/-- Whether the items of a state call for an action on a terminal. -/
def Justified (m : Automaton) (place : Nat) (state : State) (s : Symbol) : Action → Prop
  | .error => True
  | .shift target => (s, target) ∈ state.transitions
  | .reduce p => p ≠ m.augmented.whole ∧ ∃ entry ∈ m.closureOf place,
      entry.1.production = p ∧ m.augmented.isComplete entry.1 ∧ entry.2.contains s
  | .accept => ∃ entry ∈ m.closureOf place,
      entry.1.production = m.augmented.whole ∧ m.augmented.isComplete entry.1 ∧ entry.2.contains s

/-- The productions that a state completes on a terminal. -/
def completedOn (m : Automaton) (place : Nat) (s : Symbol) : List Nat :=
  ((m.complete (m.closureOf place)).filter fun (_, set) => set.contains s).map (·.1.production)

theorem mem_completedOn {s : Symbol} {p : Nat} : p ∈ m.completedOn place s ↔
    ∃ entry ∈ m.closureOf place,
      entry.1.production = p ∧ m.augmented.isComplete entry.1 ∧ entry.2.contains s := by
  rw [completedOn, List.mem_map]
  constructor
  · rintro ⟨entry, hentry, rfl⟩
    obtain ⟨hcompletes, hset⟩ := List.mem_filter.mp hentry
    obtain ⟨hmem, hcomplete⟩ := List.mem_filter.mp hcompletes
    exact ⟨entry, hmem, rfl, hcomplete, hset⟩
  · rintro ⟨entry, hmem, rfl, hcomplete, hset⟩
    exact ⟨entry, List.mem_filter.mpr ⟨List.mem_filter.mpr ⟨hmem, hcomplete⟩, hset⟩, rfl⟩

/-- Actions that are decided by the items of a state are called for by them. -/
theorem Decided.justified {state : State} {s : Symbol} {target? : Option Nat} {action : Action}
    (h : m.Decided target? (m.completedOn place s) action)
    (htarget : ∀ target, target? = some target → (s, target) ∈ state.transitions) :
    m.Justified place state s action := by
  cases action with
  | error => trivial
  | shift target => exact htarget target h
  | reduce p => exact ⟨h.2, mem_completedOn.mp h.1⟩
  | accept => exact mem_completedOn.mp h

/-- The items of a state that shift a terminal. -/
def shiftingOn (m : Automaton) (place : Nat) (s : Symbol) : List Item :=
  ((m.shifting (m.closureOf place)).filter fun move => move.1 = s).map (·.2)

theorem mem_shiftingOn {s : Symbol} {item : Item} : item ∈ m.shiftingOn place s ↔
    item ∈ (m.closureOf place).map (·.1) ∧ m.augmented.next? item = some s ∧
      m.grammar.isTerminal s = true := by
  simp only [shiftingOn, shifting, List.mem_map, List.mem_filter, List.mem_filterMap,
    decide_eq_true_eq]
  constructor
  · rintro ⟨⟨t, item'⟩, ⟨⟨entry, hentry, hmove⟩, rfl⟩, rfl⟩
    split at hmove
    · rename_i t' hnext
      split at hmove
      · rename_i hterminal
        obtain ⟨rfl, rfl⟩ := Prod.mk.inj (Option.some.inj hmove)
        exact ⟨⟨entry, hentry, rfl⟩, hnext, hterminal⟩
      · cases hmove
    · cases hmove
  · rintro ⟨⟨entry, hentry, rfl⟩, hnext, hterminal⟩
    refine ⟨(s, entry.1), ⟨⟨entry, hentry, ?_⟩, rfl⟩, rfl⟩
    rw [hnext]
    exact if_pos hterminal

/-- A cell is the decision of what the state completes on its terminal, against where that leads and
the items that shift it. -/
theorem decide_of_mem_cells {state : State} {cells : List (Symbol × Action × Nat)}
    (h : m.cells place state = .ok cells) {s : Symbol} {cell : Action × Nat}
    (hcell : (s, cell) ∈ cells) : ∃ target? items,
      m.decide place s target? items (m.completedOn place s) = .ok cell ∧
      (∀ target, target? = some target → (s, target) ∈ state.transitions ∧
        items = m.shiftingOn place s) ∧
      (target? = none → state.transition? s = none) := by
  rw [Automaton.cells] at h
  obtain ⟨shifted, hshifted, h⟩ := bind_eq_ok.mp h
  obtain ⟨reduced, hreduced, h⟩ := bind_eq_ok.mp h
  cases h
  rcases List.mem_append.mp hcell with hcell | hcell
  · -- a terminal that can be shifted
    obtain ⟨⟨t, target⟩, ht, hdecide⟩ := exists_of_mem_mapM hshifted hcell
    obtain ⟨cell, hcell, heq⟩ := bind_eq_ok.mp hdecide
    cases heq
    refine ⟨_, _, hcell, fun target' htarget => ?_, fun hnone => by cases hnone⟩
    obtain rfl := Option.some.inj htarget
    exact ⟨(List.mem_filter.mp ht).1, rfl⟩
  · -- a terminal that can only complete items
    obtain ⟨t, ht, hdecide⟩ := exists_of_mem_mapM hreduced hcell
    obtain ⟨cell, hcell, heq⟩ := bind_eq_ok.mp hdecide
    cases heq
    refine ⟨_, _, hcell, fun target' htarget => (by cases htarget), fun _ => ?_⟩
    exact Option.isNone_iff_eq_none.mp (Bool.and_eq_true_iff.mp (List.mem_filter.mp ht).2).1

/-- Each cell is made for a terminal that is shifted or completes an item, so its winner is among
the moves that are called for. -/
theorem justified_of_mem_cells {state : State} {cells : List (Symbol × Action × Nat)}
    (h : m.cells place state = .ok cells) {s : Symbol} {action : Action} {count : Nat}
    (hcell : (s, action, count) ∈ cells) : m.Justified place state s action := by
  obtain ⟨target?, items, hdecide, htarget, -⟩ := decide_of_mem_cells h hcell
  exact (decided_of_decide hdecide).justified fun target htarget? => (htarget target htarget?).1

/-! ### Rows -/

theorem size_foldl_setIfInBounds {α β : Type} (l : List β) (index : β → Nat) (value : β → α)
    (row : Array α) :
    (l.foldl (fun row b => row.setIfInBounds (index b) (value b)) row).size = row.size := by
  induction l generalizing row with
  | nil => rfl
  | cons b l ih => rw [List.foldl_cons, ih, Array.size_setIfInBounds]

/-- A row has what stood there or what one of the cells put there. -/
theorem getElem?_foldl_setIfInBounds {α β : Type} {l : List β} {index : β → Nat} {value : β → α}
    {row : Array α} {i : Nat} {x : α}
    (h : (l.foldl (fun row b => row.setIfInBounds (index b) (value b)) row)[i]? = some x) :
    row[i]? = some x ∨ ∃ b ∈ l, index b = i ∧ value b = x := by
  induction l generalizing row with
  | nil => exact .inl h
  | cons b l ih =>
    rcases ih h with h | ⟨c, hc, hi, hx⟩
    · rw [Array.getElem?_setIfInBounds] at h
      split at h
      · split at h
        · rename_i hindex _
          exact .inr ⟨b, List.mem_cons_self .., hindex, Option.some.inj h⟩
        · cases h
      · exact .inl h
    · exact .inr ⟨c, List.mem_cons_of_mem _ hc, hi, hx⟩

/-- Where one of the cells belongs, the row has what the last of them put there. -/
theorem exists_foldl_setIfInBounds {α β : Type} {l : List β} {index : β → Nat} {value : β → α}
    {row : Array α} {i : Nat} (hi : i < row.size) :
    (∃ b ∈ l, index b = i ∧
      (l.foldl (fun row b => row.setIfInBounds (index b) (value b)) row)[i]? = some (value b)) ∨
      (∀ b ∈ l, index b ≠ i) ∧
        (l.foldl (fun row b => row.setIfInBounds (index b) (value b)) row)[i]? = row[i]? := by
  induction l generalizing row with
  | nil => exact .inr ⟨fun b hb => absurd hb List.not_mem_nil, rfl⟩
  | cons b l ih =>
    have hi' : i < (row.setIfInBounds (index b) (value b)).size := by simpa using hi
    rcases ih hi' with ⟨c, hc, hindex, hvalue⟩ | ⟨hnone, hsame⟩
    · exact .inl ⟨c, List.mem_cons_of_mem _ hc, hindex, hvalue⟩
    · rw [List.foldl_cons, hsame]
      by_cases hb : index b = i
      · subst hb
        exact .inl ⟨b, List.mem_cons_self .., rfl, Array.getElem?_setIfInBounds_self_of_lt hi⟩
      · refine .inr ⟨fun c hc => ?_, Array.getElem?_setIfInBounds_ne hb⟩
        rcases List.mem_cons.mp hc with rfl | hc
        · exact hb
        · exact hnone c hc

theorem size_actionRow (cells : List (Symbol × Action × Nat)) :
    (m.actionRow cells).size = m.grammar.terminalCount := by
  rw [actionRow, size_foldl_setIfInBounds cells (fun cell => cell.1.index) (fun cell => cell.2.1),
    Array.size_replicate]

/-- A row has the actions of its cells, and errors elsewhere. -/
theorem exists_of_actionRow {cells : List (Symbol × Action × Nat)} {i : Nat} {action : Action}
    (h : (m.actionRow cells)[i]? = some action) :
    action = .error ∨ ∃ count, (⟨i⟩, action, count) ∈ cells := by
  rw [actionRow] at h
  rcases getElem?_foldl_setIfInBounds h with h | ⟨⟨s, other, count⟩, hmem, rfl, rfl⟩
  · rw [Array.getElem?_replicate] at h
    split at h
    · exact .inl (Option.some.inj h).symm
    · cases h
  · exact .inr ⟨count, hmem⟩

/-- Enters a transition over a phrase kind into a row of gotos. -/
def enterGoto (m : Automaton) (row : Array (Option Nat)) (t : Symbol × Nat) : Array (Option Nat) :=
  match m.grammar.nonTerminalIndex? t.1 with
  | some kind => row.setIfInBounds kind (some t.2)
  | none => row

theorem gotoRow_eq (state : State) :
    m.gotoRow state = state.transitions.foldl m.enterGoto
      (Array.replicate m.grammar.nonTerminals.size none) :=
  rfl

theorem size_enterGoto (row : Array (Option Nat)) (t : Symbol × Nat) :
    (m.enterGoto row t).size = row.size := by
  rw [enterGoto]
  split
  · exact Array.size_setIfInBounds ..
  · rfl

theorem size_gotoRow (state : State) :
    (m.gotoRow state).size = m.grammar.nonTerminals.size := by
  have hsize : ∀ (transitions : List (Symbol × Nat)) (row : Array (Option Nat)),
      (transitions.foldl m.enterGoto row).size = row.size := by
    intro transitions
    induction transitions with
    | nil => exact fun _ => rfl
    | cons t rest ih => exact fun row => (ih _).trans (size_enterGoto row t)
  rw [gotoRow_eq, hsize, Array.size_replicate]

/-- A goto of the row was entered by one of the transitions, if it did not stand there before. -/
private theorem exists_of_foldl_enterGoto {transitions : List (Symbol × Nat)}
    {row : Array (Option Nat)} {kind target : Nat}
    (h : (transitions.foldl m.enterGoto row)[kind]? = some (some target)) :
    row[kind]? = some (some target) ∨
      ∃ s, (s, target) ∈ transitions ∧ m.grammar.nonTerminalIndex? s = some kind := by
  induction transitions generalizing row with
  | nil => exact .inl h
  | cons t rest ih =>
    rcases ih h with hrow | ⟨s, hs, hkind⟩
    · clear h
      rw [enterGoto] at hrow
      split at hrow
      · rename_i kind' hkind
        rw [Array.getElem?_setIfInBounds] at hrow
        split at hrow
        · rename_i heq
          subst heq
          split at hrow
          · obtain rfl := Option.some.inj (Option.some.inj hrow)
            exact .inr ⟨t.1, List.mem_cons_self .., hkind⟩
          · cases hrow
        · exact .inl hrow
      · exact .inl hrow
    · exact .inr ⟨s, List.mem_cons_of_mem _ hs, hkind⟩

/-- A goto goes over a transition. -/
theorem exists_of_gotoRow {state : State} {kind target : Nat}
    (h : (m.gotoRow state)[kind]? = some (some target)) :
    ∃ s, (s, target) ∈ state.transitions ∧ m.grammar.nonTerminalIndex? s = some kind := by
  rcases exists_of_foldl_enterGoto h with h | h
  · simp [Array.getElem?_replicate] at h
  · exact h

/-- What is entered is replaced by other gotos only, so a place that has one goes on having one. -/
private theorem exists_foldl_enterGoto {transitions : List (Symbol × Nat)}
    {row : Array (Option Nat)} {kind : Nat} (hkind : kind < row.size)
    (h : (∃ target, row[kind]? = some (some target)) ∨
      ∃ t ∈ transitions, m.grammar.nonTerminalIndex? t.1 = some kind) :
    ∃ target, (transitions.foldl m.enterGoto row)[kind]? = some (some target) := by
  induction transitions generalizing row with
  | nil =>
    rcases h with h | ⟨t, ht, -⟩
    · exact h
    · cases ht
  | cons t rest ih =>
    refine ih (by rwa [size_enterGoto]) ?_
    by_cases ht : m.grammar.nonTerminalIndex? t.1 = some kind
    · left
      rw [enterGoto, ht]
      exact ⟨t.2, Array.getElem?_setIfInBounds_self_of_lt hkind⟩
    · rcases h with ⟨target, h⟩ | ⟨u, hu, hs⟩
      · left
        rw [enterGoto]
        split
        · rename_i kind' hkind'
          have hne : kind' ≠ kind := by
            rintro rfl
            exact ht hkind'
          rw [Array.getElem?_setIfInBounds_ne hne]
          exact ⟨target, h⟩
        · exact ⟨target, h⟩
      · rcases List.mem_cons.mp hu with rfl | hu
        · exact absurd hs ht
        · exact .inr ⟨u, hu, hs⟩

/-- Every transition over a phrase kind has a goto. -/
theorem exists_gotoRow {state : State} {s : Symbol} {target kind : Nat}
    (h : (s, target) ∈ state.transitions) (hs : m.grammar.nonTerminalIndex? s = some kind)
    (hkind : kind < m.grammar.nonTerminals.size) :
    ∃ target, (m.gotoRow state)[kind]? = some (some target) :=
  exists_foldl_enterGoto (by rwa [Array.size_replicate]) (.inr ⟨_, h, hs⟩)

/-! ### All rows -/

/-- The rows of some states stand behind the rows that were there, one after the other. -/
theorem addRows_spec {rows out : Rows} {rest : List (State × Nat)}
    (h : m.addRows rows rest = .ok out) :
    out.stateCount = rows.stateCount ∧
    (∀ j < rows.actions.size, out.actions[j]? = rows.actions[j]?) ∧
    (∀ j < rows.gotos.size, out.gotos[j]? = rows.gotos[j]?) ∧
    ∀ i state place, rest[i]? = some (state, place) →
      (∃ cells, m.cells place state = .ok cells ∧ ∀ j < m.grammar.terminalCount,
        out.actions[rows.actions.size + i * m.grammar.terminalCount + j]? =
          (m.actionRow cells)[j]?) ∧
      ∀ j < m.grammar.nonTerminals.size,
        out.gotos[rows.gotos.size + i * m.grammar.nonTerminals.size + j]? =
          (m.gotoRow state)[j]? := by
  induction rest generalizing rows with
  | nil =>
    cases h
    exact ⟨rfl, fun _ _ => rfl, fun _ _ => rfl, fun i state place hi => by simp at hi⟩
  | cons entry rest ih =>
    obtain ⟨state, place⟩ := entry
    rw [addRows] at h
    obtain ⟨cells, hcells, h⟩ := bind_eq_ok.mp h
    obtain ⟨hcount, hactions, hgotos, hrest⟩ := ih h
    simp only [Array.size_append, size_actionRow, size_gotoRow] at hactions hgotos hrest
    refine ⟨hcount, fun j hj => ?_, fun j hj => ?_, fun i state' place' hi => ?_⟩
    · rw [hactions j (by omega), Array.getElem?_append_left hj]
    · rw [hgotos j (by omega), Array.getElem?_append_left hj]
    · cases i with
      | zero =>
        obtain ⟨rfl, rfl⟩ := Prod.mk.inj (Option.some.inj hi)
        refine ⟨⟨cells, hcells, fun j hj => ?_⟩, fun j hj => ?_⟩
        · rw [hactions _ (by omega), Array.getElem?_append_right (by omega)]
          congr 1
          omega
        · rw [hgotos _ (by omega), Array.getElem?_append_right (by omega)]
          congr 1
          omega
      | succ i =>
        obtain ⟨⟨cells', hcells', hrow⟩, hgoto⟩ := hrest i state' place' hi
        refine ⟨⟨cells', hcells', fun j hj => ?_⟩, fun j hj => ?_⟩
        · rw [← hrow j hj]
          congr 1
          rw [Nat.succ_mul]
          omega
        · rw [← hgoto j hj]
          congr 1
          rw [Nat.succ_mul]
          omega

/-- The rows of a state in the table. -/
theorem rows_spec {out : Rows} (h : m.rows = .ok out) {place : Nat} {state : State}
    (hstate : m.states[place]? = some state) :
    (∃ cells, m.cells place state = .ok cells ∧ ∀ j < m.grammar.terminalCount,
      out.actions[place * m.grammar.terminalCount + j]? = (m.actionRow cells)[j]?) ∧
    ∀ j < m.grammar.nonTerminals.size,
      out.gotos[place * m.grammar.nonTerminals.size + j]? = (m.gotoRow state)[j]? := by
  obtain ⟨-, -, -, hrows⟩ := addRows_spec h
  have hzip : m.states.toList.zipIdx[place]? = some (state, place) := by
    simp [List.getElem?_zipIdx, hstate]
  simpa using hrows place state place hzip

/-- Every state adds one row of each kind, so that cells are found by multiplication. -/
theorem size_of_addRows {rows out : Rows} {rest : List (State × Nat)}
    (h : m.addRows rows rest = .ok out) :
    out.actions.size = rows.actions.size + rest.length * m.grammar.terminalCount ∧
      out.gotos.size = rows.gotos.size + rest.length * m.grammar.nonTerminals.size := by
  induction rest generalizing rows with
  | nil =>
    cases h
    simp
  | cons entry rest ih =>
    rw [addRows] at h
    obtain ⟨cells, -, h⟩ := bind_eq_ok.mp h
    obtain ⟨hactions, hgotos⟩ := ih h
    rw [hactions, hgotos, Array.size_append, Array.size_append, size_actionRow, size_gotoRow,
      List.length_cons, Nat.succ_mul, Nat.succ_mul]
    omega

/-- There is a row for each state. -/
theorem size_of_rows {out : Rows} (h : m.rows = .ok out) :
    out.actions.size = m.states.size * m.grammar.terminalCount ∧
      out.gotos.size = m.states.size * m.grammar.nonTerminals.size := by
  simpa using size_of_addRows h

/-- The actions and gotos of some states as lists, and the number of conflicts decided. -/
def rowLists (resolved : Nat) :
    List (State × Nat) → Except GrammarError (List Action × List (Option Nat) × Nat)
  | [] => .ok ([], [], resolved)
  | (state, place) :: rest => do
    let cells ← m.cells place state
    let (actions, gotos, resolved) ←
      rowLists (cells.foldl (fun n cell => n + cell.2.2) resolved) rest
    return ((m.actionRow cells).toList ++ actions, (m.gotoRow state).toList ++ gotos, resolved)

/-- The rows of all states, from lists. To evaluate `rows` in a proof takes a number of steps that is
quadratic in the number of gotos, which are pushed one by one; here it is linear. -/
def listedRows : Except GrammarError Rows :=
  (m.rowLists 0 m.states.toList.zipIdx).map fun (actions, gotos, resolved) =>
    ⟨m.states.size, actions.toArray, gotos.toArray, resolved⟩

/-- Rows are put behind those that were made before, which they do not depend on but for the groups
that were used. -/
theorem addRows_eq_rowLists (rows : Rows) (rest : List (State × Nat)) :
    m.addRows rows rest = (m.rowLists rows.resolved rest).map fun (actions, gotos, resolved) =>
      ⟨rows.stateCount, rows.actions ++ actions.toArray, rows.gotos ++ gotos.toArray, resolved⟩ := by
  induction rest generalizing rows with
  | nil => simp [addRows, rowLists, Except.map]
  | cons entry rest ih =>
    obtain ⟨state, place⟩ := entry
    rw [addRows, rowLists]
    cases m.cells place state with
    | error e => rfl
    | ok cells =>
      refine (ih _).trans ?_
      change _ = Except.map _ (m.rowLists _ rest >>= _)
      cases m.rowLists _ rest with
      | error e => rfl
      | ok made =>
        refine congrArg Except.ok ?_
        simp only [Array.append_assoc, ← List.append_toArray, Array.toArray_toList]

theorem rows_eq_listedRows : m.rows = m.listedRows := by
  rw [rows, addRows_eq_rowLists]
  simp only [Array.empty_append]
  rfl

/-- If all decisions of a state can be made, its cells can. -/
theorem exists_cells {state : State}
    (h : ∀ s target? items, (∀ target, target? = some target → (s, target) ∈ state.transitions) →
      ∃ cell, m.decide place s target? items (m.completedOn place s) = .ok cell) :
    ∃ cells, m.cells place state = .ok cells := by
  have hshifted : ∃ shifted, (state.transitions.filter fun t => m.grammar.isTerminal t.1).mapM
      (fun t => do
        let cell ← m.decide place t.1 (some t.2) (m.shiftingOn place t.1)
          (m.completedOn place t.1)
        return (t.1, cell)) = Except.ok shifted := by
    refine exists_mapM fun t ht => ?_
    obtain ⟨cell, hcell⟩ := h t.1 (some t.2) (m.shiftingOn place t.1) fun target htarget => by
      obtain rfl := Option.some.inj htarget
      exact (List.mem_filter.mp ht).1
    rw [hcell]
    exact ⟨_, rfl⟩
  have hreduced : ∃ reduced, (((List.range m.grammar.terminalCount).map Symbol.mk).filter fun s =>
      (state.transition? s).isNone && !(m.completedOn place s).isEmpty).mapM
      (fun s => do
        let cell ← m.decide place s none [] (m.completedOn place s)
        return (s, cell)) = Except.ok reduced := by
    refine exists_mapM fun s _ => ?_
    obtain ⟨cell, hcell⟩ := h s none [] fun target htarget => by cases htarget
    rw [hcell]
    exact ⟨_, rfl⟩
  obtain ⟨shifted, hshifted⟩ := hshifted
  obtain ⟨reduced, hreduced⟩ := hreduced
  exact ⟨shifted ++ reduced, bind_eq_ok.mpr ⟨shifted, hshifted, bind_eq_ok.mpr ⟨reduced, hreduced, rfl⟩⟩⟩

/-- The rows can be made if no conflict of any state is reported. -/
theorem exists_addRows {rest : List (State × Nat)}
    (h : ∀ entry ∈ rest, ∃ cells, m.cells entry.2 entry.1 = .ok cells) (rows : Rows) :
    ∃ out, m.addRows rows rest = .ok out := by
  induction rest generalizing rows with
  | nil => exact ⟨rows, rfl⟩
  | cons entry rest ih =>
    obtain ⟨cells, hcells⟩ := h entry (List.mem_cons_self ..)
    obtain ⟨out, hout⟩ := ih (fun entry hentry => h entry (List.mem_cons_of_mem _ hentry)) _
    exact ⟨out, bind_eq_ok.mpr ⟨cells, hcells, hout⟩⟩

/-- If all decisions can be made, all rows can. -/
theorem exists_rows
    (h : ∀ place state, m.states[place]? = some state → ∀ s target? items,
      (∀ target, target? = some target → (s, target) ∈ state.transitions) →
      ∃ cell, m.decide place s target? items (m.completedOn place s) = .ok cell) :
    ∃ rows, m.rows = .ok rows := by
  refine exists_addRows (fun entry hentry => exists_cells (h entry.2 entry.1 ?_)) _
  simpa using List.mem_zipIdx_iff_getElem?.mp hentry

end Automaton

end LRWorkbench.Lalr
