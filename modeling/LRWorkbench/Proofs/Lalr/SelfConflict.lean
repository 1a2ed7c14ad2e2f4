import LRWorkbench.Proofs.Lalr.Cells

/-!
# Productions in conflict with themselves

Where a production that is complete could go on with the same terminal, neither levels nor sides
may decide, and its place among the productions cannot either. Such a conflict is reported, or one
that comes up before it, but only if no production that is declared earlier shifts the terminal too;
otherwise that one decides for the shift (`SelfConflict.reported_or_shifted`).
-/

namespace LRWorkbench.Lalr

open PreparedGrammar Augmented

namespace Automaton

variable {m : Automaton} {place : Nat} {s : Symbol} {items : List Item} {productions : List Nat}
  {p : Nat} {e : GrammarError}

/-! ### Errors are conflicts -/

/-- The decision for a cell of a state. -/
def cell (m : Automaton) (place : Nat) (state : State) (s : Symbol) :
    Except GrammarError (Action × Nat) :=
  m.decide place s (state.transition? s) (m.shiftingOn place s) (m.completedOn place s)

theorem exists_conflict_of_reduceReduce (h : m.reduceReduce place s productions = .error e) :
    ∃ lines, e = m.conflict place s .reduceReduce lines := by
  unfold reduceReduce at h
  dsimp only at h
  split at h
  · cases h
  · split at h
    · split at h
      · cases h
      · exact ⟨_, (Except.error.inj h).symm⟩
    · exact ⟨_, (Except.error.inj h).symm⟩

theorem exists_conflict_of_shiftReduce (h : m.shiftReduce place s items p = .error e) :
    ∃ lines, e = m.conflict place s .shiftReduce lines := by
  unfold shiftReduce at h
  dsimp only at h
  split at h
  · cases h
  · split at h
    · cases h
    · split at h
      · cases h
      · cases h
      · split at h
        · cases h
        · exact ⟨_, (Except.error.inj h).symm⟩

theorem decide_none (m : Automaton) (place : Nat) (s : Symbol) (items items' : List Item)
    (productions : List Nat) :
    m.decide place s none items productions = m.decide place s none items' productions :=
  rfl

/-- A cell that is not decided is a conflict. -/
theorem exists_conflict_of_decide {target? : Option Nat}
    (h : m.decide place s target? items productions = .error e) :
    ∃ kind lines, e = m.conflict place s kind lines := by
  by_cases hempty : productions = []
  · rw [hempty, decide_nil] at h
    cases h
  have hmap := m.map_decide place s target? items hempty
  rw [h] at hmap
  rcases bind_eq_error.mp hmap.symm with h | ⟨p, -, h⟩
  · obtain ⟨lines, he⟩ := exists_conflict_of_reduceReduce h
    exact ⟨_, lines, he⟩
  unfold against at h
  split at h
  · cases h
  cases target? with
  | none => cases h
  | some target =>
    cases hwinner : m.shiftReduce place s items p with
    | ok winner =>
      rw [hwinner] at h
      cases h
    | error e' =>
      rw [hwinner] at h
      obtain rfl := Except.error.inj h
      obtain ⟨lines, he⟩ := exists_conflict_of_shiftReduce hwinner
      exact ⟨_, lines, he⟩

/-! ### The first error -/

/-- If the cells of a state cannot be decided, the rows cannot be made: because of that state, or of
one before it. -/
theorem exists_addRows_eq_error {state : State} (h : m.cells place state = .error e)
    (before after : List (State × Nat)) (rows : Rows) :
    ∃ e', m.addRows rows (before ++ (state, place) :: after) = .error e' ∧
      (e' = e ∨ ∃ entry ∈ before, m.cells entry.2 entry.1 = .error e') := by
  induction before generalizing rows with
  | nil =>
    refine ⟨e, ?_, .inl rfl⟩
    rw [List.nil_append, addRows]
    exact bind_eq_error.mpr (.inl h)
  | cons entry before ih =>
    obtain ⟨first, q⟩ := entry
    rw [List.cons_append, addRows]
    cases hfirst : m.cells q first with
    | error e' => exact ⟨e', rfl, .inr ⟨_, List.mem_cons_self .., hfirst⟩⟩
    | ok cells =>
      obtain ⟨e', hrest, herror⟩ := ih _
      refine ⟨e', hrest, herror.imp id ?_⟩
      rintro ⟨entry, hentry, hcells⟩
      exact ⟨entry, List.mem_cons_of_mem _ hentry, hcells⟩

end Automaton

variable {g : PreparedGrammar} {q r p : Nat} {state : State} {t : Symbol} {e : GrammarError}

/-- If the cells of a state cannot be decided, it is because of one of them. -/
theorem exists_cell_of_cells (hstate : g.automaton.states[q]? = some state)
    (h : g.automaton.cells q state = .error e) : ∃ t, g.automaton.cell q state t = .error e := by
  rw [Automaton.cells] at h
  rcases bind_eq_error.mp h with h | ⟨shifted, -, h⟩
  · obtain ⟨⟨t, target⟩, hmem, h⟩ := exists_of_mapM_eq_error h
    rcases bind_eq_error.mp h with h | ⟨cell, -, h⟩
    · refine ⟨t, ?_⟩
      rw [Automaton.cell, (transition?_eq_some hstate).mpr (List.mem_filter.mp hmem).1]
      exact h
    · cases h
  · rcases bind_eq_error.mp h with h | ⟨reduced, -, h⟩
    · obtain ⟨t, hmem, h⟩ := exists_of_mapM_eq_error h
      rcases bind_eq_error.mp h with h | ⟨cell, -, h⟩
      · refine ⟨t, ?_⟩
        have hnone := (Bool.and_eq_true_iff.mp (List.mem_filter.mp hmem).2).1
        rw [Automaton.cell, Option.isNone_iff_eq_none.mp hnone, Automaton.decide_none _ _ _ _ []]
        exact h
      · cases h
    · cases h

/-- If the cell of a terminal that can be shifted is not decided, the cells of the state are not:
because of that cell, or of one before it. -/
theorem exists_cells_eq_error (hstate : g.automaton.states[q]? = some state)
    (ht : g.isTerminal t = true) (hr : state.transition? t = some r)
    (h : g.automaton.cell q state t = .error e) :
    ∃ e', g.automaton.cells q state = .error e' ∧
      (e' = e ∨ ∃ t' : Symbol, t'.index < t.index ∧ (∃ r', state.transition? t' = some r') ∧
        g.automaton.cell q state t' = .error e') := by
  have hmem : (t, r) ∈ state.transitions.filter fun move => g.isTerminal move.1 :=
    List.mem_filter.mpr ⟨(transition?_eq_some hstate).mp hr, ht⟩
  -- terminals that can be shifted come first, in their order, so that those before have less
  obtain ⟨before, after, hsplit⟩ := List.append_of_mem hmem
  have hascending : (before ++ (t, r) :: after).Pairwise fun move move' =>
      move.1.index < move'.1.index :=
    hsplit ▸ (ascending_transitions (Array.mem_of_getElem? hstate)).filter _
  obtain ⟨e', hshifted, hfirst⟩ := exists_mapM_eq_error (f := fun move : Symbol × Nat => do
      let cell ← g.automaton.decide q move.1 (some move.2) (g.automaton.shiftingOn q move.1)
        (g.automaton.completedOn q move.1)
      return (move.1, cell)) (a := (t, r)) (e := e)
    (bind_eq_error.mpr (.inl (by rw [← hr]; exact h))) before after
  refine ⟨e', ?_, hfirst.imp id ?_⟩
  · rw [Automaton.cells]
    refine bind_eq_error.mpr (.inl ?_)
    rw [← hshifted, ← hsplit]
    rfl
  · rintro ⟨⟨t', r'⟩, hbefore, h⟩
    have hmove : (t', r') ∈ state.transitions.filter fun move => g.isTerminal move.1 := by
      rw [hsplit]
      exact List.mem_append_left _ hbefore
    have hr' := (transition?_eq_some hstate).mpr (List.mem_filter.mp hmove).1
    refine ⟨t', (List.pairwise_append.mp hascending).2.2 _ hbefore _ (List.mem_cons_self ..),
      ⟨r', hr'⟩, ?_⟩
    rcases bind_eq_error.mp h with h | ⟨cell, -, h⟩
    · rw [Automaton.cell, hr']
      exact h
    · cases h

/-- Whether the cell of a state and a terminal is decided before another one, of a terminal that can
be shifted. -/
def DecidedBefore (g : PreparedGrammar) (q' : Nat) (t' : Symbol) (q : Nat) (t : Symbol) : Prop :=
  q' < q ∨ q' = q ∧ t'.index < t.index ∧ ShiftsOn g q t'

/-- **Conflicts are reported.** If the cell of a terminal that can be shifted is not decided, no
rows are made: because of that cell, or of one before it. -/
theorem exists_rows_eq_error (hstate : g.automaton.states[q]? = some state)
    (ht : g.isTerminal t = true) (hr : state.transition? t = some r)
    (h : g.automaton.cell q state t = .error e) :
    ∃ e', g.automaton.rows = .error e' ∧
      (e' = e ∨ ∃ (q' : Nat) (state' : State) (t' : Symbol),
        g.automaton.states[q']? = some state' ∧ DecidedBefore g q' t' q t ∧
        g.automaton.cell q' state' t' = .error e') := by
  obtain ⟨e', hcells, hfirst⟩ := exists_cells_eq_error hstate ht hr h
  have hsplit : g.automaton.states.toList.zipIdx = (g.automaton.states.toList.take q).zipIdx ++
      (state, q) :: (g.automaton.states.toList.drop (q + 1)).zipIdx (q + 1) := by
    obtain ⟨hlt, hget⟩ := Array.getElem?_eq_some_iff.mp hstate
    have hlength : (g.automaton.states.toList.take q).length = q := by
      rw [List.length_take, Array.length_toList]
      exact Nat.min_eq_left (Nat.le_of_lt hlt)
    have hdrop : g.automaton.states.toList.drop q =
        state :: g.automaton.states.toList.drop (q + 1) := by
      rw [List.drop_eq_getElem_cons (by rwa [Array.length_toList]), Array.getElem_toList, hget]
    conv_lhs => rw [← List.take_append_drop q g.automaton.states.toList]
    rw [List.zipIdx_append, hlength, hdrop, List.zipIdx_cons, Nat.zero_add]
  obtain ⟨e'', hrows, hearlier⟩ := Automaton.exists_addRows_eq_error hcells
    (g.automaton.states.toList.take q).zipIdx
    ((g.automaton.states.toList.drop (q + 1)).zipIdx (q + 1)) ⟨g.automaton.states.size, #[], #[], 0⟩
  rw [← hsplit] at hrows
  refine ⟨e'', hrows, ?_⟩
  rcases hearlier with rfl | ⟨⟨state', q'⟩, hentry, hcells'⟩
  · refine hfirst.imp id ?_
    rintro ⟨t', hlt, hr', hcell⟩
    exact ⟨q, state, t', hstate, .inr ⟨rfl, hlt, (Rows.shiftsOn_iff hstate).mpr hr'⟩, hcell⟩
  · right
    have hget := List.mem_zipIdx_iff_getElem?.mp hentry
    rw [List.getElem?_take] at hget
    split at hget
    · rename_i hlt
      rw [Array.getElem?_toList] at hget
      obtain ⟨t', hcell⟩ := exists_cell_of_cells hget hcells'
      exact ⟨q', state', t', hget, .inl hlt, hcell⟩
    · cases hget

/-! ### A production against itself -/

/-- The lines about a conflict: all that shift, then the production that is reduced. -/
def Automaton.conflictLines (m : Automaton) (items : List Item) (p : Nat) : List String :=
  items.map (fun item => "  shift  " ++ m.describe item) ++ [m.reduceLine p]

/-- Where neither levels nor sides tell, the order of the productions decides, or nothing does. -/
theorem Automaton.shiftReduce_of_even {m : Automaton} {items : List Item}
    (hlevel : m.levelOf p = highest (items.map m.shiftLevel)) (hside : m.assocOf p = none) :
    m.shiftReduce q t items p =
      match declaredFirst items p with
      | some winner => .ok winner
      | none => .error (m.conflict q t .shiftReduce (m.conflictLines items p)) := by
  unfold Automaton.shiftReduce
  dsimp only
  rw [← hlevel, if_neg (Int.lt_irrefl _), if_neg (Int.lt_irrefl _), hside]
  rfl

/-- Whether the production that is reduced in a state on a terminal could go on with the terminal
as well, and neither its level nor a side tells which. -/
structure SelfConflict (g : PreparedGrammar) (q : Nat) (t : Symbol) (p : Nat) : Prop where
  /-- The production wins among those that are complete. -/
  chosen : g.automaton.reduceReduce q t (g.automaton.completedOn q t) = .ok p
  shifts : ∃ item ∈ g.automaton.shiftingOn q t, item.production = p
  level : g.automaton.levelOf p =
    highest ((g.automaton.shiftingOn q t).map g.automaton.shiftLevel)
  noSide : g.automaton.assocOf p = none

theorem declaredFirst_self {items : List Item} (hself : ∃ item ∈ items, item.production = p)
    (hall : ∀ item ∈ items, p ≤ item.production) : declaredFirst items p = none := by
  obtain ⟨item, hitem, hproduction⟩ := hself
  have hmin : (items.map (·.production)).min? = some p := by
    refine List.min?_eq_some_iff.mpr ⟨List.mem_map.mpr ⟨item, hitem, hproduction⟩, ?_⟩
    intro other hother
    obtain ⟨item, hitem, rfl⟩ := List.mem_map.mp hother
    exact hall item hitem
  simp [declaredFirst, hmin]

theorem declaredFirst_of_lt {items : List Item} {item : Item} (hitem : item ∈ items)
    (hlt : item.production < p) : declaredFirst items p = some .shift := by
  rw [declaredFirst]
  split
  · rename_i hnone
    rw [List.min?_eq_none_iff, List.map_eq_nil_iff] at hnone
    rw [hnone] at hitem
    cases hitem
  · rename_i first hfirst
    have hle := (List.min?_eq_some_iff.mp hfirst).2 item.production
      (List.mem_map_of_mem hitem)
    rw [if_pos (Nat.lt_of_le_of_lt hle hlt)]

namespace SelfConflict

variable (h : SelfConflict g q t p)
include h

theorem isTerminal : g.isTerminal t = true := by
  obtain ⟨item, hitem, -⟩ := h.shifts
  exact (Automaton.mem_shiftingOn.mp hitem).2.2

theorem shiftsOn : ShiftsOn g q t := by
  obtain ⟨item, hitem, -⟩ := h.shifts
  obtain ⟨hmem, hnext, -⟩ := Automaton.mem_shiftingOn.mp hitem
  obtain ⟨entry, hentry, rfl⟩ := List.mem_map.mp hmem
  exact ⟨entry, hentry, hnext⟩

/-- It is a production of the grammar. -/
theorem part : p ≠ (augment g).whole := by
  rintro rfl
  obtain ⟨item, hitem, hproduction⟩ := h.shifts
  obtain ⟨-, hnext, hterminal⟩ := Automaton.mem_shiftingOn.mp hitem
  have hmem := List.mem_of_getElem? hnext
  have hsymbols : (augment g).symbolsOf item.production = [g.nonTerminalSymbol 0] := by
    rw [hproduction]
    exact symbolsOf_whole
  have heq : t = g.nonTerminalSymbol 0 := List.mem_singleton.mp (hsymbols ▸ hmem)
  have hlt : t.index < g.terminalCount := of_decide_eq_true hterminal
  rw [heq] at hlt
  exact Nat.lt_irrefl _ hlt

theorem map_cell (hr : state.transition? t = some r) :
    (g.automaton.cell q state t).map (·.1) =
      (g.automaton.shiftReduce q t (g.automaton.shiftingOn q t) p).map fun
        | .shift => .shift r
        | .reduce => .reduce p := by
  have hempty := List.ne_nil_of_mem (Automaton.mem_of_reduceReduce h.chosen)
  rw [Automaton.cell, Automaton.map_decide _ _ _ _ _ hempty, h.chosen, hr]
  exact if_neg h.part

/-- The cell is not decided if the production is the first of those that shift. -/
theorem cell_eq_error (hr : state.transition? t = some r)
    (hfirst : ∀ item ∈ g.automaton.shiftingOn q t, p ≤ item.production) :
    g.automaton.cell q state t =
      .error (g.automaton.conflict q t .shiftReduce
        (g.automaton.conflictLines (g.automaton.shiftingOn q t) p)) := by
  have hmap := h.map_cell hr
  rw [Automaton.shiftReduce_of_even h.level h.noSide, declaredFirst_self h.shifts hfirst] at hmap
  cases hcell : g.automaton.cell q state t with
  | ok cell =>
    rw [hcell] at hmap
    cases hmap
  | error e =>
    rw [hcell] at hmap
    exact congrArg _ (Except.error.inj hmap)

/-- Another production that comes first decides for the shift. -/
theorem cell_eq_shift (hr : state.transition? t = some r) {item : Item}
    (hitem : item ∈ g.automaton.shiftingOn q t) (hlt : item.production < p) :
    ∃ count, g.automaton.cell q state t = .ok (.shift r, count) := by
  have hmap := h.map_cell hr
  rw [Automaton.shiftReduce_of_even h.level h.noSide, declaredFirst_of_lt hitem hlt] at hmap
  cases hcell : g.automaton.cell q state t with
  | ok cell =>
    rw [hcell] at hmap
    exact ⟨cell.2, congrArg (fun action => Except.ok (action, cell.2)) (Except.ok.inj hmap)⟩
  | error e =>
    rw [hcell] at hmap
    cases hmap

/-- **A production in conflict with itself is reported unless another one comes first.** If no
production that is declared earlier shifts the terminal, no table is made, because of this conflict
or of one that comes up before it. If there is one, the terminal is shifted. -/
theorem reported_or_shifted (hstate : g.automaton.states[q]? = some state) :
    ((∀ item ∈ g.automaton.shiftingOn q t, p ≤ item.production) →
      ∃ q' t' kind conflict,
        g.automaton.rows = .error (g.automaton.conflict q' t' kind conflict) ∧
        (q' = q ∧ t' = t ∧ kind = .shiftReduce ∧
          conflict = g.automaton.conflictLines (g.automaton.shiftingOn q t) p ∨
          DecidedBefore g q' t' q t ∧ ∃ state', g.automaton.states[q']? = some state' ∧
            g.automaton.cell q' state' t' =
              .error (g.automaton.conflict q' t' kind conflict))) ∧
    ((∃ item ∈ g.automaton.shiftingOn q t, item.production < p) →
      ∃ r count, state.transition? t = some r ∧
        g.automaton.cell q state t = .ok (.shift r, count) ∧
        ∀ rows, g.automaton.rows = .ok rows → rows.action g q t = .shift r) := by
  obtain ⟨r, hr⟩ := (Rows.shiftsOn_iff hstate).mp h.shiftsOn
  constructor
  · intro hfirst
    obtain ⟨e, hrows, rfl | ⟨q', state', t', hstate', hbefore, hcell⟩⟩ :=
      exists_rows_eq_error hstate h.isTerminal hr (h.cell_eq_error hr hfirst)
    · exact ⟨q, t, _, _, hrows, .inl ⟨rfl, rfl, rfl, rfl⟩⟩
    · obtain ⟨kind, conflict, rfl⟩ := Automaton.exists_conflict_of_decide hcell
      exact ⟨q', t', kind, conflict, hrows, .inr ⟨hbefore, state', hstate', hcell⟩⟩
  · rintro ⟨item, hitem, hlt⟩
    obtain ⟨count, hcell⟩ := h.cell_eq_shift hr hitem hlt
    refine ⟨r, count, hr, hcell, fun rows hrows => ?_⟩
    rcases Rows.action_spec hrows hstate h.isTerminal with ⟨hempty, -⟩ | ⟨p', hp', hagainst⟩
    · have hmem := Automaton.mem_of_reduceReduce h.chosen
      rw [hempty] at hmem
      cases hmem
    · -- both are the decision of the same cell
      have hempty := List.ne_nil_of_mem (Automaton.mem_of_reduceReduce hp')
      have hmap := g.automaton.map_decide q t (state.transition? t) (g.automaton.shiftingOn q t)
        hempty
      rw [← Automaton.cell, hcell, hp'] at hmap
      exact (Except.ok.inj (hmap.trans hagainst)).symm

end SelfConflict

instance : Decidable (SelfConflict g q t p) :=
  decidable_of_iff
    ((g.automaton.reduceReduce q t (g.automaton.completedOn q t)).toOption = some p ∧
      (∃ item ∈ g.automaton.shiftingOn q t, item.production = p) ∧
      g.automaton.levelOf p =
        highest ((g.automaton.shiftingOn q t).map g.automaton.shiftLevel) ∧
      g.automaton.assocOf p = none)
    ⟨fun ⟨hchosen, hshifts, hlevel, hside⟩ => ⟨eq_ok_of_toOption hchosen, hshifts, hlevel, hside⟩,
      fun h => ⟨by rw [h.chosen]; rfl, h.shifts, h.level, h.noSide⟩⟩

/-- Sums without a side, such as `x + x`. -/
def sums : Grammar where
  name := "sums"
  rules := [("expr", .choice [
    .seq [.reference "expr", .literal "+", .reference "expr"],
    .literal "x"])]
  extras := []
  conflicts := []
  externals := []
  word := none

/-- A sum after a sum may be part of either, so that no table is made. -/
theorem SelfConflict.reported_sums : ∃ g state, sums.prepare = .ok g ∧
    g.automaton.states[4]? = some state ∧ SelfConflict g 4 ⟨1⟩ 0 ∧
    ∃ q t kind lines, g.automaton.rows = .error (g.automaton.conflict q t kind lines) ∧
      (q = 4 ∧ t = ⟨1⟩ ∧ kind = .shiftReduce ∧
        lines = g.automaton.conflictLines (g.automaton.shiftingOn 4 ⟨1⟩) 0 ∨
        DecidedBefore g q t 4 ⟨1⟩ ∧ ∃ state', g.automaton.states[q]? = some state' ∧
          g.automaton.cell q state' t = .error (g.automaton.conflict q t kind lines)) := by
  have hcheck : sums.prepare.toOption.any (fun g => g.automaton.states[4]?.isSome &&
      decide (SelfConflict g 4 ⟨1⟩ 0)) = true := by
    decide +kernel
  obtain ⟨g, hprepare, hcheck⟩ := (Option.any_eq_true ..).mp hcheck
  obtain ⟨hsome, hcheck⟩ := Bool.and_eq_true_iff.mp hcheck
  obtain ⟨state, hstate⟩ := Option.isSome_iff_exists.mp hsome
  have hself := of_decide_eq_true hcheck
  exact ⟨g, state, eq_ok_of_toOption hprepare, hstate, hself,
    (hself.reported_or_shifted hstate).1 fun item _ => Nat.zero_le item.production⟩

/-- Sums next to a postfix that is declared first, such as `x ++`. -/
def pluses : Grammar where
  name := "pluses"
  rules := [("expr", .choice [
    .seq [.reference "expr", .literal "+", .literal "+"],
    .seq [.reference "expr", .literal "+", .reference "expr"],
    .literal "x"])]
  extras := []
  conflicts := []
  externals := []
  word := none

/-- The postfix hides that sums are in conflict with themselves: a table is made. -/
theorem SelfConflict.not_reported_pluses : ∃ g state rows, pluses.prepare = .ok g ∧
    g.automaton.states[5]? = some state ∧ SelfConflict g 5 ⟨1⟩ 1 ∧ g.automaton.rows = .ok rows := by
  have hcheck : pluses.prepare.toOption.any (fun g => g.automaton.states[5]?.isSome &&
      g.automaton.rows.toOption.isSome &&
      decide (SelfConflict g 5 ⟨1⟩ 1)) = true := by
    decide +kernel
  obtain ⟨g, hprepare, hcheck⟩ := (Option.any_eq_true ..).mp hcheck
  obtain ⟨hsome, hcheck⟩ := Bool.and_eq_true_iff.mp hcheck
  obtain ⟨hstate, hrows⟩ := Bool.and_eq_true_iff.mp hsome
  obtain ⟨state, hstate⟩ := Option.isSome_iff_exists.mp hstate
  obtain ⟨rows, hrows⟩ := Option.isSome_iff_exists.mp hrows
  exact ⟨g, state, rows, eq_ok_of_toOption hprepare, hstate,
    of_decide_eq_true hcheck, eq_ok_of_toOption hrows⟩

end LRWorkbench.Lalr
