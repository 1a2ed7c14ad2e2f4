import LRWorkbench.Proofs.Lalr.ItemSet
import LRWorkbench.Proofs.Lalr.Rows

/-!
# Cells hold candidates

What the items of a state call for on a terminal are the candidates for its cell: to shift it, to
reduce a production that is complete, or to accept. A conflict is decided between the shift and one
production, which is found first, among the complete ones (`Automaton.map_decide`), and which has
the highest level of them (`Automaton.levelOf_le_of_reduceReduce`).

Every cell of the table holds a candidate if there is one, and gotos are the transitions
(`Rows.filled`).
-/

namespace LRWorkbench.Lalr

open PreparedGrammar Augmented

/-! ### Decisions -/

namespace Automaton

variable {m : Automaton} {place : Nat} {s : Symbol} {items : List Item} {productions : List Nat}
  {p : Nat} {target? : Option Nat} {action : Action}

theorem le_highest {levels : List Int} {level : Int} (h : level ∈ levels) :
    level ≤ highest levels := by
  rw [highest]
  cases hmax : levels.max? with
  | none =>
    rw [List.max?_eq_none_iff.mp hmax] at h
    cases h
  | some top => exact (List.max?_eq_some_iff.mp hmax).2 level h

theorem reduceReduce_single (m : Automaton) (place : Nat) (s : Symbol) (p : Nat) :
    m.reduceReduce place s [p] = .ok p := by
  simp [reduceReduce, highest]

/-- The production that wins among complete ones has the highest level. -/
theorem levelOf_le_of_reduceReduce (h : m.reduceReduce place s productions = .ok p) :
    ∀ other ∈ productions, m.levelOf other ≤ m.levelOf p := by
  have htop : m.levelOf p = highest (productions.map m.levelOf) :=
    of_decide_eq_true (List.mem_filter.mp (mem_top_of_reduceReduce h)).2
  intro other hother
  rw [htop]
  exact le_highest (List.mem_map_of_mem hother)

/-- If nothing is complete, the terminal is shifted wherever it leads. -/
theorem decide_nil (m : Automaton) (place : Nat) (s : Symbol) (target? : Option Nat)
    (items : List Item) : m.decide place s target? items [] =
      .ok ((target?.map Action.shift).getD .error, 0) := by
  unfold Automaton.decide
  rw [if_pos List.isEmpty_nil]
  cases target? <;> rfl

/-- What is done on a terminal if one production is up against the shift. -/
def against (m : Automaton) (place : Nat) (s : Symbol) (target? : Option Nat) (items : List Item)
    (p : Nat) : Except GrammarError Action :=
  if p = m.augmented.whole then .ok .accept
  else
    match target? with
    | none => .ok (.reduce p)
    | some target => (m.shiftReduce place s items p).map fun
        | .shift => .shift target
        | .reduce => .reduce p

/-- Where a terminal leads nowhere, it does not matter which items shift it. -/
theorem against_none (m : Automaton) (place : Nat) (s : Symbol) (items items' : List Item)
    (p : Nat) : m.against place s none items p = m.against place s none items' p :=
  rfl

/-- **A decision is between the shift and the production that wins among the complete ones.** -/
theorem map_decide (m : Automaton) (place : Nat) (s : Symbol) (target? : Option Nat)
    (items : List Item) (h : productions ≠ []) :
    (m.decide place s target? items productions).map (·.1) =
      m.reduceReduce place s productions >>= m.against place s target? items := by
  have hone : ∀ p count, Except.map (fun cell : Action × Nat => cell.1)
      (if p = m.augmented.whole then pure (Action.accept, count)
      else
        match target? with
        | none => pure (Action.reduce p, count)
        | some target => do
          match ← m.shiftReduce place s items p with
          | .shift => pure (Action.shift target, count + 1)
          | .reduce => pure (Action.reduce p, count + 1)) = m.against place s target? items p := by
    intro p count
    unfold against
    split
    · rfl
    · cases target? with
      | none => rfl
      | some target =>
        cases hwinner : m.shiftReduce place s items p with
        | error e => rfl
        | ok winner => cases winner <;> rfl
  unfold Automaton.decide
  rw [if_neg (by simpa using h)]
  dsimp only
  split
  · rename_i single
    rw [reduceReduce_single]
    exact hone single 0
  · cases hwinner : m.reduceReduce place s productions with
    | error e => rfl
    | ok p => exact hone p 1

theorem cases_of_against (h : m.against place s target? items p = .ok action) :
    p = m.augmented.whole ∧ action = .accept ∨ p ≠ m.augmented.whole ∧
      (action = .reduce p ∨ ∃ target, target? = some target ∧ action = .shift target) := by
  unfold against at h
  split at h
  · rename_i hwhole
    exact .inl ⟨hwhole, (Except.ok.inj h).symm⟩
  · rename_i hwhole
    refine .inr ⟨hwhole, ?_⟩
    cases target? with
    | none => exact .inl (Except.ok.inj h).symm
    | some target =>
      cases hwinner : m.shiftReduce place s items p with
      | error e =>
        rw [hwinner] at h
        cases h
      | ok winner =>
        rw [hwinner] at h
        cases winner with
        | shift => exact .inr ⟨target, rfl, (Except.ok.inj h).symm⟩
        | reduce => exact .inl (Except.ok.inj h).symm

end Automaton

/-! ### Candidates -/

/-- Whether an item of a state goes on with a terminal. -/
def ShiftsOn (g : PreparedGrammar) (q : Nat) (t : Symbol) : Prop :=
  ∃ entry ∈ g.automaton.closureOf q, (augment g).next? entry.1 = some t

/-- Whether an item of a state completes a production and has a terminal in its lookahead. -/
def CompletesOn (g : PreparedGrammar) (q : Nat) (t : Symbol) (p : Nat) : Prop :=
  ∃ entry ∈ g.automaton.closureOf q, entry.1.production = p ∧
    (augment g).isComplete entry.1 = true ∧ entry.2.contains t = true

/-- What the items of a state call for on a terminal. -/
inductive Candidate (g : PreparedGrammar) (q : Nat) (state : State) (t : Symbol) : Action → Prop where
  | shift {r : Nat} (shifts : ShiftsOn g q t) (leads : state.transition? t = some r) :
      Candidate g q state t (.shift r)
  | reduce {p : Nat} (completes : CompletesOn g q t p) (part : p ≠ (augment g).whole) :
      Candidate g q state t (.reduce p)
  | accept (completes : CompletesOn g q t (augment g).whole) : Candidate g q state t .accept

/-- A candidate is called for by an item. -/
theorem Candidate.called {g : PreparedGrammar} {q : Nat} {state : State} {t : Symbol}
    {action : Action} (h : Candidate g q state t action) :
    ShiftsOn g q t ∨ ∃ p, CompletesOn g q t p := by
  cases h with
  | shift shifts _ => exact .inl shifts
  | reduce completes _ => exact .inr ⟨_, completes⟩
  | accept completes => exact .inr ⟨_, completes⟩

/-- Whether an action is the right one for a cell: it is one of the candidates. -/
structure Settles (g : PreparedGrammar) (q : Nat) (state : State) (t : Symbol) (action : Action) :
    Prop where
  /-- It is an error just where nothing is called for. -/
  error : action = .error ↔ ¬ShiftsOn g q t ∧ ∀ p, ¬CompletesOn g q t p
  candidate : action ≠ .error → Candidate g q state t action
  /-- A production is reduced only if none of a higher level is complete. -/
  highest : ∀ p, action = .reduce p → ∀ other, CompletesOn g q t other →
    g.automaton.levelOf other ≤ g.automaton.levelOf p
  /-- The only candidate is chosen. -/
  only : ∀ candidate, Candidate g q state t candidate →
    (∀ other, Candidate g q state t other → other = candidate) → action = candidate

namespace Rows

/-- Whether the rows of a table have all cells, each with the right action or goto. -/
structure Filled (g : PreparedGrammar) (rows : Rows) : Prop where
  stateCount : rows.stateCount = g.automaton.states.size
  size : rows.actions.size = g.automaton.states.size * g.terminalCount ∧
    rows.gotos.size = g.automaton.states.size * g.nonTerminals.size
  action : ∀ (q : Nat) (state : State), g.automaton.states[q]? = some state →
    ∀ t, g.isTerminal t = true → ∃ action : Action,
      rows.actions[q * g.terminalCount + t.index]? = some action ∧ Settles g q state t action
  /-- A goto is where the phrase kind leads. -/
  goto : ∀ (q : Nat) (state : State), g.automaton.states[q]? = some state →
    ∀ kind < g.nonTerminals.size, rows.gotos[q * g.nonTerminals.size + kind]? =
      some (state.transition? (g.nonTerminalSymbol kind))

variable {g : PreparedGrammar} {rows : Rows} {q p : Nat} {state : State} {t : Symbol}

theorem mem_completedOn_iff : p ∈ g.automaton.completedOn q t ↔ CompletesOn g q t p :=
  Automaton.mem_completedOn

/-- A terminal can be shifted just where it leads somewhere. -/
theorem shiftsOn_iff (hstate : g.automaton.states[q]? = some state) :
    ShiftsOn g q t ↔ ∃ r, state.transition? t = some r := by
  constructor
  · rintro ⟨entry, hentry, hnext⟩
    obtain ⟨r, hr⟩ := exists_transition hstate (mem_itemsAt hstate hentry) hnext
    exact ⟨r, (transition?_eq_some hstate).mpr hr⟩
  · rintro ⟨r, hr⟩
    obtain ⟨item, hitem, hnext⟩ :=
      (Leads.of_transition hstate ((transition?_eq_some hstate).mp hr)).exists_item
    rw [← map_fst_closureOf hstate] at hitem
    obtain ⟨entry, hentry, rfl⟩ := List.mem_map.mp hitem
    exact ⟨entry, hentry, hnext⟩

/-- The places of a row are within the rows. -/
theorem index_lt_of_row {width i : Nat} (hstate : g.automaton.states[q]? = some state)
    (hi : i < width) : q * width + i < g.automaton.states.size * width := by
  have hq := (Array.getElem?_eq_some_iff.mp hstate).choose
  calc q * width + i
    _ < (q + 1) * width := by
        rw [Nat.succ_mul]
        exact Nat.add_lt_add_left hi _
    _ ≤ g.automaton.states.size * width := Nat.mul_le_mul_right _ hq

section

variable (h : g.automaton.rows = .ok rows) (hstate : g.automaton.states[q]? = some state)
include h hstate

/-- The cell of a terminal for which nothing is called for is an error. -/
theorem action_eq_error (hshift : state.transition? t = none)
    (hreduce : g.automaton.completedOn q t = []) : rows.action g q t = .error := by
  by_contra hne
  obtain ⟨-, state', hstate', hjustified⟩ := justified h rfl hne
  obtain rfl := Option.some.inj (hstate.symm.trans hstate')
  have hnone : ∀ p, ¬CompletesOn g q t p := by
    intro p hp
    rw [← mem_completedOn_iff, hreduce] at hp
    cases hp
  cases haction : rows.action g q t with
  | error => exact hne haction
  | shift r =>
    rw [haction] at hjustified
    rw [(transition?_eq_some hstate).mpr hjustified] at hshift
    cases hshift
  | reduce p =>
    rw [haction] at hjustified
    exact hnone p hjustified.2
  | accept =>
    rw [haction] at hjustified
    exact hnone _ hjustified

variable (ht : g.isTerminal t = true)
include ht

/-- What the cell of a terminal is: the shift if nothing is complete, and otherwise what is decided
between the shift and the production that wins. -/
theorem action_spec :
    (g.automaton.completedOn q t = [] ∧
      rows.action g q t = ((state.transition? t).map Action.shift).getD .error) ∨
    ∃ p, g.automaton.reduceReduce q t (g.automaton.completedOn q t) = .ok p ∧
      g.automaton.against q t (state.transition? t) (g.automaton.shiftingOn q t) p =
        .ok (rows.action g q t) := by
  by_cases hmove : (∃ r, (t, r) ∈ state.transitions) ∨ g.automaton.completedOn q t ≠ []
  · obtain ⟨target?, items, count, hdecide, -, htarget, hnone⟩ :=
      decide_action h hstate ht hmove
    -- the decision was made with the target of the transition, if there is one
    have hleads : state.transition? t = target? := by
      cases target? with
      | none => exact hnone rfl
      | some target => exact (transition?_eq_some hstate).mpr (htarget target rfl).1
    rw [hleads]
    by_cases hempty : g.automaton.completedOn q t = []
    · left
      rw [hempty, Automaton.decide_nil] at hdecide
      exact ⟨hempty, (congrArg Prod.fst (Except.ok.inj hdecide)).symm⟩
    · right
      have hmap := g.automaton.map_decide q t target? items hempty
      rw [hdecide] at hmap
      obtain ⟨p, hp, hagainst⟩ := bind_eq_ok.mp hmap.symm
      refine ⟨p, hp, ?_⟩
      cases target? with
      | none => rwa [Automaton.against_none _ _ _ _ items]
      | some target => rwa [← (htarget target rfl).2]
  · left
    obtain ⟨hnone, hempty⟩ := not_or.mp hmove
    rw [not_not] at hempty
    have hshift := Automaton.transition?_eq_none (not_exists.mp hnone)
    rw [hshift]
    exact ⟨hempty, action_eq_error h hstate hshift hempty⟩

/-- An action that is no error is one of the candidates. -/
theorem candidate_of_ne_error (hne : rows.action g q t ≠ .error) :
    Candidate g q state t (rows.action g q t) := by
  rcases action_spec h hstate ht with ⟨-, haction⟩ | ⟨p, hp, hagainst⟩
  · cases hshift : state.transition? t with
    | none =>
      rw [hshift] at haction
      exact absurd haction hne
    | some r =>
      rw [hshift] at haction
      rw [haction]
      exact .shift ((shiftsOn_iff hstate).mpr ⟨r, hshift⟩) hshift
  · have hcompletes := mem_completedOn_iff.mp (Automaton.mem_of_reduceReduce hp)
    rcases Automaton.cases_of_against hagainst with
      ⟨rfl, haction⟩ | ⟨hpart, haction | ⟨r, hshift, haction⟩⟩
    · rw [haction]
      exact .accept hcompletes
    · rw [haction]
      exact .reduce hcompletes hpart
    · rw [haction]
      exact .shift ((shiftsOn_iff hstate).mpr ⟨r, hshift⟩) hshift

/-- A cell is an error just where nothing is called for. -/
theorem action_eq_error_iff :
    rows.action g q t = .error ↔ ¬ShiftsOn g q t ∧ ∀ p, ¬CompletesOn g q t p := by
  constructor
  · intro haction
    rcases action_spec h hstate ht with ⟨hempty, hshift⟩ | ⟨p, hp, hagainst⟩
    · constructor
      · rw [shiftsOn_iff hstate]
        rintro ⟨r, hr⟩
        rw [hr, haction] at hshift
        cases hshift
      · intro p hcompletes
        rw [← mem_completedOn_iff, hempty] at hcompletes
        cases hcompletes
    · rw [haction] at hagainst
      rcases Automaton.cases_of_against hagainst with
        ⟨-, hno⟩ | ⟨-, hno | ⟨r, -, hno⟩⟩ <;> cases hno
  · rintro ⟨hshift, hreduce⟩
    by_contra hne
    rcases (candidate_of_ne_error h hstate ht hne).called with hshifts | ⟨p, hcompletes⟩
    · exact hshift hshifts
    · exact hreduce p hcompletes

/-- A production that is reduced has the highest level of those that are complete. -/
theorem levelOf_le_of_reduce (haction : rows.action g q t = .reduce p) {other : Nat}
    (hother : CompletesOn g q t other) :
    g.automaton.levelOf other ≤ g.automaton.levelOf p := by
  rcases action_spec h hstate ht with ⟨hempty, -⟩ | ⟨winner, hwinner, hagainst⟩
  · rw [← mem_completedOn_iff, hempty] at hother
    cases hother
  · have hle := Automaton.levelOf_le_of_reduceReduce hwinner other
      (mem_completedOn_iff.mpr hother)
    rw [haction] at hagainst
    rcases Automaton.cases_of_against hagainst with
      ⟨-, hno⟩ | ⟨-, hreduce | ⟨r, -, hno⟩⟩
    · cases hno
    · obtain rfl := Action.reduce.inj hreduce
      exact hle
    · cases hno

/-- **The cell of a terminal holds a candidate.** -/
theorem settles : Settles g q state t (rows.action g q t) where
  error := action_eq_error_iff h hstate ht
  candidate := candidate_of_ne_error h hstate ht
  highest := fun _ haction _ hother => levelOf_le_of_reduce h hstate ht haction hother
  only := by
    intro candidate hcalled hunique
    -- something is called for, so that the cell is a candidate as well
    refine hunique _ (candidate_of_ne_error h hstate ht fun herror => ?_)
    obtain ⟨hshift, hreduce⟩ := (action_eq_error_iff h hstate ht).mp herror
    rcases hcalled.called with hshifts | ⟨p, hcompletes⟩
    · exact hshift hshifts
    · exact hreduce p hcompletes

end

/-- A goto is where the phrase kind leads. -/
theorem goto?_eq_transition? (h : g.automaton.rows = .ok rows)
    (hstate : g.automaton.states[q]? = some state) {kind : Nat} (hkind : kind < g.nonTerminals.size) :
    rows.goto? g q kind = state.transition? (g.nonTerminalSymbol kind) := by
  cases hleads : state.transition? (g.nonTerminalSymbol kind) with
  | some r => exact goto?_eq_some h hkind hstate ((transition?_eq_some hstate).mp hleads)
  | none =>
    by_contra hne
    obtain ⟨r, hr⟩ := Option.ne_none_iff_exists'.mp hne
    obtain ⟨state', hstate', hmem⟩ := exists_transition_of_goto h hkind hr
    obtain rfl := Option.some.inj (hstate.symm.trans hstate')
    rw [(transition?_eq_some hstate).mpr hmem] at hleads
    cases hleads

/-- **All cells are filled.** In the rows of a table, every cell holds one of the candidates for it,
and every goto is a transition. -/
theorem filled (h : g.automaton.rows = .ok rows) : Filled g rows := by
  obtain ⟨hactions, hgotos⟩ := Automaton.size_of_rows h
  refine ⟨(Automaton.addRows_spec h).1, ⟨hactions, hgotos⟩, fun q state hstate t ht => ?_,
    fun q state hstate kind hkind => ?_⟩
  · have hlt : q * g.terminalCount + t.index < rows.actions.size := by
      rw [hactions]
      exact index_lt_of_row hstate (of_decide_eq_true ht)
    have hcell := Array.getElem?_eq_getElem hlt
    have haction : rows.action g q t = rows.actions[q * g.terminalCount + t.index] := by
      rw [Rows.action, if_pos ht, hcell, Option.getD_some]
    exact ⟨_, haction ▸ hcell, settles h hstate ht⟩
  · have hlt : q * g.nonTerminals.size + kind < rows.gotos.size := by
      rw [hgotos]
      exact index_lt_of_row hstate hkind
    have hcell := Array.getElem?_eq_getElem hlt
    rw [hcell, ← goto?_eq_transition? h hstate hkind, goto?, hcell, Option.join_some]

end Rows

/-- Conditionals whose second branch may be left out, such as `if if x else x`. -/
def conditionals : Grammar where
  name := "conditionals"
  rules := [("statement", .choice [
    .seq [.literal "if", .reference "statement", .literal "else", .reference "statement"],
    .seq [.literal "if", .reference "statement"],
    .literal "x"])]
  extras := []
  conflicts := []
  externals := []
  word := none

/-- The second branch of conditionals is a conflict that is decided. -/
theorem Rows.filled_conditionals : ∃ g rows, conditionals.prepare = .ok g ∧
    g.automaton.rows = .ok rows ∧ rows.resolved = 1 ∧ Filled g rows := by
  have hcheck : conditionals.prepare.toOption.any (fun g =>
      g.automaton.rows.toOption.any fun rows => rows.resolved = 1) = true := by
    decide +kernel
  obtain ⟨g, hprepare, hcheck⟩ := (Option.any_eq_true ..).mp hcheck
  obtain ⟨rows, hrows, hresolved⟩ := (Option.any_eq_true ..).mp hcheck
  have hrows := eq_ok_of_toOption hrows
  exact ⟨g, rows, eq_ok_of_toOption hprepare, hrows, of_decide_eq_true hresolved, filled hrows⟩

end LRWorkbench.Lalr
