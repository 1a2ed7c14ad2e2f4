import LRWorkbench.Proofs.Lalr.Closure
import LRWorkbench.Proofs.Lalr.Lookahead
import LRWorkbench.Proofs.Lalr.Path
import Mathlib.Algebra.Ring.Nat

/-!
# Lookaheads are propagated to the end

The rounds in which lookaheads go from state to state end: every round but the last makes a
lookahead larger, and each has room for the terminals of the grammar only. What the last round
leaves unchanged has been passed on in full (`Augmented.propagated_automaton`).
-/

namespace LRWorkbench.Lalr

/-- What a lookahead is resolved to: its own terminals and those that it inherits. -/
theorem Lookahead.contains_resolve_iff {l : Lookahead} {kernel : TerminalSet} {s : Symbol} :
    (l.resolve kernel).contains s = true ↔
      l.terminals.contains s = true ∨ l.inherits = true ∧ kernel.contains s = true := by
  rw [resolve]
  split
  · rename_i h
    simp [h]
  · rename_i h
    simp [h]

namespace Lookaheads

variable {found : Lookaheads} {i j place position : Nat} {more less : TerminalSet}

theorem lookup_modify (row : Array TerminalSet) (hrow : found[i]? = some row) (hj : j < row.size)
    (set : TerminalSet) :
    Lookaheads.lookup (found.modify i fun row => row.setIfInBounds j set) place position =
      if place = i ∧ position = j then set else found.lookup place position := by
  by_cases hplace : place = i
  · subst hplace
    by_cases hposition : position = j
    · subst hposition
      simp [lookup, Array.getElem?_modify, hrow, hj]
    · simp [lookup, Array.getElem?_modify, hrow, hposition,
        Array.getElem?_setIfInBounds_ne (Ne.symm hposition)]
  · simp [lookup, Array.getElem?_modify, hplace, Ne.symm hplace]

end Lookaheads

namespace Augmented

variable {g : PreparedGrammar} {states : Array State} {found : Lookaheads}

/-! ### Rounds over all states -/

/-- Whether a kernel of some states has an item at a place. -/
def InShape (states : Array State) (place position : Nat) : Prop :=
  ∃ state, states[place]? = some state ∧ position < state.kernel.length

/-- Whether there is a lookahead for each kernel item of some states, of terminals below a bound. -/
structure Shaped (states : Array State) (bound : Nat) (found : Lookaheads) : Prop where
  rows : ∀ place position, InShape states place position →
    ∃ row, found[place]? = some row ∧ position < row.size
  below : ∀ place position, (found.lookup place position).Below bound

/-- Whether a kernel item has some lookaheads. -/
def Has (place position : Nat) (less : TerminalSet) (found : Lookaheads) : Prop :=
  (found.lookup place position).includes less = true

/-- What the lookaheads of some kernel items are together. -/
def totalOf (sources : List Source) (bound : Nat) (found : Lookaheads) : Nat :=
  (sources.map fun source => (found.lookup source.state source.position).count bound).sum

/-- This bounds the number of rounds, as each that changes anything makes the total larger. -/
theorem totalOf_le (sources : List Source) (bound : Nat) (found : Lookaheads) :
    totalOf sources bound found ≤ sources.length * bound := by
  refine (List.sum_le_card_nsmul _ bound fun count hcount => ?_).trans_eq ?_
  · obtain ⟨source, -, rfl⟩ := List.mem_map.mp hcount
    exact TerminalSet.count_le ..
  · rw [List.length_map, nsmul_eq_mul]
    rfl

section Widen

variable {i j place position bound : Nat} {more less : TerminalSet} {sources : List Source}

theorem widen_of_has (h : Has i j more found) : found.widen i j more = found := by
  rw [Has] at h
  simp only [Lookaheads.widen, h, if_true]

/-- Widening changes the lookahead at one place only. -/
theorem Shaped.lookup_widen (h : Shaped states bound found) (hshape : InShape states i j)
    (hnot : ¬Has i j more found) :
    (found.widen i j more).lookup place position =
      if place = i ∧ position = j then (found.lookup i j).union more
      else found.lookup place position := by
  obtain ⟨row, hrow, hlt⟩ := h.rows i j hshape
  rw [Has, Bool.not_eq_true] at hnot
  simp only [Lookaheads.widen, hnot, Bool.false_eq_true, if_false]
  exact Lookaheads.lookup_modify row hrow hlt _

/-- What a kernel item has it keeps. -/
theorem Has.widen (h : Has place position less found) (hfound : Shaped states bound found)
    (hshape : InShape states i j) : Has place position less (found.widen i j more) := by
  by_cases hhas : Has i j more found
  · rwa [widen_of_has hhas]
  · rw [Has, hfound.lookup_widen hshape hhas]
    split
    · rename_i heq
      obtain ⟨rfl, rfl⟩ := heq
      rw [Has, TerminalSet.includes_iff] at h
      rw [TerminalSet.includes_iff]
      intro s hs
      rw [TerminalSet.contains_union, h s hs, Bool.true_or]
    · exact h

/-- However much was found before, a place has all that was added to it. -/
theorem has_widen (hfound : Shaped states bound found) (hshape : InShape states i j) :
    Has i j more (found.widen i j more) := by
  by_cases hhas : Has i j more found
  · rwa [widen_of_has hhas]
  · rw [Has, hfound.lookup_widen hshape hhas, if_pos ⟨rfl, rfl⟩, TerminalSet.includes_iff]
    intro s hs
    rw [TerminalSet.contains_union, hs, Bool.or_true]

theorem Shaped.widen (h : Shaped states bound found) (hshape : InShape states i j)
    (hmore : more.Below bound) : Shaped states bound (found.widen i j more) where
  rows := by
    intro place position hplace
    obtain ⟨row, hrow, hlt⟩ := h.rows place position hplace
    rw [Lookaheads.widen]
    split
    · exact ⟨row, hrow, hlt⟩
    · by_cases hi : i = place
      · subst hi
        exact ⟨row.setIfInBounds j ((found.lookup i j).union more),
          by simp [Array.getElem?_modify, hrow], by rwa [Array.size_setIfInBounds]⟩
      · exact ⟨row, by simpa [Array.getElem?_modify, hi] using hrow, hlt⟩
  below := by
    intro place position
    by_cases hhas : Has i j more found
    · rw [widen_of_has hhas]
      exact h.below place position
    · rw [h.lookup_widen hshape hhas]
      split
      · exact (h.below i j).union hmore
      · exact h.below place position

/-- A widening takes nothing away and makes the total larger unless it changes nothing, which is
what lets the rounds end. -/
theorem inflates_widenAt (hshape : InShape states i j) (hmore : more.Below bound)
    (hsource : ∃ source ∈ sources, source.state = i ∧ source.position = j) :
    Rounds.Inflates (fun found => Shaped states bound found ∧ Has place position less found)
      (totalOf sources bound) (Lookaheads.widen · i j more) := by
  rintro found ⟨hfound, hless⟩
  refine ⟨⟨hfound.widen hshape hmore, hless.widen hfound hshape⟩, ?_⟩
  by_cases hhas : Has i j more found
  · exact .inl (widen_of_has hhas)
  · right
    have hlookup : ∀ place position, (found.widen i j more).lookup place position =
        if place = i ∧ position = j then (found.lookup i j).union more
        else found.lookup place position :=
      fun place position => hfound.lookup_widen hshape hhas
    rw [Has, Bool.not_eq_true] at hhas
    have hlt := TerminalSet.count_lt_count_union hmore hhas
    obtain ⟨source, hmem, rfl, rfl⟩ := hsource
    refine List.sum_lt_sum _ _ (fun other _ => ?_) ⟨source, hmem, ?_⟩
    · rw [hlookup]
      split
      · rename_i heq
        rw [heq.1, heq.2]
        exact Nat.le_of_lt hlt
      · exact Nat.le_refl _
    · rw [hlookup, if_pos ⟨rfl, rfl⟩]
      exact hlt

end Widen

/-- What the kernel item has is put in for what is inherited, so no symbol but terminals comes
in. -/
theorem below_resolve {l : Lookahead} {own : TerminalSet} {bound : Nat}
    (hl : l.terminals.Below bound) (hown : own.Below bound) : (l.resolve own).Below bound := by
  rw [Lookahead.resolve]
  split
  · exact hl.union hown
  · exact hl

/-- What a flow is: the lookahead of an item of the closure goes to the item advanced. -/
theorem exists_of_flow? {state : State} {entry : Item × Lookahead} {f : Flow}
    (h : (augment g).flow? states state entry = some f) : ∃ s successor,
      (augment g).next? entry.1 = some s ∧ state.transition? s = some f.target ∧
      states[f.target]? = some successor ∧
      successor.kernel.findIdx? (· = entry.1.advance) = some f.position ∧ f.lookahead = entry.2 := by
  obtain ⟨s, hs, h⟩ := Option.bind_eq_some_iff.mp h
  obtain ⟨target, htarget, h⟩ := Option.bind_eq_some_iff.mp h
  obtain ⟨successor, hsuccessor, h⟩ := Option.bind_eq_some_iff.mp h
  obtain ⟨position, hposition, h⟩ := Option.bind_eq_some_iff.mp h
  cases h
  exact ⟨s, successor, hs, htarget, hsuccessor, hposition, rfl⟩

/-- A flow goes along a transition, to the place of the advanced item in the successor. -/
theorem flow?_eq_some {state successor : State} {item : Item} {l : Lookahead} {s : Symbol}
    {r position : Nat} (hs : (augment g).next? item = some s) (hr : state.transition? s = some r)
    (hsuccessor : states[r]? = some successor)
    (hposition : successor.kernel.findIdx? (· = item.advance) = some position) :
    (augment g).flow? states state (item, l) = some ⟨r, position, l⟩ := by
  simp only [flow?, hs, hr, hsuccessor, hposition, Option.bind_eq_bind, Option.bind_some,
    Option.pure_def]

/-- Every kernel item of every state is a source. -/
theorem exists_source {place position : Nat} {state : State} {item : Item}
    (hstate : states[place]? = some state) (hitem : state.kernel[position]? = some item) :
    ⟨place, position, (augment g).flows states state item⟩ ∈ (augment g).sources states := by
  refine List.mem_flatMap.mpr ⟨(state, place), ?_, List.mem_map.mpr ⟨(item, position), ?_, rfl⟩⟩
  · exact List.mem_zipIdx_iff_getElem?.mpr (by simpa using hstate)
  · exact List.mem_zipIdx_iff_getElem?.mpr hitem

section Spread

variable {place position : Nat} {less : TerminalSet} {source : Source}

/-- Flows go from kernel items to kernel items, and carry terminals of the grammar. -/
theorem spec_of_mem_flows (hlhs : ∀ p ∈ g.productions, p.lhs < g.nonTerminals.size)
    (hsource : source ∈ (augment g).sources states) {f : Flow} (hf : f ∈ source.flows) :
    InShape states f.target f.position ∧ f.lookahead.terminals.Below g.terminalCount ∧
      ∃ other ∈ (augment g).sources states,
        other.state = f.target ∧ other.position = f.position := by
  obtain ⟨state, item, -, -, hflows⟩ := mem_sources hsource
  rw [hflows] at hf
  obtain ⟨entry, hentry, hflow⟩ := List.mem_filterMap.mp hf
  obtain ⟨s, successor, -, -, hsuccessor, hposition, hlookahead⟩ := exists_of_flow? hflow
  obtain ⟨hlt, -⟩ := List.findIdx?_eq_some_iff_getElem.mp hposition
  refine ⟨⟨successor, hsuccessor, hlt⟩, ?_, ?_⟩
  · rw [hlookahead]
    refine below_of_mem_closureWith hlhs (fun e he => ?_) hentry
    rw [List.mem_singleton.mp he]
    exact TerminalSet.below_empty _
  · exact ⟨_, exists_source hsuccessor (List.getElem?_eq_getElem hlt), rfl, rfl⟩

/-- A flow widens the place that it leads to. -/
theorem inflates_flow (hlhs : ∀ p ∈ g.productions, p.lhs < g.nonTerminals.size)
    (hsource : source ∈ (augment g).sources states) {f : Flow} (hf : f ∈ source.flows)
    {own : TerminalSet} (hown : own.Below g.terminalCount) :
    Rounds.Inflates
      (fun found => Shaped states g.terminalCount found ∧ Has place position less found)
      (totalOf ((augment g).sources states) g.terminalCount)
      (Lookaheads.widen · f.target f.position (f.lookahead.resolve own)) := by
  obtain ⟨hshape, hbelow, hother⟩ := spec_of_mem_flows hlhs hsource hf
  exact inflates_widenAt hshape (below_resolve hbelow hown) hother

/-- A source widens the targets of its flows, one after the other. -/
theorem inflates_spread (hlhs : ∀ p ∈ g.productions, p.lhs < g.nonTerminals.size)
    (hsource : source ∈ (augment g).sources states) :
    Rounds.Inflates
      (fun found => Shaped states g.terminalCount found ∧ Has place position less found)
      (totalOf ((augment g).sources states) g.terminalCount) (Source.spread · source) := by
  intro found h
  have hown := h.1.below source.state source.position
  exact Rounds.inflates_foldl (fun f hf => inflates_flow hlhs hsource hf hown) found h

theorem spreadAll_eq (sources : List Source) (rounds : Nat) (found : Lookaheads) :
    spreadAll sources rounds found = Rounds.settle (sources.foldl Source.spread ·) rounds found := by
  induction rounds generalizing found with
  | zero => rfl
  | succ rounds ih => rw [spreadAll, Rounds.settle, ih]

theorem has_empty (place position : Nat) (found : Lookaheads) : Has place position .empty found := by
  rw [Has, TerminalSet.includes_iff]
  intro s hs
  rw [TerminalSet.contains_empty] at hs
  cases hs

/-- When the rounds end, all lookaheads have been passed on, and nothing got lost. -/
theorem has_of_spreadAll (hlhs : ∀ p ∈ g.productions, p.lhs < g.nonTerminals.size) {rounds : Nat}
    (hrounds : ((augment g).sources states).length * g.terminalCount < rounds) {start : Lookaheads}
    (hstart : Shaped states g.terminalCount start)
    (hspread : spreadAll ((augment g).sources states) rounds start = found) :
    Shaped states g.terminalCount found ∧
    (∀ place position less, Has place position less start → Has place position less found) ∧
    ∀ source ∈ (augment g).sources states, ∀ f ∈ source.flows,
      Has f.target f.position
        (f.lookahead.resolve (found.lookup source.state source.position)) found := by
  have hround : ∀ place position less, ∀ source ∈ (augment g).sources states, Rounds.Inflates
      (fun found => Shaped states g.terminalCount found ∧ Has place position less found)
      (totalOf ((augment g).sources states) g.terminalCount) (Source.spread · source) :=
    fun place position less source hsource => inflates_spread hlhs hsource
  have hend : ∀ place position less, Has place position less start →
      (Shaped states g.terminalCount found ∧ Has place position less found) ∧
        ((augment g).sources states).foldl Source.spread found = found := by
    intro place position less hhas
    rw [← hspread, spreadAll_eq]
    exact Rounds.settle_spec (Rounds.inflates_foldl (hround place position less))
      (fun found _ => totalOf_le _ g.terminalCount found) ⟨hstart, hhas⟩ (by omega)
  obtain ⟨hfound, hsame⟩ := hend 0 0 .empty (has_empty ..)
  refine ⟨hfound.1, fun place position less hhas => (hend place position less hhas).1.2, ?_⟩
  intro source hsource f hf
  -- neither this kernel item nor this flow changed anything in the last round
  have hitem := Rounds.step_eq_of_foldl_eq (hround 0 0 .empty) hfound hsame source hsource
  have hown := hfound.1.below source.state source.position
  have hflows : ∀ f ∈ source.flows, Rounds.Inflates
      (fun found => Shaped states g.terminalCount found ∧ Has 0 0 .empty found)
      (totalOf ((augment g).sources states) g.terminalCount)
      (Lookaheads.widen · f.target f.position
        (f.lookahead.resolve (found.lookup source.state source.position))) :=
    fun f hf => inflates_flow hlhs hsource hf hown
  have hstep := Rounds.step_eq_of_foldl_eq hflows hfound hitem f hf
  have hshape := (spec_of_mem_flows hlhs hsource hf).1
  rw [← congrArg (Has f.target f.position _) hstep]
  exact has_widen hfound.1 hshape

end Spread

/-! ### The lookaheads of the automaton -/

theorem shaped_replicate (states : Array State) (bound : Nat) :
    Shaped states bound (states.map fun state => Array.replicate state.kernel.length
      TerminalSet.empty) where
  rows := by
    rintro place position ⟨state, hstate, hlt⟩
    exact ⟨Array.replicate state.kernel.length .empty, by simp [hstate], by simpa using hlt⟩
  below := by
    intro place position
    rw [lookup_replicate]
    exact TerminalSet.below_empty bound

/-- Lookaheads of kernel items that are passed on in full. -/
structure Propagated (g : PreparedGrammar) (found : Lookaheads) : Prop where
  below : ∀ place position, (found.lookup place position).Below g.terminalCount
  start : (found.lookup 0 0).contains .endOfInput = true
  flows : ∀ source ∈ (augment g).sources g.automaton.states, ∀ f ∈ source.flows,
    Has f.target f.position (f.lookahead.resolve (found.lookup source.state source.position)) found

/-- The first state has the start item alone. -/
theorem exists_start (g : PreparedGrammar) : ∃ state, g.automaton.states[0]? = some state ∧
    state.kernel = [(augment g).startItem] := by
  have hstart := (explored_collection g).start
  rwa [kernels_getElem?, Option.map_eq_some_iff] at hstart

/-- **Lookaheads are passed on to the end.** -/
theorem propagated_automaton (hlhs : ∀ p ∈ g.productions, p.lhs < g.nonTerminals.size)
    (hpos : 0 < g.terminalCount) : Propagated g g.automaton.lookaheads := by
  have hzero : InShape g.automaton.states 0 0 := by
    obtain ⟨state, hstate, hkernel⟩ := exists_start g
    exact ⟨state, hstate, by simp [hkernel]⟩
  have hend : (TerminalSet.empty.insert .endOfInput).Below g.terminalCount :=
    (TerminalSet.below_empty _).insert hpos
  have hstart := shaped_replicate g.automaton.states g.terminalCount
  have hspread : spreadAll ((augment g).sources g.automaton.states)
      (((augment g).sources g.automaton.states).length * g.terminalCount + 1)
      (initialLookaheads g.automaton.states) = g.automaton.lookaheads := by
    simp only [PreparedGrammar.automaton, Augmented.automaton]
    rfl
  obtain ⟨hshaped, hkept, hflows⟩ := has_of_spreadAll hlhs (Nat.lt_succ_self _)
    (hstart.widen hzero hend) hspread
  refine ⟨hshaped.below, ?_, hflows⟩
  have hhas := hkept 0 0 _ (has_widen hstart hzero)
  exact TerminalSet.includes_iff.mp hhas _ (TerminalSet.contains_endOfInput.mpr rfl)

end Augmented

namespace Automaton

variable {m : Automaton} {q : Nat}

/-- The kernel of a state has its items, each with its lookahead. -/
theorem exists_of_mem_kernelOf {entry : Item × TerminalSet} (h : entry ∈ m.kernelOf q) :
    ∃ position, entry.2 = m.lookaheads.lookup q position := by
  rw [kernelOf] at h
  split at h
  · cases h
  · obtain ⟨⟨item, position⟩, -, rfl⟩ := List.mem_map.mp h
    exact ⟨position, rfl⟩

theorem mem_kernelOf {state : State} {position : Nat} {item : Item}
    (hstate : m.states[q]? = some state) (hitem : state.kernel[position]? = some item) :
    (item, m.lookaheads.lookup q position) ∈ m.kernelOf q := by
  rw [kernelOf, hstate]
  exact List.mem_map.mpr ⟨(item, position), List.mem_zipIdx_iff_getElem?.mpr hitem, rfl⟩

end Automaton

end LRWorkbench.Lalr
