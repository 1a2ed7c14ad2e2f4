import LRWorkbench.Proofs.Lalr.Item
import LRWorkbench.Proofs.Table.TerminalSet
import LRWorkbench.Lalr.Lookahead

/-!
# What holds of all lookaheads

Lookaheads start with the end of the input after the whole input, and all others flow there from
kernel items. What holds of the start and is handed on by flows therefore holds of all lookaheads
(`Augmented.all_lookaheads`).

For one, the lookahead of an item flows only to items of its production or to ones with the dot at
the start. So nothing but the end of the input ever follows the whole input
(`Augmented.eq_end_of_mem_closureOf`).
-/

namespace LRWorkbench.Lalr

namespace Lookaheads

/-- What is in a lookahead that was added to was there before or was added. -/
theorem contains_lookup_widen {found : Lookaheads} {i j place position : Nat} {more : TerminalSet}
    {s : Symbol} (h : ((found.widen i j more).lookup place position).contains s) :
    (found.lookup place position).contains s ∨ place = i ∧ position = j ∧ more.contains s := by
  rw [Lookaheads.widen] at h
  split at h
  · exact .inl h
  by_cases hplace : place = i
  · subst hplace
    by_cases hposition : position = j
    · subst hposition
      -- the entry itself, if there is one
      cases hrow : found[place]? with
      | none =>
        simp [lookup, hrow, Array.getElem?_modify] at h
      | some row =>
        by_cases hlt : position < row.size
        · have hunion : ((found.lookup place position).union more).contains s := by
            simpa [lookup, hrow, Array.getElem?_modify, hlt] using h
          rw [TerminalSet.contains_union, Bool.or_eq_true] at hunion
          exact hunion.imp id fun h => ⟨rfl, rfl, h⟩
        · simp [lookup, hrow, Array.getElem?_modify, hlt] at h
    · left
      cases hrow : found[place]? with
      | none => simp [lookup, hrow, Array.getElem?_modify] at h
      | some row =>
        simpa [lookup, hrow, Array.getElem?_modify,
          Array.getElem?_setIfInBounds_ne (Ne.symm hposition)] using h
  · left
    simpa [lookup, Array.getElem?_modify, Ne.symm hplace] using h

end Lookaheads

namespace Augmented

variable {g : PreparedGrammar} {states : Array State}

/-! ### Lookaheads from the start on -/

/-- Whether something holds of the terminals in the lookaheads of all kernel items. -/
def All (P : Nat → Nat → Symbol → Prop) (found : Lookaheads) : Prop :=
  ∀ place position s, (found.lookup place position).contains s → P place position s

/-- Whether flows hand on what holds of the terminals in lookaheads. -/
def HandsOn (P : Nat → Nat → Symbol → Prop) (source : Source) : Prop :=
  ∀ f ∈ source.flows, ∀ own : TerminalSet,
    (∀ s, own.contains s → P source.state source.position s) →
    ∀ s, (f.lookahead.resolve own).contains s → P f.target f.position s

variable {P : Nat → Nat → Symbol → Prop} {found : Lookaheads}

theorem lookup_replicate (states : Array State) (place position : Nat) :
    Lookaheads.lookup (states.map fun state => Array.replicate state.kernel.length
      TerminalSet.empty) place position = .empty := by
  simp only [Lookaheads.lookup, Array.getElem?_map]
  cases states[place]? with
  | none => rfl
  | some state =>
    simp only [Option.map_some, Option.bind_some, Array.getElem?_replicate]
    split <;> rfl

theorem all_initial (hstart : P 0 0 .endOfInput) : All P (initialLookaheads states) := by
  intro place position s hs
  rcases Lookaheads.contains_lookup_widen hs with hold | ⟨rfl, rfl, hadded⟩
  · rw [lookup_replicate, TerminalSet.contains_empty] at hold
    cases hold
  · rwa [TerminalSet.contains_endOfInput.mp hadded]

theorem All.spread (h : All P found) {source : Source} (hflows : HandsOn P source) :
    All P (source.spread found) := by
  refine List.foldlRecOn (motive := All P) _ _ h fun later hlater f hf => ?_
  intro place position s hs
  rcases Lookaheads.contains_lookup_widen hs with hold | ⟨rfl, rfl, hadded⟩
  · exact hlater place position s hold
  · exact hflows f hf _ (h source.state source.position) s hadded

theorem All.spreadAll (h : All P found) {sources : List Source}
    (hflows : ∀ source ∈ sources, HandsOn P source) (rounds : Nat) :
    All P (spreadAll sources rounds found) := by
  induction rounds generalizing found with
  | zero => exact h
  | succ rounds ih =>
    rw [Lalr.spreadAll]
    split
    · exact h
    · exact ih (List.foldlRecOn (motive := All P) _ _ h fun found hfound source hsource =>
        hfound.spread (hflows source hsource))

/-- **What holds of the start and is handed on by flows holds of all lookaheads.** -/
theorem all_lookaheads (g : PreparedGrammar) (hstart : P 0 0 .endOfInput)
    (hflows : ∀ source ∈ (augment g).sources (augment g).automaton.states, HandsOn P source) :
    All P (augment g).automaton.lookaheads := by
  simp only [automaton] at hflows ⊢
  exact (all_initial hstart).spreadAll hflows _

/-! ### The whole input -/

/-- Whether nothing but the end of the input follows the whole input. -/
def EndsInput (a : Augmented) (states : Array State) (found : Lookaheads) : Prop :=
  ∀ place state position item, states[place]? = some state → state.kernel[position]? = some item →
    item.production = a.whole → ∀ s, (found.lookup place position).contains s → s = .endOfInput

/-- In the closure of some items only those themselves may be of the production for the whole
input. -/
theorem mem_of_mem_closureWith {kernel : List (Item × Lookahead)} {entry : Item × Lookahead}
    (h : entry ∈ (augment g).closureWith kernel)
    (hwhole : entry.1.production = (augment g).whole) : entry ∈ kernel := by
  rcases List.mem_append.mp h with h | h
  · exact h
  · obtain ⟨kind, -, h⟩ := List.mem_flatMap.mp h
    obtain ⟨item, hitem, rfl⟩ := List.mem_map.mp h
    obtain ⟨-, rule, hrule, -⟩ := mem_itemsOf hitem
    exact absurd hwhole (Nat.ne_of_lt (Array.getElem?_eq_some_iff.mp hrule).choose)

/-- What flows to an item of the whole input comes from an item of the whole input, unchanged. -/
theorem resolve_of_mem_flows {state target : State} {item next : Item} {f : Flow}
    {own : TerminalSet} {s : Symbol} (hf : f ∈ (augment g).flows states state item)
    (htarget : states[f.target]? = some target)
    (hnext : target.kernel[f.position]? = some next)
    (hwhole : next.production = (augment g).whole) (hs : (f.lookahead.resolve own).contains s) :
    item.production = (augment g).whole ∧ own.contains s := by
  obtain ⟨entry, hentry, hflow⟩ := List.mem_filterMap.mp hf
  rw [flow?] at hflow
  obtain ⟨_, -, hflow⟩ := Option.bind_eq_some_iff.mp hflow
  obtain ⟨_, -, hflow⟩ := Option.bind_eq_some_iff.mp hflow
  obtain ⟨successor, hsuccessor, hflow⟩ := Option.bind_eq_some_iff.mp hflow
  obtain ⟨position, hposition, hflow⟩ := Option.bind_eq_some_iff.mp hflow
  cases hflow
  obtain rfl := Option.some.inj (hsuccessor.symm.trans htarget)
  obtain ⟨hlt, hadvance, -⟩ := List.findIdx?_eq_some_iff_getElem.mp hposition
  have heq : entry.1.advance = next := by
    rw [← of_decide_eq_true hadvance]
    exact Option.some.inj ((List.getElem?_eq_getElem hlt).symm.trans hnext)
  have hmem := mem_of_mem_closureWith hentry (by rw [← hwhole, ← heq]; rfl)
  obtain rfl := List.mem_singleton.mp hmem
  refine ⟨by rw [← hwhole, ← heq]; rfl, ?_⟩
  simpa [Lookahead.resolve, Lookahead.inherited] using hs

theorem mem_sources {source : Source} (h : source ∈ (augment g).sources states) :
    ∃ state item, states[source.state]? = some state ∧
      state.kernel[source.position]? = some item ∧
      source.flows = (augment g).flows states state item := by
  obtain ⟨⟨state, place⟩, hstate, h⟩ := List.mem_flatMap.mp h
  obtain ⟨⟨item, position⟩, hitem, rfl⟩ := List.mem_map.mp h
  have hplace := List.mem_zipIdx_iff_getElem?.mp hstate
  rw [Array.getElem?_toList] at hplace
  exact ⟨state, item, hplace, List.mem_zipIdx_iff_getElem?.mp hitem, rfl⟩

theorem endsInput_automaton (g : PreparedGrammar) :
    (augment g).EndsInput (augment g).automaton.states (augment g).automaton.lookaheads := by
  have hall := all_lookaheads g (P := fun place position s => ∀ state item,
    (augment g).automaton.states[place]? = some state → state.kernel[position]? = some item →
    item.production = (augment g).whole → s = .endOfInput) (fun _ _ _ _ _ => rfl) ?_
  · exact fun place state position item hstate hitem hwhole s hs =>
      hall place position s hs state item hstate hitem hwhole
  · intro source hsource f hf own hown s hs state item hstate hitem hwhole
    obtain ⟨origin, start, horigin, hstart, hflows⟩ := mem_sources hsource
    rw [hflows] at hf
    obtain ⟨hproduction, hs⟩ := resolve_of_mem_flows hf hstate hitem hwhole hs
    exact hown s hs origin start horigin hstart hproduction

/-- Where the whole input is complete, nothing follows but the end of the input. -/
theorem eq_end_of_mem_closureOf {place : Nat} {item : Item} {set : TerminalSet} {s : Symbol}
    (h : (item, set) ∈ (augment g).automaton.closureOf place)
    (hwhole : item.production = (augment g).whole) (hs : set.contains s) : s = .endOfInput := by
  obtain ⟨entry, hentry, heq⟩ := List.mem_map.mp h
  obtain ⟨rfl, rfl⟩ := Prod.mk.inj heq
  obtain ⟨⟨own, found⟩, hkernel, rfl⟩ :=
    List.mem_map.mp (mem_of_mem_closureWith (g := g) hentry hwhole)
  rw [Automaton.kernelOf] at hkernel
  split at hkernel
  · cases hkernel
  rename_i state hstate
  obtain ⟨⟨_, position⟩, hitem, hlookup⟩ := List.mem_map.mp hkernel
  obtain ⟨rfl, rfl⟩ := Prod.mk.inj hlookup
  dsimp only at hs hwhole
  exact endsInput_automaton g place state position _ hstate
    (List.mem_zipIdx_iff_getElem?.mp hitem) hwhole s hs

end Augmented

end LRWorkbench.Lalr
