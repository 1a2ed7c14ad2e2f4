import LRWorkbench.Proofs.Lalr.Propagation

/-!
# What is expected after an item

`PreparedGrammar.Expects g q item s` says that in state `q` the terminal `s` may follow the
production of an item. Before anything is read, the end of the input is expected after the whole
input (`expects_start`). What is expected is so for what begins at the dot, whatever the rest of the
production derives (`Expects.begins`), and over each step (`Expects.advance`). All of it is in the
lookaheads that the table is made from (`Expects.exists_mem_closureOf`).
-/

namespace LRWorkbench

namespace PreparedGrammar

open Lalr Augmented

/-- Whether a terminal is expected after the production of an item of a state: because it is in the
lookahead of the kernel item, or because the production begins a phrase that is followed by it. -/
inductive Expects (g : PreparedGrammar) (q : Nat) : Item → Symbol → Prop where
  | kernel {state : State} {position : Nat} {item : Item} {s : Symbol}
      (known : g.automaton.states[q]? = some state) (there : state.kernel[position]? = some item)
      (contains : (g.automaton.lookaheads.lookup q position).contains s = true) :
      Expects g q item s
  | begins {item : Item} {s first : Symbol} {p : Nat} {rule : Production} {sentence : List Symbol}
      (whole : Expects g q item s) (production : g.productions[p]? = some rule)
      (next : (augment g).nextKind? item = some rule.lhs)
      (rest : g.DerivesAll ((augment g).afterNext item) sentence)
      (begin : (sentence ++ [s]).head? = some first) : Expects g q ⟨p, 0⟩ first

variable {g : PreparedGrammar} {q : Nat} {item : Item} {s : Symbol}

/-- What follows a phrase is how the rest of its production begins, or what follows that. -/
theorem contains_follow (hlhs : ∀ p ∈ g.productions, p.lhs < g.nonTerminals.size)
    {own : Lookahead} {set : TerminalSet} (hown : (own.resolve set).contains s = true)
    {sentence : List Symbol} (hrest : g.DerivesAll ((augment g).afterNext item) sentence)
    {first : Symbol} (hfirst : (sentence ++ [s]).head? = some first) :
    (((augment g).follow item own).resolve set).contains first = true := by
  obtain ⟨hfits, hclosed⟩ := FirstSets.closed_ofGrammar hlhs
  have hbegins := FirstSets.begins_of_derivesAll hfits.terminalCount hclosed hrest
  change FirstSets.Begins ((augment g).firsts.ofSymbols _) _ at hbegins
  rw [Lookahead.contains_resolve_iff] at hown ⊢
  simp only [follow]
  cases sentence with
  | nil =>
    obtain rfl : s = first := by simpa using hfirst
    rw [if_pos (show _ = true from hbegins)]
    simp only [TerminalSet.contains_union, Bool.or_eq_true]
    exact hown.imp_left .inl
  | cons t sentence =>
    obtain rfl : t = first := by simpa using hfirst
    left
    split
    · simp only [TerminalSet.contains_union, Bool.or_eq_true]
      exact .inr hbegins
    · exact hbegins

theorem below_of_mem_kernelOf (h : Propagated g g.automaton.lookaheads)
    {entry : Item × TerminalSet} (hentry : entry ∈ g.automaton.kernelOf q) :
    entry.2.Below g.terminalCount := by
  obtain ⟨position, heq⟩ := Automaton.exists_of_mem_kernelOf hentry
  rw [heq]
  exact h.below q position

namespace Expects

section

variable (hlhs : ∀ p ∈ g.productions, p.lhs < g.nonTerminals.size)
include hlhs

/-- What is expected comes from a kernel item. -/
theorem exists_kernel (h : g.Expects q item s) :
    ∃ state position origin l, g.automaton.states[q]? = some state ∧
      state.kernel[position]? = some origin ∧
      (item, l) ∈ (augment g).closureWith [(origin, .inherited)] ∧
      (l.resolve (g.automaton.lookaheads.lookup q position)).contains s = true := by
  induction h with
  | @kernel state position item s hstate hitem hcontains =>
    refine ⟨state, position, item, .inherited, hstate, hitem,
      List.mem_append_left _ (List.mem_singleton_self _), ?_⟩
    simp [Lookahead.resolve, Lookahead.inherited, hcontains]
  | begins _ hrule hnext hrest hfirst ih =>
    obtain ⟨state, position, origin, l, hstate, horigin, hmem, hcontains⟩ := ih
    have hbelow : ∀ e ∈ [(origin, Lookahead.inherited)], e.2.terminals.Below g.terminalCount := by
      intro e he
      rw [List.mem_singleton.mp he]
      exact TerminalSet.below_empty _
    obtain ⟨l', hmem', hincludes⟩ := exists_mem_closureWith hlhs hbelow hmem hrule hnext
    exact ⟨state, position, origin, l', hstate, horigin, hmem',
      Lookahead.contains_resolve hincludes (contains_follow hlhs hcontains hrest hfirst)⟩

/-- A closure that starts with what is expected at the kernel has all that is expected. -/
theorem exists_mem_closureWith {kernel : List (Item × Lookahead)}
    (hbelow : ∀ e ∈ kernel, e.2.terminals.Below g.terminalCount)
    (hkernel : ∀ (state : State) (position : Nat) (item : Item) (s : Symbol),
      g.automaton.states[q]? = some state → state.kernel[position]? = some item →
      (g.automaton.lookaheads.lookup q position).contains s = true →
      ∃ l, (item, l) ∈ kernel ∧ (l.resolve .empty).contains s = true)
    (h : g.Expects q item s) :
    ∃ l, (item, l) ∈ (augment g).closureWith kernel ∧ (l.resolve .empty).contains s = true := by
  induction h with
  | kernel hstate hitem hcontains =>
    obtain ⟨l, hmem, hl⟩ := hkernel _ _ _ _ hstate hitem hcontains
    exact ⟨l, List.mem_append_left _ hmem, hl⟩
  | begins _ hrule hnext hrest hfirst ih =>
    obtain ⟨l, hmem, hcontains⟩ := ih
    obtain ⟨l', hmem', hincludes⟩ :=
      Augmented.exists_mem_closureWith hlhs hbelow hmem hrule hnext
    exact ⟨l', hmem', Lookahead.contains_resolve hincludes
      (contains_follow hlhs hcontains hrest hfirst)⟩

/-- **What is expected is in the lookaheads of the state.** -/
theorem exists_mem_closureOf (hpos : 0 < g.terminalCount) (h : g.Expects q item s) :
    ∃ set : TerminalSet, (item, set) ∈ g.automaton.closureOf q ∧ set.contains s = true := by
  have hpropagated := propagated_automaton hlhs hpos
  obtain ⟨l, hmem, hcontains⟩ : ∃ l, (item, l) ∈ (augment g).closureWith
      ((g.automaton.kernelOf q).map fun entry => (entry.1, Lookahead.mk entry.2 false)) ∧
      (l.resolve .empty).contains s = true := by
    refine h.exists_mem_closureWith hlhs (fun e he => ?_)
      fun state position item s hstate hitem hs => ?_
    · obtain ⟨entry, hmem, rfl⟩ := List.mem_map.mp he
      exact below_of_mem_kernelOf hpropagated hmem
    · have hentry := Automaton.mem_kernelOf hstate hitem
      generalize g.automaton.lookaheads.lookup q position = set at hs hentry
      exact ⟨⟨set, false⟩, List.mem_map.mpr ⟨_, hentry, rfl⟩, hs⟩
  refine ⟨l.terminals, List.mem_map.mpr ⟨(item, l), hmem, rfl⟩, ?_⟩
  rcases Lookahead.contains_resolve_iff.mp hcontains with h | ⟨-, h⟩
  · exact h
  · rw [TerminalSet.contains_empty] at h
    cases h

theorem mem_itemsAt (hpos : 0 < g.terminalCount) (h : g.Expects q item s) : item ∈ g.itemsAt q := by
  obtain ⟨state, -, -, -, hstate, -, -, -⟩ := h.exists_kernel hlhs
  obtain ⟨set, hmem, -⟩ := h.exists_mem_closureOf hlhs hpos
  exact PreparedGrammar.mem_itemsAt hstate hmem

/-- What is expected after a production stays so over its steps. -/
theorem advance (hpos : 0 < g.terminalCount) (h : g.Expects q item s) {t : Symbol}
    (ht : (augment g).next? item = some t) :
    ∃ state r, g.automaton.states[q]? = some state ∧ (t, r) ∈ state.transitions ∧
      g.Expects r item.advance s := by
  obtain ⟨state, position, origin, l, hstate, horigin, hmem, hcontains⟩ := h.exists_kernel hlhs
  obtain ⟨hkernel, hlinked⟩ := linked_states hstate
  have hitem := h.mem_itemsAt hlhs hpos
  rw [itemsAt, hkernel, Option.getD_some] at hitem
  obtain ⟨next, hnext, hadvance⟩ := exists_successor hitem ht
  obtain ⟨r, hr, hfound⟩ := hlinked.complete _ hnext
  rw [kernels_getElem?] at hfound
  obtain ⟨successor, hsuccessor, rfl⟩ := Option.map_eq_some_iff.mp hfound
  obtain ⟨place, hplace⟩ : ∃ place, successor.kernel.findIdx? (· = item.advance) = some place :=
    ⟨_, List.findIdx?_eq_some_of_exists ⟨_, hadvance, decide_eq_true rfl⟩⟩
  obtain ⟨hlt, hfind, -⟩ := List.findIdx?_eq_some_iff_getElem.mp hplace
  have hthere : successor.kernel[place]? = some item.advance := by
    rw [List.getElem?_eq_getElem hlt, of_decide_eq_true hfind]
  -- what the item passes on over the step has arrived
  have hflow : (augment g).flow? g.automaton.states state (item, l) = some ⟨r, place, l⟩ :=
    flow?_eq_some ht ((transition?_eq_some hstate).mpr hr) hsuccessor hplace
  have hhas := (propagated_automaton hlhs hpos).flows _ (exists_source hstate horigin) _
    (List.mem_filterMap.mpr ⟨_, hmem, hflow⟩)
  exact ⟨state, r, hstate, hr, .kernel hsuccessor hthere
    (TerminalSet.includes_iff.mp hhas _ hcontains)⟩

/-- Terminals of the grammar are expected only. -/
theorem index_lt (hpos : 0 < g.terminalCount) (h : g.Expects q item s) :
    s.index < g.terminalCount := by
  obtain ⟨state, position, origin, l, -, -, hmem, hcontains⟩ := h.exists_kernel hlhs
  have hbelow := below_of_mem_closureWith hlhs (fun e he => ?_) hmem
  · exact below_resolve hbelow ((propagated_automaton hlhs hpos).below q position) s hcontains
  · rw [List.mem_singleton.mp he]
    exact TerminalSet.below_empty _

end

end Expects

/-- Before anything is read, the end of the input is expected after it. -/
theorem expects_start (hlhs : ∀ p ∈ g.productions, p.lhs < g.nonTerminals.size)
    (hpos : 0 < g.terminalCount) : g.Expects 0 (augment g).startItem .endOfInput := by
  obtain ⟨state, hstate, hkernel⟩ := exists_start g
  exact .kernel hstate (by rw [hkernel]; rfl) (propagated_automaton hlhs hpos).start

end PreparedGrammar

end LRWorkbench
