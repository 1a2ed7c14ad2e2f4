import LRWorkbench.Proofs.Graph.Reach
import LRWorkbench.Proofs.Lalr.Propagation
import LRWorkbench.Proofs.Prepared.Draft
import Mathlib.Data.Set.Basic

/-!
# The states are the canonical item sets

Item sets in the sense of the theory are sets of items: the **closure** of a kernel has all that may
begin at its dots, the **successor** over a symbol has the items of the closure that go on with the
symbol, advanced over it, and the **canonical** kernels are those that successors lead to from the
start.

The scan that collects states comes to an end (`Augmented.scans_collection`). Its states are the
canonical kernels, each once and in order, and the transitions of a state lead to its successors
(`Grammar.collects_itemSets`).
-/

namespace LRWorkbench

namespace Lalr

open PreparedGrammar Augmented

/-! ### Item sets -/

/-- Whether an item is in the closure of a kernel: it is one of the kernel, or begins a phrase that
another item of the closure goes on with. -/
inductive InClosure (g : PreparedGrammar) (kernel : Set Item) : Item → Prop where
  | kernel {item : Item} (mem : item ∈ kernel) : InClosure g kernel item
  | begins {item : Item} {p : Nat} {rule : Production} (whole : InClosure g kernel item)
      (production : g.productions[p]? = some rule)
      (next : (augment g).next? item = some (g.nonTerminalSymbol rule.lhs)) :
      InClosure g kernel ⟨p, 0⟩

/-- The closure of a kernel. -/
def closureSet (g : PreparedGrammar) (kernel : Set Item) : Set Item :=
  {item | InClosure g kernel item}

/-- The kernel that a symbol leads to: the items that go on with it, advanced over it. -/
def successorSet (g : PreparedGrammar) (kernel : Set Item) (s : Symbol) : Set Item :=
  {item | ∃ other ∈ closureSet g kernel, (augment g).next? other = some s ∧ item = other.advance}

/-- Whether the start leads to a kernel. -/
inductive Reachable (g : PreparedGrammar) : Set Item → Prop where
  | start : Reachable g {(augment g).startItem}
  | successor {kernel : Set Item} {s : Symbol} (before : Reachable g kernel)
      (nonempty : (successorSet g kernel s).Nonempty) : Reachable g (successorSet g kernel s)

/-- The kernel of a state as a set. -/
def State.kernelSet (state : State) : Set Item := {item | item ∈ state.kernel}

theorem State.kernelSet_singleton {state : State} {item : Item} (h : state.kernel = [item]) :
    state.kernelSet = {item} := by
  ext other
  rw [kernelSet, h]
  exact List.mem_singleton

variable {g : PreparedGrammar} {kernel next : List Item} {s : Symbol}

/-- The phrase kind after a dot is that of the symbol there. -/
theorem nextKind?_eq_some_iff {item : Item} {kind : Nat} : (augment g).nextKind? item = some kind ↔
    (augment g).next? item = some (g.nonTerminalSymbol kind) := by
  rw [nextKind?, Option.bind_eq_some_iff]
  constructor
  · rintro ⟨s, hs, hindex⟩
    rw [hs, nonTerminalIndex?_eq_some.mp hindex]
    rfl
  · exact fun hs => ⟨_, hs, nonTerminalIndex?_eq_some.mpr rfl⟩

/-- A phrase kind that was found to begin in a closure follows the dot of an item of it. -/
theorem exists_inClosure_of_mem_closureKinds {kind : Nat}
    (h : kind ∈ (augment g).closureKinds kernel) :
    ∃ item, InClosure g {item | item ∈ kernel} item ∧
      (augment g).nextKind? item = some kind := by
  refine Graph.forall_mem_reachFrom (P := fun kind => ∃ item,
    InClosure g {item | item ∈ kernel} item ∧ (augment g).nextKind? item = some kind)
    (fun kind' hkind' kind hkind => ?_) (fun kind hkind => ?_) kind h
  · obtain ⟨item, hitem, hnext⟩ := hkind'
    have hlt : kind' < g.nonTerminals.size := by
      by_contra hge
      simp [augment, Nat.not_lt.mp hge] at hkind
    have hbeginnings : (augment g).beginnings[kind']?.getD [] = beginningsOf g kind' := by
      simp [augment, hlt]
    rw [hbeginnings] at hkind
    obtain ⟨p, hp, rule, s, hrule, hhead, hs⟩ := mem_beginningsOf hkind
    obtain ⟨rule', hrule', rfl⟩ := mem_productionsOf.mp hp
    obtain rfl := Option.some.inj (hrule.symm.trans hrule')
    refine ⟨⟨p, 0⟩, hitem.begins hrule (nextKind?_eq_some_iff.mp hnext), ?_⟩
    rw [nextKind?, Augmented.next?, symbolsOf_augment hrule, ← List.head?_eq_getElem?, hhead]
    exact hs
  · obtain ⟨item, hitem, hnext⟩ := List.mem_filterMap.mp hkind
    exact ⟨item, .kernel hitem, hnext⟩

section

variable (hlhs : ∀ p ∈ g.productions, p.lhs < g.nonTerminals.size)
include hlhs

/-- The list of the items of a closure has the items of the closure. -/
theorem mem_closure_iff {item : Item} :
    item ∈ (augment g).closure kernel ↔ item ∈ closureSet g {item | item ∈ kernel} := by
  constructor
  · intro h
    rcases mem_closure.mp h with h | ⟨kind, hkind, hitem⟩
    · exact .kernel h
    · obtain ⟨other, hother, hnext⟩ := exists_inClosure_of_mem_closureKinds hkind
      obtain ⟨hdot, rule, hrule, rfl⟩ := mem_itemsOf hitem
      obtain ⟨p, dot⟩ := item
      obtain rfl : dot = 0 := hdot
      exact hother.begins hrule (nextKind?_eq_some_iff.mp hnext)
  · intro h
    induction h with
    | kernel h => exact mem_closure_of_mem h
    | @begins item p rule _ hrule hnext ih =>
      have hlt := hlhs rule (Array.mem_of_getElem? hrule)
      have hkind := nextKind?_eq_some_iff.mpr hnext
      refine mem_closure.mpr (.inr ⟨rule.lhs, ?_, (mem_itemsOf_iff hlt).mpr ⟨rule, hrule, rfl⟩⟩)
      rcases mem_closure.mp ih with hmem | ⟨kind, hmem, hitem⟩
      · exact mem_closureKinds_of_mem hmem hkind
      · exact mem_closureKinds_of_begins hmem hitem hkind

/-- An item set that was gathered for a symbol is the kernel that the symbol leads to. -/
theorem mem_iff_of_mem_successors (h : (s, next) ∈ (augment g).successors kernel) {item : Item} :
    item ∈ next ↔ item ∈ successorSet g {item | item ∈ kernel} s := by
  constructor
  · intro hitem
    obtain ⟨other, hother, hs, heq⟩ := exists_of_mem_successors h hitem
    exact ⟨other, (mem_closure_iff hlhs).mp hother, hs, heq⟩
  · rintro ⟨other, hother, hs, rfl⟩
    obtain ⟨next', hnext', hmem⟩ := exists_successor ((mem_closure_iff hlhs).mpr hother) hs
    have hnodup : (((augment g).successors kernel).map (·.1)).Nodup := by
      rw [List.Nodup, List.pairwise_map]
      exact (pairwise_gather _).imp fun hlt heq => Nat.ne_of_lt hlt (congrArg Symbol.index heq)
    have hsame := List.inj_on_of_nodup_map hnodup hnext' h rfl
    rwa [(Prod.mk.inj hsame).2] at hmem

/-- The states that are found are led to from the start. -/
theorem reachable_of_mem_successors (h : Reachable g {item | item ∈ kernel})
    (hnext : (s, next) ∈ (augment g).successors kernel) : Reachable g {item | item ∈ next} := by
  have heq : {item | item ∈ next} = successorSet g {item | item ∈ kernel} s :=
    Set.ext fun item => mem_iff_of_mem_successors hlhs hnext
  obtain ⟨item, hitem⟩ := List.exists_mem_of_ne_nil next (spec_of_mem_gather hnext).2.1
  rw [heq]
  exact h.successor ⟨item, heq ▸ hitem⟩

end

namespace Augmented

/-! ### The scan ends -/

/-- Whether the scan over the states from a place on ends, and the states that there are then. -/
inductive Scans (a : Augmented) : Nat → Array State → Array State → Prop where
  | done {place : Nat} {states : Array State} (past : states[place]? = none) :
      Scans a place states states
  | link {place : Nat} {states later out : Array State} {state : State}
      {transitions : List (Symbol × Nat)} (here : states[place]? = some state)
      (linked : link states (a.successors state.kernel) = (transitions, later))
      (rest : Scans a (place + 1) (later.setIfInBounds place ⟨state.kernel, transitions⟩) out) :
      Scans a place states out

/-- The fuel lasts for the whole scan. -/
theorem scans_explore (g : PreparedGrammar) (fuel : Nat) {place : Nat} {states : Array State}
    (h : Explored (augment g) place states)
    (hfuel : Nat.pow 2 (augment g).itemCount < fuel + place) :
    Scans (augment g) place states ((augment g).explore fuel place states) := by
  induction fuel generalizing place states with
  | zero =>
    have hsize := h.size_le
    exact .done (Array.getElem?_eq_none (by omega))
  | succ fuel ih =>
    rw [explore]
    split
    · rename_i hnone
      exact .done hnone
    · rename_i state hstate
      exact .link hstate rfl (ih (h.link hstate rfl) (by omega))

/-- **The scan that collects the states ends.** -/
theorem scans_collection (g : PreparedGrammar) :
    Scans (augment g) 0 #[⟨[(augment g).startItem], []⟩] (augment g).collection :=
  scans_explore g _ (explored_start g) (by omega)

/-- What holds of the kernels there are and is handed on to successors holds of all kernels that a
scan finds. -/
theorem Scans.forall_kernels {a : Augmented} {P : List Item → Prop}
    (hstep : ∀ kernel, P kernel → ∀ s next, (s, next) ∈ a.successors kernel → P next)
    {place : Nat} {states out : Array State} (h : Scans a place states out)
    (hstates : ∀ kernel ∈ kernels states, P kernel) : ∀ kernel ∈ kernels out, P kernel := by
  induction h with
  | done _ => exact hstates
  | @link place states later out state transitions here linked _ ih =>
    obtain ⟨-, -, -, hmem⟩ := link_spec linked
    have hstate : state.kernel ∈ kernels states :=
      List.mem_map_of_mem (Array.mem_toList_iff.mpr (Array.mem_of_getElem? here))
    have hlater : ∀ kernel ∈ kernels later, P kernel := by
      intro kernel hkernel
      rcases hmem kernel hkernel with hold | ⟨s, hnew⟩
      · exact hstates kernel hold
      · exact hstep _ (hstates _ hstate) s kernel hnew
    refine ih fun kernel hkernel => ?_
    obtain ⟨other, hother, rfl⟩ := List.mem_map.mp hkernel
    rcases Array.mem_or_eq_of_mem_setIfInBounds (Array.mem_toList_iff.mp hother) with hmem | rfl
    · exact hlater _ (List.mem_map_of_mem (Array.mem_toList_iff.mpr hmem))
    · exact hstates _ hstate

end Augmented

/-! ### Each item once -/

theorem nodup_itemsOf (kind : Nat) : ((augment g).itemsOf kind).Nodup := by
  rw [itemsOf]
  refine List.Nodup.map (fun p p' heq => congrArg Item.production heq) ?_
  by_cases hlt : kind < g.nonTerminals.size
  · rw [productionsOf_augment hlt]
    exact List.nodup_range.filter _
  · simp [augment, hlt]

/-- A closure has each item once. -/
theorem nodup_closure {kernel : List Item} (h : IsKernel (augment g) kernel) :
    ((augment g).closure kernel).Nodup := by
  rw [Augmented.closure, List.nodup_append]
  refine ⟨h.ordered.nodup, List.nodup_flatMap.mpr ⟨fun kind _ => nodup_itemsOf kind, ?_⟩, ?_⟩
  · refine (Graph.nodup_reachFrom _ _ _).imp fun hne item hitem hitem' => ?_
    obtain ⟨-, rule, hrule, rfl⟩ := mem_itemsOf hitem
    obtain ⟨-, rule', hrule', rfl⟩ := mem_itemsOf hitem'
    obtain rfl := Option.some.inj (hrule.symm.trans hrule')
    exact hne rfl
  · rintro item hitem other hother rfl
    obtain ⟨kind, -, hbegins⟩ := List.mem_flatMap.mp hother
    obtain ⟨hdot, rule, hrule, -⟩ := mem_itemsOf hbegins
    rcases h.moved with hstart | hmoved
    · rw [hstart] at hitem
      obtain rfl := List.mem_singleton.mp hitem
      exact Nat.lt_irrefl _ (Array.getElem?_eq_some_iff.mp hrule).choose
    · exact hmoved item hitem hdot

/-! ### The collection -/

/-- Whether states are the canonical collection of item sets. -/
structure IsCollection (g : PreparedGrammar) (states : Array State) : Prop where
  /-- The kernels are those that the start leads to. -/
  reachable : ∀ kernel, Reachable g kernel ↔ ∃ state ∈ states, state.kernelSet = kernel
  /-- Each kernel occurs once. -/
  distinct : ∀ (q q' : Nat) (state state' : State), states[q]? = some state →
    states[q']? = some state' → state.kernelSet = state'.kernelSet → q = q'
  ordered : ∀ state ∈ states, state.kernel.Pairwise Item.lt
  /-- The items that a state is found to have are those of its closure. -/
  closure : ∀ state ∈ states, ∀ item,
    item ∈ (augment g).closure state.kernel ↔ item ∈ closureSet g state.kernelSet
  /-- There is a transition exactly over each symbol that an item goes on with. -/
  transition : ∀ state ∈ states, ∀ s, (∃ r, (s, r) ∈ state.transitions) ↔
    ∃ item ∈ closureSet g state.kernelSet, (augment g).next? item = some s
  /-- It leads to the items advanced. -/
  target : ∀ state ∈ states, ∀ s r, (s, r) ∈ state.transitions →
    ∃ successor, states[r]? = some successor ∧
      successor.kernelSet = successorSet g state.kernelSet s
  /-- Transitions are in the order of their symbols, so that a search by halves finds them. -/
  ascending : ∀ state ∈ states, state.transitions.Pairwise fun t t' => t.1.index < t'.1.index
  found : ∀ state ∈ states, ∀ s r, state.transition? s = some r ↔ (s, r) ∈ state.transitions

theorem isKernel_of_mem {state : State} (h : state ∈ g.automaton.states) :
    IsKernel (augment g) state.kernel := by
  obtain ⟨q, hq⟩ := Array.mem_iff_getElem?.mp h
  exact isKernel_kernelAt (linked_states hq).1

/-- The transitions of a state are in the order of their symbols. -/
theorem ascending_transitions {state : State} (h : state ∈ g.automaton.states) :
    state.transitions.Pairwise fun t t' => t.1.index < t'.1.index := by
  obtain ⟨q, hq⟩ := Array.mem_iff_getElem?.mp h
  obtain ⟨-, hlinked⟩ := linked_states hq
  have hsymbols : (state.transitions.map (·.1)).Pairwise fun s t => s.index < t.index := by
    rw [hlinked.symbols, List.pairwise_map]
    exact pairwise_gather _
  rwa [List.pairwise_map] at hsymbols

/-- Kernels are told apart by their items. -/
theorem eq_of_kernelSet_eq {q q' : Nat} {state state' : State}
    (hq : g.automaton.states[q]? = some state) (hq' : g.automaton.states[q']? = some state')
    (h : state.kernelSet = state'.kernelSet) : q = q' := by
  have heq : state.kernel = state'.kernel :=
    (isKernel_of_mem (Array.mem_of_getElem? hq)).ordered.eq_of_mem_iff
      (isKernel_of_mem (Array.mem_of_getElem? hq')).ordered fun item => Set.ext_iff.mp h item
  have hkernel := (linked_states hq).1
  have hkernel' := (linked_states hq').1
  rw [← heq] at hkernel'
  exact (List.getElem?_inj (List.getElem?_eq_some_iff.mp hkernel).choose
    (explored_collection g).distinct).mp (hkernel.trans hkernel'.symm)

section

variable (hlhs : ∀ p ∈ g.productions, p.lhs < g.nonTerminals.size)
include hlhs

theorem exists_transition_iff {state : State} (h : state ∈ g.automaton.states) {s : Symbol} :
    (∃ r, (s, r) ∈ state.transitions) ↔
      ∃ item ∈ closureSet g state.kernelSet, (augment g).next? item = some s := by
  obtain ⟨q, hq⟩ := Array.mem_iff_getElem?.mp h
  obtain ⟨-, hlinked⟩ := linked_states hq
  constructor
  · rintro ⟨r, hr⟩
    obtain ⟨next, hnext, -⟩ := hlinked.sound _ hr
    obtain ⟨item, hitem⟩ := List.exists_mem_of_ne_nil next (spec_of_mem_gather hnext).2.1
    obtain ⟨other, hother, hs, -⟩ := exists_of_mem_successors hnext hitem
    exact ⟨other, (mem_closure_iff hlhs).mp hother, hs⟩
  · rintro ⟨item, hitem, hs⟩
    obtain ⟨next, hnext, -⟩ := exists_successor ((mem_closure_iff hlhs).mpr hitem) hs
    obtain ⟨r, hr, -⟩ := hlinked.complete _ hnext
    exact ⟨r, hr⟩

theorem exists_target {state : State} (h : state ∈ g.automaton.states) {s : Symbol} {r : Nat}
    (hr : (s, r) ∈ state.transitions) : ∃ successor, g.automaton.states[r]? = some successor ∧
      successor.kernelSet = successorSet g state.kernelSet s := by
  obtain ⟨q, hq⟩ := Array.mem_iff_getElem?.mp h
  obtain ⟨-, hlinked⟩ := linked_states hq
  obtain ⟨next, hnext, hfound⟩ := hlinked.sound _ hr
  rw [kernels_getElem?] at hfound
  obtain ⟨successor, hsuccessor, rfl⟩ := Option.map_eq_some_iff.mp hfound
  exact ⟨successor, hsuccessor, Set.ext fun item => mem_iff_of_mem_successors hlhs hnext⟩

/-- Each state is led to from the start. -/
theorem reachable_of_mem {state : State} (h : state ∈ g.automaton.states) :
    Reachable g state.kernelSet := by
  refine (scans_collection g).forall_kernels (P := fun kernel => Reachable g {item | item ∈ kernel})
    (fun kernel hkernel s next hnext => reachable_of_mem_successors hlhs hkernel hnext)
    (fun kernel hkernel => ?_) state.kernel (List.mem_map_of_mem (Array.mem_toList_iff.mpr h))
  obtain rfl := List.mem_singleton.mp hkernel
  have hstart : {item | item ∈ [(augment g).startItem]} = {(augment g).startItem} :=
    Set.ext fun item => List.mem_singleton
  rw [hstart]
  exact .start

/-- Each kernel that the start leads to is that of a state. -/
theorem Reachable.exists_state {kernel : Set Item} (h : Reachable g kernel) :
    ∃ state ∈ g.automaton.states, state.kernelSet = kernel := by
  induction h with
  | start =>
    obtain ⟨state, hstate, heq⟩ := exists_start g
    exact ⟨state, Array.mem_of_getElem? hstate, State.kernelSet_singleton heq⟩
  | successor _ hnonempty ih =>
    obtain ⟨state, hstate, rfl⟩ := ih
    obtain ⟨_, other, hother, hs, -⟩ := hnonempty
    obtain ⟨r, hr⟩ := (exists_transition_iff hlhs hstate).mpr ⟨other, hother, hs⟩
    obtain ⟨successor, hsuccessor, heq⟩ := exists_target hlhs hstate hr
    exact ⟨successor, Array.mem_of_getElem? hsuccessor, heq⟩

end

end Lalr

open Lalr Augmented

namespace Grammar

/-- **The states are the canonical item sets.** The scan that collects them ends, and what it has
collected is the canonical collection. -/
theorem collects_itemSets {grammar : Grammar} {g : PreparedGrammar}
    (h : grammar.prepare = .ok g) :
    Scans (augment g) 0 #[⟨[(augment g).startItem], []⟩] g.automaton.states ∧
      IsCollection g g.automaton.states := by
  have hlhs := lhs_lt_of_prepare h
  refine ⟨scans_collection g, ?_⟩
  constructor
  · intro kernel
    constructor
    · exact fun hkernel => hkernel.exists_state hlhs
    · rintro ⟨state, hstate, rfl⟩
      exact reachable_of_mem hlhs hstate
  · exact fun q q' state state' hq hq' => eq_of_kernelSet_eq hq hq'
  · exact fun state hstate => (isKernel_of_mem hstate).ordered
  · exact fun state _ item => mem_closure_iff hlhs
  · exact fun state hstate s => exists_transition_iff hlhs hstate
  · exact fun state hstate s r => exists_target hlhs hstate
  · exact fun state hstate => ascending_transitions hstate
  · intro state hstate s r
    obtain ⟨q, hq⟩ := Array.mem_iff_getElem?.mp hstate
    exact PreparedGrammar.transition?_eq_some hq

/-- Assignments to targets, which a star points through, such as `*a=a`. -/
def assignments : Grammar where
  name := "assignments"
  rules := [
    ("assignment", .choice [.seq [.reference "target", .literal "=", .reference "value"],
      .reference "value"]),
    ("target", .choice [.seq [.literal "*", .reference "value"], .literal "a"]),
    ("value", .seq [.reference "target"])]
  extras := []
  conflicts := []
  externals := []
  word := none

/-- The canonical collection of assignments has ten item sets. -/
theorem collects_itemSets_assignments : ∃ g, assignments.prepare = .ok g ∧
    g.automaton.states.size = 10 ∧
    Scans (augment g) 0 #[⟨[(augment g).startItem], []⟩] g.automaton.states ∧
    IsCollection g g.automaton.states := by
  have hcheck : assignments.prepare.toOption.any
      (fun g => g.automaton.states.size = 10) = true := by
    decide +kernel
  obtain ⟨g, hprepare, hsize⟩ := (Option.any_eq_true ..).mp hcheck
  have hprepare := eq_ok_of_toOption hprepare
  exact ⟨g, hprepare, of_decide_eq_true hsize, collects_itemSets hprepare⟩

end Grammar

end LRWorkbench
