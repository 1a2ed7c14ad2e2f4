import LRWorkbench.Grammar.Compile
import LRWorkbench.Proofs.Lalr.Collection

/-!
# Paths through the states

`PreparedGrammar.Leads g q s r` says that the symbol `s` leads from state `q` to state `r`. Going
back over it moves the dots of the items of `r` back (`Leads.retreat`). A stack of the parser is a
**path** from the start, so that a production that is complete in the state on top has its steps on
the stack, and its phrase may begin in the state below them (`Path.exists_steps`).
-/

namespace LRWorkbench.PreparedGrammar

open Lalr Augmented

variable (g : PreparedGrammar)

/-- The kernel of a state. -/
def kernelAt? (q : Nat) : Option (List Item) := (kernels g.automaton.states)[q]?

/-- The items of a state. -/
def itemsAt (q : Nat) : List Item := (augment g).closure ((g.kernelAt? q).getD [])

/-- Whether a symbol leads from one state to another. -/
def Leads (q : Nat) (s : Symbol) (r : Nat) : Prop :=
  ∃ kernel next, g.kernelAt? q = some kernel ∧ (s, next) ∈ (augment g).successors kernel ∧
    g.kernelAt? r = some next

variable {g} {q r : Nat} {s : Symbol} {item : Item}

theorem kernelAt?_zero : g.kernelAt? 0 = some [(augment g).startItem] :=
  (explored_collection g).start

theorem isKernel_kernelAt {kernel : List Item} (h : g.kernelAt? q = some kernel) :
    IsKernel (augment g) kernel :=
  (explored_collection g).isKernel kernel (List.mem_of_getElem? h)

theorem linked_states {state : State} (h : g.automaton.states[q]? = some state) :
    g.kernelAt? q = some state.kernel ∧ Linked (kernels g.automaton.states) state.transitions
      ((augment g).successors state.kernel) := by
  obtain ⟨hlt, -⟩ := Array.getElem?_eq_some_iff.mp h
  refine ⟨?_, (explored_collection g).linked q state hlt h⟩
  rw [kernelAt?, kernels_getElem?, h, Option.map_some]

/-- Each symbol leads to one state. -/
theorem transition?_eq_some {state : State} (h : g.automaton.states[q]? = some state) :
    state.transition? s = some r ↔ (s, r) ∈ state.transitions := by
  have hnodup := (linked_states h).2.nodup
  have hover : ∀ found, state.transitions.find? (fun t => t.1 = s) = some found → found.1 = s :=
    fun found hfound => by simpa using List.find?_some hfound
  rw [State.transition?, Option.map_eq_some_iff]
  constructor
  · rintro ⟨⟨t, r'⟩, hfind, rfl⟩
    obtain rfl : t = s := hover _ hfind
    exact List.mem_of_find?_eq_some hfind
  · intro hmem
    obtain ⟨found, hfound⟩ : ∃ found, state.transitions.find? (fun t => t.1 = s) = some found :=
      Option.isSome_iff_exists.mp (List.find?_isSome.mpr ⟨_, hmem, decide_eq_true rfl⟩)
    have hsame : found = (s, r) := List.inj_on_of_nodup_map hnodup
      (List.mem_of_find?_eq_some hfound) hmem (hover _ hfound)
    exact ⟨found, hfound, by rw [hsame]⟩

/-- Transitions lead where they say. -/
theorem Leads.of_transition {state : State} (h : g.automaton.states[q]? = some state)
    (ht : (s, r) ∈ state.transitions) : g.Leads q s r := by
  obtain ⟨hkernel, hlinked⟩ := linked_states h
  obtain ⟨next, hnext, hfound⟩ := hlinked.sound _ ht
  exact ⟨state.kernel, next, hkernel, hnext, hfound⟩

/-- All states but the first are led to. -/
theorem exists_leads {kernel : List Item} (h : g.kernelAt? q = some kernel) (hq : q ≠ 0) :
    ∃ q' s, g.Leads q' s q := by
  have hexplored := explored_collection g
  rcases hexplored.reached kernel (List.mem_of_getElem? h) with rfl | ⟨kernel', hkernel', s, hs⟩
  · obtain ⟨hlt, -⟩ := List.getElem?_eq_some_iff.mp h
    exact absurd ((List.getElem?_inj hlt hexplored.distinct).mp (h.trans hexplored.start.symm)) hq
  · obtain ⟨q', hq'⟩ := List.mem_iff_getElem?.mp hkernel'
    exact ⟨q', s, kernel', kernel, hq', hs, h⟩

/-- Each symbol that follows the dot of an item has a transition. -/
theorem exists_transition {state : State} (h : g.automaton.states[q]? = some state)
    (hitem : item ∈ g.itemsAt q) (hs : (augment g).next? item = some s) :
    ∃ r, (s, r) ∈ state.transitions := by
  obtain ⟨hkernel, hlinked⟩ := linked_states h
  rw [itemsAt, hkernel, Option.getD_some] at hitem
  obtain ⟨next, hnext, -⟩ := exists_successor hitem hs
  obtain ⟨r, hr, -⟩ := hlinked.complete _ hnext
  exact ⟨r, hr⟩

/-- A symbol that leads somewhere follows the dot of an item. -/
theorem Leads.exists_item (h : g.Leads q s r) :
    ∃ item ∈ g.itemsAt q, (augment g).next? item = some s := by
  obtain ⟨kernel, next, hkernel, hnext, -⟩ := h
  obtain ⟨item, hitem⟩ := List.exists_mem_of_ne_nil next (spec_of_mem_gather hnext).2.1
  obtain ⟨other, hother, hs, -⟩ := exists_of_mem_successors hnext hitem
  rw [itemsAt, hkernel]
  exact ⟨other, hother, hs⟩

/-- Items are places within productions. -/
theorem hasItem_of_mem_itemsAt (h : item ∈ g.itemsAt q) : (augment g).HasItem item := by
  refine hasItem_of_mem_closure (fun item hitem => ?_) h
  cases hkernel : g.kernelAt? q with
  | none =>
    rw [hkernel] at hitem
    cases hitem
  | some kernel =>
    rw [hkernel] at hitem
    exact (isKernel_kernelAt hkernel).hasItem item hitem

/-- An item whose dot has moved is one of the kernel. -/
theorem mem_kernel_of_dot_ne_zero (h : item ∈ g.itemsAt q) (hdot : item.dot ≠ 0) :
    ∃ kernel, g.kernelAt? q = some kernel ∧ item ∈ kernel := by
  have hmem : item ∈ (g.kernelAt? q).getD [] := by
    by_contra hnot
    exact hdot (next?_of_mem_closure h hnot).1
  cases hkernel : g.kernelAt? q with
  | none =>
    rw [hkernel] at hmem
    cases hmem
  | some kernel =>
    rw [hkernel] at hmem
    exact ⟨kernel, rfl, hmem⟩

/-- Before anything is read no dot has moved. -/
theorem dot_eq_zero_of_mem_itemsAt_zero (h : item ∈ g.itemsAt 0) : item.dot = 0 := by
  by_contra hdot
  obtain ⟨kernel, hkernel, hmem⟩ := mem_kernel_of_dot_ne_zero h hdot
  obtain rfl := Option.some.inj (kernelAt?_zero.symm.trans hkernel)
  rw [List.mem_singleton.mp hmem] at hdot
  exact hdot rfl

/-- A state with an item whose dot has moved is led to. -/
theorem exists_leads_of_dot_ne_zero (h : item ∈ g.itemsAt q) (hdot : item.dot ≠ 0) :
    ∃ q' s, g.Leads q' s q := by
  obtain ⟨kernel, hkernel, -⟩ := mem_kernel_of_dot_ne_zero h hdot
  exact exists_leads hkernel fun hq => hdot (dot_eq_zero_of_mem_itemsAt_zero (hq ▸ h))

/-- Back over a symbol, dots move back. -/
theorem Leads.retreat (h : g.Leads q s r) (hitem : item ∈ g.itemsAt r) (hdot : item.dot ≠ 0) :
    ∃ other ∈ g.itemsAt q, (augment g).next? other = some s ∧ item = other.advance := by
  obtain ⟨kernel, next, hkernel, hnext, hr⟩ := h
  obtain ⟨next', hr', hmem⟩ := mem_kernel_of_dot_ne_zero hitem hdot
  obtain rfl := Option.some.inj (hr.symm.trans hr')
  rw [itemsAt, hkernel]
  exact exists_of_mem_successors hnext hmem

/-- The production for the whole input begins nowhere but at the start. -/
theorem Leads.startItem_not_mem (h : g.Leads q s r) :
    (augment g).startItem ∉ g.itemsAt r := by
  obtain ⟨kernel, next, -, hnext, hr⟩ := h
  intro hmem
  rw [itemsAt, hr, Option.getD_some] at hmem
  by_cases hkernel : (augment g).startItem ∈ next
  · obtain ⟨other, -, -, hother⟩ := exists_of_mem_successors hnext hkernel
    exact Nat.succ_ne_zero _ (congrArg Item.dot hother).symm
  · obtain ⟨-, rule, hrule, -⟩ := next?_of_mem_closure hmem hkernel
    obtain ⟨hlt, -⟩ := Array.getElem?_eq_some_iff.mp hrule
    exact Nat.lt_irrefl _ hlt

/-- A production of the grammar begins only where its phrase may come next. -/
theorem exists_nextKind {p : Nat} (h : ⟨p, 0⟩ ∈ g.itemsAt q) (hp : p ≠ (augment g).whole) :
    ∃ rule, g.productions[p]? = some rule ∧
      ∃ other ∈ g.itemsAt q, (augment g).nextKind? other = some rule.lhs := by
  by_cases hmem : (⟨p, 0⟩ : Item) ∈ (g.kernelAt? q).getD []
  · cases hkernel : g.kernelAt? q with
    | none =>
      rw [hkernel] at hmem
      cases hmem
    | some kernel =>
      rw [hkernel, Option.getD_some] at hmem
      rcases (isKernel_kernelAt hkernel).moved with rfl | hmoved
      · exact absurd (congrArg Item.production (List.mem_singleton.mp hmem)) hp
      · exact absurd rfl (hmoved _ hmem)
  · obtain ⟨-, rule, hrule, hother⟩ := next?_of_mem_closure h hmem
    exact ⟨rule, hrule, hother⟩

theorem exists_kernelAt {item : Item} (hitem : item ∈ g.itemsAt q) :
    ∃ state, g.automaton.states[q]? = some state := by
  cases hkernel : g.kernelAt? q with
  | none =>
    have hkinds : (augment g).closureKinds [] = [] := by
      rw [closureKinds, Graph.reachFrom]
      cases (augment g).grammar.nonTerminals.size <;> rfl
    rw [itemsAt, hkernel, Option.getD_none, Augmented.closure, hkinds] at hitem
    cases hitem
  | some kernel =>
    rw [kernelAt?, kernels_getElem?] at hkernel
    obtain ⟨state, hstate, -⟩ := Option.map_eq_some_iff.mp hkernel
    exact ⟨state, hstate⟩

/-! ### Items with lookaheads -/

theorem map_fst_closureWith (g : PreparedGrammar) (kernel : List (Item × Lookahead)) :
    ((augment g).closureWith kernel).map (·.1) = (augment g).closure (kernel.map (·.1)) := by
  simp only [closureWith, Augmented.closure, List.map_append, List.map_flatMap, List.map_map]
  congr 2
  funext kind
  exact List.map_id' _

/-- The items that the actions of a state are decided by are the items of the state. -/
theorem map_fst_closureOf {state : State} (hstate : g.automaton.states[q]? = some state) :
    (g.automaton.closureOf q).map (·.1) = g.itemsAt q := by
  have hkernel : ((g.automaton.kernelOf q).map (·.1)) = state.kernel := by
    rw [Automaton.kernelOf, hstate]
    simp only [List.map_map]
    exact List.zipIdx_map_fst ..
  have hwith := map_fst_closureWith g ((g.automaton.kernelOf q).map fun entry =>
    (entry.1, Lookahead.mk entry.2 false))
  rw [itemsAt, (linked_states hstate).1, Option.getD_some, ← hkernel]
  rw [List.map_map] at hwith
  rw [Automaton.closureOf, List.map_map]
  exact hwith

theorem mem_itemsAt {state : State} (hstate : g.automaton.states[q]? = some state)
    {entry : Item × TerminalSet} (h : entry ∈ g.automaton.closureOf q) :
    entry.1 ∈ g.itemsAt q := by
  rw [← map_fst_closureOf hstate]
  exact List.mem_map.mpr ⟨entry, h, rfl⟩

/-- A complete item has its dot at the end. -/
theorem dot_eq_of_isComplete {item : Item} (hitem : item ∈ g.itemsAt q)
    (hcomplete : (augment g).isComplete item) :
    item.dot = ((augment g).symbolsOf item.production).length := by
  have hle := (hasItem_of_mem_itemsAt hitem).2
  have hge := List.getElem?_eq_none_iff.mp (Option.isNone_iff_eq_none.mp hcomplete)
  exact Nat.le_antisymm hle hge

/-! ### Symbols of phrases -/

theorem nonTerminalIndex?_eq_some {kind : Nat} :
    g.nonTerminalIndex? s = some kind ↔ s = g.nonTerminalSymbol kind := by
  obtain ⟨index⟩ := s
  simp only [nonTerminalIndex?, nonTerminalSymbol, Symbol.mk.injEq]
  split
  · simp only [reduceCtorEq, false_iff]
    omega
  · simp only [Option.some.injEq]
    omega

/-! ### Paths -/

/-- The state at the end of a path. -/
def endOf : List (Symbol × Nat) → Nat
  | [] => 0
  | (_, q) :: _ => q

/-- Symbols and the states they lead to, the last one first, from the start on. -/
inductive Path (g : PreparedGrammar) : List (Symbol × Nat) → Prop where
  | nil : Path g []
  | cons {path : List (Symbol × Nat)} {s : Symbol} {q : Nat} (rest : Path g path)
      (leads : g.Leads (endOf path) s q) : Path g ((s, q) :: path)

theorem Path.of_append {steps rest : List (Symbol × Nat)} (h : g.Path (steps ++ rest)) :
    g.Path rest := by
  induction steps with
  | nil => exact h
  | cons step steps ih =>
    cases h with
    | cons below _ => exact ih below

/-- The symbols before a dot are the last ones of a path to its item, and before them stands an
item with the dot at the start. -/
theorem Path.exists_steps {path : List (Symbol × Nat)} (h : g.Path path) {p dot : Nat}
    (hitem : ⟨p, dot⟩ ∈ g.itemsAt (endOf path)) :
    ∃ steps rest, path = steps ++ rest ∧
      (steps.map (·.1)).reverse = ((augment g).symbolsOf p).take dot ∧
      ⟨p, 0⟩ ∈ g.itemsAt (endOf rest) := by
  induction dot generalizing path with
  | zero => exact ⟨[], path, rfl, by simp, hitem⟩
  | succ dot ih =>
    cases h with
    | nil => exact absurd (dot_eq_zero_of_mem_itemsAt_zero hitem) (Nat.succ_ne_zero dot)
    | cons rest leads =>
      obtain ⟨other, hother, hs, heq⟩ := leads.retreat hitem (Nat.succ_ne_zero dot)
      obtain ⟨rfl, rfl⟩ : p = other.production ∧ dot = other.dot := by
        simpa [Item.advance] using heq
      obtain ⟨steps, below, rfl, hsymbols, hbegin⟩ := ih rest hother
      refine ⟨_ :: steps, below, rfl, ?_, hbegin⟩
      rw [List.map_cons, List.reverse_cons, hsymbols, List.take_add_one]
      rw [next?] at hs
      rw [hs, Option.toList_some]

/-- When the whole input is complete, the path is one step over the start symbol. -/
theorem Path.eq_of_complete {path : List (Symbol × Nat)} (h : g.Path path)
    (hitem : ⟨(augment g).whole, 1⟩ ∈ g.itemsAt (endOf path)) :
    ∃ q, path = [(g.nonTerminalSymbol 0, q)] := by
  obtain ⟨steps, rest, rfl, hsymbols, hbegin⟩ := h.exists_steps hitem
  have hrest : rest = [] := by
    cases rest with
    | nil => rfl
    | cons step rest =>
      -- nothing leads to a state where the whole input begins
      cases h.of_append with
      | cons _ leads => exact absurd hbegin leads.startItem_not_mem
  subst hrest
  have hone : steps.map (·.1) = [g.nonTerminalSymbol 0] := by
    rw [List.reverse_eq_iff.mp hsymbols, symbolsOf_whole]
    rfl
  cases steps with
  | nil => cases hone
  | cons step steps =>
    obtain ⟨hstep, hnil⟩ := List.cons.inj hone
    obtain rfl := List.map_eq_nil_iff.mp hnil
    exact ⟨step.2, by rw [← hstep, List.append_nil]⟩

end LRWorkbench.PreparedGrammar
