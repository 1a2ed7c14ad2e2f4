import LRWorkbench.Proofs.Lalr.ItemSet
import LRWorkbench.Proofs.Prepared.Productive

/-!
# Canonical sets of followed items

A **followed item** is an item with one terminal that follows its production. The theory closes,
advances and collects sets of them just as sets of items: where a phrase begins, it is followed by
what the rest of the production and then the terminal of the item begin with.

Without its terminals, a set of followed items has a **core**. In a productive grammar closing goes
on alike with and without terminals (`core_followedClosure`), so that every item set that the start
leads to is the core of a canonical set (`Reachable.exists_canonical`).
-/

namespace LRWorkbench.Lalr

open PreparedGrammar Augmented

/-- An item and a terminal that follows its production. -/
abbrev FollowedItem := Item × Symbol

/-- Whether an item is followed by a terminal in the closure of a kernel: it is so in the kernel, or
it begins a phrase that another item goes on with, and what comes after the phrase begins with the
terminal. -/
inductive FollowedIn (g : PreparedGrammar) (kernel : Set FollowedItem) : Item → Symbol → Prop where
  | kernel {item : Item} {t : Symbol} (mem : (item, t) ∈ kernel) : FollowedIn g kernel item t
  | begins {item : Item} {t first : Symbol} {p : Nat} {rule : Production} {sentence : List Symbol}
      (whole : FollowedIn g kernel item t) (production : g.productions[p]? = some rule)
      (next : (augment g).next? item = some (g.nonTerminalSymbol rule.lhs))
      (rest : g.DerivesAll ((augment g).afterNext item) sentence)
      (begin : (sentence ++ [t]).head? = some first) : FollowedIn g kernel ⟨p, 0⟩ first

/-- The closure of a kernel of followed items. -/
def followedClosure (g : PreparedGrammar) (kernel : Set FollowedItem) : Set FollowedItem :=
  {e | FollowedIn g kernel e.1 e.2}

/-- The followed items that go on with a symbol, advanced over it. -/
def advanceOver (g : PreparedGrammar) (items : Set FollowedItem) (s : Symbol) : Set FollowedItem :=
  {e | ∃ other ∈ items, (augment g).next? other.1 = some s ∧ e = (other.1.advance, other.2)}

/-- Whether followed items are a canonical set: the closure of the start, which is followed by the
end of the input, or of the items of a canonical set advanced over a symbol. -/
inductive Canonical (g : PreparedGrammar) : Set FollowedItem → Prop where
  | start : Canonical g (followedClosure g {((augment g).startItem, .endOfInput)})
  | successor {items : Set FollowedItem} {s : Symbol} (before : Canonical g items)
      (nonempty : (advanceOver g items s).Nonempty) :
      Canonical g (followedClosure g (advanceOver g items s))

/-- Followed items without what follows them. -/
def core (items : Set FollowedItem) : Set Item := {item | ∃ t, (item, t) ∈ items}

variable {g : PreparedGrammar} {kernel : Set FollowedItem} {item : Item} {t : Symbol}

/-- The closure of items of a closure stays within it. -/
theorem FollowedIn.trans {more : Set FollowedItem} (h : FollowedIn g more item t)
    (hmore : ∀ e ∈ more, FollowedIn g kernel e.1 e.2) : FollowedIn g kernel item t := by
  induction h with
  | kernel hmem => exact hmore _ hmem
  | begins _ hrule hnext hrest hbegin ih => exact ih.begins hrule hnext hrest hbegin

/-- Canonical sets are closed. -/
theorem Canonical.mem_of_followedIn {items : Set FollowedItem} (h : Canonical g items)
    (hkernel : ∀ e ∈ kernel, e ∈ items) (hitem : FollowedIn g kernel item t) :
    (item, t) ∈ items := by
  cases h with
  | start => exact hitem.trans hkernel
  | successor _ _ => exact hitem.trans hkernel

/-- The symbols of a production of the grammar derive some terminals. -/
theorem derives_of_mem_symbolsOf (hproductive : g.Productive) {p : Nat}
    (hp : p ≠ (augment g).whole) :
    ∀ s ∈ (augment g).symbolsOf p, ∃ sentence, g.Derives s sentence := by
  intro s hs
  rcases Nat.lt_or_gt_of_ne hp with hlt | hgt
  · have hrule := Array.getElem?_eq_getElem (show p < g.productions.size from hlt)
    rw [symbolsOf_augment hrule] at hs
    exact hproductive _ (Array.mem_of_getElem? hrule) s hs
  · rw [whole_augment] at hgt
    rw [symbolsOf, Array.getElem?_eq_none (by rw [size_rhs_augment]; omega)] at hs
    cases hs

/-- The symbols after the one that an item goes on with are symbols of a production. -/
theorem derives_of_mem_afterNext (hproductive : g.Productive) (item : Item) :
    ∀ s ∈ (augment g).afterNext item, ∃ sentence, g.Derives s sentence := by
  intro s hs
  by_cases hwhole : item.production = (augment g).whole
  · -- the only symbol of the whole input is the one that comes next
    rw [afterNext, hwhole, symbolsOf_whole, List.drop_succ_cons, List.drop_nil] at hs
    cases hs
  · exact derives_of_mem_symbolsOf hproductive hwhole s (List.mem_of_mem_drop hs)

/-- What comes after the symbol that an item goes on with begins with some terminal. -/
theorem exists_begin (hproductive : g.Productive) (item : Item) (t : Symbol) :
    ∃ sentence first, g.DerivesAll ((augment g).afterNext item) sentence ∧
      (sentence ++ [t]).head? = some first := by
  obtain ⟨sentence, hrest⟩ := exists_derivesAll (derives_of_mem_afterNext hproductive item)
  exact ⟨sentence, _, hrest, List.head?_eq_some_head (by simp)⟩

/-- Closing goes on alike with and without terminals. -/
theorem core_followedClosure (hproductive : g.Productive) (kernel : Set FollowedItem) :
    core (followedClosure g kernel) = closureSet g (core kernel) := by
  ext item
  constructor
  · rintro ⟨t, ht⟩
    change FollowedIn g kernel item t at ht
    induction ht with
    | kernel hmem => exact .kernel ⟨_, hmem⟩
    | begins _ hrule hnext _ _ ih => exact .begins ih hrule hnext
  · intro hitem
    induction hitem with
    | kernel hmem =>
      obtain ⟨t, ht⟩ := hmem
      exact ⟨t, .kernel ht⟩
    | @begins item p rule _ hrule hnext ih =>
      -- whatever follows the item, the rest of its production derives something before that
      obtain ⟨t, ht⟩ := ih
      obtain ⟨sentence, first, hrest, hfirst⟩ := exists_begin hproductive item t
      exact ⟨first, .begins ht hrule hnext hrest hfirst⟩

/-- Advancing goes on alike with and without terminals. -/
theorem core_advanceOver {items : Set FollowedItem} {kernel : Set Item}
    (h : core items = closureSet g kernel) (s : Symbol) :
    core (advanceOver g items s) = successorSet g kernel s := by
  ext item
  rw [successorSet, ← h]
  constructor
  · rintro ⟨t, ⟨other, u⟩, hmem, hs, heq⟩
    obtain ⟨rfl, rfl⟩ := Prod.mk.inj heq
    exact ⟨other, ⟨t, hmem⟩, hs, rfl⟩
  · rintro ⟨other, ⟨t, hmem⟩, hs, rfl⟩
    exact ⟨t, (other, t), hmem, hs, rfl⟩

theorem core_start (g : PreparedGrammar) :
    core {((augment g).startItem, .endOfInput)} = {(augment g).startItem} := by
  ext item
  constructor
  · rintro ⟨t, ht⟩
    exact (Prod.mk.inj (Set.mem_singleton_iff.mp ht)).1
  · intro hitem
    exact ⟨.endOfInput, congrArg (·, Symbol.endOfInput) (Set.mem_singleton_iff.mp hitem)⟩

/-- Every item set that the start leads to is the core of a canonical set. -/
theorem Reachable.exists_canonical (hproductive : g.Productive) {kernel : Set Item}
    (h : Reachable g kernel) :
    ∃ items, Canonical g items ∧ core items = closureSet g kernel := by
  induction h with
  | start => exact ⟨_, .start, by rw [core_followedClosure hproductive, core_start]⟩
  | @successor kernel s _ hnonempty ih =>
    obtain ⟨items, hitems, hcore⟩ := ih
    have hadvance := core_advanceOver hcore s
    have hsome : (advanceOver g items s).Nonempty := by
      rw [← hadvance] at hnonempty
      obtain ⟨item, t, hmem⟩ := hnonempty
      exact ⟨(item, t), hmem⟩
    exact ⟨_, hitems.successor hsome, by rw [core_followedClosure hproductive, hadvance]⟩

/-- A kernel has those items of its closure that do not begin a phrase. -/
theorem mem_kernelSet_iff {state : State} (h : state ∈ g.automaton.states) :
    item ∈ state.kernelSet ↔ item ∈ closureSet g state.kernelSet ∧
      (item.dot ≠ 0 ∨ item.production = (augment g).whole) := by
  constructor
  · intro hitem
    refine ⟨.kernel hitem, ?_⟩
    rcases (isKernel_of_mem h).moved with hstart | hmoved
    · rw [State.kernelSet, hstart] at hitem
      rw [List.mem_singleton.mp hitem]
      exact .inr rfl
    · exact .inl (hmoved item hitem)
  · rintro ⟨hitem, hdot⟩
    cases hitem with
    | kernel hmem => exact hmem
    | begins _ hrule _ =>
      rcases hdot with hdot | hwhole
      · exact absurd rfl hdot
      · exact absurd hwhole (Nat.ne_of_lt (Array.getElem?_eq_some_iff.mp hrule).choose)

/-- States are told apart by their item sets. -/
theorem eq_of_closureSet_eq {q q' : Nat} {state state' : State}
    (hq : g.automaton.states[q]? = some state) (hq' : g.automaton.states[q']? = some state')
    (h : closureSet g state.kernelSet = closureSet g state'.kernelSet) : q = q' := by
  refine eq_of_kernelSet_eq hq hq' (Set.ext fun item => ?_)
  rw [mem_kernelSet_iff (Array.mem_of_getElem? hq), h,
    ← mem_kernelSet_iff (Array.mem_of_getElem? hq')]

end LRWorkbench.Lalr
