import LRWorkbench.Lalr.Collection
import LRWorkbench.Proofs.Graph.Reach

/-!
# Items of an augmented grammar

An item of the closure of a kernel is either one of the kernel or the beginning of a production
whose phrase kind follows the dot of another item of the closure (`next?_of_mem_closure`). Since
the production for the whole input begins nothing, its items are all in kernels.
-/

namespace LRWorkbench

namespace Lalr

@[simp] theorem Item.advance_production (item : Item) :
    item.advance.production = item.production := rfl

@[simp] theorem Item.advance_dot (item : Item) : item.advance.dot = item.dot + 1 := rfl

/-- The strict order of items. -/
def Item.lt (a b : Item) : Prop :=
  a.production < b.production ∨ (a.production = b.production ∧ a.dot < b.dot)

variable {g : PreparedGrammar}

theorem mem_productionsOf {kind p : Nat} :
    p ∈ productionsOf g kind ↔ ∃ rule, g.productions[p]? = some rule ∧ rule.lhs = kind := by
  simp only [productionsOf, List.mem_filter, List.mem_range, decide_eq_true_eq,
    Option.map_eq_some_iff]
  constructor
  · rintro ⟨-, h⟩
    exact h
  · rintro ⟨rule, hrule, hlhs⟩
    exact ⟨(Array.getElem?_eq_some_iff.mp hrule).choose, rule, hrule, hlhs⟩

/-- A kind begins another if a production of that one has it first. -/
theorem mem_beginningsOf {kind kind' : Nat} (h : kind' ∈ beginningsOf g kind) :
    ∃ p ∈ productionsOf g kind, ∃ rule s, g.productions[p]? = some rule ∧
      rule.symbols.head? = some s ∧ g.nonTerminalIndex? s = some kind' := by
  obtain ⟨p, hp, hs⟩ := List.mem_filterMap.mp (List.mem_eraseDups.mp h)
  obtain ⟨s, hs, hkind⟩ := Option.bind_eq_some_iff.mp hs
  obtain ⟨rule, hrule, hhead⟩ := Option.bind_eq_some_iff.mp hs
  exact ⟨p, hp, rule, s, hrule, hhead, hkind⟩

namespace Augmented

@[simp] theorem grammar_augment : (augment g).grammar = g := rfl

@[simp] theorem whole_augment : (augment g).whole = g.productions.size := rfl

theorem size_rhs_augment : (augment g).rhs.size = g.productions.size + 1 := by
  simp [augment]

/-- The symbols of a production of the grammar. -/
theorem symbolsOf_augment {p : Nat} {rule : Production} (h : g.productions[p]? = some rule) :
    (augment g).symbolsOf p = rule.symbols := by
  obtain ⟨hp, rfl⟩ := Array.getElem?_eq_some_iff.mp h
  simp [symbolsOf, augment, Array.getElem?_push, hp, Nat.ne_of_lt hp]

/-- The production for the whole input has one step. -/
theorem symbolsOf_whole : (augment g).symbolsOf (augment g).whole = [g.nonTerminalSymbol 0] := by
  simp [symbolsOf, augment, whole, Array.getElem_push]

/-- The first items of a kind are the beginnings of its productions. -/
theorem mem_itemsOf {kind : Nat} {item : Item} (h : item ∈ (augment g).itemsOf kind) :
    item.dot = 0 ∧ ∃ rule, g.productions[item.production]? = some rule ∧ rule.lhs = kind := by
  obtain ⟨p, hp, rfl⟩ := List.mem_map.mp h
  refine ⟨rfl, mem_productionsOf.mp ?_⟩
  simp only [augment, Array.getElem?_map] at hp
  cases hrange : (Array.range g.nonTerminals.size)[kind]? with
  | none => simp [hrange] at hp
  | some k =>
    obtain ⟨hk, rfl⟩ := Array.getElem?_eq_some_iff.mp hrange
    simpa [hrange] using hp

/-- A closure has the kernel and the first items of the kinds that it calls for. -/
theorem mem_closure {kernel : List Item} {item : Item} :
    item ∈ (augment g).closure kernel ↔ item ∈ kernel ∨
      ∃ kind ∈ (augment g).closureKinds kernel, item ∈ (augment g).itemsOf kind := by
  simp [closure, List.mem_append, List.mem_flatMap]

theorem mem_closure_of_mem {kernel : List Item} {item : Item} (h : item ∈ kernel) :
    item ∈ (augment g).closure kernel :=
  mem_closure.mpr (.inl h)

/-- A phrase kind that begins in a closure follows the dot of an item of the closure. -/
theorem exists_nextKind_of_mem_closureKinds {kernel : List Item} {kind : Nat}
    (h : kind ∈ (augment g).closureKinds kernel) :
    ∃ item ∈ (augment g).closure kernel, (augment g).nextKind? item = some kind := by
  rcases Graph.mem_reachFrom h with hroot | ⟨kind', hkind', hnext⟩
  · obtain ⟨item, hitem, hkind⟩ := List.mem_filterMap.mp hroot
    exact ⟨item, mem_closure_of_mem hitem, hkind⟩
  · simp only [augment, Array.getElem?_map] at hnext
    cases hrange : (Array.range g.nonTerminals.size)[kind']? with
    | none => simp [hrange] at hnext
    | some k =>
      obtain ⟨hk, rfl⟩ := Array.getElem?_eq_some_iff.mp hrange
      simp only [hrange, Option.map_some, Option.getD_some, Array.getElem_range] at hnext hkind'
      obtain ⟨p, hp, rule, s, hrule, hhead, hs⟩ := mem_beginningsOf hnext
      -- the production that begins so is in the closure with its dot at the start
      refine ⟨⟨p, 0⟩, mem_closure.mpr (.inr ⟨_, hkind', ?_⟩), ?_⟩
      · refine List.mem_map.mpr ⟨p, ?_, rfl⟩
        rw [Array.size_range] at hk
        simpa [augment, hk] using hp
      · simp only [nextKind?, next?, symbolsOf_augment hrule, ← List.head?_eq_getElem?, hhead,
          Option.bind_some]
        exact hs

/-- An item that is in a closure but not in the kernel is the beginning of a production of the
phrase kind after the dot of another item of the closure. -/
theorem next?_of_mem_closure {kernel : List Item} {item : Item}
    (h : item ∈ (augment g).closure kernel) (hkernel : item ∉ kernel) :
    item.dot = 0 ∧ ∃ rule, g.productions[item.production]? = some rule ∧
      ∃ other ∈ (augment g).closure kernel,
        (augment g).nextKind? other = some rule.lhs := by
  rcases mem_closure.mp h with hmem | ⟨kind, hkind, hitem⟩
  · exact absurd hmem hkernel
  · obtain ⟨hdot, rule, hrule, rfl⟩ := mem_itemsOf hitem
    exact ⟨hdot, rule, hrule, exists_nextKind_of_mem_closureKinds hkind⟩

/-! ### There are finitely many items -/

/-- Whether an item is a place within a production. -/
def HasItem (a : Augmented) (item : Item) : Prop :=
  item.production < a.rhs.size ∧ item.dot ≤ (a.symbolsOf item.production).length

theorem hasItem_startItem : (augment g).HasItem (augment g).startItem :=
  ⟨by simp [startItem, size_rhs_augment], Nat.zero_le _⟩

/-- All items in the closure of some items are places within productions. -/
theorem hasItem_of_mem_closure {kernel : List Item}
    (hkernel : ∀ item ∈ kernel, (augment g).HasItem item) {item : Item}
    (h : item ∈ (augment g).closure kernel) : (augment g).HasItem item := by
  by_cases hmem : item ∈ kernel
  · exact hkernel item hmem
  · obtain ⟨hdot, rule, hrule, -⟩ := next?_of_mem_closure h hmem
    obtain ⟨hp, -⟩ := Array.getElem?_eq_some_iff.mp hrule
    exact ⟨by rw [size_rhs_augment]; omega, by omega⟩

/-- The dot moves within the production, as long as a symbol stands behind it. -/
theorem hasItem_advance {a : Augmented} {item : Item} {s : Symbol} (h : a.HasItem item)
    (hnext : a.next? item = some s) : a.HasItem item.advance := by
  obtain ⟨hlt, -⟩ := List.getElem?_eq_some_iff.mp hnext
  exact ⟨h.1, hlt⟩

/-- The items of a grammar, production after production. -/
def allItems (a : Augmented) : List Item :=
  (List.range a.rhs.size).flatMap fun p =>
    (List.range ((a.symbolsOf p).length + 1)).map (Item.mk p)

theorem mem_allItems {a : Augmented} {item : Item} : item ∈ a.allItems ↔ a.HasItem item := by
  obtain ⟨p, dot⟩ := item
  rw [allItems, List.mem_flatMap]
  constructor
  · rintro ⟨q, hq, hitem⟩
    obtain ⟨i, hi, heq⟩ := List.mem_map.mp hitem
    obtain ⟨rfl, rfl⟩ := Item.mk.inj heq
    exact ⟨List.mem_range.mp hq, Nat.le_of_lt_succ (List.mem_range.mp hi)⟩
  · rintro ⟨hp, hdot⟩
    exact ⟨p, List.mem_range.mpr hp, List.mem_map_of_mem (List.mem_range.mpr (Nat.lt_succ_of_le hdot))⟩

theorem length_allItems (a : Augmented) : a.allItems.length = a.itemCount := by
  have hfold : ∀ (l : List (List Symbol)) (n : Nat),
      l.foldl (fun n symbols => n + symbols.length + 1) n =
        n + (l.map fun symbols => symbols.length + 1).sum := by
    intro l
    induction l with
    | nil => simp
    | cons symbols l ih =>
      intro n
      simp only [List.foldl_cons, ih, List.map_cons, List.sum_cons]
      omega
  have hrows : (List.range a.rhs.size).map (fun p => (a.symbolsOf p).length + 1) =
      a.rhs.toList.map fun symbols => symbols.length + 1 := by
    refine List.ext_getElem (by simp) fun i hi _ => ?_
    simp only [List.length_map, List.length_range] at hi
    simp [symbolsOf, hi]
  simp only [allItems, List.length_flatMap, List.length_map, List.length_range]
  rw [hrows, itemCount, ← Array.foldl_toList, hfold, Nat.zero_add]

end Augmented

end Lalr

end LRWorkbench
