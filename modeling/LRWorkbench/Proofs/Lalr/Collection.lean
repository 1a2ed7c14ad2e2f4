import LRWorkbench.Proofs.Lalr.Item
import Mathlib.Data.Finset.Powerset
import Mathlib.Data.List.Sort

/-!
# The collection of item sets is complete

`Augmented.explore` goes from state to state and adds the ones that it meets. Its fuel is enough:
kernels are lists of items in order, all different, so that there are no more of them than sets of
items (`Explored.size_le`). In the end every state is linked to the states of its successors
(`Augmented.explored_collection`).
-/

namespace LRWorkbench.Lalr

/-! ### Items in order -/

instance : Std.Irrefl Item.lt where
  irrefl a h := by simp [Item.lt] at h

instance : Std.Antisymm Item.lt where
  antisymm a b hab hba := by
    simp only [Item.lt] at hab hba
    omega

theorem Item.lt_trans {a b c : Item} (hab : Item.lt a b) (hbc : Item.lt b c) : Item.lt a c := by
  simp only [Item.lt] at hab hbc ⊢
  omega

theorem Item.lt_of_le {a b : Item} (h : a.le b = true) (hne : a ≠ b) : Item.lt a b := by
  have hdot : a.production = b.production → a.dot ≠ b.dot := by
    intro hp hd
    cases a
    cases b
    exact hne (by simp_all)
  simp only [Item.le, Bool.or_eq_true, Bool.and_eq_true, decide_eq_true_eq] at h
  simp only [Item.lt]
  omega

theorem Item.lt_of_not_le {a b : Item} (h : ¬a.le b = true) : Item.lt b a := by
  simp only [Item.le, Bool.or_eq_true, Bool.and_eq_true, decide_eq_true_eq] at h
  simp only [Item.lt]
  omega

theorem Item.mem_insert {item i : Item} {items : List Item} :
    i ∈ item.insert items ↔ i = item ∨ i ∈ items := by
  induction items with
  | nil => simp [Item.insert]
  | cons j rest ih =>
    rw [Item.insert]
    split
    · rename_i h
      subst h
      simp
    · split
      · simp
      · simp [ih, or_left_comm]

/-- An item that is put among items in order stands in order. -/
theorem Item.pairwise_insert {item : Item} {items : List Item} (h : items.Pairwise Item.lt) :
    (item.insert items).Pairwise Item.lt := by
  induction items with
  | nil => simp [Item.insert]
  | cons j rest ih =>
    rw [Item.insert]
    split
    · exact h
    obtain ⟨hj, hrest⟩ := List.pairwise_cons.mp h
    split
    · rename_i hne hle
      have hlt := Item.lt_of_le hle hne
      refine List.pairwise_cons.mpr ⟨fun i hi => ?_, h⟩
      rcases List.mem_cons.mp hi with rfl | hi
      · exact hlt
      · exact Item.lt_trans hlt (hj i hi)
    · rename_i hle
      refine List.pairwise_cons.mpr ⟨fun i hi => ?_, ih hrest⟩
      rcases Item.mem_insert.mp hi with rfl | hi
      · exact Item.lt_of_not_le hle
      · exact hj i hi

/-! ### Gathering the items of a symbol -/

section Gather

variable {s : Symbol} {item : Item} {found : List (Symbol × List Item)}

/-- What is there after a move was added: what was there before and the items of its symbol. -/
theorem mem_addMove {entry : Symbol × List Item} (h : entry ∈ addMove s item found) :
    entry ∈ found ∨ entry = (s, [item]) ∨ ∃ items, (s, items) ∈ found ∧
      entry = (s, item.insert items) := by
  induction found with
  | nil => exact .inr (.inl (List.mem_singleton.mp h))
  | cons first rest ih =>
    obtain ⟨t, items⟩ := first
    rw [addMove] at h
    split at h
    · rename_i hs
      subst hs
      rcases List.mem_cons.mp h with rfl | h
      · exact .inr (.inr ⟨items, List.mem_cons_self .., rfl⟩)
      · exact .inl (List.mem_cons_of_mem _ h)
    split at h
    · rcases List.mem_cons.mp h with rfl | h
      · exact .inr (.inl rfl)
      · exact .inl h
    · rcases List.mem_cons.mp h with rfl | h
      · exact .inl (List.mem_cons_self ..)
      · rcases ih h with h | h | ⟨items', hitems, h⟩
        · exact .inl (List.mem_cons_of_mem _ h)
        · exact .inr (.inl h)
        · exact .inr (.inr ⟨items', List.mem_cons_of_mem _ hitems, h⟩)

/-- The advanced item is entered under its symbol, whether there are others already or not. -/
theorem exists_mem_addMove : ∃ items, (s, items) ∈ addMove s item found ∧ item ∈ items := by
  induction found with
  | nil => exact ⟨[item], List.mem_singleton_self _, List.mem_singleton_self _⟩
  | cons first rest ih =>
    obtain ⟨t, items⟩ := first
    rw [addMove]
    split
    · rename_i hs
      subst hs
      exact ⟨_, List.mem_cons_self .., Item.mem_insert.mpr (.inl rfl)⟩
    split
    · exact ⟨_, List.mem_cons_self .., List.mem_singleton_self _⟩
    · obtain ⟨items', hitems, hitem⟩ := ih
      exact ⟨items', List.mem_cons_of_mem _ hitems, hitem⟩

/-- Items that are there stay there. -/
theorem exists_mem_addMove_of_mem (s : Symbol) (item : Item) {t : Symbol} {items : List Item}
    (h : (t, items) ∈ found) :
    ∃ items', (t, items') ∈ addMove s item found ∧ ∀ i ∈ items, i ∈ items' := by
  induction found with
  | nil => cases h
  | cons first rest ih =>
    obtain ⟨u, others⟩ := first
    rw [addMove]
    split
    · rcases List.mem_cons.mp h with heq | h
      · obtain ⟨rfl, rfl⟩ := Prod.mk.inj heq
        exact ⟨_, List.mem_cons_self .., fun i hi => Item.mem_insert.mpr (.inr hi)⟩
      · exact ⟨items, List.mem_cons_of_mem _ h, fun _ hi => hi⟩
    split
    · exact ⟨items, List.mem_cons_of_mem _ h, fun _ hi => hi⟩
    · rcases List.mem_cons.mp h with heq | h
      · exact ⟨items, heq ▸ List.mem_cons_self .., fun _ hi => hi⟩
      · obtain ⟨items', hitems, hsub⟩ := ih h
        exact ⟨items', List.mem_cons_of_mem _ hitems, hsub⟩

/-- The symbols of moves stay in order. -/
theorem pairwise_addMove (h : found.Pairwise fun a b => a.1.index < b.1.index) :
    (addMove s item found).Pairwise fun a b => a.1.index < b.1.index := by
  induction found with
  | nil => exact List.pairwise_singleton ..
  | cons first rest ih =>
    obtain ⟨t, items⟩ := first
    obtain ⟨hfirst, hrest⟩ := List.pairwise_cons.mp h
    rw [addMove]
    split
    · exact List.pairwise_cons.mpr ⟨hfirst, hrest⟩
    rename_i hne
    split
    · rename_i hlt
      refine List.pairwise_cons.mpr ⟨fun entry hentry => ?_, h⟩
      rcases List.mem_cons.mp hentry with rfl | hentry
      · exact hlt
      · exact Nat.lt_trans hlt (hfirst entry hentry)
    · rename_i hge
      refine List.pairwise_cons.mpr ⟨fun entry hentry => ?_, ih hrest⟩
      have hlt : t.index < s.index := by
        have hindex : s.index ≠ t.index := fun heq => hne (by cases s; cases t; simp_all)
        omega
      rcases mem_addMove hentry with hentry | rfl | ⟨items', -, rfl⟩
      · exact hfirst entry hentry
      · exact hlt
      · exact hlt

end Gather

/-- Each symbol has one item set. -/
theorem pairwise_gather (moves : List (Symbol × Item)) :
    (gather moves).Pairwise fun a b => a.1.index < b.1.index := by
  induction moves with
  | nil => exact .nil
  | cons move moves ih => exact pairwise_addMove ih

/-- An item set that was gathered: the items are in order, there are some, and each comes from a
move over the symbol. -/
theorem spec_of_mem_gather {moves : List (Symbol × Item)} {s : Symbol} {items : List Item}
    (h : (s, items) ∈ gather moves) :
    items.Pairwise Item.lt ∧ items ≠ [] ∧ ∀ item ∈ items, (s, item) ∈ moves := by
  induction moves generalizing s items with
  | nil => cases h
  | cons move moves ih =>
    obtain ⟨t, i⟩ := move
    rcases mem_addMove h with h | h | ⟨items', hitems, h⟩
    · obtain ⟨hordered, hne, hmoves⟩ := ih h
      exact ⟨hordered, hne, fun item hitem => List.mem_cons_of_mem _ (hmoves item hitem)⟩
    · obtain ⟨rfl, rfl⟩ := Prod.mk.inj h
      refine ⟨List.pairwise_singleton .., by simp, fun item hitem => ?_⟩
      rw [List.mem_singleton.mp hitem]
      exact List.mem_cons_self ..
    · obtain ⟨rfl, rfl⟩ := Prod.mk.inj h
      obtain ⟨hordered, -, hmoves⟩ := ih hitems
      refine ⟨Item.pairwise_insert hordered,
        List.ne_nil_of_mem (Item.mem_insert.mpr (.inl rfl)), fun item hitem => ?_⟩
      rcases Item.mem_insert.mp hitem with rfl | hitem
      · exact List.mem_cons_self ..
      · exact List.mem_cons_of_mem _ (hmoves item hitem)

/-- Every move is in an item set of its symbol. -/
theorem exists_mem_gather {moves : List (Symbol × Item)} {s : Symbol} {item : Item}
    (h : (s, item) ∈ moves) : ∃ items, (s, items) ∈ gather moves ∧ item ∈ items := by
  induction moves with
  | nil => cases h
  | cons move moves ih =>
    obtain ⟨t, i⟩ := move
    rcases List.mem_cons.mp h with heq | h
    · obtain ⟨rfl, rfl⟩ := Prod.mk.inj heq
      exact exists_mem_addMove
    · obtain ⟨items, hitems, hitem⟩ := ih h
      obtain ⟨items', hitems', hsub⟩ := exists_mem_addMove_of_mem t i hitems
      exact ⟨items', hitems', hsub item hitem⟩

namespace Augmented

variable {a : Augmented} {kernel next : List Item} {s : Symbol}

/-- The moves of a state advance the items of its closure. -/
theorem mem_moves {item : Item} :
    (s, item) ∈ ((a.closure kernel).filterMap fun item =>
        (a.next? item).map fun s => (s, item.advance)) ↔
      ∃ other ∈ a.closure kernel, a.next? other = some s ∧ item = other.advance := by
  simp only [List.mem_filterMap, Option.map_eq_some_iff, Prod.mk.injEq]
  constructor
  · rintro ⟨other, hother, t, hnext, rfl, rfl⟩
    exact ⟨other, hother, hnext, rfl⟩
  · rintro ⟨other, hother, hnext, rfl⟩
    exact ⟨other, hother, s, hnext, rfl, rfl⟩

/-- The items of a successor are those that were advanced over its symbol. -/
theorem exists_of_mem_successors (h : (s, next) ∈ a.successors kernel) {item : Item}
    (hitem : item ∈ next) :
    ∃ other ∈ a.closure kernel, a.next? other = some s ∧ item = other.advance :=
  mem_moves.mp ((spec_of_mem_gather h).2.2 item hitem)

/-- Every symbol behind a dot has a successor, and the advanced item is in it. -/
theorem exists_successor {item : Item} (hitem : item ∈ a.closure kernel)
    (hnext : a.next? item = some s) :
    ∃ next, (s, next) ∈ a.successors kernel ∧ item.advance ∈ next :=
  exists_mem_gather (mem_moves.mpr ⟨item, hitem, hnext, rfl⟩)

/-! ### Linking states -/

/-- The kernels of some states. -/
def kernels (states : Array State) : List (List Item) := states.toList.map (·.kernel)

theorem kernels_getElem? {states : Array State} {place : Nat} :
    (kernels states)[place]? = states[place]?.map (·.kernel) := by
  simp [kernels]

/-- States that are added leave the kernels before them where they were. -/
theorem map_kernel_mono {states later : Array State} (h : states.toList <+: later.toList) :
    kernels states <+: kernels later :=
  h.map _

theorem getElem?_append_of {α : Type} {front whole : List α} (h : front <+: whole) {i : Nat}
    {x : α} (hx : front[i]? = some x) : whole[i]? = some x := by
  obtain ⟨back, rfl⟩ := h
  exact List.getElem?_append_left (List.getElem?_eq_some_iff.mp hx).choose ▸ hx

/-- Whether transitions lead to the states of some successors. -/
structure Linked (found : List (List Item)) (transitions : List (Symbol × Nat))
    (successors : List (Symbol × List Item)) : Prop where
  sound : ∀ t ∈ transitions, ∃ next, (t.1, next) ∈ successors ∧ found[t.2]? = some next
  complete : ∀ s ∈ successors, ∃ place, (s.1, place) ∈ transitions ∧ found[place]? = some s.2
  symbols : transitions.map (·.1) = successors.map (·.1)

theorem Linked.nil {found : List (List Item)} : Linked found [] [] :=
  ⟨fun _ h => absurd h List.not_mem_nil, fun _ h => absurd h List.not_mem_nil, rfl⟩

theorem Linked.cons {found : List (List Item)} {transitions : List (Symbol × Nat)}
    {successors : List (Symbol × List Item)} {place : Nat}
    (h : Linked found transitions successors) (hplace : found[place]? = some next) :
    Linked found ((s, place) :: transitions) ((s, next) :: successors) where
  sound := by
    intro t ht
    rcases List.mem_cons.mp ht with rfl | ht
    · exact ⟨next, List.mem_cons_self .., hplace⟩
    · obtain ⟨k, hk, hfound⟩ := h.sound t ht
      exact ⟨k, List.mem_cons_of_mem _ hk, hfound⟩
  complete := by
    intro e he
    rcases List.mem_cons.mp he with rfl | he
    · exact ⟨place, List.mem_cons_self .., hplace⟩
    · obtain ⟨i, hi, hfound⟩ := h.complete e he
      exact ⟨i, List.mem_cons_of_mem _ hi, hfound⟩
  symbols := by rw [List.map_cons, List.map_cons, h.symbols]

/-- Links stay when states are added. -/
theorem Linked.mono {found later : List (List Item)} {transitions : List (Symbol × Nat)}
    {successors : List (Symbol × List Item)} (h : Linked found transitions successors)
    (hlater : found <+: later) : Linked later transitions successors where
  sound := by
    intro t ht
    obtain ⟨k, hk, hfound⟩ := h.sound t ht
    exact ⟨k, hk, getElem?_append_of hlater hfound⟩
  complete := by
    intro e he
    obtain ⟨i, hi, hfound⟩ := h.complete e he
    exact ⟨i, hi, getElem?_append_of hlater hfound⟩
  symbols := h.symbols

/-- Each symbol has one transition. -/
theorem Linked.nodup {a : Augmented} {found : List (List Item)} {transitions : List (Symbol × Nat)}
    (h : Linked found transitions (a.successors kernel)) : (transitions.map (·.1)).Nodup := by
  rw [h.symbols, List.Nodup, List.pairwise_map]
  refine (pairwise_gather _).imp fun {x y} hlt heq => ?_
  rw [heq] at hlt
  exact Nat.lt_irrefl _ hlt

/-- The state of a kernel is there afterwards, and it is new only if it was not there before. -/
theorem locate_spec {states later : Array State} {place : Nat}
    (h : locate states kernel = (place, later)) :
    (kernels later)[place]? = some kernel ∧
      (later = states ∨
        kernel ∉ kernels states ∧ later.toList = states.toList ++ [⟨kernel, []⟩]) := by
  rw [locate] at h
  split at h
  · rename_i found hfound
    obtain ⟨rfl, rfl⟩ := Prod.mk.inj h
    obtain ⟨hlt, heq, -⟩ := Array.findIdx?_eq_some_iff_getElem.mp hfound
    refine ⟨?_, .inl rfl⟩
    rw [kernels_getElem?, Array.getElem?_eq_getElem hlt, Option.map_some, of_decide_eq_true heq]
  · rename_i hnone
    obtain ⟨rfl, rfl⟩ := Prod.mk.inj h
    refine ⟨by simp [kernels_getElem?], .inr ⟨?_, by simp⟩⟩
    intro hmem
    obtain ⟨state, hstate, rfl⟩ := List.mem_map.mp hmem
    have := Array.findIdx?_eq_none_iff.mp hnone state (Array.mem_toList_iff.mp hstate)
    simp at this

/-- Linking finds or adds each successor, so the numbers it gives name the right kernels, and no
kernel is added twice. -/
theorem link_spec {states later : Array State} {successors : List (Symbol × List Item)}
    {transitions : List (Symbol × Nat)} (h : link states successors = (transitions, later)) :
    states.toList <+: later.toList ∧ Linked (kernels later) transitions successors ∧
      ((kernels states).Nodup → (kernels later).Nodup) ∧
      ∀ k ∈ kernels later, k ∈ kernels states ∨ ∃ s, (s, k) ∈ successors := by
  induction successors generalizing states transitions with
  | nil =>
    obtain ⟨rfl, rfl⟩ := Prod.mk.inj h
    exact ⟨List.prefix_rfl, .nil, id, fun k hk => .inl hk⟩
  | cons successor rest ih =>
    obtain ⟨s, kernel⟩ := successor
    rw [link] at h
    obtain ⟨⟨place, found⟩, hlocate⟩ : ∃ p, locate states kernel = p := ⟨_, rfl⟩
    obtain ⟨⟨transitions', later'⟩, hlink⟩ : ∃ p, link found rest = p := ⟨_, rfl⟩
    simp only [hlocate, hlink, Prod.mk.injEq] at h
    obtain ⟨rfl, rfl⟩ := h
    obtain ⟨hplace, hfound⟩ := locate_spec hlocate
    obtain ⟨hpre, hlinked, hnodup, hmem⟩ := ih hlink
    have hlink' := hlinked.cons (s := s) (getElem?_append_of (map_kernel_mono hpre) hplace)
    rcases hfound with rfl | ⟨hnew, hfound⟩
    · refine ⟨hpre, hlink', hnodup, fun k hk => ?_⟩
      rcases hmem k hk with hk | ⟨t, hk⟩
      · exact .inl hk
      · exact .inr ⟨t, List.mem_cons_of_mem _ hk⟩
    · have hkernels : kernels found = kernels states ++ [kernel] := by
        rw [kernels, hfound, List.map_append, List.map_singleton, ← kernels]
      rw [hkernels] at hnodup hmem
      rw [hfound] at hpre
      refine ⟨(List.prefix_append ..).trans hpre, hlink', fun h => hnodup ?_, fun k hk => ?_⟩
      · exact List.nodup_append.mpr ⟨h, List.nodup_singleton _, fun k hk k' hk' heq =>
          hnew (List.mem_singleton.mp hk' ▸ heq ▸ hk)⟩
      · rcases hmem k hk with hk | ⟨t, hk⟩
        · rcases List.mem_append.mp hk with hk | hk
          · exact .inl hk
          · exact .inr ⟨s, List.mem_singleton.mp hk ▸ List.mem_cons_self ..⟩
        · exact .inr ⟨t, List.mem_cons_of_mem _ hk⟩

/-! ### Exploring -/

/-- Whether items can be the kernel of a state. -/
structure IsKernel (a : Augmented) (kernel : List Item) : Prop where
  ordered : kernel.Pairwise Item.lt
  hasItem : ∀ item ∈ kernel, a.HasItem item
  /-- Only at the start nothing has been read. -/
  moved : kernel = [a.startItem] ∨ ∀ item ∈ kernel, item.dot ≠ 0

/-- The items of a successor are kept in order, so equal sets of items are equal lists. -/
theorem IsKernel.of_mem_successors {g : PreparedGrammar} (h : IsKernel (augment g) kernel)
    (hnext : (s, next) ∈ (augment g).successors kernel) : IsKernel (augment g) next where
  ordered := (spec_of_mem_gather hnext).1
  hasItem := by
    intro item hitem
    obtain ⟨other, hother, hs, rfl⟩ := exists_of_mem_successors hnext hitem
    exact hasItem_advance (hasItem_of_mem_closure h.hasItem hother) hs
  moved := by
    refine .inr fun item hitem => ?_
    obtain ⟨other, -, -, rfl⟩ := exists_of_mem_successors hnext hitem
    exact Nat.succ_ne_zero _

/-- What is known when the states before a place are linked. -/
structure Explored (a : Augmented) (place : Nat) (states : Array State) : Prop where
  start : (kernels states)[0]? = some [a.startItem]
  distinct : (kernels states).Nodup
  isKernel : ∀ k ∈ kernels states, IsKernel a k
  /-- All but the start are led to. -/
  reached : ∀ k ∈ kernels states, k = [a.startItem] ∨
    ∃ k' ∈ kernels states, ∃ s, (s, k) ∈ a.successors k'
  linked : ∀ i state, i < place → states[i]? = some state →
    Linked (kernels states) state.transitions (a.successors state.kernel)

/-- There are no more states than sets of items. -/
theorem Explored.size_le {place : Nat} {states : Array State} (h : Explored a place states) :
    states.size ≤ Nat.pow 2 a.itemCount := by
  have hinj : ∀ k ∈ kernels states, ∀ k' ∈ kernels states, k.toFinset = k'.toFinset → k = k' := by
    intro k hk k' hk' heq
    refine (h.isKernel k hk).ordered.eq_of_mem_iff (h.isKernel k' hk').ordered fun item => ?_
    rw [← List.mem_toFinset, heq, List.mem_toFinset]
  have hnodup : ((kernels states).map List.toFinset).Nodup :=
    List.Nodup.map_on hinj h.distinct
  have hsub : ((kernels states).map List.toFinset).toFinset ⊆ a.allItems.toFinset.powerset := by
    intro items hitems
    obtain ⟨k, hk, rfl⟩ := List.mem_map.mp (List.mem_toFinset.mp hitems)
    refine Finset.mem_powerset.mpr fun item hitem => ?_
    rw [List.mem_toFinset, mem_allItems]
    exact (h.isKernel k hk).hasItem item (List.mem_toFinset.mp hitem)
  calc states.size = ((kernels states).map List.toFinset).toFinset.card := by
        rw [List.toFinset_card_of_nodup hnodup]
        simp [kernels]
    _ ≤ a.allItems.toFinset.powerset.card := Finset.card_le_card hsub
    _ = 2 ^ a.allItems.toFinset.card := Finset.card_powerset _
    _ ≤ Nat.pow 2 a.itemCount :=
        Nat.pow_le_pow_right Nat.two_pos (length_allItems a ▸ List.toFinset_card_le _)

/-- At first there is one state, from which nothing has been explored. -/
theorem explored_start (g : PreparedGrammar) :
    Explored (augment g) 0 #[⟨[(augment g).startItem], []⟩] where
  start := rfl
  distinct := List.nodup_singleton _
  isKernel := by
    intro k hk
    obtain rfl := List.mem_singleton.mp hk
    refine ⟨List.pairwise_singleton .., fun item hitem => ?_, .inl rfl⟩
    rw [List.mem_singleton.mp hitem]
    exact hasItem_startItem
  reached := fun k hk => .inl (List.mem_singleton.mp hk)
  linked := fun i _ hi => absurd hi (Nat.not_lt_zero i)

/-- Linking the state at a place explores one place more. -/
theorem Explored.link {g : PreparedGrammar} {place : Nat} {states later : Array State}
    {state : State} {transitions : List (Symbol × Nat)} (h : Explored (augment g) place states)
    (hstate : states[place]? = some state)
    (hlink : Augmented.link states ((augment g).successors state.kernel) = (transitions, later)) :
    Explored (augment g) (place + 1) (later.setIfInBounds place ⟨state.kernel, transitions⟩) := by
  obtain ⟨hpre, hlinked, hnodup, hmem⟩ := link_spec hlink
  have hkernel : (kernels later)[place]? = some state.kernel := by
    refine getElem?_append_of (map_kernel_mono hpre) ?_
    rw [kernels_getElem?, hstate, Option.map_some]
  -- the kernel at the place stays what it was
  have hsame : kernels (later.setIfInBounds place ⟨state.kernel, transitions⟩) = kernels later := by
    obtain ⟨hlt, heq⟩ := List.getElem?_eq_some_iff.mp hkernel
    rw [kernels, Array.toList_setIfInBounds, List.map_set, ← kernels, ← heq, List.set_getElem_self]
  constructor
  · rw [hsame]
    exact getElem?_append_of (map_kernel_mono hpre) h.start
  · rw [hsame]
    exact hnodup h.distinct
  · intro k hk
    rw [hsame] at hk
    rcases hmem k hk with hk | ⟨s, hk⟩
    · exact h.isKernel k hk
    · exact (h.isKernel _ (List.mem_of_getElem? (by
        rw [kernels_getElem?, hstate, Option.map_some]))).of_mem_successors hk
  · intro k hk
    rw [hsame] at hk ⊢
    have hsub := (map_kernel_mono hpre).subset
    rcases hmem k hk with hk | ⟨s, hk⟩
    · refine (h.reached k hk).imp_right ?_
      rintro ⟨k', hk', s, hs⟩
      exact ⟨k', hsub hk', s, hs⟩
    · exact .inr ⟨_, List.mem_of_getElem? hkernel, s, hk⟩
  · intro i other hi hother
    rw [hsame]
    rcases Nat.lt_succ_iff_lt_or_eq.mp hi with hlt | rfl
    · -- an earlier place
      rw [Array.getElem?_setIfInBounds_ne (Nat.ne_of_gt hlt)] at hother
      have hold : states[i]? = some other := by
        obtain ⟨hplace, -⟩ := Array.getElem?_eq_some_iff.mp hstate
        obtain ⟨old, hold⟩ : ∃ old, states[i]? = some old :=
          ⟨_, Array.getElem?_eq_getElem (hlt.trans hplace)⟩
        have hlater := getElem?_append_of hpre (i := i) (x := old) (by simpa using hold)
        rw [Array.getElem?_toList, hother] at hlater
        rw [hold, hlater]
      exact (h.linked i other hlt hold).mono (map_kernel_mono hpre)
    · -- the state that was linked
      have hlt : i < later.size := by
        have := (List.getElem?_eq_some_iff.mp hkernel).choose
        simpa [kernels] using this
      rw [Array.getElem?_setIfInBounds_self_of_lt hlt] at hother
      obtain rfl := Option.some.inj hother
      exact hlinked

/-- All states are linked in the end: the fuel lasts, since every round goes on to another one of
the states. -/
theorem explore_spec (g : PreparedGrammar) (fuel : Nat) {place : Nat} {states : Array State}
    (h : Explored (augment g) place states)
    (hfuel : Nat.pow 2 (augment g).itemCount < fuel + place) :
    Explored (augment g) ((augment g).explore fuel place states).size
      ((augment g).explore fuel place states) := by
  induction fuel generalizing place states with
  | zero =>
    have hsize := h.size_le
    exact { h with linked := fun i state hi => h.linked i state (by rw [explore] at hi; omega) }
  | succ fuel ih =>
    rw [explore]
    split
    · rename_i hnone
      have hsize := Array.getElem?_eq_none_iff.mp hnone
      exact { h with linked := fun i state hi => h.linked i state (by omega) }
    · rename_i state hstate
      exact ih (h.link hstate rfl) (by omega)

/-- The collection of item sets is complete. -/
theorem explored_collection (g : PreparedGrammar) :
    Explored (augment g) (augment g).collection.size (augment g).collection :=
  explore_spec g _ (explored_start g) (by omega)

end Augmented

end LRWorkbench.Lalr
