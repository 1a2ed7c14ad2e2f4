import LRWorkbench.Proofs.Tree.Spelling
import Mathlib.Algebra.Ring.Nat

/-!
# How long subtrees are

Every node is built as long as its children together. Where that holds all the way down (`Subtree.AddsUp`),
each part of a subtree stands inside the range of the subtree (`Subtree.AddsUp.within`), so at most one
child of a node holds a byte, and the parts with bytes that start at one place are inside one another.
-/

namespace LRWorkbench.Subtree

/-- The number of bytes of several subtrees. -/
def lengthOf (ts : List Subtree) : Nat := (ts.map length).sum

mutual

/-- Whether every node in a subtree is as long as its children together. -/
def AddsUp : Subtree → Prop
  | leaf _ _ => True
  | node i _ children => i.size.bytes = lengthOf children ∧ AllAddUp children

/-- Whether every node in several subtrees is as long as its children together. -/
def AllAddUp : List Subtree → Prop
  | [] => True
  | t :: ts => AddsUp t ∧ AllAddUp ts

end

theorem allAddUp_iff {ts : List Subtree} : AllAddUp ts ↔ ∀ t ∈ ts, t.AddsUp := by
  induction ts with
  | nil => simp [AllAddUp]
  | cons t ts ih => simp [AllAddUp, ih]

theorem bytes_foldl_add (ts : List Subtree) (g : Gathered) :
    (ts.foldl Gathered.add g).size.bytes = g.size.bytes + lengthOf ts := by
  induction ts generalizing g with
  | nil => rfl
  | cons t ts ih =>
    rw [List.foldl_cons, ih, lengthOf, lengthOf, List.map_cons, List.sum_cons, ← Nat.add_assoc]
    rfl

/-- Nodes are built so that lengths add up. -/
theorem AllAddUp.build {ts : List Subtree} (h : AllAddUp ts) (generation : Nat) (symbol : Symbol)
    (production : Option Nat) (parseState lookahead : Nat) (isFragile : Bool)
    (scanner : ScannerState) :
    (build generation symbol production ts parseState lookahead isFragile scanner).AddsUp := by
  refine ⟨?_, h⟩
  rw [bytes_foldl_add]
  exact Nat.zero_add _

mutual

/-- Lengths add up where sizes are those of texts. -/
theorem Spells.addsUp {t : Subtree} {u : List Char} (h : Spells t u) : t.AddsUp := by
  cases h with
  | leaf => trivial
  | node size each =>
    obtain ⟨hlength, hall⟩ := each.addUp
    refine ⟨?_, hall⟩
    rw [size, Extent.bytes_of, hlength]

theorem SpellsAll.addUp {ts : List Subtree} {u : List Char} (h : SpellsAll ts u) :
    lengthOf ts = Text.byteLength u ∧ AllAddUp ts := by
  cases h with
  | nil => exact ⟨rfl, trivial⟩
  | cons first rest =>
    obtain ⟨hlength, hall⟩ := rest.addUp
    refine ⟨?_, first.addsUp, hall⟩
    rw [lengthOf, List.map_cons, List.sum_cons, Text.byteLength_append, first.length_eq, ← hlength]
    rfl

end

/-! ### Where parts stand -/

/-- Whether the bytes of a part are among those from one place to another. -/
def Within (start stop : Nat) (part : Subtree × Extent) : Prop :=
  start ≤ part.2.bytes ∧ part.2.bytes + part.1.length ≤ stop

mutual

/-- A part stands inside the subtree that it is a part of. -/
theorem AddsUp.within {t : Subtree} (h : t.AddsUp) {start : Extent} {part : Subtree × Extent}
    (hpart : part ∈ parts start t) : Within start.bytes (start.bytes + t.length) part := by
  cases t with
  | leaf i x =>
    obtain rfl := List.mem_singleton.mp hpart
    exact ⟨Nat.le_refl _, Nat.le_refl _⟩
  | node i p children =>
    rcases List.mem_cons.mp hpart with rfl | hpart
    · exact ⟨Nat.le_refl _, Nat.le_refl _⟩
    · obtain ⟨hlength, hall⟩ := h
      rw [length, size, info, hlength]
      exact hall.within hpart

theorem AllAddUp.within {ts : List Subtree} (h : AllAddUp ts) {start : Extent}
    {part : Subtree × Extent} (hpart : part ∈ partsOf start ts) :
    Within start.bytes (start.bytes + lengthOf ts) part := by
  cases ts with
  | nil => exact absurd hpart List.not_mem_nil
  | cons t ts =>
    obtain ⟨hfirst, hrest⟩ := h
    rw [lengthOf, List.map_cons, List.sum_cons]
    rcases List.mem_append.mp hpart with hpart | hpart
    · obtain ⟨hstart, hstop⟩ := hfirst.within hpart
      exact ⟨hstart, by omega⟩
    · obtain ⟨hstart, hstop⟩ := hrest.within hpart
      rw [Extent.bytes_add] at hstart hstop
      rw [lengthOf] at hstop
      exact ⟨Nat.le_trans (Nat.le_add_right ..) hstart,
        Nat.le_trans hstop (by rw [length]; omega)⟩

end

/-! ### The parts with bytes that start at a place -/

/-- The parts with bytes that start at a place, among several parts. -/
def startingAt (position : Nat) (ps : List (Subtree × Extent)) : List (Subtree × Extent) :=
  ps.filter fun part => part.2.bytes = position && 0 < part.1.length

variable {position : Nat}

theorem mem_startingAt {ps : List (Subtree × Extent)} {part : Subtree × Extent} :
    part ∈ startingAt position ps ↔
      part ∈ ps ∧ part.2.bytes = position ∧ 0 < part.1.length := by
  simp [startingAt]

theorem startingAt_append (ps ps' : List (Subtree × Extent)) :
    startingAt position (ps ++ ps') = startingAt position ps ++ startingAt position ps' :=
  List.filter_append ..

/-- Nothing with bytes starts outside the range that parts stand in. -/
theorem startingAt_eq_nil {first stop : Nat} {ps : List (Subtree × Extent)}
    (h : ∀ part ∈ ps, Within first stop part) (houtside : position < first ∨ stop ≤ position) :
    startingAt position ps = [] := by
  rw [List.eq_nil_iff_forall_not_mem]
  intro part hpart
  obtain ⟨hmem, hplace, hpos⟩ := mem_startingAt.mp hpart
  obtain ⟨hstart, hstop⟩ := h part hmem
  omega

theorem startingAt_parts {start : Extent} {t : Subtree} (hlt : position < start.bytes + t.length) :
    startingAt position (parts start t) =
      (if start.bytes = position then [(t, start)] else []) ++
        startingAt position (partsOf start t.children) := by
  have hparts : parts start t = (t, start) :: partsOf start t.children := by cases t <;> rfl
  rw [hparts, startingAt, List.filter_cons]
  by_cases hstart : start.bytes = position
  · rw [if_pos (by simp [hstart]; omega), if_pos hstart]
    rfl
  · rw [if_neg (by simp [hstart]), if_neg hstart]
    rfl

/-- What starts at a byte in a row is in the one that holds the byte. -/
theorem AllAddUp.startingAt_cons {start : Extent} {t : Subtree} {ts : List Subtree}
    (h : AllAddUp (t :: ts)) : startingAt position (partsOf start (t :: ts)) =
      if position < start.bytes then []
      else if position < start.bytes + t.length then startingAt position (parts start t)
      else startingAt position (partsOf (start + t.size) ts) := by
  obtain ⟨hfirst, hrest⟩ := h
  rw [partsOf, startingAt_append]
  split
  case isTrue hbefore =>
    rw [startingAt_eq_nil (fun part => hfirst.within) (.inl hbefore),
      startingAt_eq_nil (fun part => hrest.within) (.inl ?_)]
    · rfl
    · rw [Extent.bytes_add]
      omega
  case isFalse hbefore =>
  split
  case isTrue hinside =>
    have hlater : startingAt position (partsOf (start + t.size) ts) = [] :=
      startingAt_eq_nil (fun part => hrest.within) (.inl hinside)
    rw [hlater, List.append_nil]
  case isFalse hinside =>
    rw [startingAt_eq_nil (fun part => hfirst.within) (.inr (Nat.not_lt.mp hinside)), List.nil_append]

mutual

/-- The parts below a subtree with bytes that start at a place are inside one another, the outermost
first. -/
theorem AddsUp.nested {t : Subtree} (h : t.AddsUp) (start : Extent) :
    (startingAt position (partsOf start t.children)).Pairwise
      fun outer inner => inner ∈ partsOf outer.2 outer.1.children := by
  cases t with
  | leaf i x => exact .nil
  | node i p children => exact h.2.nested start

theorem AllAddUp.nested {ts : List Subtree} (h : AllAddUp ts) (start : Extent) :
    (startingAt position (partsOf start ts)).Pairwise
      fun outer inner => inner ∈ partsOf outer.2 outer.1.children := by
  cases ts with
  | nil => exact .nil
  | cons t ts =>
    rw [h.startingAt_cons]
    split
    case isTrue => exact .nil
    case isFalse hbefore =>
    split
    case isTrue hinside =>
      rw [startingAt_parts hinside]
      split
      case isTrue hstart =>
        exact List.pairwise_cons.mpr
          ⟨fun part hpart => (mem_startingAt.mp hpart).1, h.1.nested start⟩
      case isFalse => exact h.1.nested start
    case isFalse => exact h.2.nested (start + t.size)

end

end LRWorkbench.Subtree
