import LRWorkbench.Proofs.Parsing.Positions
import Mathlib.Algebra.Ring.Nat

/-!
# Which batches of edits are accepted

Edits are checked in the order of their starts, each against the one before it only. `EditSet.Fits` says
what a batch has to be like without any order: every edit is in range, any two are apart, and the lengths
add up.

**Main statement.** `EditSet.of_exact`: the batches that fit are the ones that are accepted, and neither
that nor what an accepted batch answers depends on the order in which the edits are given. The order can
matter for the batch itself, since insertions at one place are kept in the order in which they came.

What a batch answers is told by its edits in any order: a place of the old text that is in no edited range
goes to where the edits that end before it move it (`EditSet.toOld?_eq_some_iff`).
-/

namespace LRWorkbench

namespace Edit

/-- Whether an edit replaces a range of a text of some length. -/
structure InRange (length : Nat) (e : Edit) : Prop where
  start_le_oldEnd : e.start ≤ e.oldEnd
  oldEnd_le : e.oldEnd ≤ length
  start_le_newEnd : e.start ≤ e.newEnd

instance (length : Nat) (e : Edit) : Decidable (e.InRange length) :=
  decidable_of_iff (e.start ≤ e.oldEnd ∧ e.oldEnd ≤ length ∧ e.start ≤ e.newEnd)
    ⟨fun ⟨hend, hle, hnew⟩ => ⟨hend, hle, hnew⟩, fun ⟨hend, hle, hnew⟩ => ⟨hend, hle, hnew⟩⟩

/-- Whether one of two edits ends where the other one starts, or before. -/
def Apart (a b : Edit) : Prop := a.oldEnd ≤ b.start ∨ b.oldEnd ≤ a.start

instance (a b : Edit) : Decidable (Apart a b) := inferInstanceAs (Decidable (_ ∨ _))

theorem Apart.symm {a b : Edit} (h : Apart a b) : Apart b a := Or.symm h

/-- By how much the edits that end at a place or before it make the text longer. -/
def growthTo (place : Nat) (edits : List Edit) : Int :=
  ((edits.filter fun e => e.oldEnd ≤ place).map growth).sum

end Edit

open Edit

/-- Whether edits can be made together: all of them are in range, any two of them are apart, also where
one is given twice, and the new text is as long as what they leave and put in. -/
structure EditSet.Fits (edits : List Edit) (oldLength newLength : Nat) : Prop where
  inRange : ∀ e ∈ edits, e.InRange oldLength
  apart : edits.Pairwise Apart
  length : newLength + (edits.map removed).sum = oldLength + (edits.map inserted).sum

instance (edits : List Edit) (oldLength newLength : Nat) :
    Decidable (EditSet.Fits edits oldLength newLength) :=
  decidable_of_iff ((∀ e ∈ edits, e.InRange oldLength) ∧ edits.Pairwise Apart ∧
      newLength + (edits.map removed).sum = oldLength + (edits.map inserted).sum)
    ⟨fun ⟨hrange, hapart, hlength⟩ => ⟨hrange, hapart, hlength⟩,
      fun ⟨hrange, hapart, hlength⟩ => ⟨hrange, hapart, hlength⟩⟩

namespace Edit

variable {length place oldPosition : Nat} {e : Edit} {edits : List Edit}

/-! ### The order of edits -/

theorem le_iff {a b : Edit} :
    a.le b = true ↔ a.start < b.start ∨ a.start = b.start ∧ a.oldEnd ≤ b.oldEnd := by
  simp [Edit.le]

/-- Edits are sorted by their starts, and insertions come before removals at one place. -/
theorem pairwise_mergeSort (edits : List Edit) :
    (edits.mergeSort Edit.le).Pairwise fun a b => a.le b = true := by
  apply List.pairwise_mergeSort
  · intro a b c hab hbc
    rw [le_iff] at *
    omega
  · intro a b
    rw [Bool.or_eq_true, le_iff, le_iff]
    omega

/-- In order, an edit that is apart from a later one ends before it starts. -/
theorem Apart.oldEnd_le_start {e' : Edit} (h : Apart e e') (hle : e.le e' = true)
    (he' : e'.start ≤ e'.oldEnd) : e.oldEnd ≤ e'.start := by
  rw [le_iff] at hle
  rcases h with h | h
  · exact h
  · -- the later edit ends where it starts, and so does the earlier one
    omega

theorem InOrder.inRange (h : InOrder length place edits) :
    ∀ e ∈ edits, place ≤ e.start ∧ e.InRange length := by
  induction edits generalizing place with
  | nil => exact fun e he => absurd he List.not_mem_nil
  | cons e rest ih =>
    obtain ⟨hstart, hend, hnew, hrest⟩ := h
    intro e' he'
    rcases List.mem_cons.mp he' with rfl | he'
    · exact ⟨hstart, hend, hrest.le, hnew⟩
    · obtain ⟨hlater, hrange⟩ := ih hrest e' he'
      exact ⟨by omega, hrange⟩

/-- Checking neighbours is enough: edits in order of their starts stand one after the other just if they
are in range and any two are apart. -/
theorem inOrder_iff (hplace : place ≤ length) (hsorted : edits.Pairwise fun a b => a.le b = true) :
    InOrder length place edits ↔
      (∀ e ∈ edits, place ≤ e.start ∧ e.InRange length) ∧ edits.Pairwise Apart := by
  induction edits generalizing place with
  | nil => exact iff_of_true hplace ⟨fun e he => absurd he List.not_mem_nil, .nil⟩
  | cons e rest ih =>
    obtain ⟨hfirst, hsorted⟩ := List.pairwise_cons.mp hsorted
    rw [InOrder, List.pairwise_cons]
    constructor
    · intro h
      have hrest : InOrder length e.oldEnd rest := h.2.2.2
      exact ⟨InOrder.inRange h, fun e' he' => .inl (hrest.inRange e' he').1,
        ((ih hrest.le hsorted).mp hrest).2⟩
    · rintro ⟨hrange, hfirstApart, hapart⟩
      obtain ⟨hstart, he⟩ := hrange e (List.mem_cons_self ..)
      have hlater (e' : Edit) (he' : e' ∈ rest) : e.oldEnd ≤ e'.start ∧ e'.InRange length := by
        have hrange' := (hrange e' (List.mem_cons_of_mem _ he')).2
        exact ⟨(hfirstApart e' he').oldEnd_le_start (hfirst e' he') hrange'.start_le_oldEnd, hrange'⟩
      exact ⟨hstart, he.start_le_oldEnd, he.start_le_newEnd,
        (ih he.oldEnd_le hsorted).mpr ⟨hlater, hapart⟩⟩

/-! ### How far edits move what is behind them -/

theorem sum_growth (edits : List Edit) :
    (edits.map growth).sum = ((edits.map inserted).sum : Int) - (edits.map removed).sum := by
  induction edits with
  | nil => rfl
  | cons e rest ih =>
    simp only [List.map_cons, List.sum_cons, ih, growth]
    push_cast
    omega

/-- Edits in order remove no more than there is. -/
theorem InOrder.sum_removed_le (h : InOrder length place edits) :
    place + (edits.map removed).sum ≤ length := by
  induction edits generalizing place with
  | nil => exact h
  | cons e rest ih =>
    obtain ⟨hstart, hend, -, hrest⟩ := h
    have hle := ih hrest
    simp only [List.map_cons, List.sum_cons, removed]
    omega

/-- Edits that end before a place move it. -/
theorem growthTo_cons_of_le (h : e.oldEnd ≤ place) :
    growthTo place (e :: edits) = e.growth + growthTo place edits := by
  rw [growthTo, List.filter_cons_of_pos (by simpa using h), List.map_cons, List.sum_cons, growthTo]

/-- As edits are in order, the first one that reaches past a place is followed by others that do. -/
theorem growthTo_of_lt (h : InOrder length place (e :: edits)) (hlt : oldPosition < e.oldEnd) :
    growthTo oldPosition (e :: edits) = 0 := by
  have hrest : InOrder length e.oldEnd edits := h.2.2.2
  have hnone : (e :: edits).filter (fun e => decide (e.oldEnd ≤ oldPosition)) = [] := by
    rw [List.filter_eq_nil_iff]
    intro e' he'
    rw [decide_eq_true_eq, Nat.not_le]
    rcases List.mem_cons.mp he' with rfl | he'
    · exact hlt
    · obtain ⟨hlater, hrange⟩ := hrest.inRange e' he'
      have hend := hrange.start_le_oldEnd
      omega
  rw [growthTo, hnone, List.map_nil, List.sum_nil]

/-- Nothing is moved back to before the edits. -/
theorem InOrder.le_add_growthTo (h : InOrder length place edits) (hplace : place ≤ oldPosition) :
    (place : Int) ≤ oldPosition + growthTo oldPosition edits := by
  induction edits generalizing place with
  | nil => simpa [growthTo] using hplace
  | cons e rest ih =>
    rcases Nat.lt_or_ge oldPosition e.oldEnd with hlt | hge
    · rw [growthTo_of_lt h hlt]
      omega
    · obtain ⟨hstart, hend, hnew, hrest⟩ := h
      have hlater := ih hrest hge
      rw [growthTo_cons_of_le hge, growth_of_le hend hnew]
      omega

/-- A place outside an edit is before it, and then no edit moves it, or behind it, and then the edit
moves it and no later one takes it back to before the end of the edit. -/
theorem growthTo_cons_cases (h : InOrder length place (e :: edits))
    (houtside : oldPosition < e.start ∨ e.oldEnd ≤ oldPosition) :
    (oldPosition < e.start ∧ growthTo oldPosition (e :: edits) = 0) ∨
      (e.oldEnd ≤ oldPosition ∧
        growthTo oldPosition (e :: edits) = e.growth + growthTo oldPosition edits ∧
        (e.oldEnd : Int) ≤ oldPosition + growthTo oldPosition edits) := by
  obtain ⟨-, hend, -, hrest⟩ := id h
  rcases houtside with hbefore | hbehind
  · exact .inl ⟨hbefore, growthTo_of_lt h (Nat.lt_of_lt_of_le hbefore hend)⟩
  · exact .inr ⟨hbehind, growthTo_cons_of_le hbehind, hrest.le_add_growthTo hbehind⟩

/-- Where a place of the new text comes from. Up to `place` in the old text and `newPlace` in the new
one, `growth` is by how much the edits before made the text longer. -/
theorem toOldFrom_eq_some_iff {newPlace : Nat} {growth : Int} (h : InOrder length place edits)
    (hgrowth : (newPlace : Int) = place + growth) {i : Nat} :
    EditSet.toOldFrom growth (newPlace + i) edits = some oldPosition ↔
      place ≤ oldPosition ∧ (∀ e ∈ edits, oldPosition < e.start ∨ e.oldEnd ≤ oldPosition) ∧
        ((newPlace + i : Nat) : Int) = oldPosition + growth + growthTo oldPosition edits := by
  induction edits generalizing place newPlace growth i with
  | nil =>
    rw [EditSet.toOldFrom, EditSet.moveBack, if_neg (by push_cast; omega), Option.some.injEq]
    simp only [List.not_mem_nil, false_implies, implies_true, true_and, growthTo, List.filter_nil,
      List.map_nil, List.sum_nil]
    push_cast
    omega
  | cons e rest ih =>
    have hcases : oldPosition < e.start ∨ e.oldEnd ≤ oldPosition → _ := growthTo_cons_cases h
    obtain ⟨hstart, hend, hnew, hrest⟩ := id h
    have hgrow := growth_of_le hend hnew
    rw [List.forall_mem_cons]
    -- The new place is before the first edit, in what it inserts, or behind that.
    rcases zones hstart i with hbefore | ⟨hinside, hlt⟩ | ⟨j, rfl⟩
    · rw [toOldFrom_before hgrowth hbefore, Option.some.injEq]
      push_cast
      constructor
      · rintro rfl
        refine ⟨by omega, ⟨.inl hbefore, fun e' he' => .inl ?_⟩, ?_⟩
        · have hlater := (hrest.inRange e' he').1
          omega
        · rw [growthTo_of_lt h (Nat.lt_of_lt_of_le hbefore hend)]
          omega
      · rintro ⟨-, ⟨hoff, -⟩, hsum⟩
        rcases hcases hoff with ⟨-, hzero⟩ | ⟨-, hcons, hlater⟩
        · omega
        · omega
    · rw [toOldFrom_inside hgrowth hinside hlt]
      refine iff_of_false (Option.some_ne_none _).symm ?_
      rintro ⟨-, ⟨hoff, -⟩, hsum⟩
      push_cast at hsum
      rcases hcases hoff with ⟨hfront, hzero⟩ | ⟨-, hcons, hlater⟩
      · omega
      · omega
    · rw [toOldFrom_behind hgrowth hstart hnew, ih hrest (growth_behind hgrowth hstart hend hnew)]
      push_cast
      constructor
      · rintro ⟨hbehind, hrange, hsum⟩
        refine ⟨by omega, ⟨.inr hbehind, hrange⟩, ?_⟩
        rw [growthTo_cons_of_le hbehind]
        omega
      · rintro ⟨-, ⟨hoff, hrange⟩, hsum⟩
        rcases hcases hoff with ⟨hfront, hzero⟩ | ⟨hbehind, hcons, -⟩
        · omega
        · refine ⟨hbehind, hrange, ?_⟩
          omega

end Edit

namespace EditSet

variable {edits edits' : List Edit} {oldLength newLength : Nat} {set set' : EditSet}

/-! ### Batches that are accepted -/

theorem edits_of_eq_ok (h : EditSet.of edits oldLength newLength = .ok set) :
    set.edits = edits.mergeSort Edit.le := by
  rw [EditSet.of] at h
  dsimp only at h
  split at h
  · cases h
  · split at h <;> cases h
    rfl

theorem perm_of_eq_ok (h : EditSet.of edits oldLength newLength = .ok set) : set.edits.Perm edits := by
  rw [edits_of_eq_ok h]
  exact List.mergeSort_perm _ _

/-- A batch is accepted if its sorted edits are in order and the lengths add up. -/
theorem exists_of_eq_ok_iff : (∃ set, EditSet.of edits oldLength newLength = .ok set) ↔
    InOrder oldLength 0 (edits.mergeSort Edit.le) ∧
      (newLength : Int) = oldLength + ((edits.mergeSort Edit.le).map growth).sum := by
  constructor
  · rintro ⟨set, h⟩
    rw [← edits_of_eq_ok h]
    exact of_eq_ok h
  · rintro ⟨horder, hlength⟩
    have hchecked := (@checkAll_eq_ok oldLength none _ (Nat.zero_le _)).mpr horder
    rw [← expectedLength_eq] at hlength
    refine ⟨⟨edits.mergeSort Edit.le⟩, ?_⟩
    rw [EditSet.of]
    dsimp only
    rw [hchecked]
    dsimp only
    rw [if_neg (not_not.mpr hlength.symm)]

/-- Fitting speaks of any two edits, and of none before another. -/
theorem Fits.perm (hperm : edits'.Perm edits) (h : Fits edits oldLength newLength) :
    Fits edits' oldLength newLength where
  inRange := fun e he => h.inRange e (hperm.mem_iff.mp he)
  apart := hperm.symm.pairwise h.apart Apart.symm
  length := by
    rw [(hperm.map removed).sum_eq, (hperm.map inserted).sum_eq]
    exact h.length

/-- The batches that are accepted are those that fit. -/
theorem exists_of_eq_ok_iff_fits :
    (∃ set, EditSet.of edits oldLength newLength = .ok set) ↔ Fits edits oldLength newLength := by
  have hperm := List.mergeSort_perm edits Edit.le
  rw [exists_of_eq_ok_iff, inOrder_iff (Nat.zero_le _) (pairwise_mergeSort edits), sum_growth]
  constructor
  · rintro ⟨⟨hrange, hapart⟩, hlength⟩
    have hfits : Fits (edits.mergeSort Edit.le) oldLength newLength :=
      ⟨fun e he => (hrange e he).2, hapart, by omega⟩
    exact hfits.perm hperm.symm
  · intro h
    have hfits := h.perm hperm
    have hlength := hfits.length
    exact ⟨⟨fun e he => ⟨Nat.zero_le _, hfits.inRange e he⟩, hfits.apart⟩, by omega⟩

/-- Edits with nothing to remove may stand where another one starts or ends, but not inside it, and an edit
that removes something cannot be made twice. -/
example : Fits [Edit.replace 2 3 0, Edit.replace 2 0 1, Edit.replace 5 0 1] 10 9 ∧
    ¬ Fits [Edit.replace 2 3 0, Edit.replace 3 0 1] 10 8 ∧
    ¬ Fits [Edit.replace 2 3 3, Edit.replace 2 3 3] 10 10 := by decide

/-! ### What a batch answers -/

/-- The places of the new text that come from a place of the old one: none if an edit removes it, else the
one where the edits that end before it move it. -/
theorem toOld?_eq_some_iff (h : EditSet.of edits oldLength newLength = .ok set) {position s : Nat} :
    set.toOld? position = some s ↔
      (∀ e ∈ edits, s < e.start ∨ e.oldEnd ≤ s) ∧ (position : Int) = s + growthTo s edits := by
  have hperm := perm_of_eq_ok h
  have hsum : growthTo s set.edits = growthTo s edits := ((hperm.filter _).map _).sum_eq
  have hplace : toOldFrom 0 (0 + position) set.edits = some s ↔ _ :=
    toOldFrom_eq_some_iff (of_eq_ok h).1 (show ((0 : Nat) : Int) = (0 : Nat) + (0 : Int) from rfl)
  rw [Nat.zero_add, hsum] at hplace
  rw [toOld?, hplace, Int.add_zero]
  constructor
  · rintro ⟨-, hrange, hposition⟩
    exact ⟨fun e he => hrange e (hperm.mem_iff.mpr he), hposition⟩
  · rintro ⟨hrange, hposition⟩
    exact ⟨Nat.zero_le _, fun e he => hrange e (hperm.mem_iff.mp he), hposition⟩

/-- A range is clear if every edit is before it or behind it. -/
theorem isClear_eq_true_iff (h : EditSet.of edits oldLength newLength = .ok set) {start stop : Nat} :
    set.isClear start stop = true ↔ ∀ e ∈ edits, stop ≤ e.start ∨ e.oldEnd ≤ start := by
  rw [isClear, List.all_eq_true]
  constructor
  · intro hclear e he
    simpa using hclear e ((perm_of_eq_ok h).mem_iff.mpr he)
  · intro hclear e he
    simpa using hclear e ((perm_of_eq_ok h).mem_iff.mp he)

/-- As long as edits pass the checks, the lengths counted on the way are no less than zero and no more
than the old length and all that is put in. -/
theorem expectedLength_bounds {front : List Edit} (hfront : front <+: edits.mergeSort Edit.le)
    (h : checkAll oldLength none front = .ok ()) :
    0 ≤ expectedLength oldLength front ∧
      expectedLength oldLength front ≤ oldLength + (edits.map inserted).sum := by
  have horder := (@checkAll_eq_ok oldLength none _ (Nat.zero_le _)).mp h
  have hremoved := horder.sum_removed_le
  obtain ⟨back, hback⟩ := hfront
  have hinserted : (front.map inserted).sum + (back.map inserted).sum = (edits.map inserted).sum := by
    rw [← List.sum_append, ← List.map_append, hback,
      ((List.mergeSort_perm edits Edit.le).map inserted).sum_eq]
  rw [expectedLength_eq, sum_growth]
  omega

/-- **Edit validation.** A batch is accepted just if its edits fit together, in whatever order they are
given. With every other order it is accepted too, and both batches take each place of the new text back to
the same place and find the same ranges clear. The lengths counted on the way are never less than zero or
more than the old length and all that is put in. -/
theorem of_exact (edits : List Edit) (oldLength newLength : Nat) :
    ((∃ set, EditSet.of edits oldLength newLength = .ok set) ↔ Fits edits oldLength newLength) ∧
    (∀ edits', edits'.Perm edits →
      ((∃ set, EditSet.of edits' oldLength newLength = .ok set) ↔
        ∃ set, EditSet.of edits oldLength newLength = .ok set) ∧
      ∀ set set', EditSet.of edits oldLength newLength = .ok set →
        EditSet.of edits' oldLength newLength = .ok set' →
        (∀ position, set'.toOld? position = set.toOld? position) ∧
        ∀ start stop, set'.isClear start stop = set.isClear start stop) ∧
    ∀ front, front <+: edits.mergeSort Edit.le → checkAll oldLength none front = .ok () →
      0 ≤ expectedLength oldLength front ∧
        expectedLength oldLength front ≤ oldLength + (edits.map inserted).sum := by
  refine ⟨exists_of_eq_ok_iff_fits, fun edits' hperm => ⟨?_, fun set set' hset hset' => ⟨?_, ?_⟩⟩,
    fun front => expectedLength_bounds⟩
  · rw [exists_of_eq_ok_iff_fits, exists_of_eq_ok_iff_fits]
    exact ⟨Fits.perm hperm.symm, Fits.perm hperm⟩
  · intro position
    have hsum (s : Nat) : growthTo s edits' = growthTo s edits := ((hperm.filter _).map _).sum_eq
    refine Option.ext fun s => ?_
    rw [toOld?_eq_some_iff hset, toOld?_eq_some_iff hset', hsum]
    simp only [hperm.mem_iff]
  · intro start stop
    rw [Bool.eq_iff_iff, isClear_eq_true_iff hset, isClear_eq_true_iff hset']
    simp only [hperm.mem_iff]

/-- Two insertions at one place, around a removal further on. -/
def insertions : List Edit := [Edit.replace 2 0 3, Edit.replace 7 1 0, Edit.replace 2 0 1]

theorem mergeSort_insertions : insertions.mergeSort Edit.le =
    [Edit.replace 2 0 3, Edit.replace 2 0 1, Edit.replace 7 1 0] := by
  simp [insertions, List.mergeSort, Edit.le, Edit.ofBytes, Edit.replace]

theorem mergeSort_reverse_insertions : insertions.reverse.mergeSort Edit.le =
    [Edit.replace 2 0 1, Edit.replace 2 0 3, Edit.replace 7 1 0] := by
  simp [insertions, List.mergeSort, Edit.le, Edit.ofBytes, Edit.replace]

theorem of_exact_insertions : Fits insertions 10 13 ∧ insertions.reverse.Perm insertions ∧
    (∃ set set', EditSet.of insertions 10 13 = .ok set ∧
      EditSet.of insertions.reverse 10 13 = .ok set' ∧ set' ≠ set ∧
      (∀ position, set'.toOld? position = set.toOld? position) ∧
      ∀ start stop, set'.isClear start stop = set.isClear start stop) ∧
    [Edit.replace 2 0 3] <+: insertions.mergeSort Edit.le ∧
    checkAll 10 none [Edit.replace 2 0 3] = .ok () ∧
    0 ≤ expectedLength 10 [Edit.replace 2 0 3] := by
  obtain ⟨hfits, horders, hbounds⟩ := of_exact insertions 10 13
  have hperm : insertions.reverse.Perm insertions := List.reverse_perm _
  have haccepted : Fits insertions 10 13 := by decide
  obtain ⟨set, hset⟩ := hfits.mpr haccepted
  obtain ⟨hother, hanswers⟩ := horders insertions.reverse hperm
  obtain ⟨set', hset'⟩ := hother.mpr ⟨set, hset⟩
  have hne : set' ≠ set := by
    intro heq
    have hedits := congrArg EditSet.edits heq
    rw [edits_of_eq_ok hset, edits_of_eq_ok hset', mergeSort_insertions,
      mergeSort_reverse_insertions] at hedits
    exact absurd hedits (by decide)
  have hfront : [Edit.replace 2 0 3] <+: insertions.mergeSort Edit.le :=
    ⟨[Edit.replace 2 0 1, Edit.replace 7 1 0], by rw [mergeSort_insertions]; rfl⟩
  exact ⟨haccepted, hperm, ⟨set, set', hset, hset', hne, hanswers set set' hset hset'⟩, hfront, rfl,
    (hbounds _ hfront rfl).1⟩

end EditSet

end LRWorkbench
