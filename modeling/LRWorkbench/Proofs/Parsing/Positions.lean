import LRWorkbench.Parsing.Edit
import Mathlib.Algebra.BigOperators.Group.List.Basic
import Mathlib.Algebra.Ring.Int.Defs
import Mathlib.Data.List.Basic
import Mathlib.Data.List.Forall2

/-!
# Places in a text and in what edits make of it

A batch of edits is applied to a text by copying what stands between the edits and putting other bytes
in place of what they remove (`EditSet.splice`). Every byte of the new text is kept together with the
place that it was copied from, if it was.

**Main statement.** `EditSet.toOld?_splice`: for every batch that is accepted, `EditSet.toOld?` gives the
place that a byte was copied from, and nothing for bytes that were inserted. From there on, a range that
no edit touches stands unchanged in the new text, up to its end if the range goes past the end.
-/

namespace LRWorkbench

namespace Edit

variable {α : Type}

/-- Whether edits stand in a text of some length one after the other, from a place on. -/
def InOrder (length : Nat) : Nat → List Edit → Prop
  | place, [] => place ≤ length
  | place, e :: rest =>
    place ≤ e.start ∧ e.start ≤ e.oldEnd ∧ e.start ≤ e.newEnd ∧ InOrder length e.oldEnd rest

theorem InOrder.le {length place : Nat} {edits : List Edit} (h : InOrder length place edits) :
    place ≤ length := by
  induction edits generalizing place with
  | nil => exact h
  | cons e rest ih =>
    obtain ⟨hstart, hend, -, hrest⟩ := h
    have hle := ih hrest
    omega

/-- A piece of a text from a place on, each byte with its place. -/
def copied (place : Nat) (piece : List α) : List (Option Nat × α) :=
  piece.mapIdx fun i b => (some (place + i), b)

/-- A text from a place on after some edits, each with the bytes that it puts in. Every byte comes with
the place in the old text that it is a copy from, or none if it was put in. -/
def spliceFrom (old : List α) : Nat → List (Edit × List α) → List (Option Nat × α)
  | place, [] => copied place (old.drop place)
  | place, (e, piece) :: rest =>
    copied place ((old.take e.start).drop place) ++ (piece.map fun b => (none, b)) ++
      spliceFrom old e.oldEnd rest

/-- Whether there is a piece for each edit, as long as the edit says. -/
def Inserts (edits : List Edit) (pieces : List (List α)) : Prop :=
  List.Forall₂ (fun e piece => piece.length = e.inserted) edits pieces

end Edit

/-- What a batch of edits makes of a text, given the bytes that each edit puts in. Every byte comes with
the place in the old text that it is a copy from, or none if it was put in. -/
def EditSet.splice {α : Type} (s : EditSet) (pieces : List (List α)) (old : List α) :
    List (Option Nat × α) :=
  Edit.spliceFrom old 0 (s.edits.zip pieces)

/-! ### Batches that are accepted -/

namespace EditSet

open Edit

/-- The edit before the next one ends where the next one may start. -/
def endOf (previous : Option Edit) : Nat := previous.elim 0 Edit.oldEnd

/-- An edit is checked against the one before it and against the length of the text. -/
theorem checkEdit_eq_ok {length : Nat} {previous : Option Edit} {e : Edit} :
    checkEdit length previous e = .ok () ↔
      endOf previous ≤ e.start ∧ e.start ≤ e.oldEnd ∧ e.start ≤ e.newEnd ∧ e.oldEnd ≤ length := by
  unfold checkEdit
  split
  case isTrue => exact iff_of_false (by simp) (by omega)
  case isFalse =>
  split
  case isTrue => exact iff_of_false (by simp) (by omega)
  case isFalse =>
  split
  case isTrue => exact iff_of_false (by simp) (by omega)
  case isFalse =>
  cases previous with
  | none => exact iff_of_true rfl ⟨Nat.zero_le _, by omega⟩
  | some p =>
    dsimp only [endOf, Option.elim_some]
    split
    case isTrue => exact iff_of_false (by simp) (by omega)
    case isFalse => exact iff_of_true rfl (by omega)

/-- A batch passes if its edits stand in order, each in range and none inside the one before. -/
theorem checkAll_eq_ok {length : Nat} {previous : Option Edit} {edits : List Edit}
    (h : endOf previous ≤ length) :
    checkAll length previous edits = .ok () ↔ InOrder length (endOf previous) edits := by
  induction edits generalizing previous with
  | nil => simp [checkAll, InOrder, h]
  | cons e rest ih =>
    have hcons : checkAll length previous (e :: rest) = .ok () ↔
        checkEdit length previous e = .ok () ∧ checkAll length (some e) rest = .ok () := by
      rw [checkAll]
      cases checkEdit length previous e <;> simp
    rw [hcons, checkEdit_eq_ok, InOrder]
    constructor
    · rintro ⟨⟨hstart, hend, hnew, hle⟩, hrest⟩
      exact ⟨hstart, hend, hnew, (@ih (some e) hle).mp hrest⟩
    · rintro ⟨hstart, hend, hnew, hrest⟩
      exact ⟨⟨hstart, hend, hnew, hrest.le⟩, (@ih (some e) hrest.le).mpr hrest⟩

/-- The new text is as much longer as the edits grow together. -/
theorem expectedLength_eq (length : Nat) (edits : List Edit) :
    expectedLength length edits = length + (edits.map Edit.growth).sum := by
  rw [expectedLength]
  generalize (length : Int) = n
  induction edits generalizing n with
  | nil => simp
  | cons e rest ih => simp [ih, Int.add_assoc]

/-- What is known of a batch that is accepted. -/
theorem of_eq_ok {edits : List Edit} {oldLength newLength : Nat} {set : EditSet}
    (h : EditSet.of edits oldLength newLength = .ok set) :
    InOrder oldLength 0 set.edits ∧
      (newLength : Int) = oldLength + (set.edits.map Edit.growth).sum := by
  rw [EditSet.of] at h
  dsimp only at h
  split at h
  · cases h
  · rename_i hchecked
    split at h
    · cases h
    · rename_i hlength
      cases h
      refine ⟨(@checkAll_eq_ok oldLength none _ (Nat.zero_le _)).mp hchecked, ?_⟩
      rw [← expectedLength_eq]
      exact (not_not.mp hlength).symm

end EditSet

/-! ### Copies -/

namespace Edit

variable {α : Type} {old : List α} {length place newPlace position oldPosition stop : Nat}
  {growth : Int} {e : Edit} {edits : List Edit} {piece : List α} {pieces : List (List α)}

theorem length_copied (place : Nat) (piece : List α) : (copied place piece).length = piece.length :=
  List.length_mapIdx

theorem getElem?_copied (place : Nat) (piece : List α) (i : Nat) :
    (copied place piece)[i]? = piece[i]?.map fun b => (some (place + i), b) :=
  List.getElem?_mapIdx

/-- A byte of a copy is a byte of the text, at its place. -/
theorem getElem?_copied_drop (place : Nat) (old : List α) (i : Nat) :
    (copied place (old.drop place))[i]? = old[place + i]?.map fun b => (some (place + i), b) := by
  rw [getElem?_copied, List.getElem?_drop]

/-- An edit may remove more than it inserts, so its growth has a sign. -/
theorem growth_of_le (h : e.start ≤ e.oldEnd) (h' : e.start ≤ e.newEnd) :
    e.growth = (e.newEnd : Int) - e.oldEnd := by
  simp only [Edit.growth, Edit.inserted, Edit.removed]
  omega

/-! ### Before, inside and behind an edit -/

section

variable {edits : List Edit} {rest : List (Edit × List α)} {i : Nat}

theorem length_front (place : Nat) (hle : e.start ≤ old.length) :
    (copied place ((old.take e.start).drop place)).length = e.start - place := by
  simp [length_copied, Nat.min_eq_left hle]

/-- Up to the start of the edit, bytes are copied from their own places. -/
theorem getElem?_before (hle : e.start ≤ old.length) (hi : place + i < e.start) :
    (spliceFrom old place ((e, piece) :: rest))[i]? =
      old[place + i]?.map fun b => (some (place + i), b) := by
  have hlength := length_front place hle
  rw [spliceFrom, List.append_assoc, List.getElem?_append_left (by omega),
    getElem?_copied_drop, List.getElem?_take_of_lt hi]

/-- In what the edit inserts, bytes come from nowhere. -/
theorem getElem?_inside (hle : e.start ≤ old.length) (hpiece : piece.length = e.inserted)
    (hi : e.start ≤ place + i) (hnew : place + i < e.newEnd) :
    (spliceFrom old place ((e, piece) :: rest))[i]? =
      piece[i - (e.start - place)]?.map fun b => (none, b) := by
  have hlength := length_front place hle
  rw [Edit.inserted] at hpiece
  rw [spliceFrom, List.append_assoc, List.getElem?_append_right (by omega),
    List.getElem?_append_left (by rw [List.length_map]; omega), List.getElem?_map, hlength]

/-- Behind the edit, the rest of the batch goes on where the edit ended in the old text. -/
theorem getElem?_behind (hle : e.start ≤ old.length) (hpiece : piece.length = e.inserted) (i : Nat) :
    (spliceFrom old place ((e, piece) :: rest))[e.start - place + e.inserted + i]? =
      (spliceFrom old e.oldEnd rest)[i]? := by
  have hlength := length_front place hle
  rw [spliceFrom, List.getElem?_append_right (by simp; omega)]
  congr 1
  simp
  omega

/-- Where a place of the new text lies. Up to `place` in the old text and `newPlace` in the new one,
`growth` is by how much the edits before made the text longer. -/
theorem toOldFrom_before (hgrowth : (newPlace : Int) = place + growth) (hi : place + i < e.start) :
    EditSet.toOldFrom growth (newPlace + i) (e :: edits) = some (place + i) := by
  rw [EditSet.toOldFrom, if_pos (by push_cast; omega), EditSet.moveBack, if_neg (by push_cast; omega)]
  congr 1
  omega

/-- What was inserted has no place in the old text. -/
theorem toOldFrom_inside (hgrowth : (newPlace : Int) = place + growth) (hi : e.start ≤ place + i)
    (hnew : place + i < e.newEnd) :
    EditSet.toOldFrom growth (newPlace + i) (e :: edits) = none := by
  rw [EditSet.toOldFrom, if_neg (by push_cast; omega), if_pos (by push_cast; omega)]

/-- Behind an edit, all that it leaves to the rest of the batch is how much it grew. -/
theorem toOldFrom_behind (hgrowth : (newPlace : Int) = place + growth) (hstart : place ≤ e.start)
    (hnew : e.start ≤ e.newEnd) (i : Nat) :
    EditSet.toOldFrom growth (newPlace + (e.start - place + e.inserted + i)) (e :: edits) =
      EditSet.toOldFrom (growth + e.growth) (newPlace + (e.start - place + e.inserted) + i) edits := by
  rw [Edit.inserted, EditSet.toOldFrom, if_neg (by push_cast; omega), if_neg (by push_cast; omega),
    Nat.add_assoc newPlace]

/-- Behind an edit, the new text has grown by what the edit makes it longer. -/
theorem growth_behind (hgrowth : (newPlace : Int) = place + growth) (hstart : place ≤ e.start)
    (hend : e.start ≤ e.oldEnd) (hnew : e.start ≤ e.newEnd) :
    ((newPlace + (e.start - place + e.inserted) : Nat) : Int) = e.oldEnd + (growth + e.growth) := by
  rw [growth_of_le hend hnew, Edit.inserted]
  push_cast
  omega

/-- A place is before an edit, inside what it puts in, or behind it. -/
theorem zones (hstart : place ≤ e.start) (i : Nat) :
    place + i < e.start ∨ (e.start ≤ place + i ∧ place + i < e.newEnd) ∨
      ∃ j, i = e.start - place + e.inserted + j := by
  rcases Nat.lt_or_ge (place + i) e.start with hbefore | hbefore
  · exact .inl hbefore
  rcases Nat.lt_or_ge (place + i) e.newEnd with hinside | hinside
  · exact .inr (.inl ⟨hbefore, hinside⟩)
  · refine .inr (.inr ⟨i - (e.start - place + e.inserted), ?_⟩)
    rw [Edit.inserted]
    omega

end

/-! ### All edits -/

/-- The length of what is made of a text from a place on. -/
theorem length_spliceFrom (h : InOrder old.length place edits) (hpieces : Inserts edits pieces) :
    ((place + (spliceFrom old place (edits.zip pieces)).length : Nat) : Int) =
      old.length + (edits.map Edit.growth).sum := by
  induction hpieces generalizing place with
  | nil =>
    have hle : place ≤ old.length := h
    simp [spliceFrom, length_copied]
    omega
  | @cons e piece rest pieces hpiece _ ih =>
    obtain ⟨hstart, hend, hnew, hrest⟩ := h
    have hlength := ih hrest
    have hgrowth := growth_of_le hend hnew
    rw [Edit.inserted] at hpiece
    simp only [List.zip_cons_cons, spliceFrom, List.length_append, List.length_map, hpiece,
      length_front place (Nat.le_trans hend hrest.le), List.map_cons, List.sum_cons]
    push_cast at hlength ⊢
    omega

/-- Every byte of the new text is taken back to where it was copied from. -/
theorem toOldFrom_of_getElem? (h : InOrder old.length place edits) (hpieces : Inserts edits pieces)
    (hgrowth : (newPlace : Int) = place + growth) {i : Nat} {origin : Option Nat} {b : α}
    (hat : (spliceFrom old place (edits.zip pieces))[i]? = some (origin, b)) :
    EditSet.toOldFrom growth (newPlace + i) edits = origin ∧ ∀ s, origin = some s → old[s]? = some b := by
  induction hpieces generalizing place newPlace growth i with
  | nil =>
    rw [List.zip_nil_left, spliceFrom, getElem?_copied_drop, Option.map_eq_some_iff] at hat
    obtain ⟨b, hb, heq⟩ := hat
    cases heq
    refine ⟨?_, fun s hs => Option.some.inj hs ▸ hb⟩
    rw [EditSet.toOldFrom, EditSet.moveBack, if_neg (by push_cast; omega)]
    congr 1
    omega
  | @cons e piece rest pieces hpiece hpieces ih =>
    obtain ⟨hstart, hend, hnew, hrest⟩ := h
    have hle : e.start ≤ old.length := Nat.le_trans hend hrest.le
    rw [List.zip_cons_cons] at hat
    rcases zones hstart i with hbefore | ⟨hinside, hlt⟩ | ⟨j, rfl⟩
    · rw [getElem?_before hle hbefore, Option.map_eq_some_iff] at hat
      obtain ⟨b, hb, heq⟩ := hat
      cases heq
      exact ⟨toOldFrom_before hgrowth hbefore, fun s hs => Option.some.inj hs ▸ hb⟩
    · rw [getElem?_inside hle hpiece hinside hlt, Option.map_eq_some_iff] at hat
      obtain ⟨b, hb, heq⟩ := hat
      cases heq
      exact ⟨toOldFrom_inside hgrowth hinside hlt, nofun⟩
    · rw [getElem?_behind hle hpiece] at hat
      rw [toOldFrom_behind hgrowth hstart hnew]
      exact ih hrest (growth_behind hgrowth hstart hend hnew) hat

/-- The end of the new text is taken back to the end of the old one. -/
theorem toOldFrom_end (h : InOrder old.length place edits) (hpieces : Inserts edits pieces)
    (hgrowth : (newPlace : Int) = place + growth) :
    EditSet.toOldFrom growth (newPlace + (spliceFrom old place (edits.zip pieces)).length) edits =
      some old.length := by
  induction hpieces generalizing place newPlace growth with
  | nil =>
    have hle : place ≤ old.length := h
    rw [EditSet.toOldFrom, EditSet.moveBack, List.zip_nil_left, spliceFrom, length_copied,
      List.length_drop, if_neg (by push_cast; omega)]
    congr 1
    omega
  | @cons e piece rest pieces hpiece hpieces ih =>
    obtain ⟨hstart, hend, hnew, hrest⟩ := h
    have hlength := length_front place (Nat.le_trans hend hrest.le)
    rw [List.zip_cons_cons, spliceFrom, List.length_append, List.length_append, List.length_map,
      hlength, hpiece, toOldFrom_behind hgrowth hstart hnew]
    exact ih hrest (growth_behind hgrowth hstart hend hnew)

/-- What no edit touches stands in the new text from where it was copied to, and up to the end if it
reaches past the end of the old text. -/
theorem getElem?_of_clear (h : InOrder old.length place edits) (hpieces : Inserts edits pieces)
    (hgrowth : (newPlace : Int) = place + growth) {i : Nat}
    (hold : EditSet.toOldFrom growth (newPlace + i) edits = some oldPosition)
    (hclear : ∀ e ∈ edits, stop ≤ e.start ∨ e.oldEnd ≤ oldPosition) :
    (∀ k b, oldPosition + k < stop → old[oldPosition + k]? = some b →
      (spliceFrom old place (edits.zip pieces))[i + k]? = some (some (oldPosition + k), b)) ∧
    (old.length < stop →
      oldPosition + (spliceFrom old place (edits.zip pieces)).length = old.length + i) := by
  induction hpieces generalizing place newPlace growth i with
  | nil =>
    have hle : place ≤ old.length := h
    rw [EditSet.toOldFrom, EditSet.moveBack] at hold
    split at hold
    · cases hold
    obtain rfl : oldPosition = place + i := by
      have hmove := Option.some.inj hold
      push_cast at hmove
      omega
    rw [List.zip_nil_left, spliceFrom]
    refine ⟨fun k b _ hb => ?_, fun _ => ?_⟩
    · rw [getElem?_copied_drop, ← Nat.add_assoc, hb, Option.map_some]
    · rw [length_copied, List.length_drop]
      omega
  | @cons e piece rest pieces hpiece hpieces ih =>
    obtain ⟨hstart, hend, hnew, hrest⟩ := h
    have hle : e.start ≤ old.length := Nat.le_trans hend hrest.le
    rw [List.zip_cons_cons]
    -- A clear range starts before the first edit, and then it ends before it too, or behind what
    -- that inserted.
    rcases zones hstart i with hbefore | ⟨hinside, hlt⟩ | ⟨j, rfl⟩
    · rw [toOldFrom_before hgrowth hbefore] at hold
      obtain rfl := Option.some.inj hold
      have he := hclear e (List.mem_cons_self ..)
      refine ⟨fun k b hk hb => ?_, fun hpast => ?_⟩
      · rw [getElem?_before hle (by omega), ← Nat.add_assoc, hb, Option.map_some]
      · omega
    · rw [toOldFrom_inside hgrowth hinside hlt] at hold
      cases hold
    · rw [toOldFrom_behind hgrowth hstart hnew] at hold
      obtain ⟨hbytes, hreach⟩ := ih hrest (growth_behind hgrowth hstart hend hnew) hold
        fun e he => hclear e (List.mem_cons_of_mem _ he)
      refine ⟨fun k b hk hb => ?_, fun hpast => ?_⟩
      · rw [Nat.add_assoc, getElem?_behind hle hpiece]
        exact hbytes k b hk hb
      · have hlength := length_front place hle
        have hreach := hreach hpast
        rw [spliceFrom, List.length_append, List.length_append, List.length_map, hlength, hpiece]
        omega

end Edit

open Edit in
/-- **Places of the new text are taken back to where they come from.** For a batch of edits that is
accepted, and whatever bytes the edits put in: the new text is as long as it was said to be; each of its
bytes is taken back to the place that it was copied from, where the same byte stands, and to none just
if it was put in; the end is taken back to the end. From a place that is taken back to `s` on, the bytes
of the old text between `s` and `stop` stand in the new one if no edit touches that range, and the two
texts end at the same distance if the range goes past the end. -/
theorem EditSet.toOld?_splice {α : Type} {edits : List Edit} {old : List α} {newLength : Nat}
    {set : EditSet} (hset : EditSet.of edits old.length newLength = .ok set) {pieces : List (List α)}
    (hpieces : Inserts set.edits pieces) :
    (set.splice pieces old).length = newLength ∧
    (∀ p origin b, (set.splice pieces old)[p]? = some (origin, b) →
      set.toOld? p = origin ∧ ∀ s, origin = some s → old[s]? = some b) ∧
    set.toOld? newLength = some old.length ∧
    ∀ p s stop, set.toOld? p = some s → set.isClear s stop = true →
      (∀ k b, k < stop - s → old[s + k]? = some b →
        (set.splice pieces old)[p + k]? = some (some (s + k), b)) ∧
      (old.length < stop → p ≤ newLength → s ≤ old.length ∧ p + (old.length - s) = newLength) := by
  obtain ⟨horder, hgrown⟩ := of_eq_ok hset
  have hzero : ((0 : Nat) : Int) = (0 : Nat) + (0 : Int) := rfl
  have hlength : (set.splice pieces old).length = newLength := by
    have hlength := length_spliceFrom horder hpieces
    rw [← hgrown, Nat.zero_add] at hlength
    exact Int.ofNat.inj hlength
  refine ⟨hlength, fun p origin b hat => ?_, ?_, fun p s stop hold hclear => ?_⟩
  · have hback := toOldFrom_of_getElem? horder hpieces hzero hat
    rwa [Nat.zero_add] at hback
  · have hend := toOldFrom_end horder hpieces hzero
    rw [Nat.zero_add] at hend
    rw [← hlength]
    exact hend
  · have hclear : ∀ e ∈ set.edits, stop ≤ e.start ∨ e.oldEnd ≤ s := by
      intro e he
      simpa using List.all_eq_true.mp hclear e he
    have hold : toOldFrom 0 (0 + p) set.edits = some s := by
      rw [Nat.zero_add]
      exact hold
    obtain ⟨hbytes, hreach⟩ := getElem?_of_clear horder hpieces hzero hold hclear
    refine ⟨fun k b hk => hbytes k b (by omega), fun hpast hp => ?_⟩
    have hreach : s + (set.splice pieces old).length = old.length + p := hreach hpast
    omega

/-- Edits of ten letters in any order: two behind the other at one place, and an insertion at the end. -/
def letterEdits : List Edit :=
  [Edit.replace 10 0 1, Edit.ofBytes 7 8 7, Edit.replace 2 2 3, Edit.ofBytes 2 2 2]

theorem mergeSort_letterEdits : letterEdits.mergeSort Edit.le =
    [Edit.ofBytes 2 2 2, Edit.replace 2 2 3, Edit.ofBytes 7 8 7, Edit.replace 10 0 1] := by
  simp [letterEdits, List.mergeSort, Edit.le, Edit.ofBytes, Edit.replace]

open Edit in
theorem EditSet.toOld?_splice_letters : ∃ set, EditSet.of letterEdits 10 11 = .ok set ∧
    Inserts set.edits [[], ['X', 'Y', 'Z'], [], ['!']] ∧
    (set.splice [[], ['X', 'Y', 'Z'], [], ['!']] "abcdefghij".toList).length = 11 ∧
    set.toOld? 5 = some 4 ∧ set.isClear 4 7 = true ∧
    (set.splice [[], ['X', 'Y', 'Z'], [], ['!']] "abcdefghij".toList)[7]? = some (some 6, 'g') := by
  have hset : EditSet.of letterEdits "abcdefghij".toList.length 11 = .ok
      ⟨[Edit.ofBytes 2 2 2, Edit.replace 2 2 3, Edit.ofBytes 7 8 7, Edit.replace 10 0 1]⟩ := by
    rw [EditSet.of, mergeSort_letterEdits]
    rfl
  have hpieces : Inserts [Edit.ofBytes 2 2 2, Edit.replace 2 2 3, Edit.ofBytes 7 8 7,
      Edit.replace 10 0 1] [[], ['X', 'Y', 'Z'], [], ['!']] :=
    .cons rfl (.cons rfl (.cons rfl (.cons rfl .nil)))
  obtain ⟨hlength, -, -, hclear⟩ := toOld?_splice hset hpieces
  obtain ⟨hbytes, -⟩ := hclear 5 4 7 (by decide) (by decide)
  exact ⟨_, hset, hpieces, hlength, by decide, by decide, hbytes 2 'g' (by decide) (by decide)⟩

end LRWorkbench
