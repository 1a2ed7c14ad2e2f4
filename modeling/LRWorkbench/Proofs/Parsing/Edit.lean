import LRWorkbench.Parsing.Edit
import LRWorkbench.Proofs.Text.Agreement

/-!
# Edits that turn one text into another

A batch of edits **turns** one text into another if the bytes outside of the edited ranges are the
same (`EditSet.Turns`). Then what no edit touches is found again where `EditSet.toOld?` says
(`EditSet.Turns.agree`).
-/

namespace LRWorkbench

/-- Whether edits, in order, turn some bytes into others, the first of which stand at a place of the
old text. Each edit replaces its range by as many bytes as it says. -/
def Edit.TurnsFrom (place : Nat) : List Edit → List UInt8 → List UInt8 → Prop
  | [], old, new => old = new
  | e :: rest, old, new =>
    ∃ kept removed inserted old' new',
      old = kept ++ removed ++ old' ∧ new = kept ++ inserted ++ new' ∧
      place + kept.length = e.start ∧ e.start + removed.length = e.oldEnd ∧
      e.start + inserted.length = e.newEnd ∧ TurnsFrom e.oldEnd rest old' new'

/-- Whether a batch of edits turns one text into another. -/
def EditSet.Turns (s : EditSet) (old new : List Char) : Prop :=
  Edit.TurnsFrom 0 s.edits (Text.utf8Bytes old) (Text.utf8Bytes new)

namespace Edit

variable {place position oldPosition stop : Nat} {growth : Int} {edits : List Edit}
  {old new : List UInt8}

theorem moveBack_eq_some (h : EditSet.moveBack growth position = some oldPosition) :
    (position : Int) = oldPosition + growth := by
  rw [EditSet.moveBack] at h
  split at h
  · cases h
  · have := Option.some.inj h
    omega

theorem growth_eq {e : Edit} {removed inserted : List UInt8}
    (hremoved : e.start + removed.length = e.oldEnd)
    (hinserted : e.start + inserted.length = e.newEnd) :
    e.growth = (inserted.length : Int) - removed.length := by
  simp only [Edit.growth, Edit.inserted, Edit.removed]
  omega

/-- Places in the old text do not move back behind edits that come before. -/
theorem TurnsFrom.le_of_toOldFrom (newPlace : Nat) (h : TurnsFrom place edits old new)
    (hgrowth : (newPlace : Int) = place + growth) (hposition : newPlace ≤ position)
    (hold : EditSet.toOldFrom growth position edits = some oldPosition) : place ≤ oldPosition := by
  induction edits generalizing place newPlace growth old new with
  | nil =>
    have hmove := moveBack_eq_some hold
    omega
  | cons e rest ih =>
    obtain ⟨kept, removed, inserted, old', new', rfl, rfl, hkept, hremoved, hinserted, hrest⟩ := h
    rw [EditSet.toOldFrom] at hold
    split at hold
    · have hmove := moveBack_eq_some hold
      omega
    split at hold
    · cases hold
    · have hgrow := growth_eq hremoved hinserted
      have hle := ih (newPlace + kept.length + inserted.length) hrest (by omega) (by omega) hold
      omega

/-- Bytes that no edit touches stand at their new place. Up to `place` in the old text and
`newPlace` in the new one, `growth` is by how much the edits before made the text longer. -/
theorem TurnsFrom.getElem?_of_clear (newPlace : Nat) (h : TurnsFrom place edits old new)
    (hgrowth : (newPlace : Int) = place + growth) (hposition : newPlace ≤ position)
    (hold : EditSet.toOldFrom growth position edits = some oldPosition)
    (hclear : ∀ e ∈ edits, stop ≤ e.start ∨ e.oldEnd ≤ oldPosition) {i : Nat}
    (hi : oldPosition + i < stop) :
    old[oldPosition - place + i]? = new[position - newPlace + i]? := by
  induction edits generalizing place newPlace growth old new with
  | nil =>
    obtain rfl : old = new := h
    have hmove := moveBack_eq_some hold
    rw [show oldPosition - place = position - newPlace by omega]
  | cons e rest ih =>
    obtain ⟨kept, removed, inserted, old', new', rfl, rfl, hkept, hremoved, hinserted, hrest⟩ := h
    have he := hclear e (List.mem_cons_self ..)
    rw [EditSet.toOldFrom] at hold
    split at hold
    · -- before the edit
      have hmove := moveBack_eq_some hold
      rw [List.append_assoc, List.append_assoc, List.getElem?_append_left (by omega),
        List.getElem?_append_left (by omega), show oldPosition - place = position - newPlace by omega]
    split at hold
    · cases hold
    · -- behind the edit
      have hgrow := growth_eq hremoved hinserted
      have hbefore := hrest.le_of_toOldFrom (newPlace + kept.length + inserted.length) (by omega)
        (by omega) hold
      have hlater := ih (newPlace + kept.length + inserted.length) hrest (by omega) (by omega) hold
        fun e' he' => hclear e' (List.mem_cons_of_mem _ he')
      rw [List.getElem?_append_right (by simp only [List.length_append]; omega),
        List.getElem?_append_right (by simp only [List.length_append]; omega)]
      simp only [List.length_append]
      rw [show oldPosition - place + i - (kept.length + removed.length) =
          oldPosition - e.oldEnd + i by omega,
        show position - newPlace + i - (kept.length + inserted.length) =
          position - (newPlace + kept.length + inserted.length) + i by omega]
      exact hlater

end Edit

/-- The bytes of the old text that no edit touches are found at their new place in the new text. -/
theorem EditSet.Turns.agree {set : EditSet} {u w front back : List Char} {position stop : Nat}
    (h : set.Turns (u ++ w) (front ++ back)) (hposition : position = Text.byteLength front)
    (hold : set.toOld? position = some (Text.byteLength u))
    (hclear : set.isClear (Text.byteLength u) stop = true) :
    Text.Agree (stop - Text.byteLength u) w back := by
  have hclear' : ∀ e ∈ set.edits, stop ≤ e.start ∨ e.oldEnd ≤ Text.byteLength u := by
    intro e he
    simpa using List.all_eq_true.mp hclear e he
  intro i hi
  have hbytes := Edit.TurnsFrom.getElem?_of_clear 0 h (by omega) (Nat.zero_le _) hold hclear'
    (i := i) (by omega)
  rw [Nat.sub_zero, Nat.sub_zero, Text.utf8Bytes_append, Text.utf8Bytes_append,
    List.getElem?_append_right (by simp), List.getElem?_append_right (by simp [hposition])] at hbytes
  simpa [hposition] using hbytes

end LRWorkbench
