import LRWorkbench.Proofs.Text.Bytes
import LRWorkbench.Regex.Basic

/-!
# What expressions see of the characters around them

The conditions of an expression that asks for the words of no alphabet but ASCII know few kinds of
characters: ends of lines, parts of words, and all others, such as those of several bytes. Which
character of a kind comes next decides neither whether the empty piece matches
(`Regex.nullable_congr`) nor which characters can be read (`Regex.canStart_congr`).

Some conditions depend on the character before, such as the one for the start of a line. An expression is
**blind** to a change before it if its conditions are, and then it reads on as before
(`Regex.nullable_eq`, `Regex.residuals_eq`, `Regex.canStart_eq`). It is blind to a change to a character of the
same kind, and if it does not **look behind** it is blind to any change.
-/

namespace LRWorkbench

namespace Regex

/-- Whether no condition on ASCII can tell two characters apart: the same conditions hold of them
as ends of lines and as parts of words. -/
structure LooksLike (c d : Char) : Prop where
  newline : c = '\n' ↔ d = '\n'
  carriageReturn : c = '\r' ↔ d = '\r'
  word : asciiWord.contains c = asciiWord.contains d

theorem LooksLike.symm {c d : Char} (h : LooksLike c d) : LooksLike d c :=
  ⟨h.newline.symm, h.carriageReturn.symm, h.word.symm⟩

/-- Whether two characters look alike to conditions: neither is of ASCII. -/
def Alike (c d : Char) : Prop := 1 < c.utf8Size ∧ 1 < d.utf8Size

variable {before : Option Char} {c d : Char}

theorem toNat_of_one_lt_utf8Size (h : 1 < c.utf8Size) : 0x7f < c.toNat := by
  refine Nat.lt_of_not_le fun hle => ?_
  have hone : c.utf8Size = 1 := by
    rw [Char.utf8Size_eq_one_iff, UInt32.le_iff_toNat_le]
    exact hle
  omega

/-- The parts of words by their codes. -/
theorem contains_asciiWord_iff : asciiWord.contains c = true ↔
    0x30 ≤ c.toNat ∧ c.toNat ≤ 0x39 ∨ 0x41 ≤ c.toNat ∧ c.toNat ≤ 0x5A ∨ c.toNat = 0x5F ∨
      0x61 ≤ c.toNat ∧ c.toNat ≤ 0x7A := by
  have hranges : asciiWord.ranges = [(0x30, 0x39), (0x41, 0x5A), (0x5F, 0x5F), (0x61, 0x7A)] := rfl
  rw [CharSet.contains, hranges]
  simp only [CharSet.containsCode]
  grind

theorem ne_of_one_lt_utf8Size (h : 1 < c.utf8Size) {e : Char} (he : e.utf8Size = 1) : c ≠ e := by
  rintro rfl
  omega

theorem Alike.looksLike (h : Alike c d) : LooksLike c d where
  newline := iff_of_false (ne_of_one_lt_utf8Size h.1 rfl) (ne_of_one_lt_utf8Size h.2 rfl)
  carriageReturn := iff_of_false (ne_of_one_lt_utf8Size h.1 rfl) (ne_of_one_lt_utf8Size h.2 rfl)
  word := by
    have hc := toNat_of_one_lt_utf8Size h.1
    have hd := toNat_of_one_lt_utf8Size h.2
    rw [Bool.eq_iff_iff, contains_asciiWord_iff, contains_asciiWord_iff]
    omega

/-- No condition on ASCII tells apart which of two characters comes next. -/
theorem Look.holds_congr (h : LooksLike c d) {l : Look} (hl : l.isUnicode = false) :
    l.holds before (some c) = l.holds before (some d) := by
  have hword : ∀ w : WordKind, decide (w = .unicode) = false → w.has (some c) = w.has (some d) := by
    intro w hw
    cases w with
    | ascii => exact h.word
    | unicode => cases hw
  have hend : (some c = some '\n' ↔ some d = some '\n') ∧ (some c = some '\r' ↔ some d = some '\r') := by
    simp only [Option.some.injEq, h.newline, h.carriageReturn, iff_self, and_self]
  cases l <;> simp only [Look.holds, Look.isUnicode] at hl ⊢ <;>
    first | rfl | rw [hword _ hl] | simp only [Option.isNone_some, ne_eq, hend.1, hend.2]

theorem nullable_congr (h : LooksLike c d) {r : Regex} (hr : r.hasUnicodeLook = false) :
    r.nullable before (some c) = r.nullable before (some d) := by
  induction r with
  | empty => rfl
  | chars set => rfl
  | look l => exact Look.holds_congr h hr
  | seq a b iha ihb | alt a b iha ihb =>
    obtain ⟨ha, hb⟩ := Bool.or_eq_false_iff.mp hr
    rw [nullable, nullable, iha ha, ihb hb]
  | repeated r least most ih => rw [nullable, nullable, ih hr]

theorem canStart_congr (h : LooksLike c d) {r : Regex} (hr : r.hasUnicodeLook = false) (lo hi : Nat) :
    r.canStart before (some c) lo hi = r.canStart before (some d) lo hi := by
  induction r with
  | empty => rfl
  | chars set => rfl
  | look l => rfl
  | seq a b iha ihb =>
    obtain ⟨ha, hb⟩ := Bool.or_eq_false_iff.mp hr
    rw [canStart, canStart, iha ha, ihb hb, nullable_congr h ha]
  | alt a b iha ihb =>
    obtain ⟨ha, hb⟩ := Bool.or_eq_false_iff.mp hr
    rw [canStart, canStart, iha ha, ihb hb]
  | repeated r least most ih => rw [canStart, canStart, ih hr]

theorem hasUnicodeLook_followedBy {a b : Regex} (ha : a.hasUnicodeLook = false)
    (hb : b.hasUnicodeLook = false) : (a.followedBy b).hasUnicodeLook = false := by
  cases a with
  | empty => exact hb
  | _ => exact Bool.or_eq_false_iff.mpr ⟨ha, hb⟩

/-- What is left of an expression asks for no more than the expression did. -/
theorem hasUnicodeLook_of_mem_residuals {r x : Regex} (hr : r.hasUnicodeLook = false)
    (hx : x ∈ r.residuals before c) : x.hasUnicodeLook = false := by
  induction r generalizing x with
  | empty => cases hx
  | chars set =>
    rw [residuals] at hx
    split at hx
    · rw [List.mem_singleton.mp hx]
      rfl
    · cases hx
  | look l => cases hx
  | seq a b iha ihb =>
    obtain ⟨ha, hb⟩ := Bool.or_eq_false_iff.mp hr
    rw [residuals] at hx
    rcases List.mem_append.mp hx with hx | hx
    · obtain ⟨y, hy, rfl⟩ := List.mem_map.mp hx
      exact hasUnicodeLook_followedBy (iha ha hy) hb
    · split at hx
      · exact ihb hb hx
      · cases hx
  | alt a b iha ihb =>
    obtain ⟨ha, hb⟩ := Bool.or_eq_false_iff.mp hr
    rcases List.mem_append.mp hx with hx | hx
    · exact iha ha hx
    · exact ihb hb hx
  | repeated r least most ih =>
    rw [residuals] at hx
    split at hx
    · cases hx
    · obtain ⟨k, -, hx⟩ := List.mem_flatMap.mp hx
      obtain ⟨y, hy, rfl⟩ := List.mem_map.mp hx
      exact hasUnicodeLook_followedBy (ih hr hy) hr

/-! ### The character before -/

/-- Whether a condition depends on the character before the place. -/
def Look.isBehind : Look → Bool
  | textEnd | lineEnd | wordEndHalf _ => false
  | _ => true

/-- Whether some condition depends on the character before it. -/
def looksBehind : Regex → Bool
  | empty | chars _ => false
  | look l => l.isBehind
  | seq a b | alt a b => a.looksBehind || b.looksBehind
  | repeated r _ _ => r.looksBehind

/-- Whether no condition of an expression tells one thing before it from another. -/
def BlindTo (before before' : Option Char) : Regex → Prop
  | empty | chars _ => True
  | look l => ∀ after, l.holds before after = l.holds before' after
  | seq a b | alt a b => a.BlindTo before before' ∧ b.BlindTo before before'
  | repeated r _ _ => r.BlindTo before before'

section Blind

variable {r : Regex} {before before' : Option Char}

theorem BlindTo.refl (r : Regex) (before : Option Char) : r.BlindTo before before := by
  induction r with
  | empty | chars => trivial
  | look l => exact fun _ => rfl
  | seq a b iha ihb | alt a b iha ihb => exact ⟨iha, ihb⟩
  | repeated r least most ih => exact ih

/-- What does not look behind is blind to any change there. -/
theorem blindTo_of_looksBehind (hr : r.looksBehind = false) (before before' : Option Char) :
    r.BlindTo before before' := by
  induction r with
  | empty | chars => trivial
  | look l => cases l <;> first | exact fun _ => rfl | cases hr
  | seq a b iha ihb | alt a b iha ihb =>
    obtain ⟨ha, hb⟩ := Bool.or_eq_false_iff.mp hr
    exact ⟨iha ha, ihb hb⟩
  | repeated r least most ih => exact ih hr

/-- No condition on ASCII tells apart which of two characters came before. -/
theorem blindTo_of_looksLike (h : LooksLike c d) (hr : r.hasUnicodeLook = false) :
    r.BlindTo (some c) (some d) := by
  induction r with
  | empty | chars => trivial
  | look l =>
    have hword : ∀ w : WordKind, decide (w = .unicode) = false → w.has (some c) = w.has (some d) := by
      intro w hw
      cases w with
      | ascii => exact h.word
      | unicode => cases hw
    intro after
    cases l <;> simp only [hasUnicodeLook, Look.isUnicode] at hr <;>
      simp only [Look.holds, Option.isNone_some, Option.some.injEq, ne_eq, h.newline, h.carriageReturn] <;>
      rw [hword _ hr]
  | seq a b iha ihb | alt a b iha ihb =>
    obtain ⟨ha, hb⟩ := Bool.or_eq_false_iff.mp hr
    exact ⟨iha ha, ihb hb⟩
  | repeated r least most ih => exact ih hr

theorem nullable_eq (hr : r.BlindTo before before') (after : Option Char) :
    r.nullable before after = r.nullable before' after := by
  induction r with
  | empty | chars => rfl
  | look l => exact hr after
  | seq a b iha ihb | alt a b iha ihb => rw [nullable, nullable, iha hr.1, ihb hr.2]
  | repeated r least most ih => rw [nullable, nullable, ih hr]

theorem residuals_eq (hr : r.BlindTo before before') (c : Char) :
    r.residuals before c = r.residuals before' c := by
  induction r with
  | empty | chars | look => rfl
  | seq a b iha ihb => rw [residuals, residuals, iha hr.1, ihb hr.2, nullable_eq hr.1]
  | alt a b iha ihb => rw [residuals, residuals, iha hr.1, ihb hr.2]
  | repeated r least most ih =>
    rw [residuals, residuals, ih hr, skips, skips, nullable_eq (r := r) hr]

theorem canStart_eq (hr : r.BlindTo before before') (after : Option Char) (lo hi : Nat) :
    r.canStart before after lo hi = r.canStart before' after lo hi := by
  induction r with
  | empty | chars | look => rfl
  | seq a b iha ihb => rw [canStart, canStart, iha hr.1, ihb hr.2, nullable_eq hr.1]
  | alt a b iha ihb => rw [canStart, canStart, iha hr.1, ihb hr.2]
  | repeated r least most ih => rw [canStart, canStart, ih hr]

end Blind

end Regex

end LRWorkbench
