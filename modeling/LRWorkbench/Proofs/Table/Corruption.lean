import LRWorkbench.Proofs.Table.File
import LRWorkbench.Wire.Basic
import Mathlib.Data.Nat.Bitwise
import Mathlib.Logic.Function.Iterate

/-!
# Damaged table files are refused

A file is **sealed** if its header agrees with the rest of it: the letters, the version, the two sizes and
the checksum. Whatever is read was sealed, and whatever is written is. Of two sealed files, neither is the
other with one byte changed, unless that byte is one of the reserved ones, which the header says nothing
about; and neither is a longer or shorter form of the other. So a file that was damaged in one of these ways
is refused (`ParseTable.ofBytes_corrupted`).

That a checksum notices every changed byte is shown bit by bit: shifting a bit out can be undone, since the
highest bit of the polynomial is set, so that the highest bit of the result tells whether it was
subtracted. Hence taking in a byte loses nothing, neither of what came before nor of the byte, and two texts
that differ in one byte have different checksums (`Wire.eq_of_crc32_eq`), whatever their length.

None of this looks into the payload or the patterns.
-/

namespace LRWorkbench.Wire

/-! ### Checksums -/

/-- One bit is shifted out. In numbers this is a division, which the rest of the argument is
about. -/
theorem toNat_crcBit (r : UInt32) : (crcBit r).toNat =
    if r.toNat % 2 = 1 then r.toNat / 2 ^^^ 0xEDB88320 else r.toNat / 2 := by
  have hbit : r &&& 1 = 1 ↔ r.toNat % 2 = 1 := by
    rw [← UInt32.toNat_inj, UInt32.toNat_and]
    exact iff_of_eq (congrArg (· = 1) (Nat.and_one_is_mod _))
  have hshift : (r >>> 1).toNat = r.toNat / 2 := UInt32.toNat_shiftRight r 1
  rw [crcBit]
  split
  case isTrue hset =>
    rw [if_pos (hbit.mp hset), UInt32.toNat_xor, hshift]
    rfl
  case isFalse hset => rw [if_neg (mt hbit.mpr hset), hshift]

/-- What is left of a number of 32 bits without its lowest bit differs from the same with the polynomial
subtracted from it. -/
theorem half_xor_ne (r s : UInt32) : r.toNat / 2 ^^^ 0xEDB88320 ≠ s.toNat / 2 := by
  intro h
  have hlt : r.toNat / 2 ^^^ s.toNat / 2 < 2 ^ 31 := by
    have hr := r.toNat_lt
    have hs := s.toNat_lt
    exact Nat.xor_lt_two_pow (by omega) (by omega)
  rw [← h, ← Nat.xor_assoc, Nat.xor_self, Nat.zero_xor] at hlt
  exact absurd hlt (by decide)

theorem crcBit_injective : Function.Injective crcBit := by
  intro r s h
  have hnat := congrArg UInt32.toNat h
  rw [toNat_crcBit, toNat_crcBit] at hnat
  rw [← UInt32.toNat_inj]
  split at hnat <;> split at hnat
  · have hhalf := Nat.xor_left_inj.mp hnat
    omega
  · exact absurd hnat (half_xor_ne r s)
  · exact absurd hnat.symm (half_xor_ne s r)
  · omega

theorem crcByte_injective (b : UInt8) : Function.Injective (crcByte · b) := by
  intro r s h
  exact UInt32.xor_left_inj _ |>.mp (crcBit_injective.iterate 8 h)

/-- A byte can be told from what it makes of the register. -/
theorem eq_of_crcByte_eq {r : UInt32} {b c : UInt8} (h : crcByte r b = crcByte r c) : b = c := by
  have hxor := crcBit_injective.iterate 8 h
  exact UInt8.toUInt32_inj.mp ((UInt32.xor_right_inj _).mp hxor)

/-- Once two registers differ, equal bytes behind keep them different. -/
theorem foldl_crcByte_injective (bytes : List UInt8) :
    Function.Injective fun r => bytes.foldl crcByte r := by
  induction bytes with
  | nil => exact Function.injective_id
  | cons b bytes ih => exact ih.comp (crcByte_injective b)

/-- **One changed byte shows.** -/
theorem eq_of_crc32_eq {front back : List UInt8} {b c : UInt8}
    (h : crc32 (front ++ b :: back) = crc32 (front ++ c :: back)) : b = c := by
  have hfold := (UInt32.xor_left_inj _).mp h
  rw [List.foldl_append, List.foldl_append] at hfold
  exact eq_of_crcByte_eq (foldl_crcByte_injective back hfold)

/-- Setting a byte to another one changes the checksum. -/
theorem eq_of_crc32_set {bytes : List UInt8} {i : Nat} {b : UInt8} (hi : i < bytes.length)
    (h : crc32 (bytes.set i b) = crc32 bytes) : bytes[i]? = some b := by
  have hsplit : bytes = bytes.take i ++ bytes[i] :: bytes.drop (i + 1) := by
    rw [← List.drop_eq_getElem_cons hi, List.take_append_drop]
  rw [List.set_eq_take_append_cons_drop, if_pos hi] at h
  rw [List.getElem?_eq_getElem hi, eq_of_crc32_eq (h.trans (congrArg crc32 hsplit))]

end LRWorkbench.Wire

/-! ### Files -/

namespace LRWorkbench

open Wire

namespace TableHeader

/-! ### The words of a header -/

/-- A byte as a number, zero behind the end. -/
def byteAt (bytes : List UInt8) (i : Nat) : Nat := ((bytes[i]?).getD 0).toNat

variable {bytes : List UInt8} {b : UInt8} {i place : Nat}

theorem wordAt_eq (bytes : List UInt8) (place : Nat) : wordAt bytes place =
    byteAt bytes place + 0x100 * byteAt bytes (place + 1) + 0x10000 * byteAt bytes (place + 2) +
      0x1000000 * byteAt bytes (place + 3) := rfl

theorem byteAt_set_ne {j : Nat} (h : i ≠ j) : byteAt (bytes.set i b) j = byteAt bytes j := by
  rw [byteAt, byteAt, List.getElem?_set_ne h]

theorem byteAt_set_self (h : i < bytes.length) : byteAt (bytes.set i b) i = b.toNat := by
  rw [byteAt, List.getElem?_set_self h, Option.getD_some]

theorem wordAt_set_of_outside (h : i < place ∨ place + 4 ≤ i) :
    wordAt (bytes.set i b) place = wordAt bytes place := by
  rw [wordAt_eq, wordAt_eq, byteAt_set_ne (by omega), byteAt_set_ne (by omega),
    byteAt_set_ne (by omega), byteAt_set_ne (by omega)]

/-- A word tells its bytes. -/
theorem byteAt_set_of_inside (hle : place ≤ i) (hlt : i < place + 4)
    (h : wordAt (bytes.set i b) place = wordAt bytes place) :
    byteAt (bytes.set i b) i = byteAt bytes i := by
  have hother (j : Nat) (hj : i ≠ j) : byteAt (bytes.set i b) j = byteAt bytes j := byteAt_set_ne hj
  rw [wordAt_eq, wordAt_eq] at h
  have hcases : i = place ∨ i = place + 1 ∨ i = place + 2 ∨ i = place + 3 := by omega
  rcases hcases with rfl | rfl | rfl | rfl
  · rw [hother (i + 1) (by omega), hother (i + 2) (by omega), hother (i + 3) (by omega)] at h
    omega
  · rw [hother place (by omega), hother (place + 2) (by omega), hother (place + 3) (by omega)] at h
    omega
  · rw [hother place (by omega), hother (place + 1) (by omega), hother (place + 3) (by omega)] at h
    omega
  · rw [hother place (by omega), hother (place + 1) (by omega), hother (place + 2) (by omega)] at h
    omega

theorem wordAt_append_of_le {more : List UInt8} (h : place + 4 ≤ bytes.length) :
    wordAt (bytes ++ more) place = wordAt bytes place := by
  have hbyte (j : Nat) (hj : j < bytes.length) : byteAt (bytes ++ more) j = byteAt bytes j := by
    rw [byteAt, byteAt, List.getElem?_append_left hj]
  rw [wordAt_eq, wordAt_eq, hbyte _ (by omega), hbyte _ (by omega), hbyte _ (by omega),
    hbyte _ (by omega)]

/-- The checks of the header, together: the letters, the version and the two ways to tell the
size. -/
theorem check_eq_ok {h : TableHeader} {length : Nat} : h.check length = .ok () ↔
    h.magic = letters ∧ h.version = 1 ∧ h.totalSize = length ∧
      h.totalSize = size + h.payloadSize + h.patternsSize := by
  rw [check]
  constructor
  · intro hcheck
    split at hcheck
    · cases hcheck
    case isFalse hmagic =>
    split at hcheck
    · cases hcheck
    case isFalse hversion =>
    split at hcheck
    · cases hcheck
    case isFalse htotal =>
    split at hcheck
    · cases hcheck
    case isFalse hdeclared =>
      exact ⟨not_not.mp hmagic, not_not.mp hversion, not_not.mp htotal, not_not.mp hdeclared⟩
  · rintro ⟨hmagic, hversion, htotal, hdeclared⟩
    rw [if_neg (not_not.mpr hmagic), if_neg (not_not.mpr hversion), if_neg (not_not.mpr htotal),
      if_neg (not_not.mpr hdeclared)]

end TableHeader

open TableHeader

/-! ### Sealed files -/

/-- Whether the header of a file agrees with the rest of the file. -/
structure IsSealed (bytes : List UInt8) : Prop where
  size_le : size ≤ bytes.length
  letters : bytes.take 4 = letters
  version : wordAt bytes 4 = 1
  checksum : (crc32 (bytes.drop size)).toNat = wordAt bytes 8
  totalSize : wordAt bytes 12 = bytes.length
  sections : wordAt bytes 12 = size + wordAt bytes 16 + wordAt bytes 20

/-- A file is sealed if its header is read, passes its check and has the right checksum. -/
theorem isSealed_iff {bytes : List UInt8} : IsSealed bytes ↔
    ∃ h, TableHeader.ofBytes bytes = .ok h ∧ h.check bytes.length = .ok () ∧
      (crc32 (bytes.drop size)).toNat = h.checksum := by
  rw [TableHeader.ofBytes]
  split
  case isTrue hshort =>
    constructor
    · intro h
      have hsize := h.size_le
      omega
    · rintro ⟨h, ⟨⟩, -⟩
  case isFalse hlong =>
    constructor
    · rintro ⟨-, hletters, hversion, hchecksum, htotal, hsections⟩
      exact ⟨_, rfl, check_eq_ok.mpr ⟨hletters, hversion, htotal, hsections⟩, hchecksum⟩
    · rintro ⟨h, hread, hcheck, hchecksum⟩
      cases hread
      obtain ⟨hletters, hversion, htotal, hsections⟩ := check_eq_ok.mp hcheck
      exact ⟨Nat.not_lt.mp hlong, hletters, hversion, hchecksum, htotal, hsections⟩

namespace IsSealed

variable {bytes : List UInt8} {b : UInt8} {i : Nat}

/-- A sealed file with one byte changed is not sealed, unless that byte is a reserved one. -/
theorem eq_of_set (h : IsSealed bytes) (h' : IsSealed (bytes.set i b)) (hi : i < bytes.length)
    (hreserved : i < 24 ∨ size ≤ i) : bytes[i]? = some b := by
  have hbyte (hsame : byteAt (bytes.set i b) i = byteAt bytes i) : bytes[i]? = some b := by
    rw [byteAt_set_self hi, byteAt, List.getElem?_eq_getElem hi, Option.getD_some,
      UInt8.toNat_inj] at hsame
    rw [List.getElem?_eq_getElem hi, hsame]
  have hword (place : Nat) (hplace : i < place ∨ place + 4 ≤ i) :
      wordAt (bytes.set i b) place = wordAt bytes place := wordAt_set_of_outside hplace
  have hsize : size = 32 := rfl
  have htotal := h.totalSize
  have htotal' := h'.totalSize
  have hsections := h.sections
  have hsections' := h'.sections
  rw [List.length_set] at htotal'
  -- Each part of the header can be told from the others and from the length, so none changed
  -- alone.
  rcases Nat.lt_or_ge i 4 with hletters | hletters
  · have hsame := congrArg (·[i]?) (h'.letters.trans h.letters.symm)
    rw [List.getElem?_take_of_lt hletters, List.getElem?_take_of_lt hletters,
      List.getElem?_set_self hi] at hsame
    exact hsame.symm
  rcases Nat.lt_or_ge i 8 with hversion | hversion
  · exact hbyte (byteAt_set_of_inside hletters hversion (h'.version.trans h.version.symm))
  rcases Nat.lt_or_ge i 12 with hchecksum | hchecksum
  · refine hbyte (byteAt_set_of_inside hversion hchecksum ?_)
    rw [← h.checksum, ← h'.checksum, List.drop_set_of_lt (by omega)]
  rcases Nat.lt_or_ge i 16 with htotalSize | htotalSize
  · exact hbyte (byteAt_set_of_inside hchecksum htotalSize (htotal'.trans htotal.symm))
  rcases Nat.lt_or_ge i 20 with hpayload | hpayload
  · refine hbyte (byteAt_set_of_inside htotalSize hpayload ?_)
    rw [hword 20 (by omega)] at hsections'
    omega
  rcases Nat.lt_or_ge i 24 with hpatterns | hpatterns
  · refine hbyte (byteAt_set_of_inside hpayload hpatterns ?_)
    rw [hword 16 (by omega)] at hsections'
    omega
  · -- the checksum is that of the old body
    have hbody : size ≤ i := by omega
    have hsums := h'.checksum
    rw [hword 8 (by omega), ← h.checksum, UInt32.toNat_inj, List.drop_set, if_neg (by omega)] at hsums
    have hplace : i - size < (bytes.drop size).length := by
      rw [List.length_drop]
      omega
    have hsame := eq_of_crc32_set hplace hsums
    rwa [List.getElem?_drop, Nat.add_sub_of_le hbody] at hsame

/-- What comes behind a sealed file spoils it. -/
theorem append_eq_nil {more : List UInt8} (h : IsSealed bytes) (h' : IsSealed (bytes ++ more)) :
    more = [] := by
  have hsize := h.size_le
  have htotal := h'.totalSize
  rw [wordAt_append_of_le (by simp only [size] at hsize; omega), h.totalSize, List.length_append] at htotal
  exact List.eq_nil_of_length_eq_zero (by omega)

end IsSealed

namespace ParseTable

variable {A : Type} [ByteAutomaton A] [AutomatonFormat A] {t : ParseTable A} {bytes : List UInt8}

/-- What is read was sealed. -/
theorem isSealed_of_ofBytes (h : ofBytes bytes = .ok t) : IsSealed bytes := by
  obtain ⟨header, hheader, h⟩ := bind_eq_ok.mp h
  obtain ⟨_, hcheck, h⟩ := bind_eq_ok.mp h
  dsimp only at h
  split at h
  · cases h
  case isFalse hchecksum => exact isSealed_iff.mpr ⟨header, hheader, hcheck, not_not.mp hchecksum⟩

/-- What is written is sealed. -/
theorem isSealed_of_toBytes? (h : t.toBytes? = some bytes) : IsSealed bytes := by
  obtain ⟨hheader, rfl⟩ := toBytes?_eq_some h
  have hlength := TableHeader.length_toBytes hheader
  refine isSealed_iff.mpr ⟨t.header, TableHeader.ofBytes_append hheader _, t.check_header ?_, ?_⟩
  · rw [List.length_append, hlength]
    rfl
  · rw [List.drop_left' hlength]
    rfl

/-- A file that is not sealed is refused before its parts are read. -/
theorem exists_error_of_not_isSealed (h : ¬ IsSealed bytes) :
    ∃ e, ofBytes (A := A) bytes = .error e := by
  cases hread : ofBytes (A := A) bytes with
  | error e => exact ⟨e, rfl⟩
  | ok t => exact absurd (isSealed_of_ofBytes hread) h

/-- **Damage is noticed.** A table file in which one byte outside of the eight reserved ones is changed
is refused, and so is one that breaks off early or goes on behind its end. -/
theorem ofBytes_corrupted (h : t.toBytes? = some bytes) :
    (∀ i b, i < bytes.length → ¬ (24 ≤ i ∧ i < 32) → bytes[i]? ≠ some b →
      ∃ e, ofBytes (A := A) (bytes.set i b) = .error e) ∧
    (∀ n, n < bytes.length → ∃ e, ofBytes (A := A) (bytes.take n) = .error e) ∧
    ∀ more, more ≠ [] → ∃ e, ofBytes (A := A) (bytes ++ more) = .error e := by
  have hsealed := isSealed_of_toBytes? h
  refine ⟨fun i b hi hreserved hne => ?_, fun n hn => ?_, fun more hmore => ?_⟩
  · refine exists_error_of_not_isSealed fun hchanged => hne ?_
    refine hsealed.eq_of_set hchanged hi ?_
    rw [show size = 32 from rfl]
    omega
  · refine exists_error_of_not_isSealed fun hshort => ?_
    have hrest := hshort.append_eq_nil (by rwa [List.take_append_drop])
    rw [List.drop_eq_nil_iff] at hrest
    omega
  · exact exists_error_of_not_isSealed fun hlong => hmore (hsealed.append_eq_nil hlong)

theorem ofBytes_corrupted_lines : ∃ t bytes, lines? = some t ∧ t.toBytes? = some bytes ∧
    (∃ e, ofBytes (A := PatternSet) (bytes.set 40 7) = .error e) ∧
    (∃ e, ofBytes (A := PatternSet) (bytes.take 40) = .error e) ∧
      ∃ e, ofBytes (A := PatternSet) (bytes ++ [0]) = .error e := by
  have hwritten : (lines?.bind toBytes?).any (fun bytes => bytes[40]?.any (· ≠ 7)) = true := by
    decide +kernel
  obtain ⟨bytes, hbytes, hbyte⟩ := (Option.any_eq_true _ _).mp hwritten
  obtain ⟨t, ht, hbytes⟩ := Option.bind_eq_some_iff.mp hbytes
  obtain ⟨b, hb, hne⟩ := (Option.any_eq_true _ _).mp hbyte
  have hinside : 40 < bytes.length := (List.getElem?_eq_some_iff.mp hb).1
  have hcorrupted := ofBytes_corrupted hbytes
  refine ⟨t, bytes, ht, hbytes, hcorrupted.1 40 7 hinside (by decide) ?_,
    hcorrupted.2.1 40 hinside, hcorrupted.2.2 [0] (by decide)⟩
  rw [hb]
  exact fun hsame => of_decide_eq_true hne (Option.some.inj hsame)

end ParseTable

end LRWorkbench
