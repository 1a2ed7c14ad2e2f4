import LRWorkbench.Text.Extent

/-!
# Cutting texts at byte offsets

A byte offset between two characters of a text is the length of a beginning of that text. All that
is known of `dropBytes`, `takeBytes`, `seekFrom` and `slice` follows from that: an offset that they
accept **splits** the text, and a split is found again by its offset.

* `eq_of_append_eq_append`: two beginnings of one text that are equally long are the same;
* `seek_append`, `slice_append`: what stands behind a beginning, and between two offsets;
* `Extent.of_append`: extents of texts add up, and the first one can be taken off (`Extent.follows`).
-/

namespace LRWorkbench

namespace Text

@[simp] theorem byteLength_nil : byteLength [] = 0 := rfl

@[simp] theorem byteLength_cons (c : Char) (cs : List Char) :
    byteLength (c :: cs) = c.utf8Size + byteLength cs := rfl

@[simp] theorem byteLength_append (u v : List Char) :
    byteLength (u ++ v) = byteLength u + byteLength v := by
  induction u with
  | nil => simp
  | cons c u ih => simp only [List.cons_append, byteLength_cons, ih]; omega

/-- Only the empty text has no bytes. -/
theorem byteLength_eq_zero {u : List Char} : byteLength u = 0 ↔ u = [] := by
  cases u with
  | nil => simp
  | cons c u =>
    have := c.utf8Size_pos
    simp only [byteLength_cons, reduceCtorEq, iff_false]
    omega

theorem byteLength_pos {u : List Char} : 0 < byteLength u ↔ u ≠ [] := by
  rw [Nat.pos_iff_ne_zero, ne_eq, byteLength_eq_zero]

/-- Beginnings of one text that are equally long are the same. -/
theorem eq_of_append_eq_append {u u' v v' : List Char} (h : u ++ v = u' ++ v')
    (hn : byteLength u = byteLength u') : u = u' ∧ v = v' := by
  induction u generalizing u' with
  | nil =>
    obtain rfl := byteLength_eq_zero.mp hn.symm
    exact ⟨rfl, h⟩
  | cons c u ih =>
    cases u' with
    | nil => exact absurd (byteLength_eq_zero.mp hn) (by simp)
    | cons d u' =>
      simp only [List.cons_append, List.cons.injEq] at h
      obtain ⟨rfl, h⟩ := h
      simp only [byteLength_cons, Nat.add_left_cancel_iff] at hn
      obtain ⟨rfl, rfl⟩ := ih h hn
      exact ⟨rfl, rfl⟩

/-- Of two beginnings of one text, the one that is not longer begins the other. -/
theorem exists_of_append_eq_append {u u' v v' : List Char} (h : u ++ v = u' ++ v')
    (hn : byteLength u ≤ byteLength u') : ∃ w, u' = u ++ w ∧ v = w ++ v' := by
  rcases List.append_eq_append_iff.mp h with ⟨w, rfl, rfl⟩ | ⟨w, rfl, rfl⟩
  · exact ⟨w, rfl, rfl⟩
  · obtain rfl : w = [] := by
      rw [← byteLength_eq_zero]
      simp only [byteLength_append] at hn
      omega
    exact ⟨[], by simp, rfl⟩

/-! ### Offsets that split a text -/

/-- What is behind a beginning is found by its length. -/
theorem seekFrom_append (before : Option Char) (u v : List Char) :
    seekFrom before (byteLength u) (u ++ v) = some (u.getLast?.or before, v) := by
  induction u generalizing before with
  | nil => cases v <;> rfl
  | cons c u ih =>
    have hpos := c.utf8Size_pos
    obtain ⟨n, hn⟩ : ∃ n, byteLength (c :: u) = n + 1 :=
      ⟨byteLength (c :: u) - 1, by simp only [byteLength_cons]; omega⟩
    rw [hn, List.cons_append, seekFrom, if_pos (by simp only [byteLength_cons] at hn; omega)]
    have hrest : n + 1 - c.utf8Size = byteLength u := by
      simp only [byteLength_cons] at hn
      omega
    rw [hrest, ih]
    cases u <;> simp [List.getLast?_cons]

/-- Seeking to the end of a beginning finds what is behind it, and the character before. -/
theorem seek_append (u v : List Char) : seek (byteLength u) (u ++ v) = (u.getLast?, v) := by
  rw [seek, seekFrom_append]
  simp

/-- A beginning is dropped by its length. -/
theorem dropBytes_append (u v : List Char) : dropBytes (byteLength u) (u ++ v) = some v := by
  induction u with
  | nil => cases v <;> rfl
  | cons c u ih =>
    have hpos := c.utf8Size_pos
    obtain ⟨n, hn⟩ : ∃ n, byteLength (c :: u) = n + 1 :=
      ⟨byteLength (c :: u) - 1, by simp only [byteLength_cons]; omega⟩
    simp only [byteLength_cons] at hn
    have hrest : n + 1 - c.utf8Size = byteLength u := by omega
    rw [byteLength_cons, hn, List.cons_append, dropBytes, if_pos (by omega), hrest, ih]

/-- It is taken by its length. -/
theorem takeBytes_append (u v : List Char) : takeBytes (byteLength u) (u ++ v) = some u := by
  induction u with
  | nil => cases v <;> rfl
  | cons c u ih =>
    have hpos := c.utf8Size_pos
    obtain ⟨n, hn⟩ : ∃ n, byteLength (c :: u) = n + 1 :=
      ⟨byteLength (c :: u) - 1, by simp only [byteLength_cons]; omega⟩
    simp only [byteLength_cons] at hn
    have hrest : n + 1 - c.utf8Size = byteLength u := by omega
    rw [byteLength_cons, hn, List.cons_append, takeBytes, if_pos (by omega), hrest, ih]
    rfl

/-- What fits of two texts in a row is what fits of the first one, and of the second one what still has
room behind it. -/
theorem fitting_append (n : Nat) (u v : List Char) :
    fitting n (u ++ v) = fitting n u ++ fitting (n - byteLength u) v := by
  induction u generalizing n with
  | nil => rfl
  | cons c u ih =>
    rw [List.cons_append, fitting, fitting]
    split
    · rw [ih, byteLength_cons, Nat.sub_sub, List.cons_append]
    · -- no room is left behind a character that does not fit
      have hfull : n - byteLength (c :: u) = 0 := by
        rw [byteLength_cons]
        omega
      rw [hfull, List.nil_append]
      cases v with
      | nil => rfl
      | cons d v => rw [fitting, if_neg (Nat.not_le.mpr d.utf8Size_pos)]

/-- A text that is short enough fits as a whole. -/
theorem fitting_eq_self {n : Nat} {u : List Char} (h : byteLength u ≤ n) : fitting n u = u := by
  induction u generalizing n with
  | nil => cases n <;> rfl
  | cons c u ih =>
    rw [byteLength_cons] at h
    rw [fitting, if_pos (by omega), ih (by omega)]

/-- An offset that can be dropped splits the text. -/
theorem exists_of_dropBytes {n : Nat} {cs rest : List Char} (h : dropBytes n cs = some rest) :
    ∃ u, cs = u ++ rest ∧ byteLength u = n := by
  induction cs generalizing n with
  | nil =>
    cases n with
    | zero => exact ⟨[], by simpa [dropBytes] using h, rfl⟩
    | succ n => simp [dropBytes] at h
  | cons c cs ih =>
    cases n with
    | zero => exact ⟨[], by simpa [dropBytes] using h, rfl⟩
    | succ n =>
      simp only [dropBytes] at h
      split at h
      · obtain ⟨u, rfl, hu⟩ := ih h
        exact ⟨c :: u, rfl, by simp only [byteLength_cons]; omega⟩
      · cases h

/-- So does one that can be taken. -/
theorem exists_of_takeBytes {n : Nat} {cs front : List Char} (h : takeBytes n cs = some front) :
    ∃ v, cs = front ++ v ∧ byteLength front = n := by
  induction cs generalizing n front with
  | nil =>
    cases n with
    | zero =>
      obtain rfl := Option.some.inj h
      exact ⟨[], rfl, rfl⟩
    | succ n => simp [takeBytes] at h
  | cons c cs ih =>
    cases n with
    | zero =>
      obtain rfl := Option.some.inj h
      exact ⟨c :: cs, rfl, rfl⟩
    | succ n =>
      simp only [takeBytes] at h
      split at h
      · obtain ⟨front', hfront, rfl⟩ := Option.map_eq_some_iff.mp h
        obtain ⟨v, rfl, hv⟩ := ih hfront
        exact ⟨v, rfl, by simp only [byteLength_cons]; omega⟩
      · cases h

/-- An offset is a boundary exactly if it is the length of a beginning. -/
theorem isBoundary_iff {n : Nat} {cs : List Char} :
    isBoundary n cs = true ↔ ∃ u v, cs = u ++ v ∧ byteLength u = n := by
  rw [isBoundary, Option.isSome_iff_exists]
  constructor
  · rintro ⟨v, hv⟩
    obtain ⟨u, hu⟩ := exists_of_dropBytes hv
    exact ⟨u, v, hu⟩
  · rintro ⟨u, v, rfl, rfl⟩
    exact ⟨v, dropBytes_append u v⟩

/-- Behind a boundary before the end something stands. -/
theorem exists_append_of_lt {n : Nat} {cs : List Char} (h : isBoundary n cs = true)
    (hlt : n < byteLength cs) : ∃ u v, cs = u ++ v ∧ byteLength u = n ∧ v ≠ [] := by
  obtain ⟨u, v, rfl, rfl⟩ := isBoundary_iff.mp h
  refine ⟨u, v, rfl, rfl, ?_⟩
  rintro rfl
  rw [List.append_nil] at hlt
  exact Nat.lt_irrefl _ hlt

/-- An offset behind a beginning is a boundary if it is one of what follows. -/
theorem isBoundary_append (u v : List Char) (n : Nat) :
    isBoundary (byteLength u + n) (u ++ v) = isBoundary n v := by
  refine Bool.eq_iff_iff.mpr ?_
  rw [isBoundary_iff, isBoundary_iff]
  constructor
  · rintro ⟨x, y, hxy, hx⟩
    obtain ⟨w, rfl, rfl⟩ := exists_of_append_eq_append hxy (by omega)
    rw [byteLength_append] at hx
    exact ⟨w, y, rfl, by omega⟩
  · rintro ⟨x, y, rfl, rfl⟩
    exact ⟨u ++ x, y, (List.append_assoc ..).symm, byteLength_append ..⟩

/-- A text is cut off at an offset behind what fits there, unless the offset lies inside a character. -/
theorem takeBytes_eq (n : Nat) (cs : List Char) :
    takeBytes n cs = if isBoundary n cs then some (fitting n cs) else none := by
  split
  · rename_i h
    obtain ⟨front, rest, rfl, rfl⟩ := isBoundary_iff.mp h
    rw [takeBytes_append, fitting_append, fitting_eq_self (Nat.le_refl _), Nat.sub_self]
    cases rest with
    | nil => rw [fitting, List.append_nil]
    | cons c rest => rw [fitting, if_neg (Nat.not_le.mpr c.utf8Size_pos), List.append_nil]
  · rename_i h
    refine Option.eq_none_iff_forall_ne_some.mpr fun front hfront => h ?_
    obtain ⟨rest, heq, hlength⟩ := exists_of_takeBytes hfront
    exact isBoundary_iff.mpr ⟨front, rest, heq, hlength⟩

/-- The piece between two offsets. -/
theorem slice_append (u v w : List Char) :
    slice (byteLength u) (byteLength u + byteLength v) (u ++ v ++ w) = v := by
  rw [slice, List.append_assoc, dropBytes_append, Option.bind_some,
    Nat.add_sub_cancel_left, takeBytes_append, Option.getD_some]

/-! ### Beginnings that are given -/

/-- What is dropped from the front was there. -/
theorem append_of_dropPrefix? {front cs rest : List Char} (h : dropPrefix? front cs = some rest) :
    front ++ rest = cs := by
  induction front generalizing cs with
  | nil => exact (Option.some.inj h).symm
  | cons p front ih =>
    cases cs with
    | nil => cases h
    | cons c cs =>
      rw [dropPrefix?] at h
      split at h
      case isTrue hc => rw [List.cons_append, ih h, hc]
      case isFalse => cases h

/-! ### The UTF-8 form -/

@[simp] theorem utf8Bytes_nil : utf8Bytes [] = [] := rfl

@[simp] theorem utf8Bytes_append (u v : List Char) :
    utf8Bytes (u ++ v) = utf8Bytes u ++ utf8Bytes v :=
  List.flatMap_append

/-- The length of a text is the number of its bytes. -/
@[simp] theorem length_utf8Bytes (u : List Char) : (utf8Bytes u).length = byteLength u := by
  induction u with
  | nil => rfl
  | cons c u ih =>
    rw [utf8Bytes, List.flatMap_cons, List.length_append, String.length_utf8EncodeChar,
      byteLength_cons, ← ih, utf8Bytes]

/-- The bytes of a character tell where it ends. -/
theorem eq_of_utf8EncodeChar_append {c d : Char} {x y : List UInt8}
    (h : String.utf8EncodeChar c ++ x = String.utf8EncodeChar d ++ y) : c = d := by
  have hbytes := congrArg List.toByteArray h
  rw [List.toByteArray_append, List.toByteArray_append] at hbytes
  have hdecode := congrArg (fun b => ByteArray.utf8DecodeChar? b 0) hbytes
  simp only [ByteArray.utf8DecodeChar?_utf8EncodeChar_append] at hdecode
  exact Option.some.inj hdecode

/-- A text whose bytes begin with those of another text begins with that text. -/
theorem exists_of_utf8Bytes_eq {v w : List Char} {back : List UInt8}
    (h : utf8Bytes w = utf8Bytes v ++ back) : ∃ rest, w = v ++ rest := by
  induction v generalizing w with
  | nil => exact ⟨w, rfl⟩
  | cons c v ih =>
    cases w with
    | nil =>
      have hlength := congrArg List.length h
      have hpos := c.utf8Size_pos
      simp only [length_utf8Bytes, byteLength_nil, List.length_append, byteLength_cons] at hlength
      omega
    | cons d w =>
      have hcons : ∀ (e : Char) (u : List Char),
          utf8Bytes (e :: u) = String.utf8EncodeChar e ++ utf8Bytes u := fun _ _ => rfl
      rw [hcons, hcons, List.append_assoc] at h
      obtain rfl := eq_of_utf8EncodeChar_append h
      obtain ⟨rest, rfl⟩ := ih (List.append_cancel_left h)
      exact ⟨rest, rfl⟩

end Text

/-! ### Extents -/

namespace Extent

open Text

theorem add_def (a b : Extent) : a + b = Extent.add a b := rfl

@[simp] theorem bytes_add (a b : Extent) : (a + b).bytes = a.bytes + b.bytes := rfl

@[simp] theorem zero_add (a : Extent) : zero + a = a := by
  obtain ⟨n, r, c⟩ := a
  simp only [add_def, Extent.add, zero, Point.zero, Nat.zero_add, Extent.mk.injEq, true_and]
  split
  · rfl
  · simp only [Point.mk.injEq, and_true]
    omega

@[simp] theorem add_zero (a : Extent) : a + zero = a := rfl

/-- Extents add up in any grouping, since a column starts anew behind each line break. -/
theorem add_assoc (a b c : Extent) : a + b + c = a + (b + c) := by
  obtain ⟨n, r, k⟩ := a
  obtain ⟨n', r', k'⟩ := b
  obtain ⟨n'', r'', k''⟩ := c
  simp only [add_def, Extent.add, Extent.mk.injEq]
  refine ⟨by omega, ?_⟩
  by_cases h : r'' > 0
  · have h' : r' + r'' > 0 := by omega
    by_cases hr' : r' > 0 <;> simp only [h, hr', if_true, if_false] <;>
      simp only [h', if_true, Point.mk.injEq, and_true] <;> omega
  · by_cases hr' : r' > 0 <;> simp only [h, hr', if_true, if_false, Point.mk.injEq, true_and]
    omega

@[simp] theorem of_nil : of [] = zero := rfl

/-- The extent of a text is the sum of those of its characters. -/
private theorem foldl_add (cs : List Char) (a : Extent) :
    cs.foldl (fun acc c => acc + ofChar c) a = a + of cs := by
  induction cs generalizing a with
  | nil => simp
  | cons c cs ih =>
    rw [of, List.foldl_cons, List.foldl_cons, ih, ih (zero + ofChar c), zero_add, add_assoc]

/-- The extent of one text after another is the sum of their extents. -/
theorem of_append (u v : List Char) : of (u ++ v) = of u + of v := by
  rw [of, List.foldl_append, foldl_add]
  rfl

theorem bytes_ofChar (c : Char) : (ofChar c).bytes = c.utf8Size := by
  rw [ofChar]
  split
  · rename_i h
    subst h
    rfl
  · rfl

/-- An extent has the bytes of its text. -/
@[simp] theorem bytes_of (u : List Char) : (of u).bytes = byteLength u := by
  induction u with
  | nil => rfl
  | cons c u ih =>
    have hc : of [c] = ofChar c := by simp [of]
    rw [← List.singleton_append, of_append, bytes_add, ih, hc, bytes_ofChar, byteLength_append]
    simp

/-- The extent of the part of a text before an offset. -/
theorem upTo_append (u v : List Char) : upTo (u ++ v) (byteLength u) = of u := by
  rw [upTo, byteLength_append, Nat.min_eq_left (Nat.le_add_right _ _), takeBytes_append]
  rfl

/-- Taking off what comes first leaves what comes behind it. -/
theorem add_sub_cancel_left (a b : Extent) : a + b - a = b := by
  have hpoint : (a + b - a).point = b.point := by
    change (Extent.sub (Extent.add a b) a).point = b.point
    simp only [Extent.add, Extent.sub]
    by_cases hbreak : b.point.row > 0
    · -- the sum is in the column of `b` and further down than `a`
      have hbelow : a.point.row + b.point.row > a.point.row := Nat.lt_add_of_pos_right hbreak
      simp only [hbreak, hbelow, if_true, Nat.add_sub_cancel_left]
    · -- the sum is in the row of `a`
      have hrow : 0 = b.point.row := (Nat.eq_zero_of_not_pos hbreak).symm
      simp only [hbreak, if_false, gt_iff_lt, Nat.lt_irrefl, Nat.add_sub_cancel_left]
      rw [hrow]
  have hbytes : (a + b - a).bytes = b.bytes := Nat.add_sub_cancel_left ..
  calc a + b - a = ⟨(a + b - a).bytes, (a + b - a).point⟩ := rfl
    _ = ⟨b.bytes, b.point⟩ := by rw [hbytes, hpoint]

/-! ### Rows and columns -/

/-- What stands behind the last line break of a text. -/
def lastLine (cs : List Char) : List Char := (cs.reverse.takeWhile (· != '\n')).reverse

theorem of_singleton (c : Char) : of [c] = ofChar c := zero_add _

/-- A line break starts a new last line. -/
theorem lastLine_concat (cs : List Char) (c : Char) :
    lastLine (cs ++ [c]) = if c = '\n' then [] else lastLine cs ++ [c] := by
  rw [lastLine, List.reverse_append, List.reverse_singleton, List.singleton_append,
    List.takeWhile_cons]
  by_cases hc : c = '\n' <;> simp [hc, lastLine]

theorem lastLine_suffix (cs : List Char) : lastLine cs <:+ cs := by
  have h := List.reverse_suffix.mpr (List.takeWhile_prefix (l := cs.reverse) (· != '\n'))
  rwa [List.reverse_reverse] at h

/-- A text goes down by its line breaks, and on by what stands behind the last one. -/
theorem point_of (cs : List Char) : (of cs).point = ⟨cs.count '\n', byteLength (lastLine cs)⟩ := by
  obtain ⟨rs, rfl⟩ : ∃ rs : List Char, cs = rs.reverse := ⟨cs.reverse, cs.reverse_reverse.symm⟩
  induction rs with
  | nil => rfl
  | cons c rs ih =>
    have hsum : (of (rs.reverse ++ [c])).point = (of rs.reverse + ofChar c).point := by
      rw [of_append, of_singleton]
    rw [List.reverse_cons, hsum, lastLine_concat, List.count_append, add_def, Extent.add, ih]
    by_cases hc : c = '\n'
    · subst hc
      rfl
    · simp [ofChar, hc]

/-- Whether the bytes of an extent are a number of 64 bits, and its row and column numbers of 32. -/
structure Fits (a : Extent) : Prop where
  bytes : a.bytes < 0x10000000000000000
  row : a.point.row < 0x100000000
  column : a.point.column < 0x100000000

/-- No character comes more often than there are bytes. -/
theorem count_le_byteLength (c : Char) (cs : List Char) : cs.count c ≤ byteLength cs := by
  induction cs with
  | nil => exact Nat.le_refl _
  | cons d cs ih =>
    have hpos := d.utf8Size_pos
    rw [List.count_cons, byteLength_cons]
    split <;> omega

/-- The extent of a text of less than 4 GiB fits. -/
theorem fits_of {cs : List Char} (h : byteLength cs < 0x100000000) : (of cs).Fits := by
  obtain ⟨front, hfront⟩ := lastLine_suffix cs
  have hlast : byteLength front + byteLength (lastLine cs) = byteLength cs := by
    rw [← byteLength_append, hfront]
  have hbreaks := count_le_byteLength '\n' cs
  exact {
    bytes := by
      rw [bytes_of]
      omega
    row := by
      rw [point_of]
      dsimp only
      omega
    column := by
      rw [point_of]
      dsimp only
      omega }

/-- Whether extents follow three texts: they add up as the texts are put together, and no number on the way
is too large. -/
structure Follows (a b c : List Char) : Prop where
  append : of (a ++ b) = of a + of b
  sub : of (a ++ b) - of a = of b
  assoc : of a + of b + of c = of a + (of b + of c)
  zero_left : zero + of a = of a
  zero_right : of a + zero = of a
  /-- What a text is up to an offset has the extent of that beginning. -/
  upTo : upTo (a ++ b) (byteLength a) = of a
  fits : ∀ x ∈ [of a, of b, of c, of a + of b, of b + of c, of a + of b + of c], x.Fits

/-- **Extents follow texts** of less than 4 GiB. -/
theorem follows {a b c : List Char} (h : byteLength (a ++ b ++ c) < 0x100000000) : Follows a b c where
  append := of_append a b
  sub := by rw [of_append, add_sub_cancel_left]
  assoc := add_assoc ..
  zero_left := zero_add _
  zero_right := add_zero _
  upTo := upTo_append a b
  fits := by
    have hlength : byteLength (a ++ b ++ c) = byteLength a + byteLength b + byteLength c := by
      rw [byteLength_append, byteLength_append]
    have hfront : byteLength (a ++ b) < 0x100000000 := by
      rw [byteLength_append]
      omega
    have hback : byteLength (b ++ c) < 0x100000000 := by
      rw [byteLength_append]
      omega
    simp only [← of_append, List.forall_mem_cons]
    exact ⟨fits_of (by omega), fits_of (by omega), fits_of (by omega), fits_of hfront, fits_of hback,
      fits_of h, fun _ hx => absurd hx List.not_mem_nil⟩

/-- Lines that end with the text, within it, and before all else. -/
theorem follows_lines : byteLength ("ab\n".toList ++ "é\nx".toList ++ "\n".toList) < 0x100000000 ∧
    Follows "ab\n".toList "é\nx".toList "\n".toList :=
  ⟨by decide, follows (by decide)⟩

end Extent

end LRWorkbench
