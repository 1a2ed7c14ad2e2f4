import LRWorkbench.Proofs.Text.Bytes

/-!
# Texts that agree on their first bytes

Whoever looks at the first `n` bytes of a text cannot tell it from one that **agrees** with it on
them (`Text.Agree`); the end of a text counts as a byte that is like no other. Texts that agree
begin with the same characters (`Agree.append`), and a character that is only begun is at least
as long in both (`Agree.exists_cons`).
-/

namespace LRWorkbench.Text

/-- Whether two texts have the same first bytes, the end of a text being one. -/
def Agree (n : Nat) (u v : List Char) : Prop := ∀ i < n, (utf8Bytes u)[i]? = (utf8Bytes v)[i]?

variable {m n : Nat} {u v w : List Char}

theorem Agree.refl (n : Nat) (u : List Char) : Agree n u u := fun _ _ => rfl

theorem Agree.symm (h : Agree n u v) : Agree n v u := fun i hi => (h i hi).symm

theorem Agree.mono (h : Agree n u v) (hm : m ≤ n) : Agree m u v :=
  fun i hi => h i (Nat.lt_of_lt_of_le hi hm)

/-- Texts that agree on the bytes of the first one and its end are the same as far as it goes. -/
theorem Agree.append (h : Agree n (u ++ w) v) (hn : byteLength u ≤ n) :
    ∃ w', v = u ++ w' ∧ Agree (n - byteLength u) w w' := by
  have hbytes : utf8Bytes v = utf8Bytes u ++ (utf8Bytes v).drop (byteLength u) := by
    refine List.ext_getElem? fun i => ?_
    rcases Nat.lt_or_ge i (byteLength u) with hi | hi
    · have hu : i < (utf8Bytes u).length := by rwa [length_utf8Bytes]
      have hagree := h i (Nat.lt_of_lt_of_le hi hn)
      rw [utf8Bytes_append, List.getElem?_append_left hu] at hagree
      rw [List.getElem?_append_left hu, hagree]
    · have hu : (utf8Bytes u).length ≤ i := by rwa [length_utf8Bytes]
      rw [List.getElem?_append_right hu, List.getElem?_drop, length_utf8Bytes,
        Nat.add_sub_cancel' hi]
  obtain ⟨w', rfl⟩ := exists_of_utf8Bytes_eq hbytes
  refine ⟨w', rfl, fun i hi => ?_⟩
  have hagree := h (byteLength u + i) (by omega)
  rw [utf8Bytes_append, utf8Bytes_append, List.getElem?_append_right (by simp),
    List.getElem?_append_right (by simp), length_utf8Bytes, Nat.add_sub_cancel_left] at hagree
  exact hagree

theorem Agree.cons {c : Char} (h : Agree n (c :: u) v) (hn : c.utf8Size ≤ n) :
    ∃ w, v = c :: w ∧ Agree (n - c.utf8Size) u w :=
  Agree.append (u := [c]) h hn

theorem Agree.eq_nil (h : Agree n [] v) (hn : 0 < n) : v = [] := by
  have hnone := (h 0 hn).symm
  rw [utf8Bytes_nil, List.getElem?_nil, List.getElem?_eq_none_iff, length_utf8Bytes] at hnone
  exact byteLength_eq_zero.mp (Nat.le_zero.mp hnone)

/-- Texts that agree up to the end of the first one are the same. -/
theorem Agree.eq (h : Agree n u v) (hn : byteLength u < n) : v = u := by
  obtain ⟨w, rfl, hrest⟩ := Agree.append (w := []) (by simpa using h) (Nat.le_of_lt hn)
  obtain rfl := hrest.eq_nil (by omega)
  exact List.append_nil u

/-- As far as texts agree they are equally long. -/
theorem Agree.min_length (h : Agree n u v) :
    min n (byteLength u + 1) = min n (byteLength v + 1) := by
  rcases Nat.lt_or_ge (byteLength u) n with hu | hu
  · rw [h.eq hu]
  rcases Nat.lt_or_ge (byteLength v) n with hv | hv
  · rw [h.symm.eq hv]
  · omega

theorem Agree.takeBytes_eq (h : Agree n u v) (hm : m ≤ n) : takeBytes m v = takeBytes m u := by
  have hfound : ∀ {x y : List Char}, Agree n x y → ∀ {front : List Char},
      takeBytes m x = some front → takeBytes m y = some front := by
    intro x y hxy front hfront
    obtain ⟨w, rfl, rfl⟩ := exists_of_takeBytes hfront
    obtain ⟨w', rfl, -⟩ := hxy.append hm
    exact takeBytes_append ..
  refine Option.ext fun front => ⟨hfound h.symm, hfound h⟩

theorem Agree.isBoundary_eq (h : Agree n u v) (hm : m ≤ n) : isBoundary m v = isBoundary m u := by
  have hfound : ∀ {x y : List Char}, Agree n x y → isBoundary m x = true →
      isBoundary m y = true := by
    intro x y hxy hx
    obtain ⟨front, w, rfl, rfl⟩ := isBoundary_iff.mp hx
    obtain ⟨w', rfl, -⟩ := hxy.append hm
    exact isBoundary_iff.mpr ⟨front, w', rfl, rfl⟩
  exact Bool.eq_iff_iff.mpr ⟨hfound h.symm, hfound h⟩

/-- A text agrees with a beginning of its own on no more bytes than that has. -/
theorem agree_append_left (hn : n ≤ byteLength u) (w : List Char) : Agree n (u ++ w) u := by
  intro i hi
  rw [utf8Bytes_append, List.getElem?_append_left (by rw [length_utf8Bytes]; omega)]

/-- An offset is the length of a beginning, or lies within the character behind one. -/
theorem exists_cut (hn : n ≤ byteLength u) : ∃ v w, u = v ++ w ∧
    (n = byteLength v ∨ ∃ c cs, w = c :: cs ∧ byteLength v < n ∧ n < byteLength v + c.utf8Size) := by
  induction u generalizing n with
  | nil => exact ⟨[], [], rfl, .inl (Nat.le_zero.mp hn)⟩
  | cons c cs ih =>
    rcases Nat.lt_or_ge n c.utf8Size with hlt | hge
    · rcases Nat.eq_zero_or_pos n with hzero | hpos
      · exact ⟨[], c :: cs, rfl, .inl hzero⟩
      · exact ⟨[], c :: cs, rfl, .inr ⟨c, cs, rfl, hpos, by simpa using hlt⟩⟩
    · rw [byteLength_cons] at hn
      obtain ⟨v, w, rfl, hv⟩ := ih (n := n - c.utf8Size) (by omega)
      refine ⟨c :: v, w, rfl, ?_⟩
      rw [byteLength_cons]
      rcases hv with hv | ⟨d, ds, hw, hlt, hlt'⟩
      · exact .inl (by omega)
      · exact .inr ⟨d, ds, hw, by omega, by omega⟩

/-- An offset within a text's first character is a boundary only where that ends. -/
theorem isBoundary_cons {c : Char} (hn : 0 < n) (hle : n ≤ c.utf8Size) (cs : List Char) :
    isBoundary n (c :: cs) = decide (c.utf8Size ≤ n) := by
  obtain ⟨m, rfl⟩ := Nat.exists_eq_add_one_of_ne_zero (Nat.pos_iff_ne_zero.mp hn)
  rw [isBoundary, dropBytes]
  split
  · rename_i hfits
    rw [Nat.sub_eq_zero_of_le hle, dropBytes, decide_eq_true hfits]
    rfl
  · rename_i hfits
    rw [decide_eq_false hfits]
    rfl

/-! ### Characters that are only begun -/

/-- The bytes of a character as numbers. -/
theorem map_toNat_utf8EncodeChar (c : Char) :
    (String.utf8EncodeChar c).map (·.toNat) =
      if c.toNat ≤ 0x7f then [c.toNat]
      else if c.toNat ≤ 0x7ff then [c.toNat / 64 % 32 + 0xc0, c.toNat % 64 + 0x80]
      else if c.toNat ≤ 0xffff then
        [c.toNat / 4096 % 16 + 0xe0, c.toNat / 64 % 64 + 0x80, c.toNat % 64 + 0x80]
      else [c.toNat / 262144 % 8 + 0xf0, c.toNat / 4096 % 64 + 0x80, c.toNat / 64 % 64 + 0x80,
        c.toNat % 64 + 0x80] := by
  have hv : c.val.toNat = c.toNat := rfl
  rw [String.utf8EncodeChar, hv]
  split
  · simp only [List.map_cons, List.map_nil, UInt8.toNat_ofNat', List.cons.injEq, and_true]
    omega
  split
  · simp only [List.map_cons, List.map_nil, UInt8.toNat_ofNat', List.cons.injEq, and_true]
    omega
  split
  · simp only [List.map_cons, List.map_nil, UInt8.toNat_ofNat', List.cons.injEq, and_true]
    omega
  · simp only [List.map_cons, List.map_nil, UInt8.toNat_ofNat', List.cons.injEq, and_true]
    omega

/-- The length of the encoding of a character by its code. -/
theorem utf8Size_eq (c : Char) : c.utf8Size = if c.toNat ≤ 0x7f then 1
    else if c.toNat ≤ 0x7ff then 2 else if c.toNat ≤ 0xffff then 3 else 4 := by
  simp only [Char.utf8Size, UInt32.le_iff_toNat_le]
  rfl

theorem one_lt_utf8Size {c : Char} (h : 0x80 ≤ c.toNat) : 1 < c.utf8Size := by
  have hsize := utf8Size_eq c
  grind

theorem toNat_lt (c : Char) : c.toNat < 0x110000 := by
  rcases c.valid with h | h
  · exact Nat.lt_trans h (by decide)
  · exact h.2

/-- The first byte of a character tells its size and what its code begins with. -/
theorem exists_head_utf8EncodeChar (c : Char) :
    ∃ b rest, (String.utf8EncodeChar c).map (·.toNat) = b :: rest ∧
      (c.utf8Size = 1 ∧ b < 0x80 ∨
        c.utf8Size = 2 ∧ b = c.toNat / 64 + 0xc0 ∧ b < 0xe0 ∨
        c.utf8Size = 3 ∧ b = c.toNat / 4096 + 0xe0 ∧ b < 0xf0 ∧
          rest = [c.toNat / 64 % 64 + 0x80, c.toNat % 64 + 0x80] ∨
        c.utf8Size = 4 ∧ b = c.toNat / 262144 + 0xf0 ∧
          rest = [c.toNat / 4096 % 64 + 0x80, c.toNat / 64 % 64 + 0x80, c.toNat % 64 + 0x80]) := by
  have hmax := toNat_lt c
  rw [map_toNat_utf8EncodeChar, utf8Size_eq]
  split
  · exact ⟨_, _, rfl, .inl ⟨rfl, by omega⟩⟩
  split
  · exact ⟨_, _, rfl, .inr (.inl ⟨rfl, by omega, by omega⟩)⟩
  split
  · exact ⟨_, _, rfl, .inr (.inr (.inl ⟨rfl, by omega, by omega, rfl⟩))⟩
  · exact ⟨_, _, rfl, .inr (.inr (.inr ⟨rfl, by omega, rfl⟩))⟩

/-- The first bytes of a character that takes more tell its size and what its code begins with. -/
theorem eq_of_getElem?_utf8EncodeChar {c d : Char} {n : Nat} (hn : 0 < n) (hc : n < c.utf8Size)
    (h : ∀ i < n, (String.utf8EncodeChar c)[i]? = (String.utf8EncodeChar d)[i]?) :
    d.utf8Size = c.utf8Size ∧
      d.toNat / Nat.pow 2 (6 * (c.utf8Size - n)) = c.toNat / Nat.pow 2 (6 * (c.utf8Size - n)) := by
  rw [Nat.pow_eq]
  have hbytes : ∀ i < n, ((String.utf8EncodeChar c).map (·.toNat))[i]? =
      ((String.utf8EncodeChar d).map (·.toNat))[i]? := by
    intro i hi
    rw [List.getElem?_map, List.getElem?_map, h i hi]
  obtain ⟨b, rest, hcodes, hhead⟩ := exists_head_utf8EncodeChar c
  obtain ⟨b', rest', hcodes', hhead'⟩ := exists_head_utf8EncodeChar d
  rw [hcodes, hcodes'] at hbytes
  obtain rfl : b = b' := Option.some.inj (hbytes 0 hn)
  rcases hhead with ⟨hsize, -⟩ | ⟨hsize, hb, hlt⟩ | ⟨hsize, hb, hlt, rfl⟩ | ⟨hsize, hb, rfl⟩ <;>
    rcases hhead' with ⟨hsize', hlt'⟩ | ⟨hsize', hb', hlt'⟩ | ⟨hsize', hb', hlt', rfl⟩ |
      ⟨hsize', hb', rfl⟩ <;> rw [hsize] at hc ⊢ <;> rw [hsize'] <;> try omega
  · -- two bytes, of which one is known
    obtain rfl : n = 1 := by omega
    omega
  · obtain rfl | rfl : n = 1 ∨ n = 2 := by omega
    · omega
    · have h1 := Option.some.inj (hbytes 1 (by omega))
      omega
  · obtain rfl | rfl | rfl : n = 1 ∨ n = 2 ∨ n = 3 := by omega
    · omega
    · have h1 := Option.some.inj (hbytes 1 (by omega))
      omega
    · have h1 := Option.some.inj (hbytes 1 (by omega))
      have h2 := Option.some.inj (hbytes 2 (by omega))
      omega

/-- A text that agrees with another within its first character begins with a character that is as
long and begins alike. -/
theorem Agree.exists_cons {c : Char} (h : Agree n (c :: u) v) (hn : 0 < n) (hc : n < c.utf8Size) :
    ∃ d w, v = d :: w ∧ d.utf8Size = c.utf8Size ∧ ∀ m, 0 < m → m ≤ n →
      d.toNat / Nat.pow 2 (6 * (c.utf8Size - m)) = c.toNat / Nat.pow 2 (6 * (c.utf8Size - m)) := by
  cases v with
  | nil =>
    have hnil := h.symm.eq_nil hn
    cases hnil
  | cons d w =>
    -- as far as the shorter of both characters goes the bytes are theirs
    have hbytes : ∀ (e : Char) (x : List Char) (i : Nat), i < e.utf8Size →
        (utf8Bytes (e :: x))[i]? = (String.utf8EncodeChar e)[i]? := by
      intro e x i hi
      rw [show utf8Bytes (e :: x) = String.utf8EncodeChar e ++ utf8Bytes x from rfl]
      exact List.getElem?_append_left (by rwa [String.length_utf8EncodeChar])
    have hfirst : ∀ i < 1, (String.utf8EncodeChar c)[i]? = (String.utf8EncodeChar d)[i]? := by
      intro i hi
      have hpos := c.utf8Size_pos
      have hpos' := d.utf8Size_pos
      rw [← hbytes c u i (by omega), ← hbytes d w i (by omega)]
      exact h i (by omega)
    have hsize := (eq_of_getElem?_utf8EncodeChar (n := 1) Nat.one_pos (by omega) hfirst).1
    refine ⟨d, w, rfl, hsize, fun m hm hmn => ?_⟩
    refine (eq_of_getElem?_utf8EncodeChar hm (by omega) fun i hi => ?_).2
    rw [← hbytes c u i (by omega), ← hbytes d w i (by omega)]
    exact h i (by omega)

end LRWorkbench.Text
