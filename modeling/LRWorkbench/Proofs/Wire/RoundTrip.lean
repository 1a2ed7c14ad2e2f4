import LRWorkbench.Wire.Basic
import Mathlib.Algebra.Ring.Int.Defs
import Mathlib.Algebra.Ring.Nat

/-!
# Reading back the wire format

What is written is read back, whatever follows it, and **what follows is left alone**. The lemmas
are equations on `encode x ++ rest`, so that decoders of records rewrite with them part after part.

Every decoder is moreover **steady**: if it reads a value, it reads the same value from the same
bytes with more behind them. A steady decoder that reads some bytes as a whole therefore reads
nothing from a strict beginning of them (`Extends.eq_none`): the format is self-delimiting.

Numbers have a width, and lengths are numbers of 64 bits. `IsText`, `IsList` and `IsInt32` say that
a value has a form on the wire at all.
-/

namespace LRWorkbench.Wire

variable {α β : Type}

/-! ### Values that have a form -/

/-- A text whose length fits its width. -/
def IsText (s : String) : Prop := s.utf8ByteSize < 2 ^ 64

/-- A list whose length fits its width, with members that have a form. -/
def IsList (P : α → Prop) (xs : List α) : Prop := xs.length < 2 ^ 64 ∧ ∀ x ∈ xs, P x

/-- An optional value that has a form if it is there. -/
def IsOption (P : α → Prop) (x : Option α) : Prop := ∀ a ∈ x, P a

/-- A signed number of 32 bits. -/
def IsInt32 (n : Int) : Prop := -2 ^ 31 ≤ n ∧ n < 2 ^ 31

instance (s : String) : Decidable (IsText s) := inferInstanceAs (Decidable (_ < _))

instance (P : α → Prop) [DecidablePred P] (xs : List α) : Decidable (IsList P xs) :=
  inferInstanceAs (Decidable (_ ∧ _))

instance (P : α → Prop) [DecidablePred P] (x : Option α) : Decidable (IsOption P x) :=
  match x with
  | none => isTrue fun _ h => nomatch h
  | some a => decidable_of_iff (P a) ⟨fun h _ ha => Option.some.inj ha ▸ h, fun h => h a rfl⟩

instance (n : Int) : Decidable (IsInt32 n) := inferInstanceAs (Decidable (_ ∧ _))

/-! ### Numbers -/

theorem toNat_toUInt8_of_lt {n : Nat} (h : n < 256) : n.toUInt8.toNat = n := by
  simp [Nat.mod_eq_of_lt h]

/-- A number that fits the width is read back. -/
theorem decodeNat_append {width n : Nat} (hn : n < 2 ^ width) (rest : List UInt8) :
    decodeNat width (encodeNat n ++ rest) = some (n, rest) := by
  induction n using Nat.strongRecOn generalizing width with
  | ind n ih =>
    rw [encodeNat]
    split
    case isTrue hsmall =>
      have hbyte := toNat_toUInt8_of_lt (show n < 256 by omega)
      rw [List.singleton_append, decodeNat, hbyte, if_pos hsmall, if_neg (by omega)]
    case isFalse hlarge =>
      have hbyte := toNat_toUInt8_of_lt (show n % 128 + 128 < 256 by omega)
      have hwidth : ¬ width ≤ 7 := fun hle => by
        have := Nat.pow_le_pow_right (n := 2) (by omega) hle
        omega
      have hquotient : n / 128 < 2 ^ (width - 7) := by
        rw [Nat.div_lt_iff_lt_mul (by omega), show 128 = 2 ^ 7 from rfl, ← Nat.pow_add,
          Nat.sub_add_cancel (by omega)]
        exact hn
      rw [List.cons_append, decodeNat, hbyte, if_neg (by omega), if_neg hwidth,
        ih (n / 128) (by omega) hquotient]
      simp only [Option.some.injEq, Prod.mk.injEq, and_true]
      omega

/-- Even numbers stand for what is not negative and odd ones for the rest, so the sign comes
back. -/
theorem unzigzag_zigzag (n : Int) : unzigzag (zigzag n) = n := by
  rw [zigzag]
  split
  case isTrue hn => rw [unzigzag, if_pos (by omega)]; omega
  case isFalse hn => rw [unzigzag, if_neg (by omega)]; omega

/-- Of the 32 bits one is for the sign. -/
theorem zigzag_lt {n : Int} (hn : IsInt32 n) : zigzag n < 2 ^ 32 := by
  obtain ⟨hlower, hupper⟩ := hn
  rw [zigzag]
  split <;> omega

theorem decodeInt32_append {n : Int} (hn : IsInt32 n) (rest : List UInt8) :
    decodeInt32 (encodeInt n ++ rest) = some (n, rest) := by
  rw [decodeInt32, encodeInt, decodeNat_append (zigzag_lt hn), Option.map_some]
  dsimp only
  rw [unzigzag_zigzag]

theorem decodeBool_append (b : Bool) (rest : List UInt8) :
    decodeBool (encodeBool b ++ rest) = some (b, rest) := by
  cases b <;> rfl

/-! ### Texts, lists and optional values -/

/-- The bytes of a text are cut off by their number alone, whatever they are. -/
theorem splitBytes_append (u rest : List UInt8) :
    splitBytes u.length (u ++ rest) = some (u, rest) := by
  induction u with
  | nil => cases rest <;> rfl
  | cons b u ih => rw [List.length_cons, List.cons_append, splitBytes, ih, Option.map_some]

/-- The bytes of an array one after the other. -/
theorem toList_eq_data (bytes : ByteArray) : bytes.toList = bytes.data.toList := by
  have hloop : ∀ (i : Nat) (found : List UInt8), ByteArray.toList.loop bytes i found =
      found.reverse ++ bytes.data.toList.drop i := by
    intro i found
    induction hleft : bytes.size - i generalizing i found with
    | zero =>
      have hend : bytes.data.toList.length ≤ i := by
        rw [Array.length_toList]
        exact Nat.sub_eq_zero_iff_le.mp hleft
      rw [ByteArray.toList.loop, if_neg (by omega), List.drop_eq_nil_of_le hend, List.append_nil]
    | succ left ih =>
      have hlt : i < bytes.data.toList.length := by
        rw [Array.length_toList]
        exact Nat.lt_of_sub_eq_succ hleft
      have hbyte : bytes.get! i = bytes.data.toList[i] := by
        rw [ByteArray.get!, getElem!_pos bytes.data i (by rwa [Array.length_toList] at hlt),
          Array.getElem_toList]
      rw [ByteArray.toList.loop, if_pos (by omega), ih (i + 1) _ (by omega), hbyte,
        List.reverse_cons, List.append_assoc, List.singleton_append, ← List.drop_eq_getElem_cons hlt]
  rw [ByteArray.toList, hloop 0 [], List.reverse_nil, List.nil_append, List.drop_zero]

theorem length_toUTF8 (s : String) : s.toUTF8.toList.length = s.utf8ByteSize := by
  rw [toList_eq_data, Array.length_toList]
  rfl

/-- What a text is encoded to is well-formed UTF-8. -/
theorem ofUtf8?_toUTF8 (s : String) : Text.ofUtf8? s.toUTF8.toList = some s := by
  have hvalid : s.toByteArray.IsValidUTF8 := s.isValidUTF8
  rw [Text.ofUtf8?, toList_eq_data, Array.toArray_toList]
  exact dif_pos hvalid

theorem decodeString_append {s : String} (hs : IsText s) (rest : List UInt8) :
    decodeString (encodeString s ++ rest) = some (s, rest) := by
  rw [decodeString, encodeString, List.append_assoc, decodeNat_append hs, Option.bind_eq_bind,
    Option.bind_some]
  dsimp only
  rw [← length_toUTF8, splitBytes_append, Option.bind_eq_bind, Option.bind_some]
  dsimp only
  rw [ofUtf8?_toUTF8]
  rfl

/-- The entries are read one after the other onto the list that was found, if each is read back from
what begins with it. -/
theorem decodeOnto_append {encode : α → List UInt8} {decode : Decoder α} {xs : List α}
    (h : ∀ x ∈ xs, ∀ rest, decode (encode x ++ rest) = some (x, rest)) (found : List α)
    (rest : List UInt8) :
    decodeOnto decode found xs.length (xs.flatMap encode ++ rest) =
      some (found.reverse ++ xs, rest) := by
  induction xs generalizing found with
  | nil => rw [List.append_nil]; rfl
  | cons x xs ih =>
    rw [List.flatMap_cons, List.append_assoc, List.length_cons, decodeOnto,
      h x (List.mem_cons_self ..)]
    dsimp only
    rw [ih (fun y hy => h y (List.mem_cons_of_mem _ hy)), List.reverse_cons, List.append_assoc,
      List.singleton_append]

/-- A list is read back if its members are. -/
theorem decodeList_append {encode : α → List UInt8} {decode : Decoder α} {P : α → Prop}
    {xs : List α} (hxs : IsList P xs)
    (h : ∀ x ∈ xs, P x → ∀ rest, decode (encode x ++ rest) = some (x, rest)) (rest : List UInt8) :
    decodeList decode (encodeList encode xs ++ rest) = some (xs, rest) := by
  rw [decodeList, encodeList, List.append_assoc, decodeNat_append hxs.1]
  dsimp only
  rw [decodeOnto_append fun x hx => h x hx (hxs.2 x hx), List.reverse_nil, List.nil_append]

/-- Even zero takes a byte, so that a number can not be read from nothing. -/
theorem length_encodeNat_pos (n : Nat) : 0 < (encodeNat n).length := by
  rw [encodeNat]
  split <;> exact Nat.succ_pos _

/-- A list is no shorter than what any of its members takes. -/
theorem length_le_encodeList (encode : α → List UInt8) {xs : List α} {x : α} (hx : x ∈ xs) :
    (encode x).length ≤ (encodeList encode xs).length := by
  obtain ⟨front, back, rfl⟩ := List.append_of_mem hx
  rw [encodeList, List.flatMap_append, List.flatMap_cons]
  simp only [List.length_append]
  omega

/-- Texts that take less than that many bytes all have lengths of 64 bits. -/
theorem isList_isText {xs : List String} (h : (encodeList encodeString xs).length < 2 ^ 64) :
    IsList IsText xs := by
  have hcount : xs.length ≤ (xs.flatMap encodeString).length := by
    clear h
    induction xs with
    | nil => exact Nat.le_refl _
    | cons s xs ih =>
      have hpos := length_encodeNat_pos s.utf8ByteSize
      rw [List.flatMap_cons, encodeString, List.length_append, List.length_append, List.length_cons]
      omega
  refine ⟨?_, fun s hs => ?_⟩
  · rw [encodeList, List.length_append] at h
    omega
  · have hle := length_le_encodeList encodeString hs
    rw [encodeString, List.length_append, length_toUTF8] at hle
    exact Nat.lt_of_le_of_lt (by omega) h

/-- An optional value is read back if a value is. -/
theorem decodeOption_append {encode : α → List UInt8} {decode : Decoder α} {P : α → Prop}
    {x : Option α} (hx : IsOption P x)
    (h : ∀ a, P a → ∀ rest, decode (encode a ++ rest) = some (a, rest)) (rest : List UInt8) :
    decodeOption decode (encodeOption encode x ++ rest) = some (x, rest) := by
  cases x with
  | none => rfl
  | some a =>
    rw [encodeOption, List.cons_append, decodeOption, if_neg (by decide), if_pos rfl,
      h a (hx a rfl), Option.map_some]

/-! ### Steady decoders -/

/-- The second decoder reads whatever the first one reads, also with more bytes behind. -/
def Extends (d d' : Decoder α) : Prop :=
  ∀ ⦃bytes : List UInt8⦄ ⦃x : α⦄ ⦃rest : List UInt8⦄, d bytes = some (x, rest) →
    ∀ more, d' (bytes ++ more) = some (x, rest ++ more)

/-- A decoder that reads some bytes as a whole has no reading of a strict beginning of them. -/
theorem Extends.eq_none {d d' : Decoder α} (h : Extends d d') {front more : List UInt8} {x : α}
    (hmore : more ≠ []) (hx : d' (front ++ more) = some (x, [])) : d front = none := by
  rcases hfront : d front with _ | ⟨y, rest⟩
  · rfl
  · have hy := (h hfront more).symm.trans hx
    have hnil : rest ++ more = [] := congrArg Prod.snd (Option.some.inj hy)
    exact absurd (List.append_eq_nil_iff.mp hnil).2 hmore

theorem Extends.pure (x : α) : Extends (fun bytes => some (x, bytes)) (fun bytes => some (x, bytes)) := by
  intro bytes y rest h more
  cases h
  rfl

/-- Reading one value and then, depending on it, another. -/
theorem Extends.bind {d d' : Decoder α} {k k' : α → Decoder β} (h : Extends d d')
    (hk : ∀ x, Extends (k x) (k' x)) :
    Extends (fun bytes => d bytes >>= fun (x, rest) => k x rest)
      (fun bytes => d' bytes >>= fun (x, rest) => k' x rest) := by
  intro bytes y rest hy more
  obtain ⟨⟨x, middle⟩, hx, hy⟩ := Option.bind_eq_some_iff.mp hy
  dsimp only [Option.bind_eq_bind]
  rw [h hx more, Option.bind_some]
  exact hk x hy more

/-- Reading a value and making something of it. -/
theorem Extends.map {d d' : Decoder α} (f : α → β) (h : Extends d d') :
    Extends (fun bytes => (d bytes).map fun (x, rest) => (f x, rest))
      (fun bytes => (d' bytes).map fun (x, rest) => (f x, rest)) := by
  intro bytes y rest hy more
  obtain ⟨⟨x, middle⟩, hx, hy⟩ := Option.map_eq_some_iff.mp hy
  cases hy
  dsimp only
  rw [h hx more, Option.map_some]

/-- The bytes of a number tell themselves where they end. -/
theorem steady_decodeNat (width : Nat) : Extends (decodeNat width) (decodeNat width) := by
  intro bytes n rest h more
  induction bytes generalizing width n with
  | nil => cases h
  | cons b bytes ih =>
    rw [decodeNat] at h
    rw [List.cons_append, decodeNat]
    split at h
    case isTrue hlast =>
      rw [if_pos hlast]
      split at h
      · cases h
      case isFalse hfits =>
        cases h
        rw [if_neg hfits]
    case isFalse hlast =>
      rw [if_neg hlast]
      split at h
      · cases h
      case isFalse hwidth =>
        rw [if_neg hwidth]
        split at h
        case h_1 m after hm =>
          cases h
          rw [ih _ hm]
        case h_2 => cases h

theorem steady_decodeInt32 : Extends decodeInt32 decodeInt32 :=
  (steady_decodeNat 32).map unzigzag

theorem steady_splitBytes (n : Nat) : Extends (splitBytes n) (splitBytes n) := by
  induction n with
  | zero =>
    intro bytes front rest h more
    rw [splitBytes] at h ⊢
    cases h
    rfl
  | succ n ih =>
    intro bytes front rest h more
    cases bytes with
    | nil => cases h
    | cons b bytes => exact ih.map (b :: ·) h more

theorem steady_decodeString : Extends decodeString decodeString := by
  have hbody (body : List UInt8) : Extends
      (fun bytes => Text.ofUtf8? body >>= fun s => Option.some (s, bytes))
      (fun bytes => Text.ofUtf8? body >>= fun s => Option.some (s, bytes)) := by
    intro bytes s rest h more
    obtain ⟨s', hs, h⟩ := Option.bind_eq_some_iff.mp h
    cases h
    rw [hs]
    rfl
  exact (steady_decodeNat 64).bind fun n => (steady_splitBytes n).bind hbody

/-- Steadiness passes from the decoder of the entries to that of so many of them. -/
theorem Extends.decodeOnto {d d' : Decoder α} (h : Extends d d') (found : List α) (n : Nat) :
    Extends (decodeOnto d found n) (decodeOnto d' found n) := by
  induction n generalizing found with
  | zero => exact Extends.pure _
  | succ n ih =>
    intro bytes xs rest hxs more
    rw [Wire.decodeOnto] at hxs ⊢
    split at hxs
    · cases hxs
    case h_2 x middle hx =>
      rw [h hx more]
      exact ih (x :: found) hxs more

theorem Extends.decodeList {d d' : Decoder α} (h : Extends d d') :
    Extends (decodeList d) (decodeList d') := by
  intro bytes xs rest hxs more
  rw [Wire.decodeList] at hxs ⊢
  split at hxs
  · cases hxs
  case h_2 n middle hn =>
    rw [steady_decodeNat 64 hn more]
    exact h.decodeOnto [] n hxs more

theorem Extends.decodeOption {d d' : Decoder α} (h : Extends d d') :
    Extends (decodeOption d) (decodeOption d') := by
  intro bytes x rest hx more
  cases bytes with
  | nil => cases hx
  | cons b bytes =>
    rw [Wire.decodeOption] at hx
    rw [List.cons_append, Wire.decodeOption]
    split at hx
    case isTrue hnone =>
      cases hx
      rw [if_pos hnone]
    case isFalse hnone =>
      rw [if_neg hnone]
      split at hx
      case isTrue hsome =>
        rw [if_pos hsome]
        exact h.map some hx more
      case isFalse => cases hx

end LRWorkbench.Wire
