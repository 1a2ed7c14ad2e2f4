import LRWorkbench.Proofs.Except
import LRWorkbench.Proofs.GrammarText.Meaning
import LRWorkbench.Proofs.Text.Bytes
import Mathlib.Data.List.Forall2
import Mathlib.Data.Nat.Digits.Defs

/-!
# What the inside of a string stands for

The inside of a string is a row of **pieces**, each of which stands for one character
(`Piece`): characters that are no backslash stand for themselves, a backslash and a letter for one of
seven characters, and a backslash with a `u` and hexadecimal digits in braces for the character of
that code. The inside **denotes** what its pieces stand for (`Denotes`).

* `unescapeFrom_of_piece`: one step resolves one piece;
* `exists_piece_or_bad`: where no piece stands, a backslash does, and it is reported;
* `unescape_exact`: strings are resolved to what they denote, and of the others the end of the
  longest beginning that denotes something is reported.

The digits of a code may have a plus sign before them, which the escapes of strings do not provide
for (`not_denotes_plus`). Only there the two ways to read a string differ (`denotes_iff_of_unsigned`).
-/

namespace LRWorkbench.GrammarText

open Text

/-! ### Pieces -/

/-- The escapes of one letter, each with the character that it stands for. -/
def shortEscapes : List (Char × Char) :=
  [('n', '\n'), ('r', '\r'), ('t', '\t'), ('0', '\x00'), ('\\', '\\'), ('"', '"'), ('\'', '\'')]

/-- Whether a character is the hexadecimal digit of a value, in one of the two cases. -/
def IsHexDigit (c : Char) (value : Nat) : Prop :=
  "0123456789abcdef".toList[value]? = some c ∨ "0123456789ABCDEF".toList[value]? = some c

/-- Whether digits, of which there is at least one, make up the code of a character. -/
def NamesChar (digits : List Char) (c : Char) : Prop :=
  digits ≠ [] ∧ ∃ values, List.Forall₂ IsHexDigit digits values ∧
    Nat.ofDigits 16 values.reverse = c.toNat

/-- What a piece of a string stands for. If it may be signed, a code may have a plus sign. -/
inductive Piece (signed : Bool) : List Char → Char → Prop where
  /-- A character that is no backslash stands for itself. -/
  | plain {c : Char} (h : c ≠ '\\') : Piece signed [c] c
  | short {d c : Char} (h : (d, c) ∈ shortEscapes) : Piece signed ['\\', d] c
  | code {sign digits : List Char} {c : Char} (hsign : sign = [] ∨ signed = true ∧ sign = ['+'])
      (h : NamesChar digits c) :
      Piece signed (['\\', 'u', '\x7b'] ++ sign ++ digits ++ ['\x7d']) c

/-- What the inside of a string stands for: what its pieces stand for, in order. -/
inductive Denotes (signed : Bool) : List Char → List Char → Prop where
  | nil : Denotes signed [] []
  | cons {piece rest value : List Char} {c : Char} (first : Piece signed piece c)
      (others : Denotes signed rest value) : Denotes signed (piece ++ rest) (c :: value)

/-! ### Digits -/

instance (c : Char) (value : Nat) : Decidable (IsHexDigit c value) :=
  inferInstanceAs (Decidable (_ ∨ _))

theorem toNat_lt_of_hexDigitValue? {c : Char} {value : Nat} (h : hexDigitValue? c = some value) :
    c.toNat < 128 := by
  have hle : ∀ d : Char, c ≤ d → c.toNat ≤ d.toNat := fun d hd => UInt32.le_iff_toNat_le.mp hd
  simp only [hexDigitValue?] at h
  split at h
  · rename_i hc
    exact Nat.lt_of_le_of_lt (hle _ hc.2) (by decide)
  · split at h
    · rename_i hc
      exact Nat.lt_of_le_of_lt (hle _ hc.2) (by decide)
    · split at h
      · rename_i hc
        exact Nat.lt_of_le_of_lt (hle _ hc.2) (by decide)
      · cases h

/-- The values of digits are computed from codes and specified by the two rows of digits. All codes
are below 128, so comparing the two there is enough. -/
theorem hexDigitValue?_eq_some_iff {c : Char} {value : Nat} :
    hexDigitValue? c = some value ↔ IsHexDigit c value := by
  constructor
  · intro h
    have hdigits : ∀ n < 128, ∀ v ∈ (hexDigitValue? (Char.ofNat n)).toList,
        IsHexDigit (Char.ofNat n) v := by decide
    have hc := hdigits c.toNat (toNat_lt_of_hexDigitValue? h)
    rw [Char.ofNat_toNat] at hc
    exact hc value (by simp [h])
  · intro h
    have hlt : value < 16 := by
      rcases h with h | h <;> exact (List.getElem?_eq_some_iff.mp h).choose
    have hdigits : ∀ v < 16, ("0123456789abcdef".toList[v]?.toList ++
        "0123456789ABCDEF".toList[v]?.toList).all (fun d => hexDigitValue? d = some v) = true := by
      decide
    have hmem : c ∈ "0123456789abcdef".toList[value]?.toList ++
        "0123456789ABCDEF".toList[value]?.toList := by
      rw [List.mem_append, Option.mem_toList, Option.mem_toList]
      exact h
    exact of_decide_eq_true (List.all_eq_true.mp (hdigits value hlt) c hmem)

/-- The number that digits make up behind others that made up a number. -/
theorem foldlM_hexDigitValue? (digits : List Char) (front number : Nat) :
    digits.foldlM (fun n c => (hexDigitValue? c).map fun d => n * 16 + d) front = some number ↔
      ∃ values, List.Forall₂ IsHexDigit digits values ∧
        values.foldl (fun n d => n * 16 + d) front = number := by
  induction digits generalizing front with
  | nil => simp [eq_comm]
  | cons c digits ih =>
    simp only [List.foldlM_cons, Option.bind_eq_bind, Option.bind_eq_some_iff,
      Option.map_eq_some_iff, hexDigitValue?_eq_some_iff]
    constructor
    · rintro ⟨_, ⟨value, hvalue, rfl⟩, hrest⟩
      obtain ⟨values, hvalues, hnumber⟩ := (ih _).mp hrest
      exact ⟨value :: values, .cons hvalue hvalues, hnumber⟩
    · rintro ⟨_, hvalues, hnumber⟩
      cases hvalues with
      | cons hvalue hvalues => exact ⟨_, ⟨_, hvalue, rfl⟩, (ih _).mpr ⟨_, hvalues, hnumber⟩⟩

/-- Reading digits from the left gives the number that they are written for from the right. -/
theorem ofDigits_reverse (values : List Nat) :
    Nat.ofDigits 16 values.reverse = values.foldl (fun n d => n * 16 + d) 0 := by
  rw [Nat.ofDigits_eq_foldr, List.foldr_reverse]
  congr 1
  funext n d
  simp only [Nat.cast_id]
  omega

/-- A code is the code of one character at most; numbers that are no code stand for none. -/
theorem charOfCode?_eq_some_iff {n : Nat} {c : Char} : charOfCode? n = some c ↔ n = c.toNat := by
  rw [charOfCode?]
  constructor
  · intro h
    split at h
    · rename_i hvalid
      obtain rfl := Option.some.inj h
      rw [Char.ofNat, dif_pos hvalid]
      rfl
    · cases h
  · rintro rfl
    rw [if_pos (show c.toNat.isValidChar from c.valid), Char.ofNat_toNat]

/-- Digits stand for a character exactly if they name it. -/
theorem bind_hexNumber? {digits : List Char} {c : Char} :
    (hexNumber? digits).bind charOfCode? = some c ↔ NamesChar digits c := by
  rw [hexNumber?, NamesChar]
  by_cases hnil : digits = []
  · simp [hnil]
  · simp only [List.isEmpty_iff, hnil, if_false, Option.bind_eq_some_iff, foldlM_hexDigitValue?,
      charOfCode?_eq_some_iff, ofDigits_reverse, ne_eq, not_false_eq_true, true_and]
    constructor
    · rintro ⟨_, ⟨values, hvalues, rfl⟩, hc⟩
      exact ⟨values, hvalues, hc⟩
    · rintro ⟨values, hvalues, hc⟩
      exact ⟨_, ⟨values, hvalues, rfl⟩, hc⟩

/-- So the braces close at the first brace. -/
theorem ne_closing_of_isHexDigit {c : Char} {value : Nat} (h : IsHexDigit c value) :
    c ≠ '\x7d' := by
  rintro rfl
  rw [← hexDigitValue?_eq_some_iff] at h
  cases h

theorem ne_plus_of_isHexDigit {c : Char} {value : Nat} (h : IsHexDigit c value) : c ≠ '+' := by
  rintro rfl
  rw [← hexDigitValue?_eq_some_iff] at h
  cases h

theorem NamesChar.exists_digit {digits : List Char} {c d : Char} (h : NamesChar digits c)
    (hd : d ∈ digits) : ∃ value, IsHexDigit d value := by
  obtain ⟨-, values, hvalues, -⟩ := h
  induction hvalues with
  | nil => cases hd
  | cons first _ ih =>
    rcases List.mem_cons.mp hd with rfl | hd
    · exact ⟨_, first⟩
    · exact ih hd

/-! ### Codes in braces -/

/-- The digits of a code, without their sign. -/
def withoutSign : List Char → List Char
  | '+' :: digits => digits
  | digits => digits

theorem withoutSign_of_ne {d : Char} {digits : List Char} (h : d ≠ '+') :
    withoutSign (d :: digits) = d :: digits := by
  rw [withoutSign]
  intro _ heq
  exact h (List.cons.inj heq).1

/-- A sign is taken away from digits at most once, since no digit is a sign. -/
theorem withoutSign_append {sign digits : List Char} {c : Char} (hsign : sign = [] ∨ sign = ['+'])
    (h : NamesChar digits c) : withoutSign (sign ++ digits) = digits := by
  rcases hsign with rfl | rfl
  · cases digits with
    | nil => rfl
    | cons d digits =>
      obtain ⟨value, hvalue⟩ := h.exists_digit (List.mem_cons_self ..)
      exact withoutSign_of_ne (ne_plus_of_isHexDigit hvalue)
  · rfl

/-- What stands in braces is a row with at most one sign before it. -/
theorem exists_sign (inside : List Char) :
    ∃ sign, (sign = [] ∨ sign = ['+']) ∧ inside = sign ++ withoutSign inside := by
  cases inside with
  | nil => exact ⟨[], .inl rfl, rfl⟩
  | cons d digits =>
    by_cases hd : d = '+'
    · subst hd
      exact ⟨['+'], .inr rfl, rfl⟩
    · exact ⟨[], .inl rfl, (withoutSign_of_ne hd).symm⟩

/-- A code in braces is read if it is there: digits that name a character, maybe signed. -/
theorem bracedChar?_eq_some_iff {cs rest : List Char} {c : Char} :
    bracedChar? cs = some (c, rest) ↔ ∃ sign digits, (sign = [] ∨ sign = ['+']) ∧
      NamesChar digits c ∧ cs = '\x7b' :: (sign ++ digits ++ '\x7d' :: rest) := by
  constructor
  · intro h
    unfold bracedChar? at h
    split at h
    · split at h
      · rename_i _ cs _ inside rest' hspan
        have happend := spanChars_append (fun c => c ≠ '\x7d') cs
        rw [hspan] at happend
        change ((hexNumber? (withoutSign inside)).bind fun n => (charOfCode? n).bind fun c =>
          some (c, rest')) = some (c, rest) at h
        obtain ⟨n, hn, h⟩ := Option.bind_eq_some_iff.mp h
        obtain ⟨c', hc, h⟩ := Option.bind_eq_some_iff.mp h
        obtain ⟨rfl, rfl⟩ := Prod.mk.inj (Option.some.inj h)
        obtain ⟨sign, hsign, hinside⟩ := exists_sign inside
        refine ⟨sign, withoutSign inside, hsign, bind_hexNumber?.mp ?_, ?_⟩
        · simp [hn, hc]
        · rw [← hinside, ← happend]
      · cases h
    · cases h
  · rintro ⟨sign, digits, hsign, h, rfl⟩
    have hall : (sign ++ digits).all (fun c => c ≠ '\x7d') = true := by
      simp only [List.all_eq_true, List.mem_append, decide_eq_true_eq]
      rintro d (hd | hd)
      · rcases hsign with rfl | rfl
        · cases hd
        · rw [List.mem_singleton.mp hd]
          decide
      · obtain ⟨value, hvalue⟩ := h.exists_digit hd
        exact ne_closing_of_isHexDigit hvalue
    rw [bracedChar?, spanChars_of_all hall (by decide)]
    change ((hexNumber? (withoutSign (sign ++ digits))).bind fun n => (charOfCode? n).bind fun c =>
      some (c, rest)) = some (c, rest)
    obtain ⟨n, hn, hc⟩ := Option.bind_eq_some_iff.mp (bind_hexNumber?.mpr h)
    rw [withoutSign_append hsign h, hn, Option.bind_some, hc, Option.bind_some]

/-! ### One piece at a time -/

/-- The letters behind a backslash are those of the table, each once. -/
theorem escaped?_eq_some_iff {d c : Char} : escaped? d = some c ↔ (d, c) ∈ shortEscapes := by
  constructor
  · intro h
    unfold escaped? at h
    repeat' split at h
    all_goals first
      | (rename_i hd; subst hd; cases h; decide)
      | cases h
  · intro h
    have hall : ∀ entry ∈ shortEscapes, escaped? entry.1 = some entry.2 := by decide
    exact hall _ h

theorem ne_u_of_mem_shortEscapes {d c : Char} (h : (d, c) ∈ shortEscapes) : d ≠ 'u' := by
  have hall : ∀ entry ∈ shortEscapes, entry.1 ≠ 'u' := by decide
  exact hall _ h

/-- A code in braces is resolved in one step, whatever the offset. -/
theorem unescapeFrom_of_code {cs rest : List Char} {c : Char}
    (h : bracedChar? cs = some (c, rest)) (fuel offset : Nat) :
    unescapeFrom (fuel + 1) offset ('\\' :: 'u' :: cs) =
      (unescapeFrom fuel (offset + 2 + (byteLength cs - byteLength rest)) rest).map (c :: ·) := by
  rw [unescapeFrom, h]

/-- **A step resolves a piece.** The offset moves on by the length of the piece. -/
theorem unescapeFrom_of_piece {piece : List Char} {c : Char} (h : Piece true piece c)
    (fuel offset : Nat) (rest : List Char) : unescapeFrom (fuel + 1) offset (piece ++ rest) =
      (unescapeFrom fuel (offset + byteLength piece) rest).map (c :: ·) := by
  cases h with
  | plain h => exact unescapeFrom_of_plain h fuel offset rest
  | @short d c h =>
    have hd : byteLength ['\\', d] = 2 := by
      have hall : ∀ entry ∈ shortEscapes, byteLength ['\\', entry.1] = 2 := by decide
      exact hall _ h
    rw [hd]
    exact unescapeFrom_of_pair (ne_u_of_mem_shortEscapes h) (escaped?_eq_some_iff.mpr h) fuel offset
      rest
  | @code sign digits c hsign h =>
    have hbraced : bracedChar? ('\x7b' :: (sign ++ digits ++ '\x7d' :: rest)) = some (c, rest) :=
      bracedChar?_eq_some_iff.mpr ⟨sign, digits, hsign.imp_right And.right, h, rfl⟩
    have hcode := unescapeFrom_of_code hbraced fuel offset
    simp only [List.append_assoc, List.cons_append, List.nil_append] at hcode ⊢
    have hsizes : '\\'.utf8Size = 1 ∧ 'u'.utf8Size = 1 := by decide
    have hlength : offset + 2 + (byteLength ('\x7b' :: (sign ++ (digits ++ '\x7d' :: rest))) -
        byteLength rest) =
          offset + byteLength ('\\' :: 'u' :: '\x7b' :: (sign ++ (digits ++ ['\x7d']))) := by
      simp only [byteLength_cons, byteLength_append, byteLength_nil, hsizes]
      omega
    rw [hcode, hlength]

/-- **Where no piece stands, a backslash is reported.** -/
theorem exists_piece_or_bad {cs : List Char} (h : cs ≠ []) :
    (∃ piece rest c, cs = piece ++ rest ∧ Piece true piece c) ∨
      ∃ bad rest, cs = '\\' :: bad ++ rest ∧ ∀ fuel offset,
        unescapeFrom (fuel + 1) offset cs = .error ⟨offset, byteLength ('\\' :: bad)⟩ := by
  cases cs with
  | nil => exact absurd rfl h
  | cons c cs =>
    by_cases hback : c = '\\'
    · subst hback
      cases cs with
      | nil => exact .inr ⟨[], [], rfl, fun _ _ => rfl⟩
      | cons d cs =>
        by_cases hu : d = 'u'
        · subst hu
          cases hbraced : bracedChar? cs with
          | some found =>
            obtain ⟨c, rest⟩ := found
            obtain ⟨sign, digits, hsign, hnames, rfl⟩ := bracedChar?_eq_some_iff.mp hbraced
            refine .inl ⟨_, rest, c, ?_, .code (hsign.imp_right fun h => ⟨rfl, h⟩) hnames⟩
            simp
          | none =>
            refine .inr ⟨['u'], cs, rfl, fun fuel offset => ?_⟩
            rw [unescapeFrom, hbraced]
            rfl
        · cases hescaped : escaped? d with
          | some c => exact .inl ⟨['\\', d], cs, c, rfl, .short (escaped?_eq_some_iff.mp hescaped)⟩
          | none =>
            refine .inr ⟨[d], cs, rfl, fun fuel offset => ?_⟩
            rw [unescapeFrom]
            · rw [hescaped]
              rfl
            · exact hu
    · exact .inl ⟨[c], cs, c, rfl, .plain hback⟩

/-! ### Whole strings -/

variable {signed : Bool} {fuel offset : Nat} {cs front value : List Char} {bad : BadEscape}

theorem Piece.ne_nil {piece : List Char} {c : Char} (h : Piece signed piece c) : piece ≠ [] := by
  cases h <;> simp

/-- A beginning that denotes something is resolved, and then what is behind it. -/
theorem unescapeFrom_append (h : Denotes true front value) (rest : List Char)
    (hfuel : (front ++ rest).length ≤ fuel) (offset : Nat) :
    ∃ left, rest.length ≤ left ∧ unescapeFrom fuel offset (front ++ rest) =
      (unescapeFrom left (offset + byteLength front) rest).map (value ++ ·) := by
  induction h generalizing fuel offset with
  | nil =>
    refine ⟨fuel, hfuel, ?_⟩
    simp only [List.nil_append, byteLength_nil, Nat.add_zero]
    cases unescapeFrom fuel offset rest <;> rfl
  | @cons piece others value c first _ ih =>
    have hpiece := List.length_pos_of_ne_nil first.ne_nil
    rw [List.append_assoc] at hfuel ⊢
    rw [List.length_append] at hfuel
    obtain ⟨fuel, rfl⟩ : ∃ less, fuel = less + 1 := ⟨fuel - 1, by omega⟩
    have hless : (others ++ rest).length ≤ fuel := by omega
    obtain ⟨left, hleft, hrest⟩ := ih hless (offset + byteLength piece)
    refine ⟨left, hleft, ?_⟩
    rw [unescapeFrom_of_piece first, hrest, byteLength_append, Nat.add_assoc]
    cases unescapeFrom left (offset + (byteLength piece + byteLength others)) rest <;> rfl

/-- What denotes a text is resolved to it, piece after piece. -/
theorem unescape_of_denotes (h : Denotes true cs value) : unescape cs = .ok value := by
  obtain ⟨left, -, hrun⟩ := unescapeFrom_append h [] (Nat.le_refl _) 0
  rw [List.append_nil] at hrun
  rw [unescape, hrun]
  cases left <;> simp [unescapeFrom, Except.map]

/-- What is resolved is what the string denotes. -/
theorem denotes_of_unescapeFrom (hfuel : cs.length ≤ fuel)
    (h : unescapeFrom fuel offset cs = .ok value) : Denotes true cs value := by
  induction fuel generalizing cs offset value with
  | zero =>
    obtain rfl := List.length_eq_zero_iff.mp (Nat.le_zero.mp hfuel)
    cases h
    exact .nil
  | succ fuel ih =>
    by_cases hnil : cs = []
    · subst hnil
      cases h
      exact .nil
    rcases exists_piece_or_bad hnil with ⟨piece, rest, c, rfl, hpiece⟩ | ⟨bad, rest, -, hbad⟩
    · have hpos := List.length_pos_of_ne_nil hpiece.ne_nil
      rw [List.length_append] at hfuel
      rw [unescapeFrom_of_piece hpiece] at h
      obtain ⟨value, hvalue, rfl⟩ := map_eq_ok.mp h
      exact .cons hpiece (ih (by omega) hvalue)
    · rw [hbad] at h
      cases h

/-- A malformed escape is reported with the place behind a beginning that denotes something. -/
theorem exists_of_unescapeFrom_error (hfuel : cs.length ≤ fuel)
    (h : unescapeFrom fuel offset cs = .error bad) :
    ∃ front escape rest value, cs = front ++ ('\\' :: escape ++ rest) ∧ Denotes true front value ∧
      bad = ⟨offset + byteLength front, byteLength ('\\' :: escape)⟩ := by
  induction fuel generalizing cs offset with
  | zero => cases h
  | succ fuel ih =>
    by_cases hnil : cs = []
    · subst hnil
      cases h
    rcases exists_piece_or_bad hnil with ⟨piece, rest, c, rfl, hpiece⟩ | ⟨escape, rest, hcs, hbad⟩
    · have hpos := List.length_pos_of_ne_nil hpiece.ne_nil
      rw [List.length_append] at hfuel
      rw [unescapeFrom_of_piece hpiece] at h
      cases hrest : unescapeFrom fuel (offset + byteLength piece) rest with
      | ok value =>
        rw [hrest] at h
        cases h
      | error found =>
        rw [hrest] at h
        obtain rfl := Except.error.inj h
        obtain ⟨front, escape, back, value, rfl, hfront, rfl⟩ := ih (by omega) hrest
        refine ⟨piece ++ front, escape, back, c :: value, ?_, .cons hpiece hfront, ?_⟩
        · rw [List.append_assoc]
        · rw [byteLength_append, Nat.add_assoc]
    · rw [hbad] at h
      obtain rfl := Except.error.inj h
      exact ⟨[], escape, rest, [], hcs, .nil, rfl⟩

/-- Offsets grow, so what is reported stands behind all that was resolved. -/
theorem offset_le_of_unescapeFrom_error (hfuel : cs.length ≤ fuel)
    (h : unescapeFrom fuel offset cs = .error bad) : offset ≤ bad.offset := by
  obtain ⟨front, escape, rest, value, -, -, rfl⟩ := exists_of_unescapeFrom_error hfuel h
  exact Nat.le_add_right ..

/-! ### Signs -/

/-- What opens a code with a sign. -/
def signedOpening : List Char := ['\\', 'u', '\x7b', '+']

/-- Without signs there are fewer pieces. -/
theorem Piece.allowSigns {piece : List Char} {c : Char} (h : Piece signed piece c) :
    Piece true piece c := by
  cases h with
  | plain h => exact .plain h
  | short h => exact .short h
  | code hsign h => exact .code (hsign.imp_right fun hsign => ⟨rfl, hsign.2⟩) h

/-- A piece with no sign in it is one whether signs are allowed or not. -/
theorem Piece.of_unsigned {piece : List Char} {c : Char} (h : Piece true piece c)
    (hpiece : ¬signedOpening <:+: piece) : Piece signed piece c := by
  cases h with
  | plain h => exact .plain h
  | short h => exact .short h
  | @code sign digits c hsign h =>
    refine .code (hsign.imp_right fun hplus => ?_) h
    obtain rfl := hplus.2
    exact absurd ⟨[], digits ++ ['\x7d'], by simp [signedOpening]⟩ hpiece

/-- **The two ways to read a string differ in signs only.** -/
theorem denotes_iff_of_unsigned (h : signed = true ∨ ¬signedOpening <:+: cs) :
    Denotes true cs value ↔ Denotes signed cs value := by
  constructor
  · intro hdenotes
    rcases h with rfl | h
    · exact hdenotes
    · induction hdenotes with
      | nil => exact .nil
      | @cons piece others value c first _ ih =>
        apply Denotes.cons
        · exact first.of_unsigned fun hinside => h (hinside.trans (List.infix_append' [] piece others))
        · exact ih fun hinside => h (hinside.trans (List.suffix_append piece others).isInfix)
  · intro hdenotes
    induction hdenotes with
    | nil => exact .nil
    | @cons piece others value c first _ ih =>
      apply Denotes.cons first.allowSigns
      apply ih
      exact h.imp_right fun h hinside => h (hinside.trans (List.suffix_append piece others).isInfix)

/-- Whether a malformed escape is where a string stops denoting something: with a backslash behind
the longest beginning that denotes something. The escape does not reach beyond the string. -/
structure BadEscape.Stops (signed : Bool) (bad : BadEscape) (cs : List Char) : Prop where
  placed : ∃ front escape rest value, cs = front ++ ('\\' :: escape ++ rest) ∧
    Denotes signed front value ∧ bad = ⟨byteLength front, byteLength ('\\' :: escape)⟩
  longest : ∀ front rest value, cs = front ++ rest → Denotes signed front value →
    byteLength front ≤ bad.offset

/-- **Unescaping is exact.** A string is resolved to what it denotes; if it denotes nothing, the
escape at which it stops doing so is reported. Codes may have a plus sign. Where no code has one,
it makes no difference whether they may. -/
theorem unescape_exact (body : List Char) (signed : Bool)
    (hsigns : signed = true ∨ ¬signedOpening <:+: body) :
    (∀ value, unescape body = .ok value ↔ Denotes signed body value) ∧
      ∀ bad, unescape body = .error bad → bad.Stops signed body := by
  have hiff : ∀ front rest value, body = front ++ rest →
      (Denotes true front value ↔ Denotes signed front value) := by
    intro front rest value hbody
    apply denotes_iff_of_unsigned
    apply hsigns.imp_right
    intro h hinside
    apply h
    rw [hbody]
    exact hinside.trans (List.prefix_append front rest).isInfix
  constructor
  · intro value
    rw [← hiff body [] value (List.append_nil body).symm]
    exact ⟨denotes_of_unescapeFrom (Nat.le_refl _), unescape_of_denotes⟩
  · intro bad hbad
    constructor
    · obtain ⟨front, escape, rest, value, hbody, hfront, hplace⟩ :=
        exists_of_unescapeFrom_error (Nat.le_refl _) hbad
      refine ⟨front, escape, rest, value, hbody, (hiff _ _ _ hbody).mp hfront, ?_⟩
      rw [hplace, Nat.zero_add]
    · intro front rest value hbody hfront
      have hfront := (hiff _ _ _ hbody).mpr hfront
      subst hbody
      obtain ⟨left, hleft, hrun⟩ := unescapeFrom_append hfront rest (Nat.le_refl _) 0
      rw [unescape, hrun, Nat.zero_add] at hbad
      cases hrest : unescapeFrom left (byteLength front) rest with
      | ok value =>
        rw [hrest] at hbad
        cases hbad
      | error found =>
        rw [hrest] at hbad
        obtain rfl := Except.error.inj hbad
        exact offset_le_of_unescapeFrom_error hleft hrest

/-- Behind a code in braces a letter that no escape has is reported. -/
theorem unescape_exact_braces :
    ¬signedOpening <:+: "\\u\x7b41\x7d\\q".toList ∧
      (BadEscape.mk 6 2).Stops false "\\u\x7b41\x7d\\q".toList := by
  have hsigns : ¬signedOpening <:+: "\\u\x7b41\x7d\\q".toList := by decide +kernel
  have hbad : unescape "\\u\x7b41\x7d\\q".toList = .error ⟨6, 2⟩ := by decide +kernel
  exact ⟨hsigns, (unescape_exact _ false (.inr hsigns)).2 _ hbad⟩

/-- A code with a plus sign is resolved all the same. -/
theorem not_denotes_plus : unescape "\\u\x7b+41\x7d".toList = .ok ['A'] ∧
    ¬∃ value, Denotes false "\\u\x7b+41\x7d".toList value := by
  refine ⟨by decide +kernel, ?_⟩
  rintro ⟨value, h⟩
  generalize hbody : "\\u\x7b+41\x7d".toList = body at h
  cases h with
  | nil => cases hbody
  | cons first _ =>
    cases first with
    | plain h => exact h (List.cons.inj hbody).1.symm
    | short h => exact ne_u_of_mem_shortEscapes h (List.cons.inj (List.cons.inj hbody).2).1.symm
    | @code sign digits c hsign h =>
      obtain rfl : sign = [] := hsign.resolve_right fun hplus => Bool.false_ne_true hplus.1
      cases digits with
      | nil => exact h.1 rfl
      | cons d digits =>
        -- the plus sign would have to be the first digit
        obtain ⟨value, hvalue⟩ := h.exists_digit (List.mem_cons_self ..)
        have hplus : '+' = d := by
          simp only [List.append_nil, List.cons_append, List.nil_append] at hbody
          exact (List.cons.inj (List.cons.inj (List.cons.inj (List.cons.inj hbody).2).2).2).1
        exact ne_plus_of_isHexDigit hvalue hplus.symm

end LRWorkbench.GrammarText
