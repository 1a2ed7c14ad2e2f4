import LRWorkbench.Json.Reader
import Mathlib.Data.Nat.Notation

/-!
# Texts that spell JSON values

`Json.Spells` says when a text spells a value, by the grammar of JSON: blanks may stand between the
parts of lists and objects, and a character may be written plainly or by any of its escapes. It
relates a text to the value at its front and to the text behind that, and says nothing of how values
are read.

A text that spells a value is read as that value, if its lists and objects nest less deep than the
reader allows (`Json.read?_of_isDocument`). Each step of the reader takes a character or more, but
for those into a list or an object, so that two steps for each character are enough.
-/

namespace LRWorkbench.Json

-- The equations of the readers are made here, once, before the many lemmas below that ask for them.
attribute [local simp] readValue readItems readMembers readText readKeptMembers

/-! ### The grammar -/

/-- Whether a text is some blanks and then another text. -/
inductive Blanks : List Char → List Char → Prop
  | nil {cs} : Blanks cs cs
  | cons {c cs rest} (h : c = ' ' ∨ c = '\n' ∨ c = '\t' ∨ c = '\r') (hcs : Blanks cs rest) :
    Blanks (c :: cs) rest

/-- Whether a text goes on with some characters between quotes, up to the closing quote. -/
inductive SpellsInside : List Char → List Char → List Char → Prop
  | close {rest} : SpellsInside ('"' :: rest) [] rest
  | plain {c cs s rest} (hquote : c ≠ '"') (hback : c ≠ '\\') (hcontrol : 32 ≤ c.toNat)
    (hcs : SpellsInside cs s rest) : SpellsInside (c :: cs) (c :: s) rest
  | short {e c cs s rest} (h : shortEscape? e = some c) (hcs : SpellsInside cs s rest) :
    SpellsInside ('\\' :: e :: cs) (c :: s) rest
  | unicode {a b c d n cs s rest} (h : hexQuad? a b c d = some n) (hn : n < 0xD800 ∨ 0xDFFF < n)
    (hcs : SpellsInside cs s rest) :
    SpellsInside ('\\' :: 'u' :: a :: b :: c :: d :: cs) (Char.ofNat n :: s) rest
  /-- Characters beyond the numbers of four digits are escaped by two surrogates. -/
  | surrogates {a b c d n a' b' c' d' n' cs s rest} (h : hexQuad? a b c d = some n)
    (hn : 0xD800 ≤ n ∧ n ≤ 0xDBFF) (h' : hexQuad? a' b' c' d' = some n')
    (hn' : 0xDC00 ≤ n' ∧ n' ≤ 0xDFFF) (hcs : SpellsInside cs s rest) :
    SpellsInside ('\\' :: 'u' :: a :: b :: c :: d :: '\\' :: 'u' :: a' :: b' :: c' :: d' :: cs)
      (Char.ofNat (0x10000 + (n - 0xD800) * 0x400 + (n' - 0xDC00)) :: s) rest

/-- Whether some digits are a whole number. -/
structure IsWhole (ds : List Char) : Prop where
  ne_nil : ds ≠ []
  digits : ∀ c ∈ ds, '0' ≤ c ∧ c ≤ '9'
  zero : ds.head? = some '0' → ds.length = 1

/-- Whether a whole number may end before a text. -/
def EndsNumber (rest : List Char) : Prop :=
  ∀ c ∈ rest.head?, ¬('0' ≤ c ∧ c ≤ '9') ∧ c ≠ '.' ∧ c ≠ 'e' ∧ c ≠ 'E'

/-- What a text may begin with. -/
inductive Part where
  | value (v : Json)
  /-- The items of a list, with its closing bracket. -/
  | items (vs : List Json)
  /-- The members of an object, with its closing brace. -/
  | members (ms : List (String × Json))
  | member (name : String) (v : Json)

/-- Whether a text begins with a part and goes on with another text. Numbers are integers of at most 64
bits here. -/
inductive Spells : List Char → Part → List Char → Prop
  | null {rest} : Spells ('n' :: 'u' :: 'l' :: 'l' :: rest) (.value .null) rest
  | yes {rest} : Spells ('t' :: 'r' :: 'u' :: 'e' :: rest) (.value (.bool true)) rest
  | no {rest} : Spells ('f' :: 'a' :: 'l' :: 's' :: 'e' :: rest) (.value (.bool false)) rest
  | natural {ds rest} (hds : IsWhole ds) (hlt : digitsValue ds < 0x10000000000000000)
    (hrest : EndsNumber rest) : Spells (ds ++ rest) (.value (.int (digitsValue ds))) rest
  | negative {ds rest} (hds : IsWhole ds) (hpos : 0 < digitsValue ds)
    (hle : digitsValue ds ≤ 0x8000000000000000) (hrest : EndsNumber rest) :
    Spells ('-' :: (ds ++ rest)) (.value (.int (-(digitsValue ds : Int)))) rest
  | text {cs s rest} (h : SpellsInside cs s rest) :
    Spells ('"' :: cs) (.value (.text (String.ofList s))) rest
  | nil {cs rest} (h : Blanks cs (']' :: rest)) : Spells ('[' :: cs) (.value (.list [])) rest
  | list {cs items rest} (h : Spells cs (.items items) rest) :
    Spells ('[' :: cs) (.value (.list items)) rest
  | empty {cs rest} (h : Blanks cs ('\x7d' :: rest)) :
    Spells ('\x7b' :: cs) (.value (.object [])) rest
  | object {cs members rest} (h : Spells cs (.members members) rest) :
    Spells ('\x7b' :: cs) (.value (.object members)) rest
  | lastItem {cs cs' v behind rest} (hbefore : Blanks cs cs') (hv : Spells cs' (.value v) behind)
    (hbehind : Blanks behind (']' :: rest)) : Spells cs (.items [v]) rest
  | consItem {cs cs' v behind more items rest} (hbefore : Blanks cs cs')
    (hv : Spells cs' (.value v) behind) (hbehind : Blanks behind (',' :: more))
    (hmore : Spells more (.items items) rest) : Spells cs (.items (v :: items)) rest
  | lastMember {cs name v behind rest} (h : Spells cs (.member name v) behind)
    (hbehind : Blanks behind ('\x7d' :: rest)) : Spells cs (.members [(name, v)]) rest
  | consMember {cs name v behind more members rest} (h : Spells cs (.member name v) behind)
    (hbehind : Blanks behind (',' :: more)) (hmore : Spells more (.members members) rest) :
    Spells cs (.members ((name, v) :: members)) rest
  | member {cs cs' s colon behind value v rest} (hbefore : Blanks cs ('"' :: cs'))
    (hname : SpellsInside cs' s colon) (hcolon : Blanks colon (':' :: behind))
    (hbehind : Blanks behind value) (hv : Spells value (.value v) rest) :
    Spells cs (.member (String.ofList s) v) rest

/-- Whether a whole text is a value, with blanks around it. -/
inductive IsDocument (v : Json) : List Char → Prop
  | mk {cs cs' rest} (hbefore : Blanks cs cs') (hv : Spells cs' (.value v) rest)
    (hrest : Blanks rest []) : IsDocument v cs

mutual

/-- How many lists and objects are open at once in a value. -/
def nesting : Json → Nat
  | list items => nestingOf items + 1
  | object members => nestingOfMembers members + 1
  | null | bool _ | int _ | real | text _ => 0

/-- How many lists and objects are open at once in some values. -/
def nestingOf : List Json → Nat
  | [] => 0
  | v :: vs => max (nesting v) (nestingOf vs)

/-- How many lists and objects are open at once in the values of some members. -/
def nestingOfMembers : List (String × Json) → Nat
  | [] => 0
  | (_, v) :: members => max (nesting v) (nestingOfMembers members)

end

/-- How many lists and objects are open at once in a part. -/
def Part.nesting : Part → Nat
  | value v | member _ v => v.nesting
  | items vs => nestingOf vs
  | members ms => nestingOfMembers ms

/-! ### Progress -/

variable {cs rest behind : List Char} {s : List Char} {v : Json}

/-- Blanks leave no more than there was. -/
theorem Blanks.length_le (h : Blanks cs rest) : rest.length ≤ cs.length := by
  induction h with
  | nil => exact Nat.le_refl _
  | cons _ _ ih => exact Nat.le_succ_of_le ih

/-- The inside of a string takes its closing quote at least. -/
theorem SpellsInside.length_lt (h : SpellsInside cs s rest) : rest.length < cs.length := by
  induction h with
  | close => exact Nat.lt_succ_self _
  | plain _ _ _ _ ih => exact Nat.lt_succ_of_lt ih
  | short _ _ ih | unicode _ _ _ ih | surrogates _ _ _ _ _ ih =>
    simp only [List.length_cons]
    omega

/-- Blanks are dropped before anything else. -/
theorem Blanks.skipBlanks_eq (h : Blanks cs rest) : skipBlanks cs = skipBlanks rest := by
  induction h with
  | nil => rfl
  | cons hblank _ ih => rw [skipBlanks, if_pos hblank, ih]

/-- What is no blank is not skipped. -/
theorem skipBlanks_cons {c : Char} (h : ¬(c = ' ' ∨ c = '\n' ∨ c = '\t' ∨ c = '\r'))
    (cs : List Char) : skipBlanks (c :: cs) = c :: cs := by
  rw [skipBlanks, if_neg h]

/-- What stands behind blanks is seen when they are dropped. -/
theorem Blanks.skipBlanks_cons {c : Char} (h : Blanks cs (c :: rest))
    (hc : ¬(c = ' ' ∨ c = '\n' ∨ c = '\t' ∨ c = '\r')) : skipBlanks cs = c :: rest := by
  rw [h.skipBlanks_eq, Json.skipBlanks_cons hc]

/-! ### Texts -/

/-- A character that needs no escape is read as it is. -/
theorem readPiece_plain {c : Char} (hquote : c ≠ '"') (hback : c ≠ '\\') (hcontrol : 32 ≤ c.toNat) :
    readPiece true (c :: cs) = some (.char c, cs) := by
  unfold readPiece
  split <;> simp_all

/-- A short escape stands for its character. -/
theorem readPiece_short {e c : Char} (h : shortEscape? e = some c) :
    readPiece true ('\\' :: e :: cs) = some (.char c, cs) := by
  have hu : e ≠ 'u' := by
    rintro rfl
    cases h
  rw [readPiece]
  · rw [h]
    rfl
  · exact fun _ _ _ _ _ heq => absurd heq hu

/-- A code stands for its character, unless it is half of a pair. -/
theorem readPiece_unicode {a b c d : Char} {n : Nat} (h : hexQuad? a b c d = some n)
    (hn : n < 0xD800 ∨ 0xDFFF < n) :
    readPiece true ('\\' :: 'u' :: a :: b :: c :: d :: cs) = some (.char (Char.ofNat n), cs) := by
  have hlow : ¬(0xDC00 ≤ n ∧ n ≤ 0xDFFF) := by omega
  have hhigh : ¬(0xD800 ≤ n ∧ n ≤ 0xDBFF) := by omega
  simp [readPiece, h, hlow, hhigh]

/-- The two halves of a pair stand for one character. -/
theorem readPiece_surrogates {a b c d a' b' c' d' : Char} {n n' : Nat}
    (h : hexQuad? a b c d = some n) (hn : 0xD800 ≤ n ∧ n ≤ 0xDBFF)
    (h' : hexQuad? a' b' c' d' = some n') (hn' : 0xDC00 ≤ n' ∧ n' ≤ 0xDFFF) :
    readPiece true
        ('\\' :: 'u' :: a :: b :: c :: d :: '\\' :: 'u' :: a' :: b' :: c' :: d' :: cs) =
      some (.char (Char.ofNat (0x10000 + (n - 0xD800) * 0x400 + (n' - 0xDC00))), cs) := by
  have hlow : ¬(0xDC00 ≤ n ∧ n ≤ 0xDFFF) := by omega
  simp [readPiece, h, hlow, hn, h', hn']

/-- A character is read and put to those before it. -/
theorem readText_char {c : Char} {more : List Char} {fuel : Nat}
    (hpiece : readPiece true cs = some (.char c, more)) (hlt : more.length < cs.length)
    (hmore : rest.length < more.length) (hfuel : cs.length ≤ rest.length + fuel)
    (ih : ∀ {fuel : Nat} (acc : List Char), more.length ≤ rest.length + fuel →
      readText true fuel acc more = some (String.ofList (acc.reverse ++ s), rest))
    (acc : List Char) :
    readText true fuel acc cs = some (String.ofList (acc.reverse ++ c :: s), rest) := by
  obtain ⟨fuel, rfl⟩ : ∃ n, fuel = n + 1 := ⟨fuel - 1, by omega⟩
  rw [readText, hpiece]
  dsimp only
  rw [ih (c :: acc) (by omega), List.reverse_cons, List.append_assoc]
  rfl

/-- The pieces of a text are read one by one. -/
theorem readText_of_spellsInside (h : SpellsInside cs s rest) {fuel : Nat} (acc : List Char)
    (hfuel : cs.length ≤ rest.length + fuel) :
    readText true fuel acc cs = some (String.ofList (acc.reverse ++ s), rest) := by
  induction h generalizing fuel acc with
  | close =>
    obtain ⟨fuel, rfl⟩ : ∃ n, fuel = n + 1 := ⟨fuel - 1, by rw [List.length_cons] at hfuel; omega⟩
    rw [readText, readPiece, List.append_nil]
  | plain hquote hback hcontrol hcs ih =>
    refine readText_char (readPiece_plain hquote hback hcontrol) ?_ hcs.length_lt hfuel ih acc
    exact Nat.lt_succ_self _
  | short h hcs ih =>
    refine readText_char (readPiece_short h) ?_ hcs.length_lt hfuel ih acc
    simp only [List.length_cons]
    omega
  | unicode h hn hcs ih =>
    refine readText_char (readPiece_unicode h hn) ?_ hcs.length_lt hfuel ih acc
    simp only [List.length_cons]
    omega
  | surrogates h hn h' hn' hcs ih =>
    refine readText_char (readPiece_surrogates h hn h' hn') ?_ hcs.length_lt hfuel ih acc
    simp only [List.length_cons]
    omega

/-! ### Numbers -/

/-- Digits are taken up to where the number ends. -/
theorem takeDigits_append {ds : List Char} (hds : ∀ c ∈ ds, '0' ≤ c ∧ c ≤ '9')
    (hrest : EndsNumber rest) : takeDigits (ds ++ rest) = (ds, rest) := by
  induction ds with
  | nil =>
    cases rest with
    | nil => rfl
    | cons c rest => exact if_neg (hrest c rfl).1
  | cons c ds ih =>
    rw [List.cons_append, takeDigits, if_pos (hds c (List.mem_cons_self ..)),
      ih fun d hd => hds d (List.mem_cons_of_mem _ hd)]

/-- There is no fraction where the number ends. -/
theorem readFraction_of_endsNumber (h : EndsNumber rest) : readFraction rest = some ([], rest) := by
  cases rest with
  | nil => rfl
  | cons c rest =>
    have hpoint := (h c rfl).2.1
    unfold readFraction
    split <;> simp_all

theorem readExponent_of_endsNumber (h : EndsNumber rest) : readExponent rest = some (none, rest) := by
  cases rest with
  | nil => rfl
  | cons c rest =>
    unfold readExponent
    exact if_neg (not_or.mpr (h c rfl).2.2)

/-- A whole number is read as the integer it is. -/
theorem readNumber_of_isWhole {ds : List Char} (hds : IsWhole ds) (hrest : EndsNumber rest)
    (negative : Bool) (hkept : !(negative ∧ digitsValue ds = 0) ∧
      (if negative then digitsValue ds ≤ 0x8000000000000000
        else digitsValue ds < 0x10000000000000000)) :
    readNumber true negative (ds ++ rest) = some
      (.int (if negative then -(digitsValue ds : Int) else digitsValue ds), rest) := by
  have hempty : ¬ds.isEmpty = true := by
    rw [List.isEmpty_iff]
    exact hds.ne_nil
  have hzero : ¬(ds.head? = some '0' ∧ ds.length > 1) := by
    rintro ⟨hhead, hlength⟩
    exact Nat.ne_of_gt hlength (hds.zero hhead)
  rw [readNumber, takeDigits_append hds.digits hrest]
  dsimp only
  rw [if_neg hempty, if_neg hzero, readFraction_of_endsNumber hrest]
  dsimp only [bind, Option.bind, pure]
  rw [readExponent_of_endsNumber hrest]
  dsimp only
  rw [if_pos ⟨rfl, rfl, hkept⟩]

/-! ### Values -/

/-- A whole number begins with a digit. -/
theorem IsWhole.exists_cons {ds : List Char} (h : IsWhole ds) :
    ∃ c more, ds = c :: more ∧ '0' ≤ c ∧ c ≤ '9' := by
  cases ds with
  | nil => exact absurd rfl h.ne_nil
  | cons c more => exact ⟨c, more, rfl, h.digits c (List.mem_cons_self ..)⟩

/-- Every value takes a character at least, so that fuel for the characters is enough. -/
theorem Spells.length_lt {part : Part} (h : Spells cs part rest) : rest.length < cs.length := by
  induction h with
  | null | yes | no =>
    simp only [List.length_cons]
    omega
  | natural hds | negative hds =>
    have hpos := List.length_pos_iff.mpr hds.ne_nil
    simp only [List.length_cons, List.length_append]
    omega
  | text h => exact Nat.lt_succ_of_lt h.length_lt
  | nil h | empty h => exact Nat.lt_succ_of_lt h.length_le
  | list _ ih | object _ ih => exact Nat.lt_succ_of_lt ih
  | lastItem hbefore _ hbehind ih =>
    have hblank := hbefore.length_le
    have hend := hbehind.length_le
    rw [List.length_cons] at hend
    omega
  | consItem hbefore _ hbehind _ ih ihmore =>
    have hblank := hbefore.length_le
    have hcomma := hbehind.length_le
    rw [List.length_cons] at hcomma
    omega
  | lastMember _ hbehind ih =>
    have hend := hbehind.length_le
    rw [List.length_cons] at hend
    omega
  | consMember _ hbehind _ ih ihmore =>
    have hcomma := hbehind.length_le
    rw [List.length_cons] at hcomma
    omega
  | member hbefore hname hcolon hbehind _ ih =>
    have hquote := hbefore.length_le
    have hinside := hname.length_lt
    have hmiddle := hcolon.length_le
    have hblank := hbehind.length_le
    rw [List.length_cons] at hquote hmiddle
    omega

theorem not_blank_of_digit {c : Char} (h : '0' ≤ c) :
    ¬(c = ' ' ∨ c = '\n' ∨ c = '\t' ∨ c = '\r') := by
  rintro (rfl | rfl | rfl | rfl) <;> revert h <;> decide

/-- The first character of a value is no blank and closes nothing. -/
theorem Spells.skipBlanks_value (h : Spells cs (.value v) rest) :
    ∃ c more, skipBlanks cs = c :: more ∧ c ≠ ']' := by
  cases h with
  | natural hds =>
    obtain ⟨c, more, rfl, hlow, hhigh⟩ := hds.exists_cons
    refine ⟨c, _, Json.skipBlanks_cons (not_blank_of_digit hlow) _, ?_⟩
    rintro rfl
    exact absurd hhigh (by decide)
  | null | yes | no | negative | text | nil | list | empty | object =>
    exact ⟨_, _, Json.skipBlanks_cons (by decide) _, by decide⟩

/-- A text that begins with a digit is read as a number. -/
theorem readValue_of_digit {c : Char} (hlow : '0' ≤ c) (hhigh : c ≤ '9') (fuel : Nat) (mode : Mode)
    (cs : List Char) :
    readValue (fuel + 1) mode (c :: cs) = readNumber mode.isKept false (c :: cs) := by
  rw [readValue, skipBlanks_cons (not_blank_of_digit hlow)]
  split
  case h_8 => rfl
  all_goals
    rename_i heq
    obtain ⟨rfl, -⟩ := List.cons.inj heq
    exact absurd (And.intro hlow hhigh) (by decide)

/-- Blanks before a value make no difference. -/
theorem readValue_congr {cs cs' : List Char} (h : skipBlanks cs = skipBlanks cs') (fuel : Nat)
    (mode : Mode) : readValue fuel mode cs = readValue fuel mode cs' := by
  cases fuel with
  | zero => rw [readValue, readValue]
  | succ fuel => rw [readValue, readValue, h]

/-- Blanks before an item do not matter. -/
theorem readItems_congr {cs cs' : List Char} (h : skipBlanks cs = skipBlanks cs') (fuel : Nat)
    (mode : Mode) : readItems fuel mode cs = readItems fuel mode cs' := by
  cases fuel with
  | zero => rw [readItems, readItems]
  | succ fuel => rw [readItems, readItems, readValue_congr h]

theorem readMembers_congr {cs cs' : List Char} (h : skipBlanks cs = skipBlanks cs') (fuel : Nat)
    (mode : Mode) : readMembers fuel mode cs = readMembers fuel mode cs' := by
  cases fuel with
  | zero => rw [readMembers, readMembers]
  | succ fuel => rw [readMembers, readMembers, h]

/-- A value that is kept may hold values as long as there is room for a level more. -/
theorem enter?_keep {room : Nat} (h : 1 < room) : (Mode.keep room).enter? = some (.keep (room - 1)) :=
  if_neg (Nat.not_lt.mpr h)

/-- Blanks are skipped at once. -/
theorem skipBlanks_skipBlanks (cs : List Char) : skipBlanks (skipBlanks cs) = skipBlanks cs := by
  induction cs with
  | nil => rfl
  | cons c cs ih =>
    by_cases h : c = ' ' ∨ c = '\n' ∨ c = '\t' ∨ c = '\r'
    · rw [skipBlanks, if_pos h, ih]
    · rw [skipBlanks_cons h, skipBlanks_cons h]

/-- The first character says what a value is. -/
theorem readValue_quote (fuel : Nat) (mode : Mode) (cs : List Char) :
    readValue (fuel + 1) mode ('"' :: cs) =
      (readText mode.isKept fuel [] cs).map fun (s, rest) => (.text s, rest) := by
  rfl

theorem readValue_nil {fuel : Nat} {mode inner : Mode} (h : mode.enter? = some inner)
    (hend : skipBlanks cs = ']' :: rest) :
    readValue (fuel + 1) mode ('[' :: cs) = some (.list [], rest) := by
  have hopen : skipBlanks ('[' :: cs) = '[' :: cs := skipBlanks_cons (by decide) cs
  simp only [readValue, hopen, h, hend]

/-- A list has items up to its bracket. -/
theorem readValue_list {fuel : Nat} {mode inner : Mode} {c : Char} (h : mode.enter? = some inner)
    (hfirst : skipBlanks cs = c :: rest) (hc : c ≠ ']') :
    readValue (fuel + 1) mode ('[' :: cs) =
      (readItems fuel inner cs).map fun (items, rest) => (.list items, rest) := by
  have hopen : skipBlanks ('[' :: cs) = '[' :: cs := skipBlanks_cons (by decide) cs
  rw [readItems_congr (skipBlanks_skipBlanks cs).symm]
  simp only [readValue, hopen, h, hfirst]
  split
  · rename_i heq
    exact absurd (List.cons.inj heq).1 hc
  · rfl

theorem readValue_empty {fuel : Nat} {mode inner : Mode} (h : mode.enter? = some inner)
    (hend : skipBlanks cs = '\x7d' :: rest) :
    readValue (fuel + 1) mode ('\x7b' :: cs) = some (.object [], rest) := by
  have hopen : skipBlanks ('\x7b' :: cs) = '\x7b' :: cs := skipBlanks_cons (by decide) cs
  simp only [readValue, hopen, h, hend]

/-- An object has members up to its brace. -/
theorem readValue_object {fuel : Nat} {mode inner : Mode} (h : mode.enter? = some inner)
    (hfirst : skipBlanks cs = '"' :: rest) :
    readValue (fuel + 1) mode ('\x7b' :: cs) =
      (readMembers fuel inner cs).map fun (ms, rest) => (.object ms, rest) := by
  have hopen : skipBlanks ('\x7b' :: cs) = '\x7b' :: cs := skipBlanks_cons (by decide) cs
  rw [readMembers_congr (skipBlanks_skipBlanks cs).symm]
  simp only [readValue, hopen, h, hfirst]
  rfl

section

variable {fuel room : Nat} {inside colon value more : List Char} {name : String}

/-- The last item of a list. -/
theorem readItems_last (hv : readValue fuel (.keep room) cs = some (v, behind))
    (hend : skipBlanks behind = ']' :: rest) :
    readItems (fuel + 1) (.keep room) cs = some ([v], rest) := by
  simp only [readItems, hv, hend]

/-- An item with other ones behind it. -/
theorem readItems_comma (hv : readValue fuel (.keep room) cs = some (v, behind))
    (hcomma : skipBlanks behind = ',' :: more) :
    readItems (fuel + 1) (.keep room) cs =
      (readItems fuel (.keep room) more).map fun (items, rest) => (v :: items, rest) := by
  simp only [readItems, hv, hcomma]

/-- The last member of an object. -/
theorem readMembers_last (hquote : skipBlanks cs = '"' :: inside)
    (hname : readText true fuel [] inside = some (name, colon))
    (hcolon : skipBlanks colon = ':' :: value)
    (hv : readValue fuel (.keep room) value = some (v, behind))
    (hend : skipBlanks behind = '\x7d' :: rest) :
    readMembers (fuel + 1) (.keep room) cs = some ([(name, v)], rest) := by
  simp only [readMembers, hquote, Mode.isKept, hname, hcolon, hv, hend]

/-- A member with other ones behind it. -/
theorem readMembers_comma (hquote : skipBlanks cs = '"' :: inside)
    (hname : readText true fuel [] inside = some (name, colon))
    (hcolon : skipBlanks colon = ':' :: value)
    (hv : readValue fuel (.keep room) value = some (v, behind))
    (hcomma : skipBlanks behind = ',' :: more) :
    readMembers (fuel + 1) (.keep room) cs =
      (readMembers fuel (.keep room) more).map fun (ms, rest) => ((name, v) :: ms, rest) := by
  simp only [readMembers, hquote, Mode.isKept, hname, hcolon, hv, hcomma]

end

/-- The items of a list do not begin with its end. -/
theorem Spells.skipBlanks_items {items : List Json} (h : Spells cs (.items items) rest) :
    ∃ c more, skipBlanks cs = c :: more ∧ c ≠ ']' := by
  cases h with
  | lastItem hbefore hv | consItem hbefore hv =>
    obtain ⟨c, more, heq, hc⟩ := hv.skipBlanks_value
    exact ⟨c, more, hbefore.skipBlanks_eq.trans heq, hc⟩

/-- The members of an object begin with a name. -/
theorem Spells.skipBlanks_members {ms : List (String × Json)} (h : Spells cs (.members ms) rest) :
    ∃ more, skipBlanks cs = '"' :: more := by
  cases h with
  | lastMember h | consMember h =>
    cases h with
    | member hbefore => exact ⟨_, hbefore.skipBlanks_cons (by decide)⟩

/-- Whether a part is read from a text, with room for some lists and objects. -/
def Part.IsRead (fuel room : Nat) (cs rest : List Char) : Part → Prop
  | value v => readValue fuel (.keep room) cs = some (v, rest)
  | items vs => readItems fuel (.keep room) cs = some (vs, rest)
  | members ms => readMembers fuel (.keep room) cs = some (ms, rest)
  | member name v => ∃ inside colon behind, skipBlanks cs = '"' :: inside ∧
      readText true fuel [] inside = some (name, colon) ∧ skipBlanks colon = ':' :: behind ∧
      readValue fuel (.keep room) behind = some (v, rest)

/-- What a text begins with is read from it. -/
theorem Spells.isRead {part : Part} (h : Spells cs part rest) {fuel room : Nat}
    (hfuel : 2 * cs.length ≤ 2 * rest.length + fuel) (hroom : part.nesting < room) :
    part.IsRead fuel room cs rest := by
  -- Every part has a character of its own, which pays for two readers: one for the value and one
  -- for the list or object around it.
  have hlt := h.length_lt
  induction h generalizing fuel room with
  | null | yes | no =>
    obtain ⟨fuel, rfl⟩ : ∃ n, fuel = n + 1 := ⟨fuel - 1, by omega⟩
    rfl
  | natural hds hvalue hrest =>
    obtain ⟨fuel, rfl⟩ : ∃ n, fuel = n + 1 := ⟨fuel - 1, by omega⟩
    have hread := readNumber_of_isWhole hds hrest false ⟨by simp, hvalue⟩
    obtain ⟨c, more, rfl, hlow, hhigh⟩ := hds.exists_cons
    rw [Part.IsRead, List.cons_append, readValue_of_digit hlow hhigh]
    exact hread
  | negative hds hpos hle hrest =>
    obtain ⟨fuel, rfl⟩ : ∃ n, fuel = n + 1 := ⟨fuel - 1, by omega⟩
    exact readNumber_of_isWhole hds hrest true
      ⟨by simpa using Nat.ne_of_gt hpos, hle⟩
  | text h =>
    obtain ⟨fuel, rfl⟩ : ∃ n, fuel = n + 1 := ⟨fuel - 1, by omega⟩
    rw [List.length_cons] at hfuel
    rw [Part.IsRead, readValue_quote]
    dsimp only [Mode.isKept]
    rw [readText_of_spellsInside h [] (by omega)]
    rfl
  | nil h =>
    obtain ⟨fuel, rfl⟩ : ∃ n, fuel = n + 1 := ⟨fuel - 1, by omega⟩
    have hopen : 1 < room := by simpa [Part.nesting, nesting, nestingOf] using hroom
    exact readValue_nil (enter?_keep hopen) (h.skipBlanks_cons (by decide))
  | empty h =>
    obtain ⟨fuel, rfl⟩ : ∃ n, fuel = n + 1 := ⟨fuel - 1, by omega⟩
    have hopen : 1 < room := by simpa [Part.nesting, nesting, nestingOfMembers] using hroom
    exact readValue_empty (enter?_keep hopen) (h.skipBlanks_cons (by decide))
  | @list cs items rest h ih =>
    obtain ⟨fuel, rfl⟩ : ∃ n, fuel = n + 1 := ⟨fuel - 1, by omega⟩
    rw [List.length_cons] at hfuel
    have hopen : nestingOf items + 1 < room := by simpa [Part.nesting, nesting] using hroom
    have hread : readItems fuel (.keep (room - 1)) cs = some (items, rest) :=
      ih (by omega) (by rw [Part.nesting]; omega) h.length_lt
    -- The reader looks for the end of an empty list first.
    obtain ⟨c, more, hfirst, hc⟩ := h.skipBlanks_items
    rw [Part.IsRead, readValue_list (enter?_keep (by omega)) hfirst hc, hread]
    rfl
  | @object cs ms rest h ih =>
    obtain ⟨fuel, rfl⟩ : ∃ n, fuel = n + 1 := ⟨fuel - 1, by omega⟩
    rw [List.length_cons] at hfuel
    have hopen : nestingOfMembers ms + 1 < room := by simpa [Part.nesting, nesting] using hroom
    have hread : readMembers fuel (.keep (room - 1)) cs = some (ms, rest) :=
      ih (by omega) (by rw [Part.nesting]; omega) h.length_lt
    obtain ⟨more, hfirst⟩ := h.skipBlanks_members
    rw [Part.IsRead, readValue_object (enter?_keep (by omega)) hfirst, hread]
    rfl
  | @lastItem cs cs' v behind rest hbefore hv hbehind ih =>
    obtain ⟨fuel, rfl⟩ : ∃ n, fuel = n + 1 := ⟨fuel - 1, by omega⟩
    have hblank := hbefore.length_le
    have hend := hbehind.length_le
    rw [List.length_cons] at hend
    have hread : readValue fuel (.keep room) cs' = some (v, behind) :=
      ih (by omega) (by simpa [Part.nesting, nestingOf] using hroom) hv.length_lt
    rw [← readValue_congr hbefore.skipBlanks_eq] at hread
    exact readItems_last hread (hbehind.skipBlanks_cons (by decide))
  | @consItem cs cs' v behind more items rest hbefore hv hbehind hmore ih ihmore =>
    obtain ⟨fuel, rfl⟩ : ∃ n, fuel = n + 1 := ⟨fuel - 1, by omega⟩
    have hblank := hbefore.length_le
    have hvalue := hv.length_lt
    have hcomma := hbehind.length_le
    have hitems := hmore.length_lt
    rw [List.length_cons] at hcomma
    have hnesting : v.nesting < room ∧ nestingOf items < room := Nat.max_lt.mp hroom
    have hread : readValue fuel (.keep room) cs' = some (v, behind) :=
      ih (by omega) hnesting.1 hvalue
    have hreadMore : readItems fuel (.keep room) more = some (items, rest) :=
      ihmore (by omega) hnesting.2 hitems
    rw [← readValue_congr hbefore.skipBlanks_eq] at hread
    rw [Part.IsRead, readItems_comma hread (hbehind.skipBlanks_cons (by decide)), hreadMore]
    rfl
  | @lastMember cs name v behind rest h hbehind ih =>
    obtain ⟨fuel, rfl⟩ : ∃ n, fuel = n + 1 := ⟨fuel - 1, by omega⟩
    have hend := hbehind.length_le
    rw [List.length_cons] at hend
    obtain ⟨inside, colon, value, hquote, hname, hcolon, hread⟩ :
        Part.IsRead fuel room cs behind (.member name v) :=
      ih (by omega) (by simpa [Part.nesting, nestingOfMembers] using hroom) h.length_lt
    exact readMembers_last hquote hname hcolon hread (hbehind.skipBlanks_cons (by decide))
  | @consMember cs name v behind more ms rest h hbehind hmore ih ihmore =>
    obtain ⟨fuel, rfl⟩ : ∃ n, fuel = n + 1 := ⟨fuel - 1, by omega⟩
    have hmember := h.length_lt
    have hcomma := hbehind.length_le
    have hmembers := hmore.length_lt
    rw [List.length_cons] at hcomma
    have hnesting : v.nesting < room ∧ nestingOfMembers ms < room := Nat.max_lt.mp hroom
    obtain ⟨inside, colon, value, hquote, hname, hcolon, hread⟩ :
        Part.IsRead fuel room cs behind (.member name v) :=
      ih (by omega) hnesting.1 hmember
    have hreadMore : readMembers fuel (.keep room) more = some (ms, rest) :=
      ihmore (by omega) hnesting.2 hmembers
    rw [Part.IsRead, readMembers_comma hquote hname hcolon hread (hbehind.skipBlanks_cons (by decide)),
      hreadMore]
    rfl
  | @member cs inside s colon behind value v rest hbefore hname hcolon hbehind hv ih =>
    have hquote := hbefore.length_le
    have hinside := hname.length_lt
    have hmiddle := hcolon.length_le
    have hblank := hbehind.length_le
    have hvalue := hv.length_lt
    rw [List.length_cons] at hquote hmiddle
    have hread : readValue fuel (.keep room) value = some (v, rest) := ih (by omega) hroom hvalue
    refine ⟨inside, colon, behind, hbefore.skipBlanks_cons (by decide), ?_,
      hcolon.skipBlanks_cons (by decide), ?_⟩
    · exact readText_of_spellsInside hname [] (by omega)
    · rw [readValue_congr hbehind.skipBlanks_eq, hread]

/-! ### Whole texts -/

/-- The members of an outermost object are read as those of any other, if all of them are wanted. -/
theorem readKeptMembers_of_readMembers {wanted : String → Bool} {fuel room : Nat}
    {ms : List (String × Json)} (h : readMembers fuel (.keep room) cs = some (ms, rest))
    (hwanted : ∀ m ∈ ms, wanted m.1 = true) :
    readKeptMembers wanted fuel (.keep room) cs = some (ms, rest) := by
  induction fuel generalizing cs ms with
  | zero => cases h
  | succ fuel ih =>
    rw [readMembers] at h
    rw [readKeptMembers]
    split at h <;> try contradiction
    dsimp only [Mode.isKept] at h
    split at h <;> try contradiction
    split at h <;> try contradiction
    split at h <;> try contradiction
    rename_i name colon hname _ _ hcolon v behind hv
    split at h <;> try contradiction
    · rename_i hend
      cases h
      dsimp only
      rw [if_pos (hwanted _ (List.mem_cons_self ..)), hv]
      dsimp only
      rw [hend]
      rfl
    · rename_i more hcomma
      obtain ⟨⟨ms, rest⟩, hmore, heq⟩ := Option.map_eq_some_iff.mp h
      cases heq
      dsimp only
      rw [if_pos (hwanted _ (List.mem_cons_self ..)), hv]
      dsimp only
      rw [hcomma]
      change (readKeptMembers wanted fuel (.keep room) more).map _ = _
      rw [ih hmore fun m hm => hwanted m (List.mem_cons_of_mem _ hm)]
      rfl

/-- A text that is no object is not read as one. -/
theorem read?_of_not_object {wanted : String → Bool} {c : Char} {more : List Char}
    (h : Blanks cs (c :: more)) (hblank : ¬(c = ' ' ∨ c = '\n' ∨ c = '\t' ∨ c = '\r'))
    (hc : c ≠ '\x7b') (hv : Spells (c :: more) (.value v) rest) (hnesting : v.nesting < nestingLimit)
    (hrest : Blanks rest []) : read? wanted cs = some v := by
  have hlength := h.length_le
  have hread : readValue (2 * cs.length + 2) (.keep nestingLimit) (c :: more) = some (v, rest) :=
    hv.isRead (by omega) hnesting
  rw [read?, h.skipBlanks_cons hblank]
  split
  · rename_i heq
    exact absurd (List.cons.inj heq).1 hc
  · rw [hread]
    dsimp only [bind, Option.bind]
    rw [hrest.skipBlanks_eq]
    rfl

/-- **Whole texts.** A text that is a value is read as that value, if its lists and objects nest less
deep than the limit and all names of an outermost object are wanted. -/
theorem read?_of_isDocument {wanted : String → Bool} (h : IsDocument v cs)
    (hnesting : v.nesting < nestingLimit)
    (hwanted : ∀ ms, v = .object ms → ∀ m ∈ ms, wanted m.1 = true) : read? wanted cs = some v := by
  obtain @⟨cs', rest, hbefore, hv, hrest⟩ := h
  have hspells := hv
  cases hv with
  | natural hds =>
    obtain ⟨c, more, rfl, hlow, hhigh⟩ := hds.exists_cons
    refine read?_of_not_object hbefore (not_blank_of_digit hlow) ?_ hspells hnesting hrest
    rintro rfl
    exact absurd hhigh (by decide)
  | null | yes | no | negative | text | nil | list =>
    exact read?_of_not_object hbefore (by decide) (by decide) hspells hnesting hrest
  | empty hend =>
    have hopen := hbefore.skipBlanks_cons (by decide)
    have hclose := hend.skipBlanks_cons (by decide)
    simp only [read?, hopen, hclose]
    change (if (skipBlanks rest).isEmpty = true then _ else _) = _
    rw [hrest.skipBlanks_eq]
    rfl
  | @object inside ms _ hmembers =>
    have hlength := hbefore.length_le
    rw [List.length_cons] at hlength
    rw [nesting] at hnesting
    have hread : readMembers (2 * cs.length + 2) (.keep (nestingLimit - 1)) inside = some (ms, rest) :=
      hmembers.isRead (by omega) (Nat.lt_sub_of_add_lt hnesting)
    obtain ⟨more, hfirst⟩ := hmembers.skipBlanks_members
    rw [← readMembers_congr (skipBlanks_skipBlanks inside), hfirst] at hread
    have hopen := hbefore.skipBlanks_cons (by decide)
    simp only [read?, hopen, hfirst]
    change (((readKeptMembers wanted _ _ _).map _).bind _) = _
    rw [readKeptMembers_of_readMembers hread (hwanted ms rfl)]
    change (if (skipBlanks rest).isEmpty = true then _ else _) = _
    rw [hrest.skipBlanks_eq]
    rfl

end LRWorkbench.Json
