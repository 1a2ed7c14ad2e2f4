import LRWorkbench.Lexing.PatternSet
import LRWorkbench.Proofs.Regex.Meaning
import LRWorkbench.Proofs.Text.Agreement
import Mathlib.Data.List.Basic

/-!
# Patterns read byte by byte

A set of patterns is an automaton over bytes, and the lexer steps it as it would any other. What comes of that
is `PatternSet.scan`, which goes from character to character (`PatternSet.scan_eq_scan`).

- While the bytes of a character come in, the state knows how the character begins (`Begun.of`). The patterns
  are in the game just as long as one of them can read a character that begins so.
- Conditions on ASCII tell five kinds of characters apart (`Live.exists_kind`). No byte leads on just if none
  of these kinds does (`ByteState.isStuck_iff`).
- Of the character before the start the automaton sees a byte only, but that tells its kind
  (`Live.blindTo_of_lastByte`).
-/

namespace LRWorkbench

open Text

/-! ### Automata of any kind -/

namespace ByteAutomaton

variable {A : Type} [ByteAutomaton A] {a : A}

/-- A state is stuck if every byte leads to a dead one. -/
theorem isStuck_iff {s : State A} : isStuck a s = true ↔ ∀ b, isDead a (next a s b) = true := by
  have hall : ∀ b, b ∈ allBytes := fun b =>
    List.mem_map.mpr ⟨b.toNat, List.mem_range.mpr b.toNat_lt, UInt8.ofNat_toNat⟩
  rw [isStuck, List.all_eq_true]
  exact forall_congr' fun b => forall_prop_of_true (hall b)

/-- Whether a report stays within some bytes: it was read on from the place, no further than to the end of the
bytes, and matches end before that. -/
structure ReadsWithin (scan : Scan) (place length : Nat) : Prop where
  lt_examined : place < scan.examined
  examined_le : scan.examined ≤ place + length + 1
  found_lt : ∀ found ∈ scan.found, found.2 < scan.examined

/-- A match is noticed one byte behind its end. -/
theorem lt_of_mem_noticed {s : State A} {place : Nat} {found : Nat × Nat}
    (h : found ∈ noticed a s place) : found.2 < place + 1 := by
  obtain ⟨number, -, rfl⟩ := List.mem_map.mp h
  exact Nat.lt_succ_self place

/-- A scan reads no further than there are bytes. -/
theorem readsWithin_scanFrom (a : A) (s : State A) (place : Nat) (bytes : List UInt8) :
    ReadsWithin (scanFrom a s place bytes) place bytes.length := by
  induction bytes generalizing s place with
  | nil =>
    refine ⟨Nat.lt_succ_self place, Nat.le_refl _, fun found hfound => ?_⟩
    rw [scanFrom] at hfound
    dsimp only at hfound
    split at hfound
    · exact lt_of_mem_noticed hfound
    · cases hfound
  | cons b bytes ih =>
    have hmore : ReadsWithin (scanFrom a (next a s b) (place + 1) bytes) place (b :: bytes).length := by
      obtain ⟨hlt, hle, hfound⟩ := ih (next a s b) (place + 1)
      rw [List.length_cons]
      exact ⟨by omega, by omega, hfound⟩
    have hstop : ∀ matched, (∀ found ∈ matched, found.2 < place + 1) →
        ReadsWithin ⟨matched, place + 1⟩ place (b :: bytes).length := fun matched hmatched =>
      ⟨Nat.lt_succ_self place, Nat.succ_le_succ (Nat.le_add_right ..), hmatched⟩
    have hnoticed : ∀ found ∈ noticed a (next a s b) place, found.2 < place + 1 := fun _ =>
      lt_of_mem_noticed
    rw [scanFrom]
    dsimp only
    split
    · exact hmore
    · split
      · split
        · exact hstop _ hnoticed
        · refine ⟨hmore.lt_examined, hmore.examined_le, fun found hfound => ?_⟩
          rcases List.mem_append.mp hfound with hfound | hfound
          · exact Nat.lt_of_lt_of_le (hnoticed found hfound) hmore.lt_examined
          · exact hmore.found_lt found hfound
      · split
        · exact hstop [] fun _ h => absurd h List.not_mem_nil
        · exact hmore

/-- What is read of a text is some of it, and maybe its end. -/
theorem readsWithin_scan (a : A) (before : Option Char) (text : List Char) :
    ReadsWithin (scan a before text) 0 (byteLength text) := by
  rw [scan, scanBytes]
  split
  · exact ⟨Nat.one_pos, by simp, fun _ h => absurd h List.not_mem_nil⟩
  · rw [← length_utf8Bytes]
    exact readsWithin_scanFrom ..

end ByteAutomaton

namespace PatternSet

namespace Live

variable {before before' : Option Char} {c d : Char} {live : Live} {number : Nat}

/-! ### What is in the game -/

/-- Whether no pattern in the game asks for the words of all alphabets. -/
def IsAscii (live : Live) : Prop := ∀ entry ∈ live, ∀ r ∈ entry.2, r.hasUnicodeLook = false

/-- Whether no pattern in the game can tell one thing before it from another. -/
def BlindTo (live : Live) (before before' : Option Char) : Prop :=
  ∀ entry ∈ live, ∀ r ∈ entry.2, r.BlindTo before before'

/-- Characters that look alike to boundaries make the same patterns match before them. -/
theorem accepting_congr (h : Regex.LooksLike c d) (hlive : live.IsAscii) :
    live.accepting before (some c) = live.accepting before (some d) := by
  refine List.filterMap_congr fun entry hentry => ?_
  have hany : entry.2.any (·.nullable before (some c)) =
      entry.2.any (·.nullable before (some d)) := by
    refine Bool.eq_iff_iff.mpr ?_
    simp only [List.any_eq_true]
    exact exists_congr fun r => and_congr_right fun hr => by
      rw [Regex.nullable_congr h (hlive entry hentry r hr)]
  obtain ⟨number, rests⟩ := entry
  dsimp only at hany ⊢
  rw [hany]

/-- They can be read alike by what starts at a boundary. -/
theorem canRead_congr (h : Regex.LooksLike c d) (hlive : live.IsAscii) (lo hi : Nat) :
    live.canRead before (some c) lo hi = live.canRead before (some d) lo hi := by
  refine Bool.eq_iff_iff.mpr ?_
  simp only [canRead, List.any_eq_true]
  exact exists_congr fun entry => and_congr_right fun hentry => exists_congr fun r =>
    and_congr_right fun hr => by rw [Regex.canStart_congr h (hlive entry hentry r hr)]

/-- No boundary that asks for letters beyond ASCII comes in later. -/
theorem isAscii_next (hlive : live.IsAscii) : (live.next before c).IsAscii := by
  intro entry hentry r hr
  obtain ⟨⟨number, rests⟩, hmem, hnext⟩ := List.mem_filterMap.mp hentry
  dsimp only at hnext
  split at hnext
  · cases hnext
  · obtain rfl := Option.some.inj hnext
    obtain ⟨x, hx, hres⟩ := List.mem_flatMap.mp (List.mem_eraseDups.mp hr)
    exact Regex.hasUnicodeLook_of_mem_residuals (hlive _ hmem x hx) hres

/-- There is none if the patterns have none. -/
theorem isAscii_start {patterns : List Regex}
    (h : ∀ r ∈ patterns, r.hasUnicodeLook = false) : (start number patterns).IsAscii := by
  induction patterns generalizing number with
  | nil => exact fun _ h => absurd h List.not_mem_nil
  | cons r rs ih =>
    intro entry hentry x hx
    rcases List.mem_cons.mp hentry with rfl | hentry
    · rw [List.mem_singleton.mp hx]
      exact h r (List.mem_cons_self ..)
    · exact ih (fun r' hr' => h r' (List.mem_cons_of_mem _ hr')) entry hentry x hx

/-- What is blind to two characters before it matches alike behind both. -/
theorem BlindTo.accepting_eq (h : live.BlindTo before before') (after : Option Char) :
    live.accepting before after = live.accepting before' after := by
  refine List.filterMap_congr fun entry hentry => ?_
  have hany : entry.2.any (·.nullable before after) = entry.2.any (·.nullable before' after) :=
    Bool.eq_iff_iff.mpr (by
      simp only [List.any_eq_true]
      exact exists_congr fun r => and_congr_right fun hr => by
        rw [Regex.nullable_eq (h entry hentry r hr)])
  obtain ⟨number, rests⟩ := entry
  dsimp only at hany ⊢
  rw [hany]

theorem BlindTo.canRead_eq (h : live.BlindTo before before') (after : Option Char) (lo hi : Nat) :
    live.canRead before after lo hi = live.canRead before' after lo hi := by
  refine Bool.eq_iff_iff.mpr ?_
  simp only [canRead, List.any_eq_true]
  exact exists_congr fun entry => and_congr_right fun hentry => exists_congr fun r =>
    and_congr_right fun hr => by rw [Regex.canStart_eq (h entry hentry r hr)]

/-- It also goes on alike. -/
theorem BlindTo.next_eq (h : live.BlindTo before before') (c : Char) :
    live.next before c = live.next before' c := by
  refine List.filterMap_congr fun entry hentry => ?_
  have hflat : (entry.2.flatMap fun r => r.residuals before c) =
      entry.2.flatMap fun r => r.residuals before' c :=
    List.flatMap_congr fun r hr => Regex.residuals_eq (h entry hentry r hr) c
  obtain ⟨number, rests⟩ := entry
  dsimp only at hflat ⊢
  rw [hflat]

/-- What a pattern leaves after a character is in the game as long as there is something. -/
theorem mem_next_iff {rests : List Regex} : (number, rests) ∈ live.next before c ↔
    rests ≠ [] ∧ ∃ old, (number, old) ∈ live ∧
      rests = (old.flatMap fun r => r.residuals before c).eraseDups := by
  constructor
  · intro h
    obtain ⟨⟨number', old⟩, hmem, h⟩ := List.mem_filterMap.mp h
    dsimp only at h
    split at h
    · cases h
    · rename_i hne
      obtain ⟨rfl, rfl⟩ := Prod.mk.inj (Option.some.inj h)
      exact ⟨hne, old, hmem, rfl⟩
  · rintro ⟨hne, old, hmem, rfl⟩
    refine List.mem_filterMap.mpr ⟨(number, old), hmem, ?_⟩
    dsimp only
    split
    · rename_i hnil
      exact absurd hnil hne
    · rfl

/-! ### Which characters lead on -/

/-- If something is left after a character, some pattern could read it. -/
theorem canRead_of_next {lo hi : Nat} (hlo : lo ≤ c.toNat) (hhi : c.toNat ≤ hi)
    (h : live.next before c ≠ []) : live.canRead before (some c) lo hi = true := by
  obtain ⟨⟨number, rests⟩, hmem⟩ := List.exists_mem_of_ne_nil _ h
  obtain ⟨hne, old, hold, rfl⟩ := mem_next_iff.mp hmem
  obtain ⟨x, hx⟩ := List.exists_mem_of_ne_nil _ hne
  obtain ⟨r, hr, hres⟩ := List.mem_flatMap.mp (List.mem_eraseDups.mp hx)
  exact List.any_eq_true.mpr ⟨_, hold, List.any_eq_true.mpr
    ⟨r, hr, Regex.canStart_of_mem_residuals hlo hhi hres⟩⟩

/-- Where some character of a range could be read, something is left after one of them, if conditions cannot
tell them apart. -/
theorem exists_next_of_canRead {lo hi : Nat} (hlive : live.IsAscii) (hle : lo ≤ hi)
    (hlooks : ∀ d : Char, lo ≤ d.toNat → d.toNat ≤ hi → Regex.LooksLike c d)
    (h : live.canRead before (some c) lo hi = true) :
    ∃ d : Char, lo ≤ d.toNat ∧ d.toNat ≤ hi ∧ live.next before d ≠ [] := by
  obtain ⟨⟨number, old⟩, hold, h⟩ := List.any_eq_true.mp h
  obtain ⟨r, hr, h⟩ := List.any_eq_true.mp h
  obtain ⟨d, hlo, hhi, hd⟩ := Regex.exists_residuals_of_canStart hle hlooks (hlive _ hold r hr) h
  obtain ⟨x, hx⟩ := List.exists_mem_of_ne_nil _ hd
  have hleft := List.mem_eraseDups.mpr (List.mem_flatMap.mpr ⟨r, hr, hx⟩)
  exact ⟨d, hlo, hhi, List.ne_nil_of_mem
    (mem_next_iff.mpr ⟨List.ne_nil_of_mem hleft, old, hold, rfl⟩)⟩

/-- Something can be read only if something is left. -/
theorem ne_nil_of_canRead {after : Option Char} {lo hi : Nat}
    (h : live.canRead before after lo hi = true) : live ≠ [] := by
  rintro rfl
  cases h

/-- A character of several bytes is one of those that begin as it does. -/
theorem mem_sharing (h : 1 < c.utf8Size) (n : Nat) :
    (sharing c n).1 ≤ c.toNat ∧ c.toNat ≤ (sharing c n).2 := by
  have hsize := Text.utf8Size_eq c
  have hfree : 0 < Nat.pow 2 (6 * (c.utf8Size - n)) := Nat.pow_pos (by decide)
  have hdiv := Nat.div_add_mod' c.toNat (Nat.pow 2 (6 * (c.utf8Size - n)))
  have hmod := Nat.mod_lt c.toNat hfree
  have hleast : (if c.utf8Size = 2 then 0x80 else if c.utf8Size = 3 then 0x800 else 0x10000) ≤
      c.toNat := by
    grind
  rw [sharing]
  exact ⟨Nat.max_le.mpr ⟨by omega, hleast⟩, by dsimp only; omega⟩

/-- What is said to begin as a character of several bytes does has several bytes. -/
theorem le_sharing (c : Char) (n : Nat) : 0x80 ≤ (sharing c n).1 := by
  rw [sharing]
  exact Nat.le_trans (by split <;> (try split) <;> decide) (Nat.le_max_right ..)

/-- A scan is lost within a character only behind its first byte. -/
theorem lt_of_lostWithin {n : Nat} (h : live.lostWithin before c = some n) :
    0 < n ∧ n < c.utf8Size := by
  have hmem := List.mem_of_find?_eq_some h
  have hlt := List.find?_some h
  simp only [List.mem_cons, List.not_mem_nil, or_false] at hmem
  exact ⟨by omega, of_decide_eq_true (Bool.and_eq_true_iff.mp hlt).1⟩

/-- Before a character is lost, some pattern can read one that begins so. -/
theorem canRead_of_lt_lostWithin {n m : Nat} (h : live.lostWithin before c = some n) (hpos : 0 < m)
    (hlt : m < n) : live.canRead before (some c) (sharing c m).1 (sharing c m).2 = true := by
  obtain ⟨-, hn⟩ := lt_of_lostWithin h
  obtain ⟨-, front, back, hsplit, hfront⟩ := List.find?_eq_some_iff_append.mp h
  have hmem : m ∈ front := by
    have hthree : n ∈ [1, 2, 3] := List.mem_of_find?_eq_some h
    have hascend : ([1, 2, 3] : List Nat).Pairwise (· < ·) := by decide
    have hm : m ∈ [1, 2, 3] := by
      simp only [List.mem_cons, List.not_mem_nil, or_false] at hthree ⊢
      omega
    rw [hsplit] at hm hascend
    rcases List.mem_append.mp hm with hm | hm
    · exact hm
    · rcases List.mem_cons.mp hm with rfl | hm
      · exact absurd hlt (Nat.lt_irrefl _)
      · have hgt := (List.pairwise_cons.mp (List.pairwise_append.mp hascend).2.1).1 m hm
        omega
  have hread := hfront m hmem
  rw [decide_eq_true (Nat.lt_trans hlt hn), Bool.true_and, Bool.not_not] at hread
  exact hread

/-- A character that is not lost can be read however much of it is known. -/
theorem canRead_of_not_lostWithin {m : Nat} (h : live.lostWithin before c = none) (hpos : 0 < m)
    (hlt : m < c.utf8Size) : live.canRead before (some c) (sharing c m).1 (sharing c m).2 = true := by
  have hsize := c.utf8Size_le_four
  have hread := List.find?_eq_none.mp h m (by
    simp only [List.mem_cons, List.not_mem_nil, or_false]
    omega)
  rw [decide_eq_true hlt, Bool.true_and, Bool.not_eq_true, Bool.not_eq_false'] at hread
  exact hread

/-- The kinds of characters that conditions can tell apart, each with one of them and the codes of
all of them. -/
def kinds : List (Char × List (Nat × Nat)) :=
  [('\n', [(10, 10)]), ('\r', [(13, 13)]), ('a', [(48, 57), (65, 90), (95, 95), (97, 122)]),
    (' ', [(0, 9), (11, 12), (14, 47), (58, 64), (91, 94), (96, 96), (123, 127)]),
    ('é', [(128, 1114111)])]

/-- A state is stuck if no kind of byte leads on. There are as many kinds as patterns tell apart. -/
theorem isStuck_eq : live.isStuck before =
    !kinds.any fun kind => live.leadsOn before kind.1 kind.2 := by
  simp only [isStuck, kinds, List.any_cons, List.any_nil, Bool.or_false, Bool.or_assoc]

/-- Boundaries ask whether a character is a line break or a letter of a word. -/
theorem looksLike_of_toNat {d e : Char} (hnewline : d.toNat = 10 ↔ e.toNat = 10)
    (hreturn : d.toNat = 13 ↔ e.toNat = 13)
    (hword : (48 ≤ d.toNat ∧ d.toNat ≤ 57 ∨ 65 ≤ d.toNat ∧ d.toNat ≤ 90 ∨ d.toNat = 95 ∨
        97 ≤ d.toNat ∧ d.toNat ≤ 122) ↔
      (48 ≤ e.toNat ∧ e.toNat ≤ 57 ∨ 65 ≤ e.toNat ∧ e.toNat ≤ 90 ∨ e.toNat = 95 ∨
        97 ≤ e.toNat ∧ e.toNat ≤ 122)) : Regex.LooksLike d e where
  newline := by rwa [← Char.toNat_inj, ← Char.toNat_inj]
  carriageReturn := by rwa [← Char.toNat_inj, ← Char.toNat_inj]
  word := by rwa [Bool.eq_iff_iff, Regex.contains_asciiWord_iff, Regex.contains_asciiWord_iff]

/-- The characters of a kind look like each other. -/
theorem looksLike_of_mem_kinds {kind : Char × List (Nat × Nat)} (hkind : kind ∈ kinds)
    {range : Nat × Nat} (hrange : range ∈ kind.2) (hlo : range.1 ≤ d.toNat) (hhi : d.toNat ≤ range.2) :
    Regex.LooksLike d kind.1 := by
  have hsamples : '\n'.toNat = 10 ∧ '\r'.toNat = 13 ∧ 'a'.toNat = 97 ∧ ' '.toNat = 32 ∧
    'é'.toNat = 233 := by decide
  obtain ⟨hnewline, hreturn, hletter, hblank, hwide⟩ := hsamples
  have hcode : ∃ range ∈ kind.2, range.1 ≤ d.toNat ∧ d.toNat ≤ range.2 := ⟨range, hrange, hlo, hhi⟩
  simp only [kinds, List.mem_cons, List.not_mem_nil, or_false] at hkind
  rcases hkind with rfl | rfl | rfl | rfl | rfl <;> simp at hcode ⊢ <;>
    exact looksLike_of_toNat (by omega) (by omega) (by omega)

/-- Every character is of one of the kinds. -/
theorem exists_kind (d : Char) : ∃ kind ∈ kinds, Regex.LooksLike d kind.1 ∧
    ∃ range ∈ kind.2, range.1 ≤ d.toNat ∧ d.toNat ≤ range.2 := by
  have hlt := Text.toNat_lt d
  have hwhich : ∃ kind ∈ kinds, ∃ range ∈ kind.2, range.1 ≤ d.toNat ∧ d.toNat ≤ range.2 := by
    simp only [kinds, List.mem_cons, List.not_mem_nil, or_false, exists_eq_or_imp, exists_eq_left]
    omega
  obtain ⟨kind, hkind, range, hrange, hlo, hhi⟩ := hwhich
  exact ⟨kind, hkind, looksLike_of_mem_kinds hkind hrange hlo hhi, range, hrange, hlo, hhi⟩

/-- Where no kind of characters leads on, no character does, be it that it notices a match. -/
theorem dead_of_isStuck (hlive : live.IsAscii) (hstuck : live.isStuck before = true) (d : Char) :
    live.accepting before (some d) = [] ∧ live.next before d = [] := by
  rw [isStuck_eq, Bool.not_eq_true', List.any_eq_false] at hstuck
  obtain ⟨⟨sample, ranges⟩, hkind, hlooks, ⟨lo, hi⟩, hrange, hlo, hhi⟩ := exists_kind d
  have hleads := hstuck _ hkind
  rw [Bool.not_eq_true, leadsOn, Bool.or_eq_false_iff, Bool.not_eq_false',
    List.isEmpty_iff, List.any_eq_false] at hleads
  refine ⟨by rw [accepting_congr hlooks hlive, hleads.1], ?_⟩
  by_contra hne
  refine hleads.2 _ hrange ?_
  dsimp only
  rw [← canRead_congr hlooks hlive]
  exact canRead_of_next hlo hhi hne

/-- Where a kind of characters leads on, one of them does. -/
theorem exists_of_not_isStuck (hlive : live.IsAscii) (hgo : live.isStuck before = false) :
    (∃ kind ∈ kinds, live.accepting before (some kind.1) ≠ []) ∨ ∃ d, live.next before d ≠ [] := by
  rw [isStuck_eq, Bool.not_eq_false', List.any_eq_true] at hgo
  obtain ⟨kind, hkind, hleads⟩ := hgo
  rw [leadsOn, Bool.or_eq_true, Bool.not_eq_true', List.isEmpty_eq_false_iff, List.any_eq_true] at hleads
  refine hleads.imp (fun hnoticed => ⟨kind, hkind, hnoticed⟩) ?_
  rintro ⟨⟨lo, hi⟩, hrange, hread⟩
  have hle : lo ≤ hi := by
    have hproper : ∀ kind ∈ kinds, ∀ range ∈ kind.2, range.1 ≤ range.2 := by decide
    exact hproper kind hkind _ hrange
  obtain ⟨d, -, -, hd⟩ := exists_next_of_canRead hlive hle
    (fun d hlo hhi => (looksLike_of_mem_kinds hkind hrange hlo hhi).symm) hread
  exact ⟨d, hd⟩

end Live

/-! ### Characters that come in byte by byte -/

namespace Begun

variable {c d : Char} {n : Nat}

/-- A character of which a number of bytes were read. -/
def of (c : Char) (n : Nat) : Begun :=
  ⟨c.utf8Size, c.utf8Size - n, c.toNat / Nat.pow 2 (6 * (c.utf8Size - n))⟩

/-- The characters that share their first byte begin alike. -/
theorem of_eq_of_mem_sharing (hwide : 1 < c.utf8Size) (hlo : (Live.sharing c 1).1 ≤ d.toNat)
    (hhi : d.toNat ≤ (Live.sharing c 1).2) : of d 1 = of c 1 := by
  have hc := utf8Size_eq c
  have hd := utf8Size_eq d
  obtain h2 | h3 | h4 : c.utf8Size = 2 ∨ c.utf8Size = 3 ∨ c.utf8Size = 4 := by grind
  · have hcode : c.toNat ≤ 0x7ff := by grind
    simp only [Live.sharing, h2, reduceIte, Nat.pow_eq, Nat.reduceSub, Nat.reduceMul, Nat.reducePow,
      Nat.max_le] at hlo hhi
    have hsize : d.utf8Size = 2 := by grind
    simp only [of, h2, hsize, Begun.mk.injEq, Nat.pow_eq, Nat.reduceSub, Nat.reduceMul, Nat.reducePow, true_and]
    omega
  · have hcode : c.toNat ≤ 0xffff := by grind
    simp only [Live.sharing, h3, reduceIte, Nat.pow_eq, Nat.reduceSub, Nat.reduceMul, Nat.reducePow,
      Nat.reduceEqDiff, Nat.max_le] at hlo hhi
    have hsize : d.utf8Size = 3 := by grind
    simp only [of, h3, hsize, Begun.mk.injEq, Nat.pow_eq, Nat.reduceSub, Nat.reduceMul, Nat.reducePow, true_and]
    omega
  · simp only [Live.sharing, h4, reduceIte, Nat.pow_eq, Nat.reduceSub, Nat.reduceMul, Nat.reducePow,
      Nat.reduceEqDiff, Nat.max_le] at hlo hhi
    have hsize : d.utf8Size = 4 := by grind
    simp only [of, h4, hsize, Begun.mk.injEq, Nat.pow_eq, Nat.reduceSub, Nat.reduceMul, Nat.reducePow, true_and]
    omega

/-- The first byte of a character of several bytes. -/
theorem exists_first (h : 1 < c.utf8Size) :
    ∃ b rest, String.utf8EncodeChar c = b :: rest ∧ 0x80 ≤ b ∧ ofFirst? b = some (of c 1) := by
  have hsize := utf8Size_eq c
  have hmax := toNat_lt c
  obtain ⟨code, codes, hcodes, hfirst⟩ := exists_head_utf8EncodeChar c
  obtain ⟨b, rest, hbytes, rfl, -⟩ := List.map_eq_cons_iff.mp hcodes
  refine ⟨b, rest, hbytes, ?_⟩
  simp only [ofFirst?, of, UInt8.le_iff_toNat_le, UInt8.lt_iff_toNat_lt, UInt8.reduceToNat]
  rcases hfirst with ⟨h1, -⟩ | ⟨h2, hb, -⟩ | ⟨h3, hb, -⟩ | ⟨h4, hb, -⟩
  · omega
  · have hlo : 0x7f < c.toNat ∧ c.toNat ≤ 0x7ff := by grind
    rw [h2, if_neg (by omega), if_pos (by omega), hb, Nat.add_sub_cancel]
    exact ⟨by omega, rfl⟩
  · have hlo : 0x7ff < c.toNat ∧ c.toNat ≤ 0xffff := by grind
    rw [h3, if_neg (by omega), if_neg (by omega), if_pos (by omega), hb, Nat.add_sub_cancel]
    exact ⟨by omega, rfl⟩
  · have hlo : 0xffff < c.toNat := by grind
    rw [h4, if_neg (by omega), if_neg (by omega), if_neg (by omega), if_pos (by omega), hb,
      Nat.add_sub_cancel]
    exact ⟨by omega, rfl⟩

/-- The characters that begin with a first byte of several are a range of codes above ASCII. -/
theorem range_of_ofFirst? {b : UInt8} {begun : Begun} (h : ofFirst? b = some begun) :
    begun.missing ≠ 0 ∧ begun.range.1 ≤ begun.range.2 ∧ 0x80 ≤ begun.range.1 := by
  simp only [ofFirst?, UInt8.lt_iff_toNat_lt, UInt8.reduceToNat] at h
  split at h
  · cases h
  split at h
  · cases h
    simp only [range, Nat.pow_eq, Nat.reduceEqDiff, reduceIte]
    omega
  split at h
  · cases h
    simp only [range, Nat.pow_eq, Nat.reduceEqDiff, reduceIte]
    omega
  split at h
  · cases h
    simp only [range, Nat.pow_eq, Nat.reduceEqDiff, reduceIte]
    omega
  · cases h

/-- The bytes behind the first one have six bits of the code each. -/
theorem toNat_of_getElem? {b : UInt8} (hpos : 0 < n) (hlt : n < c.utf8Size)
    (hb : (String.utf8EncodeChar c)[n]? = some b) :
    b.toNat = c.toNat / Nat.pow 2 (6 * (c.utf8Size - (n + 1))) % 64 + 0x80 := by
  have hsize := utf8Size_eq c
  have hcodes := congrArg (fun codes => codes[n]?) (map_toNat_utf8EncodeChar c)
  rw [List.getElem?_map, hb, Option.map_some] at hcodes
  split at hsize
  · omega
  all_goals rw [if_neg (by assumption)] at hcodes
  split at hsize
  · obtain rfl : n = 1 := by omega
    rw [if_pos (by assumption)] at hcodes
    rw [hsize]
    simpa using hcodes
  all_goals rw [if_neg (by assumption)] at hcodes
  split at hsize
  · obtain rfl | rfl : n = 1 ∨ n = 2 := by omega
    all_goals
      rw [if_pos (by assumption)] at hcodes
      rw [hsize]
      simpa using hcodes
  · obtain rfl | rfl | rfl : n = 1 ∨ n = 2 ∨ n = 3 := by omega
    all_goals
      rw [if_neg (by assumption)] at hcodes
      rw [hsize]
      simpa using hcodes

/-- A further byte of a character. -/
theorem exists_more (hpos : 0 < n) (hlt : n < c.utf8Size) :
    ∃ b, (String.utf8EncodeChar c)[n]? = some b ∧ (of c n).more? b = some (of c (n + 1)) := by
  have hget : n < (String.utf8EncodeChar c).length := by rwa [String.length_utf8EncodeChar]
  have hb := List.getElem?_eq_getElem hget
  refine ⟨_, hb, ?_⟩
  have hcode := toNat_of_getElem? hpos hlt hb
  obtain ⟨m, hm⟩ : ∃ m, c.utf8Size - n = m + 1 := ⟨c.utf8Size - n - 1, by omega⟩
  have hm' : c.utf8Size - (n + 1) = m := by omega
  simp only [more?, of, UInt8.le_iff_toNat_le, UInt8.lt_iff_toNat_lt, UInt8.reduceToNat]
  rw [hm'] at hcode
  rw [hm, hm', Nat.add_sub_cancel, hcode, if_pos (by omega), Nat.add_sub_cancel, Nat.pow_eq, Nat.pow_eq,
    Nat.mul_succ, Nat.pow_add, ← Nat.div_div_eq_div_mul]
  congr 2
  exact Nat.div_add_mod ..

end Begun

namespace ByteState

variable {s : ByteState} {c : Char} {n : Nat} {b : UInt8} {noticed : List Nat}

/-- A state is dead if nothing is left and no match waits for the next byte. -/
theorem isDead_iff : s.isDead = true ↔ s.live = [] ∧ s.noticed = [] := by
  rw [isDead, Bool.and_eq_true, List.isEmpty_iff, List.isEmpty_iff]

/-- Between characters a match is noticed with whatever byte comes next. -/
theorem noticed_next (hs : s.begun = none) :
    (s.next b).noticed = s.live.accepting s.before (some (seenAs b)) := by
  have hwithin : ∀ begun noticed, (s.within noticed begun).noticed = noticed := by
    intro begun noticed
    unfold within
    split
    · rfl
    · split <;> split <;> rfl
  rw [next, hs]
  dsimp only
  split
  · rfl
  · exact hwithin ..

/-- Within a character what is in the game stays there as long as it can read one that begins so. -/
theorem within_of (hlt : n < c.utf8Size) :
    s.within noticed (some (.of c n)) =
      if s.live.canRead s.before (some 'é') (Live.sharing c n).1 (Live.sharing c n).2 then
        ⟨s.before, s.live, some (.of c n), noticed⟩
      else lost noticed :=
  if_neg (Nat.sub_ne_zero_of_lt hlt)

/-- With its last byte a character is read. -/
theorem within_of_utf8Size : s.within noticed (some (.of c c.utf8Size)) = s.behind c noticed := by
  have hcode : (Begun.of c c.utf8Size).code = c.toNat := by
    simp [Begun.of]
  have hvalid : (Begun.of c c.utf8Size).code.isValidChar := hcode ▸ c.valid
  have hmissing : (Begun.of c c.utf8Size).missing = 0 := Nat.sub_self _
  rw [within, if_pos hmissing, if_pos hvalid, hcode, Char.ofNat_toNat]

/-- A character of one byte is seen as itself. -/
theorem seenAs_of_utf8Size_eq_one (h : c.utf8Size = 1) :
    ∃ b, String.utf8EncodeChar c = [b] ∧ b < 0x80 ∧ seenAs b = c := by
  have hcode : c.toNat ≤ 0x7f := by
    have hsize := utf8Size_eq c
    grind
  have hbytes := map_toNat_utf8EncodeChar c
  rw [if_pos hcode] at hbytes
  obtain ⟨b, hb, hcodes⟩ := List.map_eq_singleton_iff.mp hbytes
  have hlt : b < 0x80 := UInt8.lt_iff_toNat_lt.mpr (Nat.lt_succ_of_le (hcodes ▸ hcode))
  exact ⟨b, hb, hlt, by rw [seenAs, if_pos hlt, hcodes, Char.ofNat_toNat]⟩

/-- A byte of ASCII is a character. -/
theorem next_of_ascii (hs : s.begun = none) (hb : b < 0x80) :
    s.next b = s.behind (seenAs b) (s.live.accepting s.before (some (seenAs b))) := by
  rw [next, hs]
  exact if_pos hb

/-- A first byte of several may begin any of a range of characters. -/
theorem next_of_first (hs : s.begun = none) (hb : 0x80 ≤ b) :
    s.next b = s.within (s.live.accepting s.before (some 'é')) (Begun.ofFirst? b) := by
  have hge : ¬b < 0x80 := UInt8.not_lt.mpr hb
  rw [next, hs]
  dsimp only
  rw [if_neg hge, seenAs, if_neg hge]

/-- Where a character leads on, so does its first byte. -/
theorem exists_live_next (hs : s.begun = none) (hlive : s.live.IsAscii) {d : Char}
    (hd : s.live.next s.before d ≠ []) : ∃ b, (s.next b).live ≠ [] := by
  have hsize := d.utf8Size_pos
  rcases Nat.lt_or_eq_of_le hsize with hwide | hone
  · obtain ⟨b, rest, -, hb, hfirst⟩ := Begun.exists_first hwide
    obtain ⟨hlo, hhi⟩ := Live.mem_sharing hwide 1
    have hread := Live.canRead_of_next hlo hhi hd
    rw [Live.canRead_congr (Regex.Alike.looksLike ⟨hwide, by decide⟩ : Regex.LooksLike d 'é') hlive] at hread
    refine ⟨b, ?_⟩
    rw [next_of_first hs hb, hfirst, within_of hwide, if_pos hread]
    exact Live.ne_nil_of_canRead hread
  · obtain ⟨b, -, hb, hseen⟩ := seenAs_of_utf8Size_eq_one hone.symm
    refine ⟨b, ?_⟩
    rw [next_of_ascii hs hb, hseen]
    exact hd

/-- No byte leads on from between two characters just if no kind of characters does. -/
theorem isStuck_iff (hs : s.begun = none) (hlive : s.live.IsAscii) :
    s.live.isStuck s.before = true ↔ ∀ b, (s.next b).isDead = true := by
  constructor
  · intro hstuck b
    have hdead := Live.dead_of_isStuck hlive hstuck
    refine isDead_iff.mpr ⟨?_, (noticed_next hs).trans (hdead _).1⟩
    rcases UInt8.lt_or_le b 0x80 with hb | hb
    · rw [next_of_ascii hs hb]
      exact (hdead _).2
    · rw [next_of_first hs hb]
      cases hfirst : Begun.ofFirst? b with
      | none => rfl
      | some begun =>
        obtain ⟨hmissing, hle, hge⟩ := Begun.range_of_ofFirst? hfirst
        rw [within, if_neg hmissing, if_neg]
        · rfl
        · intro hread
          obtain ⟨d, -, -, hd⟩ := Live.exists_next_of_canRead hlive hle (fun d hlo hhi =>
            Regex.Alike.looksLike ⟨by decide, one_lt_utf8Size (Nat.le_trans hge hlo)⟩) hread
          exact hd (hdead d).2
  · intro hdead
    by_contra hgo
    rcases Live.exists_of_not_isStuck hlive (Bool.not_eq_true _ ▸ hgo) with
      ⟨kind, hkind, hnoticed⟩ | ⟨d, hd⟩
    · obtain ⟨b, hb⟩ : ∃ b, seenAs b = kind.1 := by
        simp only [Live.kinds, List.mem_cons, List.not_mem_nil, or_false] at hkind
        rcases hkind with rfl | rfl | rfl | rfl | rfl
        exacts [⟨10, rfl⟩, ⟨13, rfl⟩, ⟨97, rfl⟩, ⟨32, rfl⟩, ⟨0xC3, rfl⟩]
      refine hnoticed ?_
      rw [← hb, ← noticed_next hs]
      exact (isDead_iff.mp (hdead b)).2
    · obtain ⟨b, hb⟩ := exists_live_next hs hlive hd
      exact hb (isDead_iff.mp (hdead b)).1

/-- With nothing in the game no byte leads on. -/
theorem isDead_next_of_nil (h : s.live = []) : (s.next b).isDead = true := by
  obtain ⟨before, live, begun, old⟩ := s
  obtain rfl : live = [] := h
  have hwithin : ∀ next, ((⟨before, [], begun, old⟩ : ByteState).within [] next).isDead = true := by
    intro next
    unfold within
    split
    · rfl
    · split <;> split <;> rfl
  cases begun with
  | none =>
    unfold next
    dsimp only
    split
    · rfl
    · exact hwithin _
  | some begun => exact hwithin _

end ByteState

/-! ### Texts -/

section Texts

variable {p : PatternSet} {before : Option Char} {live : Live} {c : Char} {place : Nat}

/-- One byte further. -/
theorem scanFrom_cons (p : PatternSet) (s : ByteState) (place : Nat) (b : UInt8) (bytes : List UInt8) :
    ByteAutomaton.scanFrom p s place (b :: bytes) =
      if (s.next b).live = [] ∨ (s.next b).noticed ≠ [] ∧ ByteAutomaton.isStuck p (s.next b) = true then
        ⟨(s.next b).noticed.map (·, place), place + 1⟩
      else
        ⟨(s.next b).noticed.map (·, place) ++
            (ByteAutomaton.scanFrom p (s.next b) (place + 1) bytes).found,
          (ByteAutomaton.scanFrom p (s.next b) (place + 1) bytes).examined⟩ := by
  have hunfold : ByteAutomaton.scanFrom p s place (b :: bytes) =
      if !((s.next b).isMatch || (s.next b).isDead) then
        ByteAutomaton.scanFrom p (s.next b) (place + 1) bytes
      else if (s.next b).isMatch then
        if ByteAutomaton.isStuck p (s.next b) then ⟨(s.next b).noticed.map (·, place), place + 1⟩
        else
          ⟨(s.next b).noticed.map (·, place) ++
              (ByteAutomaton.scanFrom p (s.next b) (place + 1) bytes).found,
            (ByteAutomaton.scanFrom p (s.next b) (place + 1) bytes).examined⟩
      else if (s.next b).isDead || false then ⟨[], place + 1⟩
      else ByteAutomaton.scanFrom p (s.next b) (place + 1) bytes := rfl
  rw [hunfold]
  rcases hnoticed : (s.next b).noticed with _ | ⟨number, more⟩
  · have hmatch : (s.next b).isMatch = false := by rw [ByteState.isMatch, hnoticed]; rfl
    by_cases hlive : (s.next b).live = []
    · have hdead : (s.next b).isDead = true := ByteState.isDead_iff.mpr ⟨hlive, hnoticed⟩
      simp [hmatch, hdead, hlive]
    · have hdead : (s.next b).isDead = false :=
        Bool.eq_false_iff.mpr fun h => hlive (ByteState.isDead_iff.mp h).1
      simp [hmatch, hdead, hlive]
  · have hmatch : (s.next b).isMatch = true := by rw [ByteState.isMatch, hnoticed]; rfl
    have hstuck : (s.next b).live = [] → ByteAutomaton.isStuck p (s.next b) = true := fun hnil =>
      ByteAutomaton.isStuck_iff.mpr fun _ => ByteState.isDead_next_of_nil hnil
    by_cases h : ByteAutomaton.isStuck p (s.next b) = true
    · simp [hmatch, h]
    · have hlive : (s.next b).live ≠ [] := fun hnil => h (hstuck hnil)
      simp [hmatch, h, hlive]

/-- Behind the first byte of a character that some pattern could read, some byte leads on. -/
theorem not_isStuck_of_canRead (p : PatternSet) (hlive : live.IsAscii) (hwide : 1 < c.utf8Size)
    (hread : live.canRead before (some 'é') (Live.sharing c 1).1 (Live.sharing c 1).2 = true)
    (noticed : List Nat) :
    ¬ByteAutomaton.isStuck p (⟨before, live, some (.of c 1), noticed⟩ : ByteState) = true := by
  obtain ⟨hlo, hhi⟩ := Live.mem_sharing hwide 1
  have hge : 0x80 ≤ (Live.sharing c 1).1 := Live.le_sharing c 1
  obtain ⟨d, hdlo, hdhi, hd⟩ := Live.exists_next_of_canRead hlive (Nat.le_trans hlo hhi)
    (fun d hlo _ => Regex.Alike.looksLike ⟨by decide, one_lt_utf8Size (Nat.le_trans hge hlo)⟩) hread
  have hdwide := one_lt_utf8Size (Nat.le_trans hge hdlo)
  obtain ⟨b, -, hmore⟩ := Begun.exists_more (c := d) Nat.one_pos hdwide
  rw [ByteAutomaton.isStuck_iff]
  intro hdead
  -- the next byte of a character that would be read
  have hnext := (ByteState.isDead_iff.mp (hdead b)).1
  rw [← Begun.of_eq_of_mem_sharing hwide hdlo hdhi] at hnext
  change (ByteState.within _ [] ((Begun.of d 1).more? b)).live = [] at hnext
  rw [hmore] at hnext
  rcases Nat.lt_or_eq_of_le hdwide with hlt | htwo
  · obtain ⟨hlo', hhi'⟩ := Live.mem_sharing hdwide 2
    have hread' := Live.canRead_of_next hlo' hhi' hd
    rw [Live.canRead_congr (Regex.Alike.looksLike ⟨hdwide, by decide⟩ : Regex.LooksLike d 'é') hlive]
      at hread'
    rw [ByteState.within_of hlt, if_pos hread'] at hnext
    exact Live.ne_nil_of_canRead hread' hnext
  · rw [show 1 + 1 = d.utf8Size from htwo, ByteState.within_of_utf8Size] at hnext
    exact hd hnext

/-- What follows a character that has begun, while it can be read. -/
theorem scanFrom_begun (p : PatternSet) (place : Nat) (hlive : live.IsAscii)
    (hwide : 1 < c.utf8Size) {k : Nat} (hlt : k + 1 < c.utf8Size) (hread : ∀ m, 0 < m → m ≤ k + 1 →
      live.canRead before (some 'é') (Live.sharing c m).1 (Live.sharing c m).2 = true)
    (old : List Nat) (rest : List UInt8) : ∃ noticed,
    let more := ByteAutomaton.scanFrom p
      (⟨before, live, some (.of c (k + 1)), noticed⟩ : ByteState) (place + (k + 1))
      ((String.utf8EncodeChar c).drop (k + 1) ++ rest)
    ByteAutomaton.scanFrom p (⟨before, live, none, old⟩ : ByteState) place
        (String.utf8EncodeChar c ++ rest) =
      ⟨(live.accepting before (some 'é')).map (·, place) ++ more.found, more.examined⟩ := by
  induction k with
  | zero =>
    obtain ⟨b, bytes, hbytes, hb, hfirst⟩ := Begun.exists_first hwide
    have hnext : (⟨before, live, none, old⟩ : ByteState).next b =
        ⟨before, live, some (.of c 1), live.accepting before (some 'é')⟩ := by
      rw [ByteState.next_of_first rfl hb, hfirst, ByteState.within_of hwide,
        if_pos (hread 1 Nat.one_pos (Nat.le_refl 1))]
    refine ⟨live.accepting before (some 'é'), ?_⟩
    rw [hbytes, List.cons_append, scanFrom_cons, hnext, if_neg]
    · rfl
    · rintro (hnil | ⟨-, hstuck⟩)
      · exact Live.ne_nil_of_canRead (hread 1 Nat.one_pos (Nat.le_refl 1)) hnil
      · exact not_isStuck_of_canRead p hlive hwide (hread 1 Nat.one_pos (Nat.le_refl 1)) _ hstuck
  | succ k ih =>
    obtain ⟨noticed, hbefore⟩ := ih (Nat.lt_of_succ_lt hlt) fun m hm hle => hread m hm (Nat.le_succ_of_le hle)
    obtain ⟨b, hb, hmore⟩ := Begun.exists_more (Nat.succ_pos k) (Nat.lt_of_succ_lt hlt)
    obtain ⟨hlength, hget⟩ := List.getElem?_eq_some_iff.mp hb
    have hhere := hread (k + 2) (Nat.succ_pos _) (Nat.le_refl _)
    have hnext : (⟨before, live, some (.of c (k + 1)), noticed⟩ : ByteState).next b =
        ⟨before, live, some (.of c (k + 2)), []⟩ := by
      change ByteState.within _ [] ((Begun.of c (k + 1)).more? b) = _
      rw [hmore, ByteState.within_of hlt, if_pos hhere]
    refine ⟨[], hbefore.trans ?_⟩
    rw [List.drop_eq_getElem_cons hlength, hget, List.cons_append, scanFrom_cons, hnext, if_neg]
    · rfl
    · rintro (hnil | ⟨hne, -⟩)
      · exact Live.ne_nil_of_canRead hhere hnil
      · exact hne rfl

/-- A character is lost with the byte that no pattern could read on with. -/
theorem scanFrom_of_lostWithin (p : PatternSet) (hlive : live.IsAscii) {n : Nat}
    (hlost : live.lostWithin before c = some n) (old : List Nat) (rest : List UInt8) :
    ByteAutomaton.scanFrom p (⟨before, live, none, old⟩ : ByteState) place
        (String.utf8EncodeChar c ++ rest) =
      ⟨(live.accepting before (some 'é')).map (·, place), place + n⟩ := by
  obtain ⟨hpos, hlt⟩ := Live.lt_of_lostWithin hlost
  have hwide : 1 < c.utf8Size := Nat.lt_of_le_of_lt hpos hlt
  have hlooks : Regex.LooksLike c 'é' := Regex.Alike.looksLike ⟨hwide, by decide⟩
  have hgone : ¬live.canRead before (some 'é') (Live.sharing c n).1 (Live.sharing c n).2 = true := by
    have hfound := List.find?_some hlost
    rw [decide_eq_true hlt, Bool.true_and, Bool.not_eq_true', Live.canRead_congr hlooks hlive] at hfound
    rw [hfound]
    exact Bool.false_ne_true
  obtain ⟨n, rfl⟩ := Nat.exists_eq_add_one_of_ne_zero (Nat.pos_iff_ne_zero.mp hpos)
  cases n with
  | zero =>
    obtain ⟨b, bytes, hbytes, hb, hfirst⟩ := Begun.exists_first hwide
    have hnext : (⟨before, live, none, old⟩ : ByteState).next b =
        .lost (live.accepting before (some 'é')) := by
      rw [ByteState.next_of_first rfl hb, hfirst, ByteState.within_of hwide, if_neg hgone]
    rw [hbytes, List.cons_append, scanFrom_cons, hnext, if_pos (.inl rfl)]
    rfl
  | succ k =>
    obtain ⟨noticed, hbegun⟩ := scanFrom_begun p place hlive hwide (k := k)
      (Nat.lt_of_succ_lt hlt) (fun m hm hle => by
        rw [← Live.canRead_congr hlooks hlive]
        exact Live.canRead_of_lt_lostWithin hlost hm (Nat.lt_succ_of_le hle)) old rest
    obtain ⟨b, hb, hmore⟩ := Begun.exists_more (Nat.succ_pos k) (Nat.lt_of_succ_lt hlt)
    obtain ⟨hlength, hget⟩ := List.getElem?_eq_some_iff.mp hb
    have hnext : (⟨before, live, some (.of c (k + 1)), noticed⟩ : ByteState).next b = .lost [] := by
      change ByteState.within _ [] ((Begun.of c (k + 1)).more? b) = _
      rw [hmore, ByteState.within_of hlt, if_neg hgone]
    rw [hbegun, List.drop_eq_getElem_cons hlength, hget, List.cons_append, scanFrom_cons, hnext,
      if_pos (.inl rfl)]
    simp only [ByteState.lost, List.map_nil, List.append_nil, Nat.add_assoc]

/-- With its last byte a character is read. -/
theorem scanFrom_of_not_lostWithin (p : PatternSet) (hlive : live.IsAscii) (hwide : 1 < c.utf8Size)
    (hlost : live.lostWithin before c = none) (old : List Nat) (rest : List UInt8) :
    ByteAutomaton.scanFrom p (⟨before, live, none, old⟩ : ByteState) place
        (String.utf8EncodeChar c ++ rest) =
      if live.next before c = [] then
        ⟨(live.accepting before (some 'é')).map (·, place), place + c.utf8Size⟩
      else
        let more := ByteAutomaton.scanFrom p (⟨some c, live.next before c, none, []⟩ : ByteState)
          (place + c.utf8Size) rest
        ⟨(live.accepting before (some 'é')).map (·, place) ++ more.found, more.examined⟩ := by
  have hlooks : Regex.LooksLike c 'é' := Regex.Alike.looksLike ⟨hwide, by decide⟩
  obtain ⟨k, hk⟩ : ∃ k, c.utf8Size = k + 2 := ⟨c.utf8Size - 2, by omega⟩
  have hlt : k + 1 < c.utf8Size := by omega
  obtain ⟨noticed, hbegun⟩ := scanFrom_begun p place hlive hwide hlt (fun m hm hle => by
    rw [← Live.canRead_congr hlooks hlive]
    exact Live.canRead_of_not_lostWithin hlost hm (Nat.lt_of_le_of_lt hle hlt)) old rest
  obtain ⟨b, hb, hmore⟩ := Begun.exists_more (Nat.succ_pos k) hlt
  obtain ⟨hlength, hget⟩ := List.getElem?_eq_some_iff.mp hb
  have hnext : (⟨before, live, some (.of c (k + 1)), noticed⟩ : ByteState).next b =
      ⟨some c, live.next before c, none, []⟩ := by
    change ByteState.within _ [] ((Begun.of c (k + 1)).more? b) = _
    rw [hmore, show k + 1 + 1 = c.utf8Size from hk.symm, ByteState.within_of_utf8Size]
    rfl
  have hdrop : (String.utf8EncodeChar c).drop (k + 1 + 1) = [] :=
    List.drop_eq_nil_iff.mpr (Nat.le_of_eq ((String.length_utf8EncodeChar c).trans hk))
  rw [hbegun, List.drop_eq_getElem_cons hlength, hget, List.cons_append, scanFrom_cons, hnext, hdrop,
    List.nil_append, hk]
  dsimp only
  by_cases hnil : live.next before c = []
  · rw [if_pos (.inl hnil), if_pos hnil]
    simp only [List.map_nil, List.append_nil, Nat.add_assoc]
  · rw [if_neg hnil, if_neg]
    · rfl
    · rintro (h | ⟨h, -⟩)
      · exact hnil h
      · exact h rfl

/-- What is blind to two characters scans a text alike behind both. -/
theorem scanOn_eq_of_blindTo {before' : Option Char} (h : live.BlindTo before before') (text : List Char) :
    scanOn before place live text = scanOn before' place live text := by
  cases text with
  | nil => rw [scanOn, scanOn, h.accepting_eq]
  | cons c cs =>
    have hlost : live.lostWithin before c = live.lostWithin before' c := by
      simp only [Live.lostWithin, h.canRead_eq]
    rw [scanOn, scanOn, h.accepting_eq, hlost, h.next_eq]

/-- Between two characters, what comes of reading on byte by byte is what comes of reading on character by
character. -/
theorem scanFrom_eq_scanOn (p : PatternSet) (hlive : live.IsAscii) (old : List Nat) (text : List Char) :
    ByteAutomaton.scanFrom p (⟨before, live, none, old⟩ : ByteState) place (utf8Bytes text) =
      scanOn before place live text := by
  induction text generalizing before live place old with
  | nil =>
    -- behind the end of the text, what is in the game is lost, and what it accepts is noticed
    have hend : ByteAutomaton.nextAtEnd p (⟨before, live, none, old⟩ : ByteState) =
        ByteState.lost (live.accepting before none) := rfl
    rw [utf8Bytes_nil, scanOn, ByteAutomaton.scanFrom, hend]
    cases live.accepting before none <;> rfl
  | cons c cs ih =>
    have hbytes : utf8Bytes (c :: cs) = String.utf8EncodeChar c ++ utf8Bytes cs := rfl
    rw [hbytes, scanOn]
    rcases Nat.lt_or_eq_of_le c.utf8Size_pos with hwide | hone
    · have hlooks : Regex.LooksLike c 'é' := Regex.Alike.looksLike ⟨hwide, by decide⟩
      rw [Live.accepting_congr hlooks hlive]
      cases hlost : live.lostWithin before c with
      | some n => exact scanFrom_of_lostWithin p hlive hlost old _
      | none =>
        rw [scanFrom_of_not_lostWithin p hlive hwide hlost old _, ih (Live.isAscii_next hlive)]
        have hsize : decide (c.utf8Size = 1) = false := decide_eq_false (Nat.ne_of_gt hwide)
        simp only [hsize, Bool.and_false, Bool.false_and, Bool.or_false, List.isEmpty_iff]
    · obtain ⟨b, hb, hlt, hseen⟩ := ByteState.seenAs_of_utf8Size_eq_one hone.symm
      have hlost : live.lostWithin before c = none := by
        refine Option.eq_none_iff_forall_ne_some.mpr fun n hn => ?_
        have hwithin := Live.lt_of_lostWithin hn
        omega
      have hstuck : ByteAutomaton.isStuck p (ByteState.behind ⟨before, live, none, old⟩ c
          (live.accepting before (some c))) = (live.next before c).isStuck (some c) := by
        rw [Bool.eq_iff_iff, ByteAutomaton.isStuck_iff]
        exact (ByteState.isStuck_iff rfl (Live.isAscii_next hlive)).symm
      rw [hb, List.singleton_append, scanFrom_cons, ByteState.next_of_ascii rfl hlt, hseen, hlost, hstuck]
      dsimp only [ByteState.behind]
      rw [ih (Live.isAscii_next hlive), ← hone]
      refine if_congr ?_ rfl rfl
      simp

/-- The expressions of a set are read from its sources. -/
theorem exists_of_mem_compileAll? {sources : List String} {patterns : List Regex}
    (h : Regex.compileAll? sources = some patterns) {r : Regex} (hr : r ∈ patterns) :
    ∃ source ∈ sources, Regex.parse? source.toList = some r ∧ r.hasUnicodeLook = false := by
  induction sources generalizing patterns with
  | nil =>
    cases h
    cases hr
  | cons source sources ih =>
    rw [Regex.compileAll?, List.mapM_cons] at h
    obtain ⟨first, hfirst, h⟩ := Option.bind_eq_some_iff.mp h
    obtain ⟨rest, hrest, h⟩ := Option.bind_eq_some_iff.mp h
    obtain rfl := Option.some.inj h
    rcases List.mem_cons.mp hr with rfl | hr
    · split at hfirst
      · rename_i hparse
        split at hfirst
        · cases hfirst
        · rename_i hlook
          obtain rfl := Option.some.inj hfirst
          exact ⟨source, List.mem_cons_self .., hparse, Bool.eq_false_iff.mpr hlook⟩
      · cases hfirst
    · obtain ⟨other, hother, hread⟩ := ih hrest hr
      exact ⟨other, List.mem_cons_of_mem _ hother, hread⟩

/-- The patterns of a set do not ask for the words of all alphabets. -/
theorem isAscii_patterns (p : PatternSet) : (Live.start 0 p.patterns).IsAscii :=
  Live.isAscii_start fun _ hr => by
    obtain ⟨-, -, -, hlook⟩ := exists_of_mem_compileAll? p.compiled hr
    exact hlook

/-- Of the character before, the automaton sees what patterns can see of it. -/
theorem Live.blindTo_of_lastByte (hlive : live.IsAscii) (before : Option Char) :
    live.BlindTo ((before.bind ByteAutomaton.lastByte?).map ByteState.seenAs) before := by
  intro entry hentry r hr
  cases before with
  | none => exact .refl r none
  | some c =>
    rcases Nat.lt_or_eq_of_le c.utf8Size_pos with hwide | hone
    · have hlast : (String.utf8EncodeChar c)[c.utf8Size - 1]? = ByteAutomaton.lastByte? c := by
        rw [ByteAutomaton.lastByte?, List.getLast?_eq_getElem?, String.length_utf8EncodeChar]
      have hlt : c.utf8Size - 1 < (String.utf8EncodeChar c).length := by
        rw [String.length_utf8EncodeChar]
        omega
      obtain ⟨b, hb⟩ : ∃ b, (String.utf8EncodeChar c)[c.utf8Size - 1]? = some b :=
        ⟨_, List.getElem?_eq_getElem hlt⟩
      have hcode := Begun.toNat_of_getElem? (by omega) (by omega) hb
      have hge : ¬b < 0x80 := UInt8.not_lt.mpr (UInt8.le_iff_toNat_le.mpr (hcode ▸ Nat.le_add_left ..))
      rw [Option.bind_some, ← hlast, hb, Option.map_some, ByteState.seenAs, if_neg hge]
      exact Regex.blindTo_of_looksLike (Regex.Alike.looksLike ⟨by decide, hwide⟩) (hlive entry hentry r hr)
    · obtain ⟨b, hb, -, hseen⟩ := ByteState.seenAs_of_utf8Size_eq_one hone.symm
      rw [Option.bind_some, ByteAutomaton.lastByte?, hb, List.getLast?_singleton, Option.map_some, hseen]
      exact .refl r (some c)

/-- **A set of patterns reads a text character by character**, though it is an automaton over bytes. -/
theorem scan_eq_scan (p : PatternSet) (before : Option Char) (text : List Char) :
    ByteAutomaton.scan p before text = p.scan before 0 text :=
  (scanFrom_eq_scanOn p p.isAscii_patterns [] text).trans
    (scanOn_eq_of_blindTo (Live.blindTo_of_lastByte p.isAscii_patterns before) text)

end Texts

end PatternSet

end LRWorkbench
