/-!
# Sets of characters

A `CharSet` is a list of ranges of code points **in normal form**: the ranges ascend and do not overlap,
and they hold the codes of characters only, so no surrogates. A set is empty exactly if it has no range.

`ofHex` reads the tables of this folder: ranges in hexadecimal, separated by blanks, a range of
one code point written once.
-/

namespace LRWorkbench

namespace CharSet

/-- Whether a range holds the code of a character, and no surrogates. -/
def IsProper (r : Nat × Nat) : Prop :=
  r.1 ≤ r.2 ∧ (r.2 < 0xD800 ∨ 0xDFFF < r.1 ∧ r.2 < 0x110000)

instance : DecidablePred IsProper := fun _ => inferInstanceAs (Decidable (_ ∧ _))

theorem IsProper.isValidChar {r : Nat × Nat} (h : IsProper r) {n : Nat} (hlo : r.1 ≤ n) (hhi : n ≤ r.2) :
    n.isValidChar := by
  obtain ⟨-, h | ⟨h, h'⟩⟩ := h
  · exact .inl (Nat.lt_of_le_of_lt hhi h)
  · exact .inr ⟨Nat.lt_of_lt_of_le h hlo, Nat.lt_of_le_of_lt hhi h'⟩

/-- Whether ranges ascend without overlaps and hold the codes of characters only. -/
structure IsNormal (ranges : List (Nat × Nat)) : Prop where
  ascending : ranges.Pairwise fun r s => r.2 < s.1
  proper : ∀ r ∈ ranges, IsProper r

instance (ranges : List (Nat × Nat)) : Decidable (IsNormal ranges) :=
  decidable_of_iff _ ⟨fun h => ⟨h.1, h.2⟩, fun h => And.intro h.ascending h.proper⟩

end CharSet

/-- A set of characters as ranges of code points, both ends included. -/
structure CharSet where
  ranges : List (Nat × Nat)
  normal : CharSet.IsNormal ranges
  deriving DecidableEq, Repr

namespace CharSet

/-- The greatest code point. -/
def maxCode : Nat := 0x10FFFF

/-- The set without characters. -/
def empty : CharSet := ⟨[], .nil, nofun⟩

instance : Inhabited CharSet := ⟨empty⟩

/-- Whether no character belongs to the set. -/
def isEmpty (s : CharSet) : Bool := s.ranges.isEmpty

/-- Whether a code point lies in one of the ranges, given in ascending order. -/
def containsCode (n : Nat) : List (Nat × Nat) → Bool
  | [] => false
  | (lo, hi) :: rest => if n < lo then false else if n ≤ hi then true else containsCode n rest

/-- Whether a character belongs to the set. -/
def contains (s : CharSet) (c : Char) : Bool := containsCode c.toNat s.ranges

theorem containsCode_iff {ranges : List (Nat × Nat)} (h : IsNormal ranges) {n : Nat} :
    containsCode n ranges = true ↔ ∃ r ∈ ranges, r.1 ≤ n ∧ n ≤ r.2 := by
  induction ranges with
  | nil => simp [containsCode]
  | cons r rest ih =>
    obtain ⟨hbehind, hascend⟩ := List.pairwise_cons.mp h.ascending
    obtain ⟨hr, hproper⟩ := List.forall_mem_cons.mp h.proper
    have hlo := hr.1
    have hmem : (∃ s ∈ r :: rest, s.1 ≤ n ∧ n ≤ s.2) ↔
        (r.1 ≤ n ∧ n ≤ r.2) ∨ ∃ s ∈ rest, s.1 ≤ n ∧ n ≤ s.2 := by
      simp only [List.mem_cons, or_and_right, exists_or, exists_eq_left]
    rw [containsCode, hmem, ← ih ⟨hascend, hproper⟩]
    split
    · rename_i hlt
      -- the ranges behind begin even later
      refine iff_of_false Bool.false_ne_true ?_
      rintro (⟨hle, -⟩ | hrest)
      · omega
      · obtain ⟨s, hs, hle, -⟩ := (ih ⟨hascend, hproper⟩).mp hrest
        have hgap := hbehind s hs
        omega
    · split
      · exact iff_of_true rfl (.inl ⟨by omega, by assumption⟩)
      · rename_i hgt
        exact (or_iff_right fun hmem => hgt hmem.2).symm

/-- Removes surrogates from a range. -/
def withoutSurrogates (r : Nat × Nat) : List (Nat × Nat) :=
  if r.2 < 0xD800 ∨ 0xDFFF < r.1 then [r]
  else
    (if r.1 < 0xD800 then [(r.1, 0xD7FF)] else []) ++
      (if 0xDFFF < r.2 then [(0xE000, r.2)] else [])

/-- Joins ranges from the front, so that a wide range swallows all it covers. -/
def joined (current : Nat × Nat) : List (Nat × Nat) → List (Nat × Nat)
  | [] => [current]
  | r :: rest =>
    if r.1 ≤ current.2 + 1 then joined (current.1, max current.2 r.2) rest
    else current :: joined r rest

/-- The ranges of some ranges that ascend, without overlaps and surrogates. -/
def normalized : List (Nat × Nat) → List (Nat × Nat)
  | [] => []
  | r :: rest => (joined r rest).flatMap withoutSurrogates

/-- Whether a range holds a code point and none that is too great. -/
def InBounds (r : Nat × Nat) : Prop := r.1 ≤ r.2 ∧ r.2 ≤ maxCode

instance : DecidablePred InBounds := fun _ => inferInstanceAs (Decidable (_ ∧ _))

/-- Puts a range in its place among ranges that ascend. -/
def insert (r : Nat × Nat) : List (Nat × Nat) → List (Nat × Nat)
  | [] => [r]
  | s :: rest => if r.1 ≤ s.1 then r :: s :: rest else s :: insert r rest

/-- Some ranges in ascending order, without those that are not in bounds. Ranges that ascend already, as
most do, are put in their places at once. -/
def sorted (rs : List (Nat × Nat)) : List (Nat × Nat) := (rs.filter InBounds).foldr insert []

section Normal

variable {r current : Nat × Nat} {rest : List (Nat × Nat)}

/-- Joined ranges begin where the first one does, and there is a gap behind each. -/
theorem joined_spec (hcurrent : InBounds current) (hbegins : ∀ r ∈ rest, current.1 ≤ r.1)
    (hrest : ∀ r ∈ rest, InBounds r) (hascend : rest.Pairwise fun r s => r.1 ≤ s.1) :
    (joined current rest).Pairwise (fun r s => r.2 < s.1) ∧
      ∀ r ∈ joined current rest, current.1 ≤ r.1 ∧ InBounds r := by
  induction rest generalizing current with
  | nil =>
    refine ⟨List.pairwise_singleton .., fun r hr => ?_⟩
    rw [List.mem_singleton.mp hr]
    exact ⟨Nat.le_refl _, hcurrent⟩
  | cons r rest ih =>
    obtain ⟨hr, hrest⟩ := List.forall_mem_cons.mp hrest
    obtain ⟨hfirst, hbegins⟩ := List.forall_mem_cons.mp hbegins
    obtain ⟨hnext, hascend⟩ := List.pairwise_cons.mp hascend
    rw [joined]
    split
    · exact ih ⟨Nat.le_trans hcurrent.1 (Nat.le_max_left ..), Nat.max_le.mpr ⟨hcurrent.2, hr.2⟩⟩
        hbegins hrest hascend
    · rename_i hgap
      obtain ⟨hpairs, hall⟩ := ih hr hnext hrest hascend
      refine ⟨List.pairwise_cons.mpr ⟨fun s hs => ?_, hpairs⟩, fun s hs => ?_⟩
      · have hle := (hall s hs).1
        omega
      · rcases List.mem_cons.mp hs with rfl | hs
        · exact ⟨Nat.le_refl _, hcurrent⟩
        · exact ⟨Nat.le_trans hfirst (hall s hs).1, (hall s hs).2⟩

/-- What is left of a range lies within it. -/
theorem withoutSurrogates_spec (hr : InBounds r) :
    IsNormal (withoutSurrogates r) ∧ ∀ s ∈ withoutSurrogates r, r.1 ≤ s.1 ∧ s.2 ≤ r.2 := by
  have hmax : r.2 ≤ 0x10FFFF := hr.2
  have hle := hr.1
  rw [withoutSurrogates]
  split
  · refine ⟨⟨List.pairwise_singleton .., fun s hs => ?_⟩, fun s hs => ?_⟩
    · rw [List.mem_singleton.mp hs]
      exact ⟨hle, by omega⟩
    · rw [List.mem_singleton.mp hs]
      exact ⟨Nat.le_refl _, Nat.le_refl _⟩
  · constructor
    · constructor
      · split <;> split <;> simp
      · intro s hs
        rcases List.mem_append.mp hs with hs | hs <;> split at hs
        · obtain rfl := List.mem_singleton.mp hs
          exact ⟨by dsimp only; omega, .inl (Nat.lt_succ_self _)⟩
        · cases hs
        · obtain rfl := List.mem_singleton.mp hs
          exact ⟨by dsimp only; omega, .inr ⟨Nat.lt_succ_self _, by dsimp only; omega⟩⟩
        · cases hs
    · intro s hs
      rcases List.mem_append.mp hs with hs | hs <;> split at hs
      · obtain rfl := List.mem_singleton.mp hs
        exact ⟨Nat.le_refl _, by dsimp only; omega⟩
      · cases hs
      · obtain rfl := List.mem_singleton.mp hs
        exact ⟨by dsimp only; omega, Nat.le_refl _⟩
      · cases hs

theorem isNormal_normalized {rs : List (Nat × Nat)} (hbounds : ∀ r ∈ rs, InBounds r)
    (hascend : rs.Pairwise fun r s => r.1 ≤ s.1) : IsNormal (normalized rs) := by
  cases rs with
  | nil => exact ⟨.nil, nofun⟩
  | cons r rest =>
    obtain ⟨hr, hrest⟩ := List.forall_mem_cons.mp hbounds
    obtain ⟨hbegins, hascend⟩ := List.pairwise_cons.mp hascend
    obtain ⟨hpairs, hall⟩ := joined_spec hr hbegins hrest hascend
    constructor
    · refine List.pairwise_flatMap.mpr
        ⟨fun s hs => (withoutSurrogates_spec (hall s hs).2).1.ascending, ?_⟩
      refine hpairs.imp_of_mem fun {s t} hs ht hlt x hx y hy => ?_
      have hx := ((withoutSurrogates_spec (hall s hs).2).2 x hx).2
      have hy := ((withoutSurrogates_spec (hall t ht).2).2 y hy).1
      omega
    · intro x hx
      obtain ⟨s, hs, hx⟩ := List.mem_flatMap.mp hx
      exact (withoutSurrogates_spec (hall s hs).2).1.proper x hx

theorem mem_insert {s : Nat × Nat} : s ∈ insert r rest ↔ s = r ∨ s ∈ rest := by
  induction rest with
  | nil => simp [insert]
  | cons t rest ih =>
    rw [insert]
    split
    · exact List.mem_cons
    · rw [List.mem_cons, List.mem_cons, ih]
      exact or_left_comm

theorem pairwise_insert (h : rest.Pairwise fun r s => r.1 ≤ s.1) :
    (insert r rest).Pairwise fun r s => r.1 ≤ s.1 := by
  induction rest with
  | nil => exact List.pairwise_singleton ..
  | cons t rest ih =>
    obtain ⟨hnext, hrest⟩ := List.pairwise_cons.mp h
    rw [insert]
    split
    · rename_i hle
      refine List.pairwise_cons.mpr ⟨fun s hs => ?_, h⟩
      rcases List.mem_cons.mp hs with rfl | hs
      · exact hle
      · exact Nat.le_trans hle (hnext s hs)
    · rename_i hgt
      refine List.pairwise_cons.mpr ⟨fun s hs => ?_, ih hrest⟩
      rcases mem_insert.mp hs with rfl | hs
      · exact Nat.le_of_not_le hgt
      · exact hnext s hs

theorem mem_sorted {rs : List (Nat × Nat)} : r ∈ sorted rs ↔ r ∈ rs ∧ InBounds r := by
  have hfold : ∀ rs : List (Nat × Nat), r ∈ rs.foldr insert [] ↔ r ∈ rs := by
    intro rs
    induction rs with
    | nil => exact Iff.rfl
    | cons s rs ih => rw [List.foldr_cons, mem_insert, ih, List.mem_cons]
  rw [sorted, hfold, List.mem_filter, decide_eq_true_eq]

theorem pairwise_sorted (rs : List (Nat × Nat)) : (sorted rs).Pairwise fun r s => r.1 ≤ s.1 := by
  rw [sorted]
  induction rs.filter InBounds with
  | nil => exact .nil
  | cons r rs ih => exact pairwise_insert ih

theorem isNormal_normalized_sorted (rs : List (Nat × Nat)) : IsNormal (normalized (sorted rs)) :=
  isNormal_normalized (fun _ hr => (mem_sorted.mp hr).2) (pairwise_sorted rs)

end Normal

/-- The characters of some ranges, given in any order. -/
def ofRanges (rs : List (Nat × Nat)) : CharSet := ⟨normalized (sorted rs), isNormal_normalized_sorted rs⟩

@[simp] theorem ranges_ofRanges (rs : List (Nat × Nat)) : (ofRanges rs).ranges = normalized (sorted rs) :=
  rfl

theorem isNormal_singleton (c : Char) : IsNormal [(c.toNat, c.toNat)] where
  ascending := List.pairwise_singleton ..
  proper := by
    intro r hr
    obtain rfl := List.mem_singleton.mp hr
    exact ⟨Nat.le_refl _, c.valid.imp_right fun h => ⟨h.1, h.2⟩⟩

/-- The set of one character. -/
def singleton (c : Char) : CharSet := ⟨[(c.toNat, c.toNat)], isNormal_singleton c⟩

/-- Whether the set has one character. -/
def isSingleton (s : CharSet) : Bool :=
  match s.ranges with
  | [(lo, hi)] => lo = hi
  | _ => false

/-- The characters between two, both included. -/
def range (lo hi : Nat) : CharSet := ofRanges [(lo, hi)]

/-- The gaps between ascending ranges, from a code point on. -/
def gaps (start : Nat) : List (Nat × Nat) → List (Nat × Nat)
  | [] => if start ≤ maxCode then [(start, maxCode)] else []
  | (lo, hi) :: rest =>
    if start < lo then (start, lo - 1) :: gaps (hi + 1) rest else gaps (hi + 1) rest

/-- All characters outside a set. -/
def complement (s : CharSet) : CharSet := ofRanges (gaps 0 s.ranges)

/-- All characters. -/
def all : CharSet := complement empty

/-- The characters of either set. -/
def union (s t : CharSet) : CharSet := ofRanges (s.ranges ++ t.ranges)

/-- The characters of both sets. -/
def inter (s t : CharSet) : CharSet := complement (union (complement s) (complement t))

/-- The characters of the first set that are not in the second. -/
def diff (s t : CharSet) : CharSet := complement (union (complement s) t)

/-- The characters of exactly one of the sets. -/
def symmDiff (s t : CharSet) : CharSet := union (diff s t) (diff t s)

/-- The value of a hexadecimal digit in lower case. -/
def hexDigit? (c : Char) : Option Nat :=
  if '0' ≤ c ∧ c ≤ '9' then some (c.toNat - '0'.toNat)
  else if 'a' ≤ c ∧ c ≤ 'f' then some (c.toNat - 'a'.toNat + 10)
  else none

/-- What has been read of a range in hexadecimal: its lower end once a dash was seen. -/
structure HexReading where
  low : Option Nat
  number : Option Nat
  done : List (Nat × Nat)

/-- Closes the range being read. -/
def HexReading.close (r : HexReading) : HexReading :=
  match r.number with
  | none => r
  | some n => ⟨none, none, (r.low.getD n, n) :: r.done⟩

/-- Reads one more character of a list of ranges. -/
def HexReading.push (r : HexReading) (c : Char) : HexReading :=
  match hexDigit? c with
  | some d => { r with number := some (r.number.getD 0 * 16 + d) }
  | none => if c = '-' then { r with low := r.number, number := none } else r.close

/-- The ranges written in hexadecimal, separated by blanks or line breaks. -/
def rangesOfHex (text : String) : List (Nat × Nat) :=
  (text.toList.foldl HexReading.push ⟨none, none, []⟩).close.done.reverse

/-- The set written as ranges in hexadecimal. -/
def ofHex (text : String) : CharSet := ofRanges (rangesOfHex text)

end CharSet

end LRWorkbench
