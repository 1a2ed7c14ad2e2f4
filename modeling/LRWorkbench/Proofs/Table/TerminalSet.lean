import LRWorkbench.Table.TerminalSet
import Mathlib.Data.Finset.Card

/-!
# Sets of terminals are finite sets

How the operations on words change what `contains` says: a set holds what was put into it
(`TerminalSet.contains_insert`), a union what either part holds (`contains_union`), and one set
includes another if it holds all of its members (`includes_iff`). The members below a bound can be
counted, and a union with something new has more of them (`count_lt_count_union`).

Whatever is done to a row of sets, each of them tells what the finite set tells that the same was
done to (`run_shows`). Terminals have numbers of 16 bits, which histories keep to (`below_run`):
beyond them `full` starts anew (`contains_full_iff`), and a build with assertions stops
(`fullAsserted?_eq`, `toListAsserted?_eq`).

Only whether two sets are the same also depends on how many words they have (`run_eq_iff`): two sets
without members that were made for different capacities are not the same (`run_not_extensional`).
-/

namespace LRWorkbench.TerminalSet

variable {a b : TerminalSet} {s t : Symbol}

/-! ### Words and bits -/

/-- Words that are missing count as zero, so that sets may be of any length. -/
theorem getD_joinWords (ws vs : List UInt64) (i : Nat) :
    (joinWords ws vs)[i]?.getD 0 = ws[i]?.getD 0 ||| vs[i]?.getD 0 := by
  induction ws generalizing vs i with
  | nil => simp [joinWords]
  | cons w ws ih =>
    cases vs with
    | nil => simp [joinWords]
    | cons v vs =>
      cases i with
      | zero => rfl
      | succ i => simpa [joinWords] using ih vs i

/-- Setting bits changes the word at one place. -/
theorem getD_setBits (mask : UInt64) (place : Nat) (ws : List UInt64) (i : Nat) :
    (setBits mask place ws)[i]?.getD 0 =
      if i = place then ws[i]?.getD 0 ||| mask else ws[i]?.getD 0 := by
  induction place generalizing ws i with
  | zero => cases ws <;> cases i <;> simp [setBits]
  | succ place ih => cases ws <;> cases i <;> simp [setBits, ih]

/-- So does clearing them. -/
theorem getD_clearBits (mask : UInt64) (place : Nat) (ws : List UInt64) (i : Nat) :
    (clearBits mask place ws)[i]?.getD 0 =
      if i = place then ws[i]?.getD 0 &&& ~~~mask else ws[i]?.getD 0 := by
  induction place generalizing ws i with
  | zero => cases ws <;> cases i <;> simp [clearBits]
  | succ place ih => cases ws <;> cases i <;> simp [clearBits, ih]

/-- Words are added up to the place where bits are set. -/
theorem length_setBits (mask : UInt64) (place : Nat) (ws : List UInt64) :
    (setBits mask place ws).length = max ws.length (place + 1) := by
  induction place generalizing ws with
  | zero => cases ws <;> simp [setBits]
  | succ place ih => cases ws <;> simp [setBits, ih]

/-- None is added where bits are cleared. -/
theorem length_clearBits (mask : UInt64) (place : Nat) (ws : List UInt64) :
    (clearBits mask place ws).length = ws.length := by
  induction place generalizing ws with
  | zero => cases ws <;> simp [clearBits]
  | succ place ih => cases ws <;> simp [clearBits, ih]

theorem length_joinWords (ws vs : List UInt64) :
    (joinWords ws vs).length = max ws.length vs.length := by
  induction ws, vs using joinWords.induct with
  | case1 vs => simp [joinWords]
  | case2 ws => simp [joinWords]
  | case3 w ws v vs ih => simp [joinWords, ih]

/-- The bit of a terminal is a power of two. -/
theorem toBitVec_bit (s : Symbol) : (bit s).toBitVec = BitVec.twoPow 64 (s.index % 64) := by
  have hlt : s.index % 64 < 64 := Nat.mod_lt _ (by omega)
  apply BitVec.eq_of_toNat_eq
  simp [bit, BitVec.toNat_twoPow, Nat.mod_eq_of_lt hlt, Nat.one_shiftLeft]

/-- It is one at a single place of the word. -/
theorem getLsbD_bit (s : Symbol) (j : Nat) :
    (bit s).toBitVec.getLsbD j = decide (s.index % 64 = j) := by
  rw [toBitVec_bit, BitVec.getLsbD_twoPow]
  have hlt : s.index % 64 < 64 := Nat.mod_lt _ (by omega)
  simp [hlt]

/-- A terminal is a member if its bit is set in its word. -/
theorem contains_eq (set : TerminalSet) (s : Symbol) :
    set.contains s = (set.wordOf s).toBitVec.getLsbD (s.index % 64) := by
  have hlt : s.index % 64 < 64 := Nat.mod_lt _ (by omega)
  rw [contains, Bool.eq_iff_iff, bne_iff_ne, ne_eq, ← UInt64.toBitVec_inj, UInt64.toBitVec_and,
    toBitVec_bit, BitVec.and_twoPow]
  cases h : (set.wordOf s).toBitVec.getLsbD (s.index % 64) with
  | false => simp
  | true =>
    simp only [if_true, iff_true]
    intro hzero
    have hset := congrArg (BitVec.getLsbD · (s.index % 64)) hzero
    simp [hlt] at hset

/-- One list of words covers another if joining them adds no bits. -/
theorem coverWords_iff (ws vs : List UInt64) :
    coverWords ws vs = true ↔
      ∀ i : Nat, ws[i]?.getD 0 ||| vs[i]?.getD 0 = ws[i]?.getD 0 := by
  induction ws, vs using coverWords.induct with
  | case1 ws => simp [coverWords]
  | case2 v vs ih =>
    rw [coverWords, Bool.and_eq_true, ih, decide_eq_true_eq]
    constructor
    · rintro ⟨rfl, h⟩ i
      cases i with
      | zero => simp
      | succ i => simpa using h i
    · intro h
      exact ⟨by simpa using h 0, fun i => by simpa using h (i + 1)⟩
  | case3 w ws v vs ih =>
    rw [coverWords, Bool.and_eq_true, ih, decide_eq_true_eq]
    constructor
    · rintro ⟨hw, h⟩ i
      cases i with
      | zero => simpa using hw
      | succ i => simpa using h i
    · intro h
      exact ⟨by simpa using h 0, fun i => by simpa using h (i + 1)⟩

/-- Two lists of words meet if they share a bit in some word. -/
theorem meetWords_iff (ws vs : List UInt64) :
    meetWords ws vs = true ↔ ∃ i : Nat, ws[i]?.getD 0 &&& vs[i]?.getD 0 ≠ 0 := by
  induction ws, vs using meetWords.induct with
  | case1 w ws v vs ih =>
    rw [meetWords, Bool.or_eq_true, ih, bne_iff_ne]
    constructor
    · rintro (hw | ⟨i, hi⟩)
      · exact ⟨0, hw⟩
      · exact ⟨i + 1, hi⟩
    · rintro ⟨i, hi⟩
      cases i with
      | zero => exact .inl hi
      | succ i => exact .inr ⟨i, hi⟩
  | case2 ws vs h =>
    have hnil : ws = [] ∨ vs = [] := by
      cases ws with
      | nil => exact .inl rfl
      | cons w ws =>
        cases vs with
        | nil => exact .inr rfl
        | cons v vs => exact absurd rfl (h w ws v vs rfl)
    rcases hnil with rfl | rfl <;> simp [meetWords]

/-! ### Members -/

/-- The empty set contains nothing, and no capacity adds to it. -/
@[simp] theorem contains_empty (s : Symbol) : empty.contains s = false := by
  simp [contains, wordOf, empty]

@[simp] theorem contains_withCapacity (capacity : Nat) (s : Symbol) :
    (withCapacity capacity).contains s = false := by
  have hword : (withCapacity capacity).wordOf s = 0 := by
    rw [wordOf, withCapacity, List.getElem?_replicate]
    split <;> rfl
  simp [contains, hword]

/-- A union has the members of both sets. -/
@[simp] theorem contains_union (a b : TerminalSet) (s : Symbol) :
    (a.union b).contains s = (a.contains s || b.contains s) := by
  have hword : (a.union b).wordOf s = a.wordOf s ||| b.wordOf s := getD_joinWords ..
  rw [contains_eq, contains_eq, contains_eq, hword, UInt64.toBitVec_or, BitVec.getLsbD_or]

/-- A set holds what is put into it, and what it held before. -/
theorem contains_insert : (a.insert s).contains t = true ↔ t = s ∨ a.contains t = true := by
  obtain ⟨i⟩ := s
  obtain ⟨j⟩ := t
  have hword : (a.insert ⟨i⟩).wordOf ⟨j⟩ =
      if j / 64 = i / 64 then a.wordOf ⟨j⟩ ||| bit ⟨i⟩ else a.wordOf ⟨j⟩ := getD_setBits ..
  rw [contains_eq, contains_eq, hword, Symbol.mk.injEq]
  split
  · rw [UInt64.toBitVec_or, BitVec.getLsbD_or, Bool.or_eq_true, getLsbD_bit, decide_eq_true_eq]
    have hplace : j = i ↔ i % 64 = j % 64 := by omega
    rw [hplace, or_comm]
  · have hplace : j ≠ i := by
      rintro rfl
      contradiction
    simp [hplace]

/-- It holds all but what is taken out of it. -/
theorem contains_remove : (a.remove s).contains t = true ↔ t ≠ s ∧ a.contains t = true := by
  obtain ⟨i⟩ := s
  obtain ⟨j⟩ := t
  have hword : (a.remove ⟨i⟩).wordOf ⟨j⟩ =
      if j / 64 = i / 64 then a.wordOf ⟨j⟩ &&& ~~~bit ⟨i⟩ else a.wordOf ⟨j⟩ := getD_clearBits ..
  have hlt : j % 64 < 64 := Nat.mod_lt _ (by omega)
  rw [contains_eq, contains_eq, hword, ne_eq, Symbol.mk.injEq]
  split
  · rw [UInt64.toBitVec_and, UInt64.toBitVec_not, BitVec.getLsbD_and, BitVec.getLsbD_not, getLsbD_bit]
    have hplace : j = i ↔ i % 64 = j % 64 := by omega
    simp [hplace, hlt, and_comm]
  · have hplace : j ≠ i := by
      rintro rfl
      contradiction
    simp [hplace]

/-- The set of the end of the input alone. -/
theorem contains_endOfInput : (empty.insert .endOfInput).contains s = true ↔ s = .endOfInput := by
  rw [contains_insert, contains_empty]
  simp

/-- Several terminals are put in one after the other. -/
theorem contains_foldl_insert {α : Type} (f : α → Symbol) (l : List α) (a : TerminalSet) :
    (l.foldl (fun set x => set.insert (f x)) a).contains s = true ↔
      (∃ x ∈ l, s = f x) ∨ a.contains s = true := by
  induction l generalizing a with
  | nil => simp
  | cons x l ih =>
    rw [List.foldl_cons, ih, contains_insert, List.exists_mem_cons_iff, ← or_assoc]
    exact or_congr_left or_comm

/-- A set holds what it is made of. -/
theorem contains_ofList {symbols : List Symbol} :
    (ofList symbols).contains s = true ↔ s ∈ symbols := by
  have h := contains_foldl_insert (s := s) id symbols empty
  rw [contains_empty] at h
  simpa [ofList] using h

/-- The set of all terminals holds those below its capacity, as far as there are numbers for them. -/
theorem contains_full_iff {capacity : Nat} :
    (full capacity).contains s = true ↔ s.index < capacity ∧ s.index < 65536 := by
  rw [full, contains_foldl_insert Symbol.ofIndex, contains_withCapacity]
  constructor
  · rintro (⟨i, hi, rfl⟩ | hfalse)
    · have hle : i % 65536 ≤ i := Nat.mod_le i 65536
      exact ⟨hle.trans_lt (List.mem_range.mp hi), Nat.mod_lt i (by decide)⟩
    · cases hfalse
  · rintro ⟨hcapacity, hnumber⟩
    exact .inl ⟨s.index, List.mem_range.mpr hcapacity, (Symbol.ofIndex_of_lt hnumber).symm⟩

/-- The bits of a word are members. -/
theorem getLsbD_word (set : TerminalSet) (i : Nat) {j : Nat} (hj : j < 64) :
    (set.words[i]?.getD 0).toBitVec.getLsbD j = set.contains ⟨64 * i + j⟩ := by
  have hdiv : (64 * i + j) / 64 = i := by omega
  have hmod : (64 * i + j) % 64 = j := by omega
  simp only [contains_eq, wordOf, hdiv, hmod]

/-- One set includes another if it holds all of its members. -/
theorem includes_iff :
    a.includes b = true ↔ ∀ s, b.contains s = true → a.contains s = true := by
  rw [includes, coverWords_iff]
  constructor
  · intro h s hs
    rw [contains_eq] at hs ⊢
    have hword := congrArg (fun w => w.toBitVec.getLsbD (s.index % 64)) (h (s.index / 64))
    rw [UInt64.toBitVec_or, BitVec.getLsbD_or] at hword
    rw [wordOf, ← hword, Bool.or_eq_true]
    exact .inr hs
  · intro h i
    apply UInt64.eq_of_toBitVec_eq
    apply BitVec.eq_of_getLsbD_eq
    intro j hj
    rw [UInt64.toBitVec_or, BitVec.getLsbD_or, getLsbD_word a i hj, getLsbD_word b i hj]
    cases hb : b.contains ⟨64 * i + j⟩ with
    | false => rw [Bool.or_false]
    | true => rw [h _ hb, Bool.or_true]

/-- Two sets share a bit exactly if they share a member. -/
theorem intersects_iff :
    a.intersects b = true ↔ ∃ s, a.contains s = true ∧ b.contains s = true := by
  rw [intersects, meetWords_iff]
  constructor
  · rintro ⟨i, hi⟩
    by_contra hnone
    refine hi (UInt64.eq_of_toBitVec_eq (BitVec.eq_of_getLsbD_eq fun j hj => ?_))
    rw [UInt64.toBitVec_and, BitVec.getLsbD_and, getLsbD_word a i hj, getLsbD_word b i hj]
    simpa using fun ha hb => hnone ⟨_, ha, hb⟩
  · rintro ⟨s, ha, hb⟩
    refine ⟨s.index / 64, fun hzero => ?_⟩
    have hbit := congrArg (fun w => w.toBitVec.getLsbD (s.index % 64)) hzero
    rw [contains_eq, wordOf] at ha hb
    rw [UInt64.toBitVec_and, BitVec.getLsbD_and, ha, hb] at hbit
    simp at hbit

/-- Sets with the same members have the same words, as far as both have any. -/
theorem getD_eq_of_contains (h : ∀ s, a.contains s = b.contains s) (i : Nat) :
    a.words[i]?.getD 0 = b.words[i]?.getD 0 := by
  apply UInt64.eq_of_toBitVec_eq
  apply BitVec.eq_of_getLsbD_eq
  intro j hj
  rw [getLsbD_word a i hj, getLsbD_word b i hj, h]

/-- Sets are the same if they have the same members **and as many words**. -/
theorem eq_iff : a = b ↔
    (∀ s, a.contains s = b.contains s) ∧ a.words.length = b.words.length := by
  constructor
  · rintro rfl
    exact ⟨fun _ => rfl, rfl⟩
  · rintro ⟨hmembers, hlength⟩
    have hwords : a.words = b.words := by
      refine List.ext_getElem hlength fun i ha hb => ?_
      have hword := getD_eq_of_contains hmembers i
      rwa [List.getElem?_eq_getElem ha, List.getElem?_eq_getElem hb, Option.getD_some,
        Option.getD_some] at hword
    exact congrArg TerminalSet.mk hwords

/-- A set is empty if all of its words are zero, that is, if it contains nothing. -/
theorem isEmpty_iff : a.isEmpty = true ↔ ∀ s, a.contains s = false := by
  rw [isEmpty, List.all_eq_true]
  constructor
  · intro h s
    have hword : a.wordOf s = 0 := by
      rw [wordOf]
      cases hget : a.words[s.index / 64]? with
      | none => rfl
      | some w => exact of_decide_eq_true (h w (List.mem_of_getElem? hget))
    simp [contains, hword]
  · intro h w hw
    obtain ⟨i, hi, rfl⟩ := List.getElem_of_mem hw
    have hword := getD_eq_of_contains (a := a) (b := empty)
      (fun s => (h s).trans (contains_empty s).symm) i
    rw [List.getElem?_eq_getElem hi] at hword
    exact decide_eq_true hword

/-! ### Listing members

The words tell the places of the members in ascending order (`ascending_places`), all of them
(`mem_places`) and each of them once (`length_places`). As symbols these are the members again as
long as 16 bits are enough for them (`toList_eq`). -/

/-- The places of the bits that are set in a word. -/
theorem placesOf_eq (start : Nat) (w : UInt64) :
    placesOf start w =
      ((List.range 64).filter fun j => w &&& bit ⟨j⟩ != 0).map fun j => start + j := by
  rw [placesOf]
  split
  · rename_i hzero
    simp [hzero]
  · induction List.range 64 with
    | nil => rfl
    | cons j js ih =>
      rw [List.filterMap_cons, List.filter_cons, ih]
      by_cases hbit : (w &&& bit ⟨j⟩ != 0) = true
      · rw [if_pos hbit, if_pos hbit]
        rfl
      · rw [if_neg hbit, if_neg hbit]

/-- They are counted like the bits of the word. -/
theorem length_placesOf (start : Nat) (w : UInt64) : (placesOf start w).length = countBits w := by
  rw [placesOf_eq, List.length_map, countBits, List.countP_eq_length_filter]

theorem mem_placesOf {start : Nat} {w : UInt64} {n : Nat} :
    n ∈ placesOf start w ↔ ∃ j < 64, (w &&& bit ⟨j⟩ != 0) = true ∧ n = start + j := by
  rw [placesOf_eq, List.mem_map]
  constructor
  · rintro ⟨j, hj, rfl⟩
    obtain ⟨hlt, hbit⟩ := List.mem_filter.mp hj
    exact ⟨j, List.mem_range.mp hlt, hbit, rfl⟩
  · rintro ⟨j, hlt, hbit, rfl⟩
    exact ⟨j, List.mem_filter.mpr ⟨List.mem_range.mpr hlt, hbit⟩, rfl⟩

/-- They are listed in ascending order. -/
theorem ascending_placesOf (start : Nat) (w : UInt64) : (placesOf start w).Pairwise (· < ·) := by
  rw [placesOf_eq, List.pairwise_map]
  refine (List.pairwise_lt_range.filter _).imp fun hlt => ?_
  exact Nat.add_lt_add_left hlt start

/-- The first word holds the first 64 terminals. -/
theorem contains_cons_of_lt (w : UInt64) (ws : List UInt64) {j : Nat} (hj : j < 64) :
    contains ⟨w :: ws⟩ ⟨j⟩ = (w &&& bit ⟨j⟩ != 0) := by
  have hdiv : j / 64 = 0 := Nat.div_eq_of_lt hj
  simp [contains, wordOf, hdiv]

/-- The words behind it hold the terminals from 64 on. -/
theorem contains_cons_add (w : UInt64) (ws : List UInt64) (j : Nat) :
    contains ⟨w :: ws⟩ ⟨64 + j⟩ = contains ⟨ws⟩ ⟨j⟩ := by
  have hdiv : (64 + j) / 64 = j / 64 + 1 := by omega
  have hmod : (64 + j) % 64 = j % 64 := by omega
  simp [contains, wordOf, bit, hdiv, hmod]

/-- The places that are listed are those of the members. -/
theorem mem_placesFrom {start : Nat} {ws : List UInt64} {n : Nat} :
    n ∈ placesFrom start ws ↔ ∃ j, n = start + j ∧ contains ⟨ws⟩ ⟨j⟩ = true := by
  induction ws generalizing start with
  | nil =>
    refine iff_of_false List.not_mem_nil fun ⟨j, _, hj⟩ => ?_
    cases (contains_empty ⟨j⟩).symm.trans hj
  | cons w ws ih =>
    rw [placesFrom, List.mem_append, mem_placesOf, ih]
    constructor
    · rintro (⟨j, hj, hbit, rfl⟩ | ⟨j, rfl, hj⟩)
      · exact ⟨j, rfl, (contains_cons_of_lt w ws hj).trans hbit⟩
      · exact ⟨64 + j, by rw [Nat.add_assoc], (contains_cons_add w ws j).trans hj⟩
    · rintro ⟨j, rfl, hj⟩
      by_cases hlt : j < 64
      · exact .inl ⟨j, hlt, (contains_cons_of_lt w ws hlt).symm.trans hj, rfl⟩
      · obtain ⟨k, rfl⟩ := Nat.exists_eq_add_of_le (Nat.not_lt.mp hlt)
        exact .inr ⟨k, by rw [Nat.add_assoc], (contains_cons_add w ws k).symm.trans hj⟩

theorem mem_places {n : Nat} : n ∈ a.places ↔ a.contains ⟨n⟩ = true := by
  rw [places, mem_placesFrom]
  constructor
  · rintro ⟨j, rfl, hj⟩
    rwa [Nat.zero_add]
  · intro hn
    exact ⟨n, (Nat.zero_add n).symm, hn⟩

/-- Places of later words are greater. -/
theorem ascending_placesFrom (start : Nat) (ws : List UInt64) :
    (placesFrom start ws).Pairwise (· < ·) := by
  induction ws generalizing start with
  | nil => exact .nil
  | cons w ws ih =>
    refine List.pairwise_append.mpr ⟨ascending_placesOf start w, ih (start + 64), ?_⟩
    intro m hm n hn
    obtain ⟨j, hj, -, rfl⟩ := mem_placesOf.mp hm
    obtain ⟨k, rfl, -⟩ := mem_placesFrom.mp hn
    omega

theorem ascending_places (a : TerminalSet) : a.places.Pairwise (· < ·) :=
  ascending_placesFrom 0 a.words

/-- The members are counted by the bits of the words. -/
theorem length_places (a : TerminalSet) : a.places.length = a.size := by
  have hfrom : ∀ start, (placesFrom start a.words).length =
      a.words.foldr (fun w count => countBits w + count) 0 := by
    induction a.words with
    | nil => exact fun _ => rfl
    | cons w ws ih =>
      intro start
      rw [placesFrom, List.length_append, length_placesOf, ih, List.foldr_cons]
  exact hfrom 0

/-! ### Counting members -/

/-- Whether all members are below a bound. -/
def Below (bound : Nat) (a : TerminalSet) : Prop := ∀ s, a.contains s = true → s.index < bound

/-- The number of members below a bound. -/
def count (bound : Nat) (a : TerminalSet) : Nat :=
  ((Finset.range bound).filter fun i => a.contains ⟨i⟩).card

theorem below_empty (bound : Nat) : empty.Below bound := by
  intro s hs
  rw [contains_empty] at hs
  cases hs

/-- A union stays below a bound if both sets do. -/
theorem Below.union {bound : Nat} (ha : a.Below bound) (hb : b.Below bound) :
    (a.union b).Below bound := by
  intro s hs
  rw [contains_union, Bool.or_eq_true] at hs
  exact hs.elim (ha s) (hb s)

/-- What is put in has to be below the bound. -/
theorem Below.insert {bound : Nat} (ha : a.Below bound) (hs : s.index < bound) :
    (a.insert s).Below bound := by
  intro t ht
  rcases contains_insert.mp ht with rfl | ht
  · exact hs
  · exact ha t ht

/-- Sets whose members are numbered by 16 bits list their members. -/
theorem toList_eq (h : a.Below 65536) : a.toList = a.places.map Symbol.mk :=
  List.map_congr_left fun _ hn => Symbol.ofIndex_of_lt (h _ (mem_places.mp hn))

/-- There are no more members below a bound than numbers. -/
theorem count_le (bound : Nat) (a : TerminalSet) : a.count bound ≤ bound :=
  (Finset.card_filter_le ..).trans_eq (Finset.card_range bound)

/-- A union with something new has more members. -/
theorem count_lt_count_union {bound : Nat} (hb : b.Below bound) (h : a.includes b = false) :
    a.count bound < (a.union b).count bound := by
  obtain ⟨s, hs, hnot⟩ : ∃ s, b.contains s = true ∧ a.contains s = false := by
    by_contra hall
    rw [Bool.eq_false_iff, ne_eq, includes_iff] at h
    refine h fun s hs => ?_
    by_contra hnot
    exact hall ⟨s, hs, Bool.eq_false_iff.mpr hnot⟩
  refine Finset.card_lt_card (Finset.ssubset_iff_of_subset ?_ |>.mpr ⟨s.index, ?_, ?_⟩)
  · refine Finset.monotone_filter_right _ fun i _ hi => ?_
    rw [contains_union, hi, Bool.true_or]
  · rw [Finset.mem_filter, Finset.mem_range, contains_union, hs, Bool.or_true]
    exact ⟨hb s hs, rfl⟩
  · simp [hnot]

/-- A union has no fewer members. -/
theorem count_le_count_union (bound : Nat) (a b : TerminalSet) :
    a.count bound ≤ (a.union b).count bound := by
  refine Finset.card_le_card (Finset.monotone_filter_right _ fun i _ hi => ?_)
  rw [contains_union, hi, Bool.true_or]

/-- How much a set and a mark are: the members of the set, and one for the mark. -/
def weight (bound : Nat) (a : TerminalSet) (mark : Bool) : Nat := a.count bound + mark.toNat

/-- A set and a mark cannot grow for ever. -/
theorem weight_le (bound : Nat) (a : TerminalSet) (mark : Bool) : a.weight bound mark ≤ bound + 1 :=
  Nat.add_le_add (count_le bound a) mark.toNat_le

/-- Adding a set and a mark that are not all there makes more of both. -/
theorem weight_lt_weight_union {bound : Nat} (hb : b.Below bound) {mark mark' : Bool}
    (h : (a.includes b && (mark || !mark')) = false) :
    a.weight bound mark < (a.union b).weight bound (mark || mark') := by
  rw [weight, weight]
  cases hincludes : a.includes b with
  | false =>
    have hlt := count_lt_count_union hb hincludes
    cases mark <;> cases mark' <;> simp <;> omega
  | true =>
    have hle := count_le_count_union bound a b
    rw [hincludes] at h
    cases mark <;> cases mark' <;> simp at h ⊢
    omega

/-! ### Numbers of words -/

/-- The number of words that a terminal needs. -/
def wordCount (s : Symbol) : Nat := s.index / 64 + 1

/-- A terminal is put in with as many words as it needs. -/
theorem length_insert (a : TerminalSet) (s : Symbol) :
    (a.insert s).words.length = max a.words.length (wordCount s) := length_setBits ..

/-- The set of all terminals below a capacity does not grow beyond it. -/
theorem length_full (capacity : Nat) : (full capacity).words.length = (capacity + 63) / 64 := by
  have hfold : ∀ (l : List Nat) (a : TerminalSet), (∀ i ∈ l, i < capacity) →
      a.words.length = (capacity + 63) / 64 →
      (l.foldl (fun set i => set.insert (.ofIndex i)) a).words.length = (capacity + 63) / 64 := by
    intro l
    induction l with
    | nil => exact fun a _ ha => ha
    | cons i l ih =>
      intro a hl ha
      obtain ⟨hi, hl⟩ := List.forall_mem_cons.mp hl
      have hle : i % 65536 ≤ i := Nat.mod_le i 65536
      refine ih _ hl ?_
      rw [length_insert, ha, wordCount, Symbol.ofIndex]
      dsimp only
      omega
  exact hfold _ _ (fun i hi => List.mem_range.mp hi) List.length_replicate

/-- A list is put in with as many words as the greatest of its terminals needs. -/
theorem length_ofList (symbols : List Symbol) :
    (ofList symbols).words.length = (symbols.map wordCount).foldl max 0 := by
  have hfold : ∀ a : TerminalSet, (symbols.foldl insert a).words.length =
      (symbols.map wordCount).foldl max a.words.length := by
    induction symbols with
    | nil => exact fun a => rfl
    | cons s symbols ih =>
      intro a
      rw [List.foldl_cons, ih, length_insert, List.map_cons, List.foldl_cons]
  exact hfold empty

/-! ### Builds with assertions

Such a build stops where a place has no symbol of a table; apart from that it does the same. -/

/-- Terminals are put in one by one as long as none of them has the number of the error symbol or a
greater one. -/
theorem foldlM_asserted? (l : List Nat) (a : TerminalSet) :
    l.foldlM (fun set i => (Symbol.asserted? i).map set.insert) a =
      if ∀ i ∈ l, i < 65535 then some (l.foldl (fun set i => set.insert (.ofIndex i)) a)
      else none := by
  induction l generalizing a with
  | nil => rfl
  | cons i l ih =>
    rw [List.foldlM_cons, Symbol.asserted?]
    by_cases hi : i < 65535
    · simp [hi, ih]
    · simp [hi]

/-- A build with assertions makes a full set up to the number of the error symbol. -/
theorem fullAsserted?_eq (capacity : Nat) :
    fullAsserted? capacity = if capacity ≤ 65535 then some (full capacity) else none := by
  have hall : (∀ i ∈ List.range capacity, i < 65535) ↔ capacity ≤ 65535 := by
    constructor
    · intro h
      by_contra hmore
      exact absurd (h 65535 (List.mem_range.mpr (Nat.not_le.mp hmore))) (Nat.lt_irrefl _)
    · exact fun h i hi => (List.mem_range.mp hi).trans_le h
  rw [fullAsserted?, foldlM_asserted?, full]
  exact if_congr hall rfl rfl

/-- Listing stops at the place of the symbol of errors. -/
theorem mapM_asserted? {l : List Nat} (h : ∀ i ∈ l, i < 65536) :
    l.mapM Symbol.asserted? = if 65535 ∈ l then none else some (l.map .ofIndex) := by
  induction l with
  | nil => rfl
  | cons i l ih =>
    obtain ⟨hi, hl⟩ := List.forall_mem_cons.mp h
    rw [List.mapM_cons, Symbol.asserted?, ih hl]
    by_cases hlast : i = 65535
    · simp [hlast]
    · have hlt : i < 65535 := by omega
      by_cases hmem : 65535 ∈ l <;> simp [hlt, hmem, Ne.symm hlast]

/-- A build with assertions lists the members unless the error symbol is among them. -/
theorem toListAsserted?_eq (h : a.Below 65536) :
    a.toListAsserted? = if a.contains .error then none else some a.toList := by
  rw [toListAsserted?, mapM_asserted? fun n hn => h _ (mem_places.mp hn)]
  exact if_congr mem_places rfl rfl

/-! ### Finite sets -/

/-- Members are listed in ascending order. -/
def Ascending (symbols : List Symbol) : Prop := symbols.Pairwise fun s t => s.index < t.index

/-- Whether what can be asked of a set is told as of some members. A build with assertions does not
list sets with the symbol of errors, which is in no table. -/
structure Shows (set : TerminalSet) (members : Finset Symbol) : Prop where
  contains : ∀ s, set.contains s = decide (s ∈ members)
  size : set.size = members.card
  isEmpty : set.isEmpty = decide (members = ∅)
  mem_toList : ∀ s, s ∈ set.toList ↔ s ∈ members
  ascending : Ascending set.toList
  toListAsserted? :
    set.toListAsserted? = if Symbol.error ∈ members then none else some set.toList

def members (set : TerminalSet) : Finset Symbol := (set.places.map Symbol.mk).toFinset

/-- The finite set of the members has what the set contains. -/
theorem mem_members : s ∈ a.members ↔ a.contains s = true := by
  rw [members, List.mem_toFinset, List.mem_map]
  constructor
  · rintro ⟨n, hn, rfl⟩
    exact mem_places.mp hn
  · exact fun hs => ⟨s.index, mem_places.mpr hs, rfl⟩

/-- In ascending order nothing comes twice. -/
theorem Ascending.nodup {symbols : List Symbol} (h : Ascending symbols) : symbols.Nodup :=
  h.imp fun hlt heq => Nat.ne_of_lt hlt (congrArg Symbol.index heq)

/-- Terminals are in the order of their places. -/
theorem ascending_symbols (a : TerminalSet) : Ascending (a.places.map Symbol.mk) := by
  rw [Ascending, List.pairwise_map]
  exact ascending_places a

/-- Sets whose members are numbered by 16 bits tell all of them. -/
theorem shows_members (h : a.Below 65536) : a.Shows a.members where
  contains s := Bool.eq_iff_iff.mpr (by rw [decide_eq_true_iff, mem_members])
  size := by
    rw [members, List.toFinset_card_of_nodup (ascending_symbols a).nodup, List.length_map,
      length_places]
  isEmpty := by
    rw [Bool.eq_iff_iff, isEmpty_iff, decide_eq_true_iff, Finset.eq_empty_iff_forall_notMem]
    exact forall_congr' fun s => by rw [mem_members, Bool.not_eq_true]
  mem_toList s := by rw [toList_eq h, members, List.mem_toFinset]
  ascending := by
    rw [toList_eq h]
    exact ascending_symbols a
  toListAsserted? := (toListAsserted?_eq h).trans (if_congr mem_members.symm rfl rfl)

/-- Two sets intersect if their members are not disjoint. -/
theorem intersects_eq (a b : TerminalSet) :
    a.intersects b = decide ¬ Disjoint a.members b.members := by
  rw [Bool.eq_iff_iff, intersects_iff, decide_eq_true_iff, Finset.not_disjoint_iff]
  exact exists_congr fun s => by rw [mem_members, mem_members]

/-- What a set is made up of: its members, and the number of its words. -/
structure Content where
  members : Finset Symbol
  words : Nat
  deriving DecidableEq

def content (set : TerminalSet) : Content := ⟨set.members, set.words.length⟩

/-- The content is settled by what the set contains and how long it is. -/
theorem content_of {set : TerminalSet} {c : Content}
    (hmembers : ∀ s, set.contains s = true ↔ s ∈ c.members) (hwords : set.words.length = c.words) :
    set.content = c := by
  have hsame : set.members = c.members := Finset.ext fun s => mem_members.trans (hmembers s)
  calc set.content = ⟨set.members, set.words.length⟩ := rfl
    _ = ⟨c.members, c.words⟩ := by rw [hsame, hwords]

/-! ### Histories -/

/-- What is done to a row of sets: one more is put at its end, or one at a place is changed. -/
inductive Command where
  | new (capacity : Nat)
  | full (capacity : Nat)
  | ofList (symbols : List Symbol)
  | insert (place : Nat) (s : Symbol)
  | remove (place : Nat) (s : Symbol)
  | union (place other : Nat)

/-- Whether the terminals of a command have numbers of 16 bits. Capacities may be greater. -/
def Command.IsNumbered : Command → Prop
  | .ofList symbols => ∀ s ∈ symbols, s.index < 65536
  | .insert _ s => s.index < 65536
  | .remove _ s => s.index < 65536
  | .new _ | .full _ | .union _ _ => True

/-- How it is done to sets of some kind. Putting in and joining also tell whether the set grew. -/
structure Kind (α : Type) where
  new : Nat → α
  full : Nat → α
  ofList : List Symbol → α
  insert : α → Symbol → α × Bool
  remove : α → Symbol → α
  union : α → α → α × Bool

namespace Kind

variable {α β : Type}

/-- Changes what is at a place, if anything is, and passes on what is told. -/
def change (row : List α) (place : Nat) (f : α → α × Option Bool) : List α × Option Bool :=
  match row[place]? with
  | none => (row, none)
  | some a => (row.set place (f a).1, (f a).2)

/-- Does one command, and passes on what is told. -/
def step (k : Kind α) (row : List α) : Command → List α × Option Bool
  | .new capacity => (row ++ [k.new capacity], none)
  | .full capacity => (row ++ [k.full capacity], none)
  | .ofList symbols => (row ++ [k.ofList symbols], none)
  | .insert place s => change row place fun a => (k.insert a s).map id some
  | .remove place s => change row place fun a => (k.remove a s, none)
  | .union place other =>
    match row[other]? with
    | none => (row, none)
    | some b => change row place fun a => (k.union a b).map id some

/-- Does one command after the other, and passes on all that is told. -/
def run (k : Kind α) (row : List α) : List Command → List α × List (Option Bool)
  | [] => (row, [])
  | command :: commands =>
    let (next, told) := k.step row command
    (k.run next commands).map id (told :: ·)

/-- Whether doing is the same for sets and for what they are mapped to. -/
structure Maps (f : α → β) (k : Kind α) (k' : Kind β) : Prop where
  new : ∀ capacity, k'.new capacity = f (k.new capacity)
  full : ∀ capacity, k'.full capacity = f (k.full capacity)
  ofList : ∀ symbols, k'.ofList symbols = f (k.ofList symbols)
  insert : ∀ a s, k'.insert (f a) s = (k.insert a s).map f id
  remove : ∀ a s, k'.remove (f a) s = f (k.remove a s)
  union : ∀ a b, k'.union (f a) (f b) = (k.union a b).map f id

variable {f : α → β} {k : Kind α} {k' : Kind β}

/-- A change at a place of a row commutes with a map over the row if it commutes with the map at
that place. -/
theorem change_map (row : List α) (place : Nat) {g : α → α × Option Bool}
    {g' : β → β × Option Bool} (h : ∀ a, g' (f a) = (g a).map f id) :
    change (row.map f) place g' = (change row place g).map (List.map f) id := by
  rw [change, change, List.getElem?_map]
  cases row[place]? with
  | none => rfl
  | some a => simp [h]

/-- One command does the same to the mapped sets. -/
theorem Maps.step (h : Maps f k k') (row : List α) (command : Command) :
    k'.step (row.map f) command = (k.step row command).map (List.map f) id := by
  cases command with
  | new capacity => simp [Kind.step, h.new]
  | full capacity => simp [Kind.step, h.full]
  | ofList symbols => simp [Kind.step, h.ofList]
  | insert place s =>
    refine change_map row place fun a => ?_
    rw [h.insert]
    rfl
  | remove place s =>
    refine change_map row place fun a => ?_
    rw [h.remove]
    rfl
  | union place other =>
    rw [Kind.step, Kind.step, List.getElem?_map]
    cases row[other]? with
    | none => rfl
    | some b =>
      refine change_map row place fun a => ?_
      rw [h.union]
      rfl

/-- So does one command after the other. -/
theorem Maps.run (h : Maps f k k') (row : List α) (commands : List Command) :
    k'.run (row.map f) commands = (k.run row commands).map (List.map f) id := by
  induction commands generalizing row with
  | nil => rfl
  | cons command commands ih =>
    rw [Kind.run, Kind.run, h.step]
    dsimp only [Prod.map_fst, Prod.map_snd]
    rw [ih]
    rfl

end Kind

/-- Sets of words. -/
def ofWords : Kind TerminalSet where
  new := withCapacity
  full := full
  ofList := ofList
  insert := insertNew
  remove := remove
  union := unionNew

/-- A content, along with whether there are more members than before. -/
def Content.grownFrom (now before : Content) : Content × Bool :=
  (now, before.members.card < now.members.card)

/-- Finite sets, each along with a number of words. -/
def ofContents : Kind Content where
  new capacity := ⟨∅, (capacity + 63) / 64⟩
  full capacity := ⟨(Finset.range (min capacity 65536)).image Symbol.mk, (capacity + 63) / 64⟩
  ofList symbols := ⟨symbols.toFinset, (symbols.map wordCount).foldl max 0⟩
  insert c s := Content.grownFrom ⟨Insert.insert s c.members, max c.words (wordCount s)⟩ c
  remove c s := ⟨c.members.erase s, c.words⟩
  union c d := Content.grownFrom ⟨c.members ∪ d.members, max c.words d.words⟩ c

/-- A set that has the members from before has more of them if one of its members is new. -/
theorem Content.grownFrom_eq {now before : Content} (h : before.members ⊆ now.members) :
    now.grownFrom before = (now, decide ¬ now.members ⊆ before.members) := by
  refine congrArg (Prod.mk now) (decide_eq_decide.mpr ⟨fun hlt hsubset => ?_, fun hmore => ?_⟩)
  · exact absurd (Finset.card_le_card hsubset) (Nat.not_le.mpr hlt)
  · exact Finset.card_lt_card ⟨h, hmore⟩

/-- Putting in tells whether a member is new. -/
theorem insert_content (a : TerminalSet) (s : Symbol) :
    ofContents.insert a.content s = (a.insertNew s).map content id := by
  have hcontent : (a.insert s).content =
      ⟨Insert.insert s a.members, max a.words.length (wordCount s)⟩ := by
    refine content_of (fun t => ?_) (length_insert a s)
    rw [contains_insert, Finset.mem_insert, mem_members]
  have hgrown : (!a.contains s) = decide ¬ Insert.insert s a.members ⊆ a.members := by
    rw [Bool.eq_iff_iff, decide_eq_true_iff, Finset.insert_subset_iff, mem_members]
    simp
  calc ofContents.insert a.content s
      = (⟨Insert.insert s a.members, max a.words.length (wordCount s)⟩,
          decide ¬ Insert.insert s a.members ⊆ a.members) :=
        Content.grownFrom_eq (Finset.subset_insert s a.members)
    _ = ((a.insert s).content, !a.contains s) := by rw [hcontent, hgrown]

/-- So does joining. -/
theorem union_content (a b : TerminalSet) :
    ofContents.union a.content b.content = (a.unionNew b).map content id := by
  have hcontent : (a.union b).content =
      ⟨a.members ∪ b.members, max a.words.length b.words.length⟩ := by
    refine content_of (fun t => ?_) (length_joinWords a.words b.words)
    rw [contains_union, Bool.or_eq_true, Finset.mem_union, mem_members, mem_members]
  have hgrown : (!a.includes b) = decide ¬ a.members ∪ b.members ⊆ a.members := by
    rw [Bool.eq_iff_iff, decide_eq_true_iff, Finset.union_subset_iff, Bool.not_eq_true',
      ← Bool.not_eq_true, includes_iff]
    refine not_congr ⟨fun h => ⟨subset_rfl, fun s hs => ?_⟩, fun h s hs => ?_⟩
    · exact mem_members.mpr (h s (mem_members.mp hs))
    · exact mem_members.mp (h.2 (mem_members.mpr hs))
  calc ofContents.union a.content b.content
      = (⟨a.members ∪ b.members, max a.words.length b.words.length⟩,
          decide ¬ a.members ∪ b.members ⊆ a.members) :=
        Content.grownFrom_eq Finset.subset_union_left
    _ = ((a.union b).content, !a.includes b) := by rw [hcontent, hgrown]

/-- What is done to sets of words is done to their contents. -/
theorem maps_content : Kind.Maps content ofWords ofContents where
  new capacity := by
    refine (content_of (fun s => ?_) ?_).symm
    · simp [ofWords, ofContents]
    · exact List.length_replicate
  full capacity := by
    refine (content_of (fun s => ?_) (length_full capacity)).symm
    refine contains_full_iff.trans (Iff.trans ?_ Finset.mem_image.symm)
    constructor
    · exact fun hs => ⟨s.index, Finset.mem_range.mpr (lt_min hs.1 hs.2), rfl⟩
    · rintro ⟨i, hi, rfl⟩
      exact lt_min_iff.mp (Finset.mem_range.mp hi)
  ofList symbols := by
    refine (content_of (fun s => ?_) (length_ofList symbols)).symm
    exact contains_ofList.trans List.mem_toFinset.symm
  insert := insert_content
  remove a s := by
    refine (content_of (fun t => ?_) (length_clearBits ..)).symm
    rw [ofWords, contains_remove, ofContents, Finset.mem_erase, content, mem_members]
  union := union_content

/-! A history of commands with numbers of 16 bits makes sets whose members have such numbers. -/

/-- A set made of terminals below a bound is below it. -/
theorem below_ofList {symbols : List Symbol} {bound : Nat} (h : ∀ s ∈ symbols, s.index < bound) :
    (ofList symbols).Below bound := fun s hs => h s (contains_ofList.mp hs)

/-- Taking out keeps a set below a bound. -/
theorem Below.remove {bound : Nat} (ha : a.Below bound) (s : Symbol) : (a.remove s).Below bound :=
  fun t ht => ha t (contains_remove.mp ht).2

/-- Changing one set of a row keeps all below a bound if the changed set stays below it. -/
theorem below_change {row : List TerminalSet} {bound : Nat} (h : ∀ a ∈ row, a.Below bound)
    (place : Nat) {f : TerminalSet → TerminalSet × Option Bool}
    (hf : ∀ a, a.Below bound → (f a).1.Below bound) :
    ∀ a ∈ (Kind.change row place f).1, a.Below bound := by
  rw [Kind.change]
  cases hplace : row[place]? with
  | none => exact h
  | some a =>
    intro b hb
    rcases List.mem_or_eq_of_mem_set hb with hb | rfl
    · exact h b hb
    · exact hf a (h a (List.mem_of_getElem? hplace))

/-- One more set keeps a row in its bound. -/
theorem below_concat {row : List TerminalSet} {bound : Nat} (h : ∀ a ∈ row, a.Below bound)
    (ha : a.Below bound) : ∀ b ∈ row ++ [a], b.Below bound := by
  intro b hb
  rcases List.mem_append.mp hb with hb | hb
  · exact h b hb
  · rwa [List.mem_singleton.mp hb]

/-- Commands with numbers of 16 bits keep the sets below the bound of such numbers. -/
theorem below_step {row : List TerminalSet} (h : ∀ a ∈ row, a.Below 65536) {command : Command}
    (hcommand : command.IsNumbered) : ∀ a ∈ (ofWords.step row command).1, a.Below 65536 := by
  cases command with
  | new capacity =>
    refine below_concat h fun s hs => ?_
    cases (contains_withCapacity capacity s).symm.trans hs
  | full capacity => exact below_concat h fun s hs => (contains_full_iff.mp hs).2
  | ofList symbols => exact below_concat h (below_ofList hcommand)
  | insert place s => exact below_change h place fun a ha => ha.insert hcommand
  | remove place s => exact below_change h place fun a ha => ha.remove s
  | union place other =>
    rw [Kind.step]
    cases hother : row[other]? with
    | none => exact h
    | some b => exact below_change h place fun a ha => ha.union (h b (List.mem_of_getElem? hother))

/-- So do whole histories of them. -/
theorem below_run {commands : List Command} (h : ∀ command ∈ commands, command.IsNumbered)
    {row : List TerminalSet} (hrow : ∀ a ∈ row, a.Below 65536) :
    ∀ a ∈ (ofWords.run row commands).1, a.Below 65536 := by
  induction commands generalizing row with
  | nil => exact hrow
  | cons command commands ih =>
    obtain ⟨hcommand, hcommands⟩ := List.forall_mem_cons.mp h
    exact ih hcommands (below_step hrow hcommand)

/-- Does one command in a build with assertions. -/
def stepAsserted? (row : List TerminalSet) : Command → Option (List TerminalSet × Option Bool)
  | .full capacity => (fullAsserted? capacity).map fun a => (row ++ [a], none)
  | command => some (ofWords.step row command)

/-- Does one command after the other in a build with assertions. -/
def runAsserted? (row : List TerminalSet) :
    List Command → Option (List TerminalSet × List (Option Bool))
  | [] => some (row, [])
  | command :: commands => do
    let (next, told) ← stepAsserted? row command
    let (last, later) ← runAsserted? next commands
    return (last, told :: later)

/-- Whether a build with assertions goes through with a command. -/
def Command.isAsserted : Command → Bool
  | .full capacity => capacity ≤ 65535
  | _ => true

/-- A command goes through in a build with assertions unless it makes a full set of too great a
capacity. -/
theorem stepAsserted?_eq (row : List TerminalSet) (command : Command) :
    stepAsserted? row command =
      if command.isAsserted then some (ofWords.step row command) else none := by
  cases command with
  | full capacity =>
    rw [stepAsserted?, fullAsserted?_eq]
    by_cases h : capacity ≤ 65535 <;> simp [Command.isAsserted, Kind.step, ofWords, h]
  | _ => rfl

/-- A history goes through if all of its commands do. -/
theorem runAsserted?_eq (row : List TerminalSet) (commands : List Command) :
    runAsserted? row commands =
      if commands.all Command.isAsserted then some (ofWords.run row commands) else none := by
  induction commands generalizing row with
  | nil => rfl
  | cons command commands ih =>
    rw [runAsserted?, stepAsserted?_eq, List.all_cons]
    cases hcommand : command.isAsserted with
    | false => rfl
    | true =>
      rw [if_pos rfl, Option.bind_eq_bind, Option.bind_some]
      dsimp only
      rw [ih, Bool.true_and]
      cases commands.all Command.isAsserted <;> rfl

/-- **Sets of terminals are finite sets.** After any history each set shows the members that the
finite set in its place has, two sets intersect if those do, and all along it was told when a set
grew. The history may ask for any capacities: a full set has all the terminals below its capacity
that there are. A build with assertions stops at capacities beyond the symbols of tables, and does
the same for all others. -/
theorem run_shows {commands : List Command} (h : ∀ command ∈ commands, command.IsNumbered) :
    let sets := ofWords.run [] commands
    let contents := ofContents.run [] commands
    sets.2 = contents.2 ∧
    List.Forall₂ (fun a c => a.Shows c.members) sets.1 contents.1 ∧
    (sets.1.map fun a => sets.1.map a.intersects) =
      (contents.1.map fun c => contents.1.map fun d => decide ¬ Disjoint c.members d.members) ∧
    runAsserted? [] commands = if commands.all Command.isAsserted then some sets else none := by
  intro sets contents
  have hbelow : ∀ a ∈ sets.1, a.Below 65536 := below_run h (List.forall_mem_nil _)
  have hcontents : contents = sets.map (List.map content) id := maps_content.run [] commands
  rw [hcontents]
  refine ⟨rfl, ?_, ?_, runAsserted?_eq [] commands⟩
  · rw [Prod.map_fst, List.forall₂_map_right_iff, List.forall₂_same]
    exact fun a ha => shows_members (hbelow a ha)
  · rw [Prod.map_fst, List.map_map]
    refine List.map_congr_left fun a _ => ?_
    rw [Function.comp_apply, List.map_map]
    exact List.map_congr_left fun b _ => intersects_eq a b

/-- The history that makes one full set. -/
theorem run_full (capacity : Nat) : (ofWords.run [] [.full capacity]).1 = [full capacity] := rfl

/-- As a finite set it has no more than the terminals with numbers of 16 bits. -/
theorem run_full_contents (capacity : Nat) : (ofContents.run [] [.full capacity]).1 =
    [⟨(Finset.range (min capacity 65536)).image Symbol.mk, (capacity + 63) / 64⟩] := rfl

/-- A full set of a capacity beyond 16 bits has all 65536 symbols. -/
theorem run_shows_full :
    (∀ command ∈ [Command.full 70000], command.IsNumbered) ∧ (full 70000).size = 65536 := by
  have hnumbered : ∀ command ∈ [Command.full 70000], command.IsNumbered :=
    List.forall_mem_singleton.mpr trivial
  obtain ⟨-, hshows, -⟩ := run_shows hnumbered
  rw [run_full, run_full_contents] at hshows
  obtain ⟨hfull, -⟩ := List.forall₂_cons.mp hshows
  refine ⟨hnumbered, hfull.size.trans ?_⟩
  rw [Finset.card_image_of_injective _ fun i j h => congrArg Symbol.index h, Finset.card_range]
  rfl

/-- Two sets are the same if they have the same members **and as many words**, which is what their
histories give them. -/
theorem run_eq_iff {commands : List Command} {i j : Nat} {a b : TerminalSet}
    (ha : (ofWords.run [] commands).1[i]? = some a) (hb : (ofWords.run [] commands).1[j]? = some b) :
    ∃ c d, (ofContents.run [] commands).1[i]? = some c ∧ (ofContents.run [] commands).1[j]? = some d ∧
      (a = b ↔ (∀ s, a.contains s = b.contains s) ∧ c.words = d.words) := by
  have hcontents : (ofContents.run [] commands).1 = (ofWords.run [] commands).1.map content :=
    congrArg Prod.fst (maps_content.run [] commands)
  refine ⟨a.content, b.content, ?_, ?_, eq_iff⟩
  · rw [hcontents, List.getElem?_map, ha, Option.map_some]
  · rw [hcontents, List.getElem?_map, hb, Option.map_some]

/-- A set that grew for its member is the set that was made of it. -/
theorem run_eq_iff_grown :
    let commands : List Command := [.new 0, .ofList [⟨70⟩], .insert 0 ⟨70⟩]
    ∃ a b, (ofWords.run [] commands).1[0]? = some a ∧ (ofWords.run [] commands).1[1]? = some b ∧
      ∃ c d, (ofContents.run [] commands).1[0]? = some c ∧ (ofContents.run [] commands).1[1]? = some d ∧
        (a = b ↔ (∀ s, a.contains s = b.contains s) ∧ c.words = d.words) :=
  ⟨_, _, rfl, rfl, run_eq_iff rfl rfl⟩

/-- Two sets without members that are not the same. -/
theorem run_not_extensional :
    ∃ a b, (ofWords.run [] [.new 0, .new 64]).1 = [a, b] ∧
      (∀ s, a.contains s = b.contains s) ∧ a ≠ b :=
  ⟨withCapacity 0, withCapacity 64, rfl,
    fun s => (contains_withCapacity 0 s).trans (contains_withCapacity 64 s).symm, by decide⟩

end LRWorkbench.TerminalSet
