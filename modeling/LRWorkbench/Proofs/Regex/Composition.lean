import LRWorkbench.Proofs.Except
import LRWorkbench.Proofs.Regex.Meaning
import Mathlib.Data.List.Basic

/-!
# Expressions made of expressions

What a sequence of items matches are pieces that its items match in turn
(`Regex.matches_sequence_iff`), and what alternatives match is what one of them does
(`Regex.matches_choice_iff`). The expression of a text matches that text only
(`Regex.matches_ofText_iff`).

Where the least length of a match is known it is a bound (`Regex.minLength_eq_zero`), and it is known
of an expression that is made of expressions of which it is known.
-/

namespace LRWorkbench.Regex

variable {a b r : Regex} {before after : Option Char} {u v : List Char} {rs : List Regex}

/-! ### One after the other -/

/-- Whether a piece consists of pieces that some expressions match, one after the other. -/
inductive InTurn : List Regex → Option Char → List Char → Option Char → Prop where
  | nil (before after : Option Char) : InTurn [] before [] after
  | cons {r : Regex} {rs : List Regex} {before after : Option Char} {u v : List Char}
      (first : r.Matches before u (v.head?.or after))
      (rest : InTurn rs (u.getLast?.or before) v after) :
      InTurn (r :: rs) before (u ++ v) after

theorem inTurn_singleton : InTurn [r] before u after ↔ r.Matches before u after := by
  constructor
  · intro h
    cases h with
    | @cons _ _ _ _ u _ first rest =>
      cases rest
      rwa [List.append_nil]
  · intro h
    rw [← List.append_nil u]
    exact .cons h (.nil ..)

/-- Two expressions at the end may be put together. -/
theorem inTurn_seq : InTurn (rs ++ [.seq a b]) before u after ↔
    InTurn (rs ++ [a, b]) before u after := by
  induction rs generalizing before u with
  | nil =>
    rw [List.nil_append, List.nil_append, inTurn_singleton]
    constructor
    · intro h
      cases h with
      | seq ha hb => exact .cons ha (inTurn_singleton.mpr hb)
    · intro h
      cases h with
      | cons first rest => exact .seq first (inTurn_singleton.mp rest)
  | cons r rs ih =>
    constructor
    · intro h
      cases h with
      | cons first rest => exact .cons first (ih.mp rest)
    · intro h
      cases h with
      | cons first rest => exact .cons first (ih.mpr rest)

/-- What matches nothing but the empty piece may be left out. -/
theorem inTurn_empty : InTurn (.empty :: rs) before u after ↔ InTurn rs before u after := by
  constructor
  · intro h
    cases h with
    | cons first rest =>
      cases first
      exact rest
  · intro h
    exact .cons (u := []) (.empty ..) h

/-- The expressions of some items, in order. -/
def inOrder (items : List Nested) : List Regex := items.reverse.map (·.regex)

theorem inOrder_cons (x : Nested) (items : List Nested) :
    inOrder (x :: items) = inOrder items ++ [x.regex] := by
  rw [inOrder, List.reverse_cons, List.map_append]
  rfl

/-- Items that are empty match only the empty text, so leaving them out changes nothing. -/
theorem inTurn_filter (items : List Nested) :
    InTurn ((items.filter (!·.isEmpty)).map (·.regex)) before u after ↔
      InTurn (items.map (·.regex)) before u after := by
  induction items generalizing before u with
  | nil => exact Iff.rfl
  | cons x items ih =>
    cases hempty : x.isEmpty with
    | true =>
      have hx : x.regex = .empty := of_decide_eq_true (Bool.and_eq_true_iff.mp hempty).2
      rw [List.filter_cons_of_neg (by simp [hempty]), List.map_cons, hx, inTurn_empty, ih]
    | false =>
      rw [List.filter_cons_of_pos (by simp [hempty]), List.map_cons, List.map_cons]
      constructor
      · intro h
        cases h with
        | cons first rest => exact .cons first (ih.mp rest)
      · intro h
        cases h with
        | cons first rest => exact .cons first (ih.mpr rest)

/-- **A sequence matches what its items match in turn.** -/
theorem matches_sequence_iff (items : List Nested) :
    (Read.sequence items).regex.Matches before u after ↔ InTurn (inOrder items) before u after := by
  have hfold : ∀ (items : List Nested) (r : Regex),
      (items.foldl (fun r x => .seq x.regex r) r).Matches before u after ↔
        InTurn (inOrder items ++ [r]) before u after := by
    intro items
    induction items with
    | nil => exact fun r => inTurn_singleton.symm
    | cons x items ih =>
      intro r
      rw [List.foldl_cons, ih, inTurn_seq, inOrder_cons, List.append_assoc]
      rfl
  have hleft : InTurn (inOrder (items.filter (!·.isEmpty))) before u after ↔
      InTurn (inOrder items) before u after := by
    rw [inOrder, inOrder, ← List.filter_reverse, inTurn_filter]
  rw [Read.sequence, ← hleft]
  split
  · rename_i heq
    rw [heq]
    constructor
    · intro h
      cases h
      exact .nil ..
    · intro h
      cases h
      exact .empty ..
  · rename_i x heq
    rw [heq]
    exact hfold [] x.regex
  · rename_i x before _ heq
    rw [heq, inOrder_cons]
    exact hfold before x.regex

/-! ### Classes

A set of ranges keeps its characters when it is brought into normal form. -/

/-- Whether a code lies in a range. -/
def Covers (r : Nat × Nat) (n : Nat) : Prop := r.1 ≤ n ∧ n ≤ r.2

/-- Ranges that touch or overlap are joined, which changes nothing about what they cover. -/
theorem covers_joined {current : Nat × Nat} {rest : List (Nat × Nat)} {n : Nat}
    (hbegins : ∀ r ∈ rest, current.1 ≤ r.1) (hascend : rest.Pairwise fun r s => r.1 ≤ s.1) :
    (∃ r ∈ CharSet.joined current rest, Covers r n) ↔ ∃ r ∈ current :: rest, Covers r n := by
  induction rest generalizing current with
  | nil => rfl
  | cons r rest ih =>
    obtain ⟨hfirst, hbegins⟩ := List.forall_mem_cons.mp hbegins
    obtain ⟨hnext, hascend⟩ := List.pairwise_cons.mp hascend
    rw [CharSet.joined]
    split
    · rename_i htouch
      have hjoined := @ih (current.1, max current.2 r.2) hbegins hascend
      refine hjoined.trans ?_
      simp only [List.exists_mem_cons_iff, ← or_assoc]
      -- the two ranges leave no gap between them
      refine or_congr_left ?_
      rw [Covers, Covers, Covers]
      omega
    · rw [List.exists_mem_cons_iff, List.exists_mem_cons_iff, ih hnext hascend]

/-- No character is lost with the surrogates. -/
theorem covers_withoutSurrogates {r : Nat × Nat} {n : Nat} (hn : n.isValidChar) :
    (∃ s ∈ CharSet.withoutSurrogates r, Covers s n) ↔ Covers r n := by
  have hchar : n < 0xD800 ∨ 0xDFFF < n := hn.imp_right And.left
  rw [CharSet.withoutSurrogates]
  split
  · simp
  · split <;> split <;> simp [Covers] <;> omega

/-- A class has the characters of its ranges, less those that are out of bounds. -/
theorem contains_ofRanges {rs : List (Nat × Nat)} {c : Char} :
    (CharSet.ofRanges rs).contains c = true ↔ ∃ r ∈ rs, CharSet.InBounds r ∧ Covers r c.toNat := by
  have hsorted : (CharSet.sorted rs).Pairwise fun r s => r.1 ≤ s.1 := CharSet.pairwise_sorted rs
  have hnormal : (∃ r ∈ CharSet.normalized (CharSet.sorted rs), Covers r c.toNat) ↔
      ∃ r ∈ CharSet.sorted rs, Covers r c.toNat := by
    cases hcases : CharSet.sorted rs with
    | nil => rfl
    | cons r rest =>
      rw [hcases] at hsorted
      obtain ⟨hbegins, hascend⟩ := List.pairwise_cons.mp hsorted
      rw [← covers_joined hbegins hascend, CharSet.normalized]
      simp only [List.mem_flatMap]
      constructor
      · rintro ⟨s, ⟨t, ht, hs⟩, hcovers⟩
        exact ⟨t, ht, (covers_withoutSurrogates c.valid).mp ⟨s, hs, hcovers⟩⟩
      · rintro ⟨t, ht, hcovers⟩
        obtain ⟨s, hs, hcovers⟩ := (covers_withoutSurrogates c.valid).mpr hcovers
        exact ⟨s, ⟨t, ht, hs⟩, hcovers⟩
  rw [CharSet.contains, CharSet.containsCode_iff (CharSet.ofRanges rs).normal, CharSet.ranges_ofRanges]
  exact hnormal.trans (by simp only [CharSet.mem_sorted, and_assoc])

theorem contains_iff {s : CharSet} {c : Char} :
    s.contains c = true ↔ ∃ r ∈ s.ranges, Covers r c.toNat := CharSet.containsCode_iff s.normal

/-- **A union holds the characters of both sets.** -/
theorem contains_union {s t : CharSet} {c : Char} :
    (s.union t).contains c = true ↔ s.contains c = true ∨ t.contains c = true := by
  have hbounds : ∀ s : CharSet, ∀ r ∈ s.ranges, CharSet.InBounds r := fun s r hr => by
    obtain ⟨hle, hlast⟩ := s.normal.proper r hr
    exact ⟨hle, by rw [CharSet.maxCode]; omega⟩
  rw [CharSet.union, contains_ofRanges, contains_iff, contains_iff, ← exists_or]
  refine exists_congr fun r => ?_
  rw [List.mem_append, or_and_right]
  exact or_congr (and_congr_right fun hr => and_iff_right (hbounds s r hr))
    (and_congr_right fun hr => and_iff_right (hbounds t r hr))

/-- A union of classes has what one of them has. -/
theorem contains_foldl_union {classes : List CharSet} {s : CharSet} {c : Char} :
    (classes.foldl CharSet.union s).contains c = true ↔
      s.contains c = true ∨ ∃ t ∈ classes, t.contains c = true := by
  induction classes generalizing s with
  | nil => simp
  | cons t classes ih => rw [List.foldl_cons, ih, contains_union, or_assoc, List.exists_mem_cons_iff]

theorem matches_chars_iff {s : CharSet} :
    (Regex.chars s).Matches before u after ↔ ∃ c, u = [c] ∧ s.contains c = true := by
  constructor
  · intro h
    cases h with
    | chars _ _ hc => exact ⟨_, rfl, hc⟩
  · rintro ⟨c, rfl, hc⟩
    exact .chars _ _ hc

/-! ### One of several -/

/-- Single characters and classes are one kind of expression here. -/
theorem regex_of_class? {x : Nested} {s : CharSet} (h : x.class? = some s) : x.regex = .chars s := by
  rw [Nested.class?] at h
  split at h
  · cases h
  · split at h
    · rename_i s' heq
      rw [heq, Option.some.inj h]
    · cases h

/-- Alternatives are joined only if each of them is a class. -/
theorem exists_of_joined? {branches : List Nested} {s : CharSet}
    (h : Read.joined? branches = some s) : ∃ classes, branches.mapM Nested.class? = some classes ∧
      s = classes.foldl CharSet.union .empty := by
  rw [Read.joined?] at h
  split at h
  · cases h
  · rename_i classes hclasses
    split at h
    · exact ⟨classes, hclasses, (Option.some.inj h).symm⟩
    · cases h

/-- The class that alternatives are joined into holds their characters. -/
theorem matches_of_joined? {branches : List Nested} {s : CharSet}
    (h : Read.joined? branches = some s) :
    (Regex.chars s).Matches before u after ↔ ∃ x ∈ branches, x.regex.Matches before u after := by
  obtain ⟨classes, hclasses, rfl⟩ := exists_of_joined? h
  have hnone : ∀ c, CharSet.empty.contains c = false := fun _ => rfl
  simp only [matches_chars_iff, contains_foldl_union, hnone, Bool.false_eq_true, false_or]
  constructor
  · rintro ⟨c, rfl, t, ht, hc⟩
    obtain ⟨x, hx, hclass⟩ := exists_of_mem_mapM_option hclasses ht
    exact ⟨x, hx, by rw [regex_of_class? hclass]; exact .chars _ _ hc⟩
  · rintro ⟨x, hx, hmatch⟩
    obtain ⟨t, ht, hclass⟩ := exists_mem_of_mapM_option hclasses hx
    rw [regex_of_class? hclass, matches_chars_iff] at hmatch
    obtain ⟨c, rfl, hc⟩ := hmatch
    exact ⟨c, rfl, t, ht, hc⟩

/-- **Alternatives match what one of them does.** -/
theorem matches_choice_iff {branches : List Nested} (hne : branches ≠ []) :
    (Read.choice branches).regex.Matches before u after ↔
      ∃ x ∈ branches, x.regex.Matches before u after := by
  have hfold : ∀ (items : List Nested) (r : Regex),
      (items.foldl (fun r x => .alt x.regex r) r).Matches before u after ↔
        r.Matches before u after ∨ ∃ x ∈ items, x.regex.Matches before u after := by
    intro items
    induction items with
    | nil => simp
    | cons x items ih =>
      intro r
      rw [List.foldl_cons, ih]
      have halt : (Regex.alt x.regex r).Matches before u after ↔
          x.regex.Matches before u after ∨ r.Matches before u after := by
        constructor
        · intro h
          cases h with
          | altLeft h => exact .inl h
          | altRight h => exact .inr h
        · rintro (h | h)
          · exact .altLeft h
          · exact .altRight h
      simp only [halt, List.mem_cons, exists_eq_or_imp, or_assoc, or_left_comm]
  match branches with
  | [] => exact absurd rfl hne
  | [x] => simp [Read.choice]
  | x :: y :: branches =>
    rw [Read.choice.eq_def]
    dsimp only
    split
    · rename_i s heq
      exact matches_of_joined? heq
    · rw [hfold]
      simp only [List.mem_cons, exists_eq_or_imp]

/-! ### Texts -/

theorem contains_singleton {c d : Char} : (CharSet.singleton c).contains d = true ↔ d = c := by
  have hcode : d.toNat = c.toNat ↔ d = c := ⟨Char.toNat_inj.mp, congrArg Char.toNat⟩
  rw [← hcode, CharSet.contains, CharSet.singleton]
  simp only [CharSet.containsCode]
  grind

/-- **The expression of a text matches that text only.** -/
theorem matches_ofText_iff {text : List Char} : (ofText text).Matches before u after ↔ u = text := by
  have hchar : ∀ (c : Char) (before after : Option Char) (u : List Char),
      (Regex.chars (.singleton c)).Matches before u after ↔ u = [c] := by
    intro c before after u
    constructor
    · intro h
      cases h with
      | chars _ _ hc => rw [contains_singleton.mp hc]
    · rintro rfl
      exact .chars _ _ (contains_singleton.mpr rfl)
  induction text generalizing before u with
  | nil =>
    constructor
    · intro h
      cases h
      rfl
    · rintro rfl
      exact .empty ..
  | cons c text ih =>
    cases text with
    | nil => exact hchar c before after u
    | cons d text =>
      constructor
      · intro h
        cases h with
        | seq ha hb => rw [(hchar c _ _ _).mp ha, ih.mp hb, List.singleton_append]
      · rintro rfl
        exact .seq (u := [c]) ((hchar c _ _ _).mpr rfl) (ih.mpr rfl)

/-! ### The least length -/

theorem minLength_seq (ha : a.minLength ≠ none) (hb : b.minLength ≠ none) :
    (Regex.seq a b).minLength ≠ none := by
  obtain ⟨m, hm⟩ := Option.ne_none_iff_exists'.mp ha
  obtain ⟨n, hn⟩ := Option.ne_none_iff_exists'.mp hb
  rw [minLength, hm, hn]
  exact Option.some_ne_none _

theorem minLength_alt (ha : a.minLength ≠ none) (hb : b.minLength ≠ none) :
    (Regex.alt a b).minLength ≠ none := by
  obtain ⟨m, hm⟩ := Option.ne_none_iff_exists'.mp ha
  obtain ⟨n, hn⟩ := Option.ne_none_iff_exists'.mp hb
  rw [minLength, hm, hn]
  exact Option.some_ne_none _

theorem minLength_repeated (h : r.minLength ≠ none) (least : Nat) (most : Option Nat) :
    (Regex.repeated r least most).minLength ≠ none := by
  obtain ⟨n, hn⟩ := Option.ne_none_iff_exists'.mp h
  rw [minLength, hn]
  exact Option.some_ne_none _

theorem minLength_sequence {items : List Nested} (h : ∀ x ∈ items, x.regex.minLength ≠ none) :
    (Read.sequence items).regex.minLength ≠ none :=
  Read.holds_sequence (P := fun r => r.minLength ≠ none) (Option.some_ne_none _) h fun _ _ => minLength_seq

/-- The least length of a class is known if there is a character in it. -/
theorem minLength_chars_iff {s : CharSet} : (Regex.chars s).minLength ≠ none ↔
    ∃ before u after, (Regex.chars s).Matches before u after := by
  have hranges : (Regex.chars s).minLength ≠ none ↔ s.ranges ≠ [] := by
    rw [minLength]
    split
    · rename_i heq
      simp [heq]
    · rename_i heq
      simp [heq]
  rw [hranges]
  constructor
  · intro hne
    have hmeets : meets 0 CharSet.maxCode s.ranges = true := by
      obtain ⟨r, rest, hcons⟩ := List.exists_cons_of_ne_nil hne
      have hproper := s.normal.proper r (hcons ▸ List.mem_cons_self ..)
      have hfirst : r.1 ≤ CharSet.maxCode := by
        obtain ⟨hle, hlast⟩ := hproper
        rw [CharSet.maxCode]
        omega
      rw [hcons, meets, decide_eq_true hfirst, decide_eq_true (Nat.zero_le _)]
      rfl
    obtain ⟨c, -, -, hc⟩ := exists_of_meets s (Nat.zero_le _) hmeets
    exact ⟨none, [c], none, matches_chars_iff.mpr ⟨c, rfl, hc⟩⟩
  · rintro ⟨before, u, after, h⟩ hnil
    obtain ⟨c, -, hc⟩ := matches_chars_iff.mp h
    obtain ⟨r, hr, -⟩ := contains_iff.mp hc
    rw [hnil] at hr
    cases hr

theorem minLength_choice {branches : List Nested} (h : ∀ x ∈ branches, x.regex.minLength ≠ none) :
    (Read.choice branches).regex.minLength ≠ none := by
  refine Read.holds_choice (P := fun r => r.minLength ≠ none) (Option.some_ne_none _) h
    (fun _ _ => minLength_alt) fun s hne hjoined => ?_
  obtain ⟨x, hx⟩ := List.exists_mem_of_ne_nil _ hne
  obtain ⟨classes, hclasses, -⟩ := exists_of_joined? hjoined
  obtain ⟨t, -, hclass⟩ := exists_mem_of_mapM_option hclasses hx
  have hlength := h x hx
  rw [regex_of_class? hclass, minLength_chars_iff] at hlength
  -- what one of the classes matches, the class of all does
  obtain ⟨before, u, after, hmatch⟩ := hlength
  exact minLength_chars_iff.mpr ⟨before, u, after,
    (matches_of_joined? hjoined).mpr ⟨x, hx, by rwa [regex_of_class? hclass]⟩⟩

/-- **What matches the empty piece has no least length above zero.** -/
theorem minLength_eq_zero {n : Nat} (hn : r.minLength = some n) (h : r.Matches before [] after) :
    n = 0 := by
  generalize hu : ([] : List Char) = u at h
  induction h generalizing n with
  | empty => exact (Option.some.inj hn).symm
  | chars => cases hu
  | look => exact (Option.some.inj hn).symm
  | @seq a b before after u v ha hb iha ihb =>
    obtain ⟨rfl, rfl⟩ := List.append_eq_nil_iff.mp hu.symm
    rw [minLength] at hn
    split at hn
    · rename_i m k hm hk
      rw [← Option.some.inj hn, iha hm rfl, ihb hk rfl]
    · cases hn
  | altLeft h ih =>
    rw [minLength] at hn
    split at hn
    · rename_i m k hm hk
      rw [← Option.some.inj hn, ih hm hu, Nat.zero_min]
    · cases hn
  | altRight h ih =>
    rw [minLength] at hn
    split at hn
    · rename_i m k hm hk
      rw [← Option.some.inj hn, ih hk hu, Nat.min_zero]
    · cases hn
  | done r most before after =>
    rw [minLength] at hn
    obtain ⟨m, -, rfl⟩ := Option.map_eq_some_iff.mp hn
    exact Nat.zero_mul m
  | more room ha hb iha ihb =>
    obtain ⟨rfl, rfl⟩ := List.append_eq_nil_iff.mp hu.symm
    rw [minLength] at hn
    obtain ⟨m, hm, rfl⟩ := Option.map_eq_some_iff.mp hn
    rw [iha hm rfl, Nat.mul_zero]

end LRWorkbench.Regex
