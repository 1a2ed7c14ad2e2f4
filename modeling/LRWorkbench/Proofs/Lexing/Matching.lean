import LRWorkbench.Proofs.Lexing.Locality
import LRWorkbench.Proofs.Regex.Meaning

/-!
# What a set of patterns finds

Patterns read a text together: what is left of them after a character is in the game as long as it
is not empty. A piece is matched by what is in the game just if the rest of the piece is matched by
what is left after its first character (`PatternSet.Live.matchedBy_cons_iff`). So what is found is
matched (`PatternSet.exists_of_mem_scanOn`).

Scanning may stop before the text ends. It does no harm to stop where no pattern could read the next
character (`Live.next_of_lostWithin`), nor where no character at all would lead on, as long as the
text goes on (`Live.not_matchedBy_of_isStuck`). There are endless characters, but conditions tell
only five kinds of them apart (`Live.exists_kind`). At the end of the text, though, it may be too
early to stop, and so all matches are found only if the end is noticed
(`PatternSet.mem_found_iff`).
-/

namespace LRWorkbench

open Text

namespace PatternSet

namespace Live

variable {live : Live} {before after : Option Char} {c : Char} {u : List Char} {number : Nat}

/-- Whether what is left of a pattern in the game matches a piece. -/
def MatchedBy (live : Live) (before : Option Char) (piece : List Char) (after : Option Char)
    (number : Nat) : Prop :=
  ∃ rests, (number, rests) ∈ live ∧ ∃ r ∈ rests, r.Matches before piece after

/-- Whether all that is left of patterns is well-formed. -/
def WellFormed (live : Live) : Prop := ∀ entry ∈ live, ∀ r ∈ entry.2, r.WellFormed

theorem mem_accepting_iff (hlive : live.WellFormed) :
    number ∈ live.accepting before after ↔ live.MatchedBy before [] after number := by
  constructor
  · intro h
    obtain ⟨⟨number', rests⟩, hmem, h⟩ := List.mem_filterMap.mp h
    dsimp only at h
    split at h
    · rename_i hany
      obtain rfl := Option.some.inj h
      obtain ⟨r, hr, hnullable⟩ := List.any_eq_true.mp hany
      exact ⟨rests, hmem, r, hr, Regex.matches_of_nullable (hlive _ hmem r hr) hnullable⟩
    · cases h
  · rintro ⟨rests, hmem, r, hr, hmatch⟩
    refine List.mem_filterMap.mpr ⟨(number, rests), hmem, ?_⟩
    exact if_pos (List.any_eq_true.mpr ⟨r, hr, Regex.nullable_of_matches hmatch⟩)

theorem WellFormed.next (hlive : live.WellFormed) : (live.next before c).WellFormed := by
  rintro ⟨number, rests⟩ hmem r hr
  obtain ⟨-, old, hold, rfl⟩ := mem_next_iff.mp hmem
  obtain ⟨x, hx, hres⟩ := List.mem_flatMap.mp (List.mem_eraseDups.mp hr)
  exact (hlive _ hold x hx).of_mem_residuals hres

/-- A piece that begins with a character is matched by what is left after the character. -/
theorem matchedBy_cons_iff (hlive : live.WellFormed) :
    live.MatchedBy before (c :: u) after number ↔
      (live.next before c).MatchedBy (some c) u after number := by
  constructor
  · rintro ⟨old, hmem, r, hr, hmatch⟩
    obtain ⟨x, hx, hmatch⟩ := hmatch.exists_residual
    have hleft := List.mem_eraseDups.mpr (List.mem_flatMap.mpr ⟨r, hr, hx⟩)
    exact ⟨_, mem_next_iff.mpr ⟨List.ne_nil_of_mem hleft, old, hmem, rfl⟩, x, hleft, hmatch⟩
  · rintro ⟨rests, hmem, x, hx, hmatch⟩
    obtain ⟨-, old, hold, rfl⟩ := mem_next_iff.mp hmem
    obtain ⟨r, hr, hres⟩ := List.mem_flatMap.mp (List.mem_eraseDups.mp hx)
    exact ⟨old, hold, r, hr, Regex.matches_of_residual (hlive _ hold r hr) hres hmatch⟩

/-! ### When to stop -/

/-- No pattern goes on with a character within which it is lost. -/
theorem next_of_lostWithin {n : Nat} (h : live.lostWithin before c = some n) :
    live.next before c = [] := by
  by_contra hne
  obtain ⟨hpos, hlt⟩ := lt_of_lostWithin h
  obtain ⟨hlo, hhi⟩ := mem_sharing (Nat.lt_of_le_of_lt hpos hlt) n
  have hlost := List.find?_some h
  rw [canRead_of_next hlo hhi hne, Bool.not_true, Bool.and_false] at hlost
  cases hlost

/-- Where no next character leads on, nothing is matched but what ends here, and this only if
nothing at all follows. -/
theorem not_matchedBy_of_isStuck (hwf : live.WellFormed) (hlive : live.IsAscii)
    (hstuck : live.isStuck before = true) (hmore : u ≠ [] ∨ after ≠ none) :
    ¬live.MatchedBy before u after number := by
  have hdead := dead_of_isStuck hlive hstuck
  intro hmatch
  cases u with
  | cons d u =>
    obtain ⟨rests, hmem, -⟩ := (matchedBy_cons_iff hwf).mp hmatch
    rw [(hdead d).2] at hmem
    cases hmem
  | nil =>
    obtain ⟨d, rfl⟩ := Option.ne_none_iff_exists'.mp (hmore.resolve_left (fun h => h rfl))
    have hmem := (mem_accepting_iff hwf).mpr hmatch
    rw [(hdead d).1] at hmem
    cases hmem

/-- Whether the end of the text is noticed when patterns match up to it. It may not be if a match
was noticed just before the last character, unless some pattern matches as much or more in a longer
text. -/
def NoticesEnd (live : Live) (before : Option Char) (text : List Char) : Prop :=
  ∀ front last, text = front ++ [last] → last.utf8Size = 1 →
    (∃ number, live.MatchedBy before front (some last) number) →
    (∃ number, live.MatchedBy before text none number) →
    ∃ number u after, (u ≠ [] ∨ after ≠ none) ∧ live.MatchedBy before (text ++ u) after number

theorem NoticesEnd.next {cs : List Char} (hwf : live.WellFormed)
    (h : live.NoticesEnd before (c :: cs)) : (live.next before c).NoticesEnd (some c) cs := by
  rintro front last rfl hlast ⟨early, hearly⟩ ⟨number, hmatch⟩
  obtain ⟨other, u, after, hmore, hother⟩ := h (c :: front) last rfl hlast
    ⟨early, (matchedBy_cons_iff hwf).mpr hearly⟩ ⟨number, (matchedBy_cons_iff hwf).mpr hmatch⟩
  exact ⟨other, u, after, hmore, (matchedBy_cons_iff hwf).mp hother⟩

/-- There is no reason to stop before a match: from a place to stop at nothing leads on but the end of
the text, and that is noticed. -/
theorem NoticesEnd.goesOn {piece rest : List Char} (hwf : live.WellFormed) (hlive : live.IsAscii)
    (h : live.NoticesEnd before (c :: piece ++ rest))
    (hmatch : (live.next before c).MatchedBy (some c) piece rest.head? number)
    (hnoticed : live.accepting before (some c) ≠ []) (hlast : c.utf8Size = 1) :
    (live.next before c).isStuck (some c) = false := by
  refine Bool.eq_false_iff.mpr fun hstuck => ?_
  have hdead : ∀ u after number, u ≠ [] ∨ after ≠ none →
      ¬(live.next before c).MatchedBy (some c) u after number := fun _ _ _ =>
    not_matchedBy_of_isStuck hwf.next (isAscii_next hlive) hstuck
  by_cases hend : piece = [] ∧ rest = []
  · obtain ⟨rfl, rfl⟩ := hend
    obtain ⟨early, hearly⟩ := List.exists_mem_of_ne_nil _ hnoticed
    obtain ⟨other, u, after, hmore, hother⟩ := h [] c rfl hlast
      ⟨early, (mem_accepting_iff hwf).mp hearly⟩ ⟨number, (matchedBy_cons_iff hwf).mpr hmatch⟩
    exact hdead u after other hmore ((matchedBy_cons_iff hwf).mp hother)
  · refine hdead piece rest.head? number ?_ hmatch
    rwa [ne_eq, ne_eq, List.head?_eq_none_iff, ← not_and_or]

end Live

section Scan

variable {before : Option Char} {place number stop : Nat} {live : Live} {text : List Char}

theorem exists_of_mem_accepting (hwf : live.WellFormed) (text : List Char)
    (h : (number, stop) ∈ (live.accepting before text.head?).map (·, place)) :
    ∃ piece rest, text = piece ++ rest ∧ stop = place + byteLength piece ∧
      live.MatchedBy before piece rest.head? number := by
  obtain ⟨number', hnumber, heq⟩ := List.mem_map.mp h
  obtain ⟨rfl, rfl⟩ := Prod.mk.inj heq
  exact ⟨[], text, rfl, rfl, (Live.mem_accepting_iff hwf).mp hnumber⟩

/-- **Every match that is found is one.** -/
theorem exists_of_mem_scanOn (hwf : live.WellFormed)
    (h : (number, stop) ∈ (scanOn before place live text).found) :
    ∃ piece rest, text = piece ++ rest ∧ stop = place + byteLength piece ∧
      live.MatchedBy before piece rest.head? number := by
  induction text generalizing before place live with
  | nil => exact exists_of_mem_accepting hwf [] h
  | cons c cs ih =>
    have hempty : (number, stop) ∈ (live.accepting before (some c)).map (·, place) →
        ∃ piece rest, c :: cs = piece ++ rest ∧ stop = place + byteLength piece ∧
          live.MatchedBy before piece rest.head? number := exists_of_mem_accepting hwf (c :: cs)
    rw [scanOn] at h
    split at h
    · exact hempty h
    · dsimp only at h
      split at h
      · exact hempty h
      · rcases List.mem_append.mp h with h | h
        · exact hempty h
        · -- what is found behind the character is matched by what is left after it
          obtain ⟨piece, rest, rfl, rfl, hmatch⟩ := ih hwf.next h
          refine ⟨c :: piece, rest, rfl, ?_, (Live.matchedBy_cons_iff hwf).mpr hmatch⟩
          rw [byteLength_cons, Nat.add_assoc]

/-- **Every match is found**, if the end of the text is noticed. -/
theorem mem_scanOn (hwf : live.WellFormed) (hlive : live.IsAscii)
    {piece rest : List Char} (hnotices : live.NoticesEnd before (piece ++ rest))
    (hmatch : live.MatchedBy before piece rest.head? number) :
    (number, place + byteLength piece) ∈ (scanOn before place live (piece ++ rest)).found := by
  induction piece generalizing before place live with
  | nil =>
    have hhere : (number, place) ∈ (live.accepting before rest.head?).map (·, place) :=
      List.mem_map_of_mem ((Live.mem_accepting_iff hwf).mpr hmatch)
    cases rest with
    | nil => exact hhere
    | cons c cs =>
      rw [List.nil_append, scanOn]
      split
      · exact hhere
      · dsimp only
        split
        · exact hhere
        · exact List.mem_append_left _ hhere
  | cons c piece ih =>
    have hleft := (Live.matchedBy_cons_iff hwf).mp hmatch
    have hgo : live.next before c ≠ [] := by
      obtain ⟨rests, hmem, -⟩ := hleft
      exact List.ne_nil_of_mem hmem
    rw [List.cons_append, scanOn]
    split
    · rename_i n hlost
      exact absurd (Live.next_of_lostWithin hlost) hgo
    · dsimp only
      rw [if_neg]
      swap
      · simp only [Bool.or_eq_true, Bool.and_eq_true, Bool.not_eq_true', List.isEmpty_iff,
          List.isEmpty_eq_false_iff, decide_eq_true_eq, ne_eq, List.map_eq_nil_iff]
        rintro (hempty | ⟨⟨hnoticed, hlast⟩, hstuck⟩)
        · exact hgo hempty
        · rw [hnotices.goesOn hwf hlive hleft hnoticed hlast] at hstuck
          cases hstuck
      refine List.mem_append_right _ ?_
      rw [byteLength_cons, ← Nat.add_assoc]
      exact ih hwf.next (Live.isAscii_next hlive) (hnotices.next hwf) hleft

end Scan

/-! ### Sets of patterns -/

theorem mem_start_iff {patterns : List Regex} {number place : Nat} {rests : List Regex} :
    (place, rests) ∈ Live.start number patterns ↔
      ∃ r, rests = [r] ∧ ∃ i, place = number + i ∧ patterns[i]? = some r := by
  induction patterns generalizing number with
  | nil => simp [Live.start]
  | cons first others ih =>
    rw [Live.start, List.mem_cons, ih]
    constructor
    · rintro (heq | ⟨r, rfl, i, rfl, hi⟩)
      · obtain ⟨rfl, rfl⟩ := Prod.mk.inj heq
        exact ⟨first, rfl, 0, rfl, rfl⟩
      · exact ⟨r, rfl, i + 1, by omega, hi⟩
    · rintro ⟨r, rfl, i, rfl, hi⟩
      cases i with
      | zero =>
        obtain rfl := Option.some.inj hi
        exact .inl rfl
      | succ i => exact .inr ⟨r, rfl, i, by omega, hi⟩

/-- Whether a pattern of a set, given by its number, matches a piece. -/
def Matches (p : PatternSet) (number : Nat) (before : Option Char) (piece : List Char)
    (after : Option Char) : Prop :=
  ∃ r, p.patterns[number]? = some r ∧ r.Matches before piece after

variable {p : PatternSet} {before after : Option Char} {piece text : List Char} {number length : Nat}

theorem matchedBy_start_iff :
    (Live.start 0 p.patterns).MatchedBy before piece after number ↔
      p.Matches number before piece after := by
  constructor
  · rintro ⟨rests, hmem, x, hx, hmatch⟩
    obtain ⟨r, rfl, i, rfl, hi⟩ := mem_start_iff.mp hmem
    rw [List.mem_singleton.mp hx] at hmatch
    exact ⟨r, by rwa [Nat.zero_add], hmatch⟩
  · rintro ⟨r, hr, hmatch⟩
    exact ⟨[r], mem_start_iff.mpr ⟨r, rfl, number, (Nat.zero_add _).symm, hr⟩, r,
      List.mem_singleton_self r, hmatch⟩

/-- The patterns of a set are well-formed. -/
theorem wellFormed_of_mem (p : PatternSet) {r : Regex} (hr : r ∈ p.patterns) : r.WellFormed := by
  obtain ⟨source, -, hparse, -⟩ := exists_of_mem_compileAll? p.compiled hr
  exact Regex.wellFormed_of_parse? hparse

theorem wellFormed_start : (Live.start 0 p.patterns).WellFormed := fun _ hentry _ hr =>
  p.wellFormed_of_mem (mem_of_mem_start hentry hr)

/-- Whether the end of a text is noticed when patterns match up to it. It may not be if a pattern
matches just before the last character too, unless some pattern matches as much or more in a longer
text. -/
def NoticesEnd (p : PatternSet) (before : Option Char) (text : List Char) : Prop :=
  ∀ front last, text = front ++ [last] → last.utf8Size = 1 →
    (∃ number, p.Matches number before front (some last)) →
    (∃ number, p.Matches number before text none) →
    ∃ number u after, (u ≠ [] ∨ after ≠ none) ∧ p.Matches number before (text ++ u) after

/-- **The matches found in a text are the matches there are.** -/
theorem mem_found_iff (hnotices : p.NoticesEnd before text) :
    (number, length) ∈ (p.scan before 0 text).found ↔
      ∃ piece rest, text = piece ++ rest ∧ byteLength piece = length ∧
        p.Matches number before piece rest.head? := by
  constructor
  · intro h
    obtain ⟨piece, rest, rfl, rfl, hmatch⟩ := exists_of_mem_scanOn wellFormed_start h
    exact ⟨piece, rest, rfl, (Nat.zero_add _).symm, matchedBy_start_iff.mp hmatch⟩
  · rintro ⟨piece, rest, rfl, rfl, hmatch⟩
    have hlive : (Live.start 0 p.patterns).NoticesEnd before (piece ++ rest) := by
      simpa only [NoticesEnd, Live.NoticesEnd, matchedBy_start_iff] using hnotices
    rw [← Nat.zero_add (byteLength piece)]
    exact mem_scanOn wellFormed_start p.isAscii_patterns hlive (matchedBy_start_iff.mpr hmatch)

/-- Patterns without conditions notice every end: they match in front of a character too. -/
theorem noticesEnd_of_not_hasLook (h : ∀ r ∈ p.patterns, r.hasLook = false) :
    p.NoticesEnd before text := by
  rintro _ _ - - - ⟨number, r, hr, hmatch⟩
  refine ⟨number, [], some ' ', .inr nofun, r, hr, ?_⟩
  rw [List.append_nil]
  exact hmatch.of_not_hasLook (h r (List.mem_of_getElem? hr)) ..

end PatternSet

end LRWorkbench
