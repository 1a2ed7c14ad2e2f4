import LRWorkbench.Proofs.Lexing.Keywords

/-!
# Extras that the parser has no use for

Extras may stand anywhere, so the lexer tries their patterns in every state. Where the match of an
extra is better than all that others could stand for, the extra is found
(`Lexer.nextToken_of_isExtra`).

That goes for the patterns of ordinary terminals only. Words, keywords and external tokens are
looked for if the parser has a use for them, extras or not; where it has none they are found only
once every terminal is allowed, and count as found by mistake (`Lexer.not_extra_words`).
-/

namespace LRWorkbench

open Text

namespace Lexer

variable {l : Language} {t : ParseTable} {text front back piece : List Char} {place : Nat}
  {state : ScannerState} {valid : TerminalSet} {errorMode : Bool} {token : Token} {e s : Symbol}

/-! ### Matches of terminals -/

/-- Whether a piece of a text at a place is a match of a terminal: its pattern matches, or the piece
is a word and the terminal is the keyword of that text. -/
inductive IsMatch (t : ParseTable) (text : List Char) (place : Nat) (s : Symbol)
    (piece : List Char) : Prop
  | pattern (h : t.MatchesAt text place s piece) : IsMatch t text place s piece
  | keyword {w : Symbol} (hword : t.parts.lex.word = some w) (h : t.MatchesAt text place w piece)
      (hkeyword : t.parts.lex.keyword? (String.ofList piece) = some s) : IsMatch t text place s piece

/-- What a terminal and a piece stand for when they are compared with others. -/
def candidateOf (t : ParseTable) (s : Symbol) (piece : List Char) : Candidate :=
  ⟨s, byteLength piece, t.parts.lex.precedenceOf s⟩

/-- Whether a piece, as a match of a terminal, is better than the matches at the place of all other
terminals that are of use or extras. -/
def Wins (t : ParseTable) (text : List Char) (place : Nat) (valid : TerminalSet) (e : Symbol)
    (piece : List Char) : Prop :=
  ∀ s other, s ≠ e → (valid.contains s = true ∨ t.parts.lex.isExtra s = true) →
    IsMatch t text place s other → other ≠ [] →
    (candidateOf t e piece).beats (candidateOf t s other) = true

/-- A piece that stands for a terminal is a match of it. -/
theorem StandsFor.isMatch {matched : Symbol} (h : StandsFor t.parts.lex valid matched piece s)
    (hmatch : t.MatchesAt text place matched piece) :
    IsMatch t text place s piece ∧ (valid.contains s = true ∨ t.parts.lex.isExtra s = true) := by
  cases h with
  | token _ _ huse => exact ⟨.pattern hmatch, huse⟩
  | keyword hword hkeyword huse => exact ⟨.keyword hword hmatch hkeyword, .inl huse⟩
  | word _ _ huse => exact ⟨.pattern hmatch, .inl huse⟩

/-- What the parser has no use for stands for itself, and is neither a keyword nor the word. -/
theorem StandsFor.of_not_valid {matched : Symbol} (h : StandsFor t.parts.lex valid matched piece s)
    (hvalid : valid.contains s = false) :
    matched = s ∧ t.parts.lex.isKeyword s = false ∧ t.parts.lex.word ≠ some s := by
  cases h with
  | token hkeyword hword _ => exact ⟨rfl, hkeyword, hword⟩
  | keyword _ _ huse | word _ _ huse =>
    rw [hvalid] at huse
    cases huse

/-! ### What is found -/

/-- Whether the lexer takes a terminal for what it is wherever its pattern matches: it is neither a
keyword nor the word, and no external token. -/
structure IsOrdinary (t : ParseTable) (s : Symbol) : Prop where
  not_keyword : t.parts.lex.isKeyword s = false
  not_word : t.parts.lex.word ≠ some s
  not_external : t.isExternal s = false

/-- External tokens have no patterns. -/
theorem isExternal_of_patternSymbols {number : Nat}
    (h : t.parts.lex.patternSymbols[number]? = some s) : t.isExternal s = false := by
  have hfault := t.isConsistent.patterns s (List.mem_of_getElem? h)
  rw [TableParts.patternFault?] at hfault
  split at hfault
  · cases hfault
  · rename_i hrange
    simp only [Bool.or_eq_true, decide_eq_true_eq, not_or, Nat.not_le] at hrange
    rw [ParseTable.isExternal, TableParts.isExternalPlace]
    simp only [Bool.and_eq_false_iff, decide_eq_false_iff_not]
    omega

/-- The scanner is believed only if the token is of use. -/
theorem contains_of_scanExternal {examined : Nat}
    (h : scanExternal l text place state valid errorMode = (some token, examined)) :
    valid.contains token.symbol = true := by
  simp only [scanExternal] at h
  split at h
  · cases h
  split at h
  · cases h
  split at h
  · cases h
  split at h
  · cases h
  rename_i hfits
  simp only [Bool.or_eq_true, Bool.not_eq_true', not_or, Bool.not_eq_false] at hfits
  obtain ⟨rfl, -⟩ := Prod.mk.inj h |>.imp Option.some.inj id
  exact hfits.2

/-- What is found although the parser has no use for it is an ordinary terminal. -/
theorem isOrdinary_of_lex {g : PreparedGrammar} (hcompiles : g.Compiles l.table)
    (h : lex l (front ++ back) (byteLength front) state valid errorMode = some token)
    (hvalid : valid.contains token.symbol = false) : IsOrdinary l.table token.symbol := by
  cases hexternal : scanExternal l (front ++ back) (byteLength front) state valid errorMode with
  | mk found examined =>
    cases found with
    | some found =>
      rw [lex, hexternal] at h
      obtain rfl := Option.some.inj h
      rw [contains_of_scanExternal hexternal] at hvalid
      cases hvalid
    | none =>
      rw [lex_of_scanExternal hexternal] at h
      obtain ⟨c, hc, rfl⟩ := Option.map_eq_some_iff.mp h
      obtain ⟨⟨number, length⟩, -, hcandidate⟩ :=
        List.mem_filterMap.mp (Candidate.mem_of_best hc)
      simp only [candidate?] at hcandidate
      split at hcandidate
      · cases hcandidate
      split at hcandidate
      · cases hcandidate
      obtain ⟨s, hs, rfl⟩ := Option.map_eq_some_iff.mp hcandidate
      obtain ⟨matched, hmatched, hstands⟩ :=
        (symbolOf?_eq_some_iff fun _ => hcompiles.isKeyword_word).mp hs
      obtain ⟨rfl, hkeyword, hword⟩ := hstands.of_not_valid hvalid
      exact ⟨hkeyword, hword, isExternal_of_patternSymbols hmatched⟩

/-- An ordinary extra whose match wins is found by its pattern. -/
theorem exists_scanPatterns_of_wins
    (hkeywords : ∀ w, t.parts.lex.word = some w → t.parts.lex.isKeyword w = false)
    (hnotices : t.NoticesEndAt (front ++ back) (byteLength front))
    (hextra : t.parts.lex.isExtra e = true) (hvalid : valid.contains e = false)
    (hordinary : IsOrdinary t e) (hmatch : t.MatchesAt (front ++ back) (byteLength front) e piece)
    (hpiece : piece ≠ []) (hwins : Wins t (front ++ back) (byteLength front) valid e piece) :
    ∃ c longest, (scanPatterns t valid front.getLast? back).1 = some c ∧ c.symbol = e ∧
      c.length = byteLength longest ∧ byteLength piece ≤ byteLength longest ∧
      t.MatchesAt (front ++ back) (byteLength front) e longest := by
  have hself : IsCandidate t (front ++ back) (byteLength front) valid (candidateOf t e piece) :=
    ⟨e, piece, hmatch, hpiece, .token hordinary.not_keyword hordinary.not_word (.inr hextra), rfl, rfl⟩
  obtain ⟨c, hc⟩ := exists_scanPatterns hkeywords hnotices hself
  obtain ⟨⟨matched, longest, hmatched, hlongest, hstands, hlength, hprecedence⟩, hbest⟩ :=
    best_of_scanPatterns hkeywords hnotices hc
  have hleast := hbest _ hself
  -- nothing else can be best, since the match of the extra beats it
  have hsymbol : c.symbol = e := by
    by_contra hne
    obtain ⟨hother, huse⟩ := hstands.isMatch hmatched
    have hbeats := hwins c.symbol longest hne huse hother hlongest
    rw [Candidate.beats_iff, candidateOf, candidateOf, ← hlength, ← hprecedence] at hbeats
    exact hbeats hleast
  obtain ⟨rfl, -⟩ := hstands.of_not_valid (hsymbol ▸ hvalid)
  refine ⟨c, longest, hc, hsymbol, hlength, ?_, hsymbol ▸ hmatched⟩
  simp only [Candidate.AtLeast, candidateOf] at hleast
  omega

/-- **Extras are found where their matches win.** Take an extra that the parser has no use for and
that is neither a keyword nor the word nor an external token. If its pattern matches a piece that is
better than the matches of all others, and the scanner reports nothing of use, then the extra is
found there as an extra, with a piece at least as long. The end of the text has to be one that the
patterns notice. A keyword, the word or an external token that the parser has no use for is never
found before every terminal is allowed. -/
theorem nextToken_of_isExtra {grammar : Grammar} (hcompile : grammar.compile = .ok l.table)
    (hplace : isBoundary place text) (hlt : place < byteLength text)
    (hextra : l.table.parts.lex.isExtra e = true) (hvalid : valid.contains e = false) :
    (IsOrdinary l.table e → l.table.NoticesEndAt text place →
      (scanExternal l text place state valid false).1 = none →
      ∀ piece, piece ≠ [] → l.table.MatchesAt text place e piece →
        Wins l.table text place valid e piece →
        ∃ longest, l.table.MatchesAt text place e longest ∧
          byteLength piece ≤ byteLength longest ∧
          (nextToken l text place state valid).symbol = e ∧
          (nextToken l text place state valid).start = place ∧
          (nextToken l text place state valid).stop = place + byteLength longest ∧
          (nextToken l text place state valid).isExtra = true ∧
          (nextToken l text place state valid).errorMode = false) ∧
    (¬IsOrdinary l.table e → (nextToken l text place state valid).symbol = e →
      (nextToken l text place state valid).errorMode = true) := by
  obtain ⟨prepared, -, hcompiles⟩ := Grammar.exists_prepared hcompile
  obtain ⟨front, back, rfl, rfl, hback⟩ := exists_append_of_lt hplace hlt
  obtain ⟨hnormal, hmode⟩ := nextToken_eq_getD l front hback state valid
  constructor
  · intro hordinary hnotices hnone piece hpiece hmatch hwins
    obtain ⟨c, longest, hc, hsymbol, hlength, hle, hlongest⟩ :=
      exists_scanPatterns_of_wins (fun _ => hcompiles.isKeyword_word) hnotices hextra hvalid hordinary
        hmatch hpiece hwins
    rw [lex_of_scanExternal (Prod.ext hnone rfl), hc, Option.map_some, Option.getD_some] at hnormal
    rw [hnormal]
    refine ⟨longest, hlongest, hle, hsymbol, rfl, by rw [hlength], ?_, rfl⟩
    rw [isExtraHere, hsymbol, hextra, hvalid]
    rfl
  · -- Outside error mode the lexer gives no other extras, so this one comes from the second try.
    intro hordinary hsymbol
    cases hlex : lex l (front ++ back) (byteLength front) state valid false with
    | some token =>
      rw [hlex, Option.getD_some] at hnormal
      rw [hnormal] at hsymbol
      subst hsymbol
      exact absurd (isOrdinary_of_lex hcompiles hlex hvalid) hordinary
    | none =>
      rw [hlex, Option.getD_none, hmode] at hnormal
      rw [hnormal]
      cases hall : lex l (front ++ back) (byteLength front) state (allTerminals l.table) true with
      | some token => rw [Option.getD_some, (spec_of_lex hall).1]
      | none => rfl

/-- Where all that the patterns find is one terminal, and there are no keywords, each of its pieces
that is found wins. -/
theorem exists_wins_of_found (hnotices : t.NoticesEndAt (front ++ back) (byteLength front))
    (hkeywords : t.parts.lex.keywords = []) {number length : Nat}
    (hmem : (number, length) ∈ (t.patterns.scan front.getLast? 0 back).found) (hpos : 0 < length)
    (hfound : ∀ found ∈ (t.patterns.scan front.getLast? 0 back).found,
      t.parts.lex.patternSymbols[found.1]? = some e) :
    ∃ piece, piece ≠ [] ∧ byteLength piece = length ∧
      t.MatchesAt (front ++ back) (byteLength front) e piece ∧
      ∀ valid, Wins t (front ++ back) (byteLength front) valid e piece := by
  have hnotices := hnotices front back rfl rfl
  obtain ⟨piece, rest, rfl, rfl, hmatch⟩ := (PatternSet.mem_found_iff hnotices).mp hmem
  refine ⟨piece, byteLength_pos.mp hpos, rfl,
    ⟨front, rest, number, rfl, rfl, hfound _ hmem, hmatch⟩, ?_⟩
  intro valid s other hne _ hother _
  cases hother with
  | pattern h =>
    obtain ⟨rest', number', htext, hs, hmatch'⟩ := matchesAt_append_iff.mp h
    have hmem' := (PatternSet.mem_found_iff hnotices).mpr ⟨other, rest', htext, rfl, hmatch'⟩
    exact absurd (Option.some.inj (hs.symm.trans (hfound _ hmem'))) hne
  | keyword _ _ hkeyword =>
    rw [LexSpec.keyword?, hkeywords] at hkeyword
    cases hkeyword

/-- Ones, and blanks around them. -/
def spaced : Grammar where
  name := "spaced"
  rules := [("phrase", .oneOrMore (.literal "1"))]
  extras := [.pattern " +" none]
  conflicts := []
  externals := []
  word := none

/-- The blanks in front of a one are found as an extra. -/
theorem nextToken_spaced : ∃ l e piece, spaced.compile = .ok (Language.table l) ∧
    isBoundary 0 "  1".toList ∧ 0 < byteLength "  1".toList ∧
    l.table.parts.lex.isExtra e = true ∧ (l.table.validTerminals 0).contains e = false ∧
    IsOrdinary l.table e ∧ l.table.NoticesEndAt "  1".toList 0 ∧
    (scanExternal l "  1".toList 0 [] (l.table.validTerminals 0) false).1 = none ∧
    piece ≠ [] ∧ l.table.MatchesAt "  1".toList 0 e piece ∧
    Wins l.table "  1".toList 0 (l.table.validTerminals 0) e piece ∧
    (nextToken l "  1".toList 0 [] (l.table.validTerminals 0)).symbol = e ∧
    (nextToken l "  1".toList 0 [] (l.table.validTerminals 0)).isExtra = true ∧
    (nextToken l "  1".toList 0 [] (l.table.validTerminals 0)).errorMode = false := by
  have hrun : (spaced.compile.toOption).any (fun t =>
      t.patterns.patterns.all (fun r => !r.hasLook) && decide (t.parts.lex.keywords = []) &&
        decide (t.parts.lex.isExtra ⟨2⟩ = true) &&
        decide ((t.validTerminals 0).contains ⟨2⟩ = false) &&
        decide (t.parts.lex.isKeyword ⟨2⟩ = false) && decide (t.parts.lex.word ≠ some ⟨2⟩) &&
        decide (t.isExternal ⟨2⟩ = false) &&
        decide ((1, 2) ∈ (t.patterns.scan none 0 "  1".toList).found) &&
        decide (∀ found ∈ (t.patterns.scan none 0 "  1".toList).found,
          t.parts.lex.patternSymbols[found.1]? = some ⟨2⟩)) = true := by
    decide +kernel
  obtain ⟨t, ht, hcheck⟩ := (Option.any_eq_true ..).mp hrun
  simp only [Bool.and_eq_true, decide_eq_true_eq] at hcheck
  obtain ⟨⟨⟨⟨⟨⟨⟨⟨hlooks, hkeywords⟩, hextra⟩, hvalid⟩, hkeyword⟩, hword⟩, hexternal⟩, hmem⟩, hfound⟩ :=
    hcheck
  have hcompile : spaced.compile = .ok t := eq_ok_of_toOption ht
  have hnotices : t.NoticesEndAt ([] ++ "  1".toList) (byteLength []) :=
    ParseTable.noticesEndAt_of_not_hasLook hlooks _ _
  have hordinary : IsOrdinary t ⟨2⟩ := ⟨hkeyword, hword, hexternal⟩
  obtain ⟨piece, hpiece, -, hmatch, hwins⟩ :=
    exists_wins_of_found hnotices hkeywords hmem Nat.two_pos hfound
  have hnone : (scanExternal ⟨t, none⟩ "  1".toList 0 [] (t.validTerminals 0) false).1 = none := rfl
  obtain ⟨-, -, -, hsymbol, -, -, hisExtra, hmode⟩ := (nextToken_of_isExtra (l := ⟨t, none⟩) hcompile
    (by decide) (by decide) hextra hvalid).1 hordinary hnotices hnone piece hpiece hmatch
    (hwins (t.validTerminals 0))
  exact ⟨⟨t, none⟩, ⟨2⟩, piece, hcompile, by decide, by decide, hextra, hvalid, hordinary, hnotices,
    hnone, hpiece, hmatch, hwins _, hsymbol, hisExtra, hmode⟩

/-- Ones, and words around them. -/
def words : Grammar where
  name := "words"
  rules := [
    ("phrase", .oneOrMore (.literal "1")),
    ("name", .pattern "[a-z]+" none)]
  extras := [.reference "name"]
  conflicts := []
  externals := []
  word := some "name"

/-- The word in front of a one is an extra and nothing else matches, but it is found only once every
terminal is allowed. -/
theorem not_extra_words : ∃ l e piece, words.compile = .ok (Language.table l) ∧
    isBoundary 0 "ab1".toList ∧ l.table.parts.lex.isExtra e = true ∧
    (l.table.validTerminals 0).contains e = false ∧ l.table.NoticesEndAt "ab1".toList 0 ∧
    (scanExternal l "ab1".toList 0 [] (l.table.validTerminals 0) false).1 = none ∧
    piece ≠ [] ∧ l.table.MatchesAt "ab1".toList 0 e piece ∧
    Wins l.table "ab1".toList 0 (l.table.validTerminals 0) e piece ∧
    (nextToken l "ab1".toList 0 [] (l.table.validTerminals 0)).symbol = e ∧
    (nextToken l "ab1".toList 0 [] (l.table.validTerminals 0)).errorMode = true := by
  have hrun : (words.compile.toOption).any (fun t =>
      t.patterns.patterns.all (fun r => !r.hasLook) && decide (t.parts.lex.keywords = []) &&
        decide (t.parts.lex.isExtra ⟨2⟩ = true) &&
        decide ((t.validTerminals 0).contains ⟨2⟩ = false) &&
        decide ((1, 2) ∈ (t.patterns.scan none 0 "ab1".toList).found) &&
        decide (∀ found ∈ (t.patterns.scan none 0 "ab1".toList).found,
          t.parts.lex.patternSymbols[found.1]? = some ⟨2⟩) &&
        decide ((nextToken ⟨t, none⟩ "ab1".toList 0 [] (t.validTerminals 0)).symbol = ⟨2⟩) &&
        (nextToken ⟨t, none⟩ "ab1".toList 0 [] (t.validTerminals 0)).errorMode) = true := by
    decide +kernel
  obtain ⟨t, ht, hcheck⟩ := (Option.any_eq_true ..).mp hrun
  simp only [Bool.and_eq_true, decide_eq_true_eq] at hcheck
  obtain ⟨⟨⟨⟨⟨⟨⟨hlooks, hkeywords⟩, hextra⟩, hvalid⟩, hmem⟩, hfound⟩, hsymbol⟩, hmode⟩ := hcheck
  have hnotices : t.NoticesEndAt ([] ++ "ab1".toList) (byteLength []) :=
    ParseTable.noticesEndAt_of_not_hasLook hlooks _ _
  obtain ⟨piece, hpiece, -, hmatch, hwins⟩ :=
    exists_wins_of_found hnotices hkeywords hmem Nat.two_pos hfound
  exact ⟨⟨t, none⟩, ⟨2⟩, piece, eq_ok_of_toOption ht, by decide, hextra, hvalid, hnotices, rfl, hpiece,
    hmatch, hwins _, hsymbol, hmode⟩

end Lexer

end LRWorkbench
