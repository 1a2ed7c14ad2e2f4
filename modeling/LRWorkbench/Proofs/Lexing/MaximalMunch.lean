import LRWorkbench.Proofs.Grammar.Compile
import LRWorkbench.Proofs.Lexing.Matching
import LRWorkbench.Proofs.Table.TerminalSet

/-!
# The longest match wins

Among the terminals of use the lexer finds one exactly where there is a **candidate**, and finds
the best one (`Lexer.best_of_lex`): the longest, of these the one of the highest precedence, of
these the one declared first. What the candidates at a place are is said here without the lexer
(`Lexer.IsCandidate`): a pattern matches a piece of the text, and the piece may stand for a
terminal (`Lexer.StandsFor`).

The patterns do not always see the end of the text. Where a match was just noticed and no byte
leads on, they stop, even if the end itself would: a pattern such as `ab$` is then passed over
(`Lexer.not_best_ends`). So the end has to be one that the patterns notice
(`ParseTable.NoticesEndAt`).
-/

namespace LRWorkbench

open Text

/-! ### Keywords -/

namespace PreparedGrammar.Compiles

variable {g : PreparedGrammar} {t : ParseTable} {s w : Symbol}

/-- A keyword is a literal text that is not the word. -/
theorem mem_literals (h : g.Compiles t) (hs : t.parts.lex.isKeyword s = true) :
    ∃ word text, t.parts.lex.word = some word ∧ (text, s) ∈ g.literals word := by
  obtain ⟨rows, lex, patterns, -, hlex, hparts⟩ := h.parts_eq
  obtain ⟨hword, keywords, hkeywords, -, hset⟩ := exists_of_lexSpec hlex
  have hlexeq : t.parts.lex = lex := by
    rw [hparts]
    rfl
  rw [hlexeq, LexSpec.isKeyword, hset, contains_terminalSet] at hs
  obtain ⟨⟨text, s⟩, hentry, rfl⟩ := List.mem_map.mp hs
  obtain ⟨word, hw, hliteral⟩ := mem_literals_of_keywordList hkeywords hentry
  exact ⟨word, text, by rw [hlexeq, hword, hw], hliteral⟩

/-- The word is no keyword. -/
theorem isKeyword_word (h : g.Compiles t) (hw : t.parts.lex.word = some w) :
    t.parts.lex.isKeyword w = false := by
  refine Bool.eq_false_iff.mpr fun hkey => ?_
  obtain ⟨word, text, hword, hliteral⟩ := h.mem_literals hkey
  obtain rfl := Option.some.inj (hw.symm.trans hword)
  exact (PreparedGrammar.mem_literals_iff.mp hliteral).1 rfl

end PreparedGrammar.Compiles

/-! ### Candidates -/

/-- Whether the pattern of a terminal matches a piece of a text at a place. -/
def ParseTable.MatchesAt (t : ParseTable) (text : List Char) (place : Nat) (s : Symbol)
    (piece : List Char) : Prop :=
  ∃ front rest number, text = front ++ (piece ++ rest) ∧ byteLength front = place ∧
    t.parts.lex.patternSymbols[number]? = some s ∧
    t.patterns.Matches number front.getLast? piece rest.head?

/-- Whether the end of a text is noticed by those who read from a place on. -/
def ParseTable.NoticesEndAt (t : ParseTable) (text : List Char) (place : Nat) : Prop :=
  ∀ front rest, text = front ++ rest → byteLength front = place →
    t.patterns.NoticesEnd front.getLast? rest

theorem ParseTable.noticesEndAt_of_not_hasLook {t : ParseTable}
    (h : t.patterns.patterns.all (fun r => !r.hasLook) = true) (text : List Char) (place : Nat) :
    t.NoticesEndAt text place := by
  intro _ _ _ _
  apply PatternSet.noticesEnd_of_not_hasLook
  intro r hr
  simpa using List.all_eq_true.mp h r hr

namespace Lexer

/-- What a piece that the pattern of `matched` matches may stand for. -/
inductive StandsFor (lex : LexSpec) (valid : TerminalSet) (matched : Symbol) (piece : List Char) :
    Symbol → Prop
  /-- A terminal that is neither a keyword nor the word stands for itself, if it is of use or an
  extra. -/
  | token (hkeyword : lex.isKeyword matched = false) (hword : lex.word ≠ some matched)
      (huse : valid.contains matched = true ∨ lex.isExtra matched = true) :
      StandsFor lex valid matched piece matched
  /-- A word stands for the keyword of its text, if that is of use. -/
  | keyword {k : Symbol} (hword : lex.word = some matched)
      (hkeyword : lex.keyword? (String.ofList piece) = some k) (huse : valid.contains k = true) :
      StandsFor lex valid matched piece k
  /-- Other words stand for words, if these are of use. -/
  | word (hword : lex.word = some matched)
      (hkeyword : ∀ k, lex.keyword? (String.ofList piece) = some k → valid.contains k = false)
      (huse : valid.contains matched = true) : StandsFor lex valid matched piece matched

/-- Whether a terminal with a length and the precedence of the terminal may be found at a place. -/
def IsCandidate (t : ParseTable) (text : List Char) (place : Nat) (valid : TerminalSet)
    (c : Candidate) : Prop :=
  ∃ matched piece, t.MatchesAt text place matched piece ∧ piece ≠ [] ∧
    StandsFor t.parts.lex valid matched piece c.symbol ∧ c.length = byteLength piece ∧
    c.precedence = t.parts.lex.precedenceOf c.symbol

namespace Candidate

/-- Whether one candidate is longer than another, or as long and of higher precedence, or in both
alike and declared no later. -/
def AtLeast (a b : Candidate) : Prop :=
  b.length < a.length ∨ a.length = b.length ∧
    (b.precedence < a.precedence ∨ a.precedence = b.precedence ∧ a.symbol.index ≤ b.symbol.index)

variable {a b c : Candidate} {cs : List Candidate}

theorem AtLeast.refl (a : Candidate) : a.AtLeast a := .inr ⟨rfl, .inr ⟨rfl, Nat.le_refl _⟩⟩

theorem AtLeast.trans (hab : a.AtLeast b) (hbc : b.AtLeast c) : a.AtLeast c := by
  simp only [AtLeast] at hab hbc ⊢
  omega

theorem beats_iff : a.beats b = true ↔ ¬b.AtLeast a := by
  simp only [beats, AtLeast, Bool.or_eq_true, Bool.and_eq_true, decide_eq_true_eq]
  omega

theorem atLeast_of_beats (h : a.beats b = true) : a.AtLeast b := by
  rw [beats_iff] at h
  simp only [AtLeast] at h ⊢
  omega

/-- What is the best so far is at least as good as all that was seen. -/
theorem atLeast_of_foldl {best : Option Candidate} (h : cs.foldl better best = some a) :
    (∀ b ∈ cs, a.AtLeast b) ∧ ∀ b, best = some b → a.AtLeast b := by
  induction cs generalizing best with
  | nil =>
    refine ⟨fun _ hb => absurd hb List.not_mem_nil, ?_⟩
    rintro b rfl
    obtain rfl := Option.some.inj h
    exact .refl b
  | cons c cs ih =>
    obtain ⟨hall, hbest⟩ := ih h
    have hstep : ∃ d, better best c = some d ∧ d.AtLeast c ∧
        ∀ b, best = some b → d.AtLeast b := by
      cases best with
      | none => exact ⟨c, rfl, .refl c, nofun⟩
      | some b =>
        rw [better]
        split
        · rename_i hbeats
          refine ⟨c, rfl, .refl c, ?_⟩
          rintro b' ⟨⟩
          exact atLeast_of_beats hbeats
        · rename_i hbeats
          rw [beats_iff, not_not] at hbeats
          refine ⟨b, rfl, hbeats, ?_⟩
          rintro b' ⟨⟩
          exact .refl b
    obtain ⟨d, hd, hc, hold⟩ := hstep
    have had := hbest d hd
    refine ⟨?_, fun b hb => had.trans (hold b hb)⟩
    intro b hb
    rcases List.mem_cons.mp hb with rfl | hb
    · exact had.trans hc
    · exact hall b hb

/-- The best candidate is at least as good as all others. -/
theorem atLeast_of_best (h : best cs = some a) (hb : b ∈ cs) : a.AtLeast b :=
  (atLeast_of_foldl h).1 b hb

end Candidate

/-! ### The candidates that are tried -/

variable {t : ParseTable} {valid : TerminalSet} {front rest piece : List Char} {s : Symbol}

/-- A match stands for what the lexer takes it for. -/
theorem symbolOf?_eq_some_iff {lex : LexSpec}
    (hword : ∀ w, lex.word = some w → lex.isKeyword w = false) {number : Nat} :
    symbolOf? lex valid number piece = some s ↔
      ∃ matched, lex.patternSymbols[number]? = some matched ∧
        StandsFor lex valid matched piece s := by
  rw [symbolOf?]
  constructor
  · intro h
    split at h
    · cases h
    rename_i matched hmatched
    refine ⟨matched, hmatched, ?_⟩
    split at h
    · cases h
    rename_i hkey
    split at h
    · rename_i hisWord
      split at h
      · rename_i k hk
        obtain rfl := Option.some.inj h
        obtain ⟨hlookup, huse⟩ := Option.filter_eq_some_iff.mp hk
        exact .keyword hisWord hlookup huse
      · rename_i hnone
        split at h
        · rename_i huse
          obtain rfl := Option.some.inj h
          refine .word hisWord (fun k hk => ?_) huse
          simpa [hk] using hnone
        · cases h
    · rename_i hnotWord
      split at h
      · rename_i huse
        obtain rfl := Option.some.inj h
        exact .token (Bool.eq_false_iff.mpr hkey) hnotWord (Bool.or_eq_true_iff.mp huse)
      · cases h
  · rintro ⟨matched, hmatched, h⟩
    rw [hmatched]
    dsimp only
    cases h with
    | token hkey hnotWord huse =>
      rw [hkey, if_neg Bool.false_ne_true, if_neg hnotWord, if_pos (Bool.or_eq_true_iff.mpr huse)]
    | keyword hisWord hlookup huse =>
      -- the word itself is no keyword, so that it is re-classified
      rw [hword _ hisWord, if_neg Bool.false_ne_true, if_pos hisWord, hlookup,
        Option.filter_some, if_pos huse]
    | word hisWord hnone huse =>
      have hfilter : (lex.keyword? (String.ofList piece)).filter (fun k => valid.contains k) =
          none := by
        refine Option.filter_eq_none_iff.mpr fun k hk => ?_
        rw [hnone k hk]
        exact Bool.false_ne_true
      rw [hword _ hisWord, if_neg Bool.false_ne_true, if_pos hisWord, hfilter]
      exact if_pos huse

theorem matchesAt_append_iff : t.MatchesAt (front ++ rest) (byteLength front) s piece ↔
    ∃ back number, rest = piece ++ back ∧ t.parts.lex.patternSymbols[number]? = some s ∧
      t.patterns.Matches number front.getLast? piece back.head? := by
  constructor
  · rintro ⟨front', back, number, htext, hplace, hs, hmatch⟩
    obtain ⟨rfl, rfl⟩ := eq_of_append_eq_append htext hplace.symm
    exact ⟨back, number, rfl, hs, hmatch⟩
  · rintro ⟨back, number, rfl, hs, hmatch⟩
    exact ⟨front, back, number, rfl, rfl, hs, hmatch⟩

/-- The candidates that are tried are those there are. -/
theorem mem_candidates_iff (hword : ∀ w, t.parts.lex.word = some w → t.parts.lex.isKeyword w = false)
    (hnotices : t.NoticesEndAt (front ++ rest) (byteLength front)) {c : Candidate} :
    c ∈ (t.patterns.scan front.getLast? 0 rest).found.filterMap
        (candidate? t.parts.lex valid rest) ↔
      IsCandidate t (front ++ rest) (byteLength front) valid c := by
  have hnotices := hnotices front rest rfl rfl
  rw [List.mem_filterMap]
  constructor
  · rintro ⟨⟨number, length⟩, hfound, hc⟩
    obtain ⟨piece, back, rfl, rfl, hmatch⟩ := (PatternSet.mem_found_iff hnotices).mp hfound
    simp only [candidate?, takeBytes_append] at hc
    split at hc
    · cases hc
    rename_i hpos
    obtain ⟨s, hs, rfl⟩ := Option.map_eq_some_iff.mp hc
    obtain ⟨matched, hmatched, hstands⟩ := (symbolOf?_eq_some_iff hword).mp hs
    refine ⟨matched, piece, matchesAt_append_iff.mpr ⟨back, number, rfl, hmatched, hmatch⟩, ?_,
      hstands, rfl, rfl⟩
    rintro rfl
    exact hpos rfl
  · rintro ⟨matched, piece, hmatches, hpiece, hstands, hlength, hprecedence⟩
    obtain ⟨back, number, rfl, hmatched, hmatch⟩ := matchesAt_append_iff.mp hmatches
    refine ⟨(number, byteLength piece),
      (PatternSet.mem_found_iff hnotices).mpr ⟨piece, back, rfl, rfl, hmatch⟩, ?_⟩
    have hsymbol := (symbolOf?_eq_some_iff hword).mpr ⟨matched, hmatched, hstands⟩
    simp only [candidate?, takeBytes_append, hsymbol, if_neg (Nat.ne_of_gt (byteLength_pos.mpr hpiece)),
      Option.map_some]
    rw [← hlength, ← hprecedence]

/-- What the patterns find is the best candidate. -/
theorem best_of_scanPatterns
    (hword : ∀ w, t.parts.lex.word = some w → t.parts.lex.isKeyword w = false)
    (hnotices : t.NoticesEndAt (front ++ rest) (byteLength front)) {c : Candidate}
    (h : (scanPatterns t valid front.getLast? rest).1 = some c) :
    IsCandidate t (front ++ rest) (byteLength front) valid c ∧
      ∀ d, IsCandidate t (front ++ rest) (byteLength front) valid d → c.AtLeast d := by
  rw [fst_scanPatterns] at h
  exact ⟨(mem_candidates_iff hword hnotices).mp (Candidate.mem_of_best h),
    fun _ hd => Candidate.atLeast_of_best h ((mem_candidates_iff hword hnotices).mpr hd)⟩

theorem exists_scanPatterns
    (hword : ∀ w, t.parts.lex.word = some w → t.parts.lex.isKeyword w = false)
    (hnotices : t.NoticesEndAt (front ++ rest) (byteLength front)) {d : Candidate}
    (hd : IsCandidate t (front ++ rest) (byteLength front) valid d) :
    ∃ c, (scanPatterns t valid front.getLast? rest).1 = some c := by
  refine Option.ne_none_iff_exists'.mp fun hnone => ?_
  have hmem := (mem_candidates_iff hword hnotices).mpr hd
  rw [fst_scanPatterns] at hnone
  rw [Candidate.eq_nil_of_best hnone] at hmem
  cases hmem

/-! ### Tokens -/

theorem scanExternal_of_noExternals {l : Language} (h : l.table.parts.externalCount = 0)
    (text : List Char) (place : Nat) (state : ScannerState) (valid : TerminalSet)
    (errorMode : Bool) :
    scanExternal l text place state valid errorMode = (none, place) := by
  rw [scanExternal]
  cases l.scanner with
  | none => rfl
  | some x => simp [ParseTable.externalTokens, h]

/-- **The longest match wins.** In a language without external tokens a token is found among the
terminals of use exactly where there is a candidate, and then it is the best one: as long as any,
of these of as high a precedence as any, of these declared first. It counts as an extra if it is
one and the parser has no use for it. The end of the text has to be one that the patterns
notice. -/
theorem best_of_lex {grammar : Grammar} {l : Language} (hcompile : grammar.compile = .ok l.table)
    (hexternals : l.table.parts.externalCount = 0) {text : List Char} {place : Nat}
    (hplace : isBoundary place text) (hnotices : l.table.NoticesEndAt text place)
    (state : ScannerState) (valid : TerminalSet) :
    ((∃ token, lex l text place state valid false = some token) ↔
      ∃ c, IsCandidate l.table text place valid c) ∧
    ∀ token, lex l text place state valid false = some token →
      ∃ c, IsCandidate l.table text place valid c ∧
        (∀ d, IsCandidate l.table text place valid d → c.AtLeast d) ∧
        token.symbol = c.symbol ∧ token.start = place ∧ token.stop = place + c.length ∧
        token.isExtra = (l.table.parts.lex.isExtra c.symbol && !valid.contains c.symbol) := by
  obtain ⟨prepared, -, hcompiles⟩ := Grammar.exists_prepared hcompile
  obtain ⟨front, rest, rfl, rfl⟩ := isBoundary_iff.mp hplace
  have hlex := lex_of_scanExternal (scanExternal_of_noExternals hexternals (front ++ rest)
    (byteLength front) state valid false)
  have hword := fun w => hcompiles.isKeyword_word (w := w)
  rw [hlex]
  refine ⟨⟨?_, ?_⟩, ?_⟩
  · rintro ⟨token, htoken⟩
    obtain ⟨c, hc, -⟩ := Option.map_eq_some_iff.mp htoken
    exact ⟨c, (best_of_scanPatterns hword hnotices hc).1⟩
  · rintro ⟨d, hd⟩
    obtain ⟨c, hc⟩ := exists_scanPatterns hword hnotices hd
    exact ⟨_, Option.map_eq_some_iff.mpr ⟨c, hc, rfl⟩⟩
  · intro token htoken
    obtain ⟨c, hc, rfl⟩ := Option.map_eq_some_iff.mp htoken
    obtain ⟨hcandidate, hbest⟩ := best_of_scanPatterns hword hnotices hc
    exact ⟨c, hcandidate, hbest, rfl, rfl, rfl, by simp [isExtraHere]⟩

/-- A keyword and words. -/
def lets : Grammar where
  name := "lets"
  rules := [
    ("phrase", .oneOrMore (.choice [.literal "let", .reference "name"])),
    ("name", .pattern "[a-z]+" none)]
  extras := []
  conflicts := []
  externals := []
  word := some "name"

/-- In `lets` the word is longer than the keyword. -/
theorem best_of_lex_lets : ∃ l, lets.compile = .ok (Language.table l) ∧
    l.table.parts.externalCount = 0 ∧ isBoundary 0 "lets".toList ∧
    l.table.NoticesEndAt "lets".toList 0 ∧ ∃ token c,
      lex l "lets".toList 0 [] (allTerminals l.table) false = some token ∧
      IsCandidate l.table "lets".toList 0 (allTerminals l.table) c ∧
      (∀ d, IsCandidate l.table "lets".toList 0 (allTerminals l.table) d → c.AtLeast d) ∧
      token.symbol = c.symbol ∧ token.stop = 4 := by
  have hrun : (lets.compile.toOption).any (fun t =>
      decide (t.parts.externalCount = 0) && t.patterns.patterns.all (fun r => !r.hasLook) &&
        (lex ⟨t, none⟩ "lets".toList 0 [] (allTerminals t) false).any
          fun token => decide (token.stop = 4)) = true := by
    decide +kernel
  obtain ⟨t, ht, hcheck⟩ := (Option.any_eq_true ..).mp hrun
  simp only [Bool.and_eq_true, decide_eq_true_eq] at hcheck
  obtain ⟨⟨hexternals, hlooks⟩, hany⟩ := hcheck
  obtain ⟨token, htoken, hstop⟩ := (Option.any_eq_true ..).mp hany
  have hcompile : lets.compile = .ok t := eq_ok_of_toOption ht
  have hnotices := ParseTable.noticesEndAt_of_not_hasLook hlooks "lets".toList 0
  obtain ⟨-, hbest⟩ := best_of_lex (l := ⟨t, none⟩) hcompile hexternals (by decide) hnotices []
    (allTerminals t)
  obtain ⟨c, hc, hleast, hsymbol, -⟩ := hbest token htoken
  exact ⟨⟨t, none⟩, hcompile, hexternals, by decide, hnotices, token, c, htoken, hc, hleast, hsymbol,
    of_decide_eq_true hstop⟩

/-- An `a`, or `ab` at the end of the text. -/
def ends : Grammar where
  name := "ends"
  rules := [
    ("phrase", .choice [.literal "a", .reference "last"]),
    ("last", .pattern "ab$" none)]
  extras := []
  conflicts := []
  externals := []
  word := none

/-- In `ab` the `a` is found, though all of it is a candidate that is longer: behind `ab` only the
end of the text leads on, and it is not looked at once the `a` was noticed. -/
theorem not_best_ends : ∃ l, ends.compile = .ok (Language.table l) ∧
    l.table.parts.externalCount = 0 ∧ isBoundary 0 "ab".toList ∧ ∃ token d,
      lex l "ab".toList 0 [] (allTerminals l.table) false = some token ∧
      IsCandidate l.table "ab".toList 0 (allTerminals l.table) d ∧ token.stop < 0 + d.length := by
  have hrun : (ends.compile.toOption).any (fun t =>
      decide (t.parts.externalCount = 0) && decide (t.parts.lex.patternSymbols[1]? = some ⟨2⟩) &&
        (t.patterns.patterns[1]?).any (fun r => r.matchesAll "ab".toList) &&
        !t.parts.lex.isKeyword ⟨2⟩ && decide (t.parts.lex.word = none) &&
        (allTerminals t).contains ⟨2⟩ &&
        (lex ⟨t, none⟩ "ab".toList 0 [] (allTerminals t) false).any
          fun token => decide (token.stop = 1)) = true := by
    decide +kernel
  obtain ⟨t, ht, hcheck⟩ := (Option.any_eq_true ..).mp hrun
  simp only [Bool.and_eq_true, Bool.not_eq_true', decide_eq_true_eq] at hcheck
  obtain ⟨⟨⟨⟨⟨⟨hexternals, hsymbol⟩, hpattern⟩, hkeyword⟩, hword⟩, huse⟩, hany⟩ := hcheck
  obtain ⟨r, hr, hmatches⟩ := (Option.any_eq_true ..).mp hpattern
  obtain ⟨token, htoken, hstop⟩ := (Option.any_eq_true ..).mp hany
  have hmatch : r.Matches none "ab".toList none :=
    (Regex.matchesAll_iff (t.patterns.wellFormed_of_mem (List.mem_of_getElem? hr))).mp hmatches
  have hcandidate : IsCandidate t "ab".toList 0 (allTerminals t)
      ⟨⟨2⟩, 2, t.parts.lex.precedenceOf ⟨2⟩⟩ :=
    ⟨⟨2⟩, "ab".toList, ⟨[], [], 1, rfl, rfl, hsymbol, r, hr, hmatch⟩, by decide,
      .token hkeyword (by rw [hword]; nofun) (.inl huse), rfl, rfl⟩
  refine ⟨⟨t, none⟩, eq_ok_of_toOption ht, hexternals, by decide, token, _, htoken, hcandidate, ?_⟩
  rw [of_decide_eq_true hstop]
  exact Nat.lt_succ_self 1

end Lexer

end LRWorkbench
