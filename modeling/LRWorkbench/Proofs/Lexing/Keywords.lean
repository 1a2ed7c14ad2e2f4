import LRWorkbench.Proofs.Lexing.MaximalMunch
import LRWorkbench.Proofs.Lexing.Stray
import LRWorkbench.Proofs.Regex.Composition
import LRWorkbench.Proofs.Regex.Enclosed

/-!
# Keywords are words

A keyword is found as a word first: where the token at a place is a keyword, the pattern of the
word matches its text, and the keyword is the one of that text (`Lexer.word_of_keyword`). It is the
longest such piece, unless the parser has a use neither for words nor for the keyword that a longer
piece would be. In such a state a keyword is cut off the front of a longer word
(`Lexer.not_longest_conditions`).

Which terminals are keywords is found with an expression that is made of the pattern of the word and
matches whole texts only. It matches the texts that the pattern matches (`Regex.matches_wholeText_iff`),
so keywords are the literal texts, other than the word, that the pattern of the word matches. The table
of the lexer has one keyword for each text, the last one (`PreparedGrammar.keywords_of_lexSpec`). One
with the text of a later one is never found, though there may be places where nothing else is of use
(`PreparedGrammar.dead_keyword_twice`).
-/

namespace LRWorkbench

open Text

/-! ### What is no keyword -/

namespace PreparedGrammar.Compiles

variable {g : PreparedGrammar} {t : ParseTable} {s : Symbol}

/-- The end of the input is no keyword. -/
theorem isKeyword_endOfInput (h : g.Compiles t) : t.parts.lex.isKeyword .endOfInput = false := by
  refine Bool.eq_false_iff.mpr fun hkey => ?_
  obtain ⟨word, text, -, hliteral⟩ := h.mem_literals hkey
  exact h.wellFormed.literal_ne_end hliteral rfl

/-- What no pattern matches is no keyword. -/
theorem isKeyword_error (h : g.Compiles t) : t.parts.lex.isKeyword .error = false := by
  refine Bool.eq_false_iff.mpr fun hkey => ?_
  obtain ⟨word, text, -, hliteral⟩ := h.mem_literals hkey
  obtain ⟨-, terminal, hterminal, -⟩ := mem_literals_iff.mp hliteral
  have hlt := (Array.getElem?_eq_some_iff.mp hterminal).choose
  exact h.ne_error_of_isTerminal (decide_eq_true hlt) rfl

/-- External tokens are no keywords. -/
theorem isKeyword_external (h : g.Compiles t) {index : Nat}
    (hs : t.externalSymbol? index = some s) : t.parts.lex.isKeyword s = false := by
  refine Bool.eq_false_iff.mpr fun hkey => ?_
  obtain ⟨word, text, -, hliteral⟩ := h.mem_literals hkey
  obtain ⟨-, terminal, hterminal, htext⟩ := mem_literals_iff.mp hliteral
  obtain ⟨rows, lex, patterns, -, -, hparts⟩ := h.parts_eq
  rw [ParseTable.externalSymbol?] at hs
  split at hs
  · rename_i hindex
    obtain rfl := Option.some.inj hs
    have hlt : index + 1 < g.terminals.size := (Array.getElem?_eq_some_iff.mp hterminal).choose
    have hinfo : t.parts.symbols[index + 1]? = some (terminalInfo terminal) := by
      rw [hparts]
      change (g.terminals.map terminalInfo ++ g.nonTerminals.map nonTerminalInfo)[index + 1]? = _
      rw [Array.getElem?_append_left (by rwa [Array.size_map]), Array.getElem?_map, hterminal,
        Option.map_some]
    -- a literal text is not external, so the check would have found it in the wrong place
    have hkind : (terminalInfo terminal).kind = .terminal := by
      refine if_neg fun hexternal => ?_
      rw [Terminal.literal?, hexternal] at htext
      cases htext
    have hfault := t.isConsistent.symbols _ _ hinfo
    have hplace : t.parts.isExternalPlace (index + 1) = true := by
      simp only [TableParts.isExternalPlace, Bool.and_eq_true, decide_eq_true_eq]
      omega
    have hsection : index + 1 < t.parts.terminalCount := by
      rw [h.terminalCount_eq]
      exact hlt
    rw [TableParts.symbolFault?, hkind, hplace, decide_eq_true hsection] at hfault
    cases hfault
  · cases hs

end PreparedGrammar.Compiles

namespace Lexer

variable {l : Language} {text front rest piece : List Char} {place : Nat} {state : ScannerState}
  {valid : TerminalSet} {errorMode : Bool} {token : Token} {matched s w : Symbol}

/-! ### Words that are cut -/

/-- Whether a word that is matched at a place is of no use: the parser can use neither a word nor
the keyword of its text. -/
def IsUseless (lex : LexSpec) (valid : TerminalSet) (w : Symbol) (piece : List Char) : Prop :=
  valid.contains w = false ∧
    ∀ k, lex.keyword? (String.ofList piece) = some k → valid.contains k = false

/-- A piece that a keyword stands for is a word with the text of the keyword. -/
theorem StandsFor.of_isKeyword {lex : LexSpec} (h : StandsFor lex valid matched piece s)
    (hkeyword : lex.isKeyword s = true) (hword : ∀ w, lex.word = some w → lex.isKeyword w = false) :
    lex.word = some matched ∧ lex.keyword? (String.ofList piece) = some s := by
  cases h with
  | token hnot _ _ =>
    rw [hnot] at hkeyword
    cases hkeyword
  | keyword hisWord hlookup _ => exact ⟨hisWord, hlookup⟩
  | word hisWord _ _ =>
    rw [hword _ hisWord] at hkeyword
    cases hkeyword

/-- A word stands for something unless it is of no use. -/
theorem exists_standsFor {lex : LexSpec} (hword : lex.word = some w)
    (huse : ¬IsUseless lex valid w piece) : ∃ s, StandsFor lex valid w piece s := by
  by_cases hkeyword : ∃ k, lex.keyword? (String.ofList piece) = some k ∧ valid.contains k = true
  · obtain ⟨k, hk, huse⟩ := hkeyword
    exact ⟨k, .keyword hword hk huse⟩
  · have hnone : ∀ k, lex.keyword? (String.ofList piece) = some k → valid.contains k = false :=
      fun k hk => Bool.eq_false_iff.mpr fun hvalid => hkeyword ⟨k, hk, hvalid⟩
    have hvalid : valid.contains w = true := by
      by_contra hnot
      exact huse ⟨Bool.eq_false_iff.mpr hnot, hnone⟩
    exact ⟨w, .word hword hnone hvalid⟩

/-- What is known of a keyword that is found at a place among some terminals: it is a word there,
and longer words are of no use. -/
structure FoundAsWord (t : ParseTable) (text : List Char) (place : Nat) (valid : TerminalSet)
    (w : Symbol) (piece : List Char) (s : Symbol) : Prop where
  matched : t.MatchesAt text place w piece
  keyword : t.parts.lex.keyword? (String.ofList piece) = some s
  longest : ∀ longer, t.MatchesAt text place w longer → byteLength piece < byteLength longer →
    IsUseless t.parts.lex valid w longer

/-- A keyword that the patterns find is found as a word. -/
theorem foundAsWord_of_scanPatterns {t : ParseTable}
    (hkeywords : ∀ w, t.parts.lex.word = some w → t.parts.lex.isKeyword w = false)
    (hw : t.parts.lex.word = some w) (hnotices : t.NoticesEndAt (front ++ rest) (byteLength front))
    {c : Candidate} (h : (scanPatterns t valid front.getLast? rest).1 = some c)
    (hkey : t.parts.lex.isKeyword c.symbol = true) :
    ∃ piece, c.length = byteLength piece ∧
      FoundAsWord t (front ++ rest) (byteLength front) valid w piece c.symbol := by
  obtain ⟨⟨matched, piece, hmatches, -, hstands, hlength, -⟩, hbest⟩ :=
    best_of_scanPatterns hkeywords hnotices h
  obtain ⟨hword, hlookup⟩ := hstands.of_isKeyword hkey hkeywords
  obtain rfl := Option.some.inj (hword.symm.trans hw)
  refine ⟨piece, hlength, hmatches, hlookup, ?_⟩
  intro longer hlonger hlt
  by_contra huse
  obtain ⟨s, hs⟩ := exists_standsFor hword huse
  have hpos : longer ≠ [] := byteLength_pos.mp (Nat.zero_lt_of_lt hlt)
  have hleast := hbest ⟨s, byteLength longer, t.parts.lex.precedenceOf s⟩
    ⟨matched, longer, hlonger, hpos, hs, rfl, rfl⟩
  simp only [Candidate.AtLeast] at hleast
  omega

/-- A keyword that the lexer finds comes from the patterns: no external token is one. -/
theorem exists_candidate_of_isKeyword {g : PreparedGrammar} (h : g.Compiles l.table)
    (hlex : lex l (front ++ rest) (byteLength front) state valid errorMode = some token)
    (hkey : l.table.parts.lex.isKeyword token.symbol = true) :
    ∃ c, (scanPatterns l.table valid front.getLast? rest).1 = some c ∧ token.symbol = c.symbol ∧
      token.start = byteLength front ∧ token.stop = byteLength front + c.length ∧
      token.errorMode = errorMode := by
  cases hexternal : scanExternal l (front ++ rest) (byteLength front) state valid errorMode with
  | mk found examined =>
    cases found with
    | some found =>
      have hfound : found = token := by
        rw [lex, hexternal] at hlex
        exact Option.some.inj hlex
      subst hfound
      obtain ⟨⟨index, hindex⟩, -⟩ := exists_of_scanExternal hexternal
      rw [h.isKeyword_external hindex] at hkey
      cases hkey
    | none =>
      rw [lex_of_scanExternal hexternal] at hlex
      obtain ⟨c, hc, rfl⟩ := Option.map_eq_some_iff.mp hlex
      exact ⟨c, hc, rfl, rfl, rfl, rfl⟩

/-- A keyword that the lexer finds is found as a word. -/
theorem foundAsWord_of_lex {g : PreparedGrammar} (h : g.Compiles l.table)
    (hw : l.table.parts.lex.word = some w)
    (hnotices : l.table.NoticesEndAt (front ++ rest) (byteLength front))
    (hlex : lex l (front ++ rest) (byteLength front) state valid errorMode = some token)
    (hkey : l.table.parts.lex.isKeyword token.symbol = true) :
    token.errorMode = errorMode ∧ token.start = byteLength front ∧
      ∃ piece, token.stop = byteLength front + byteLength piece ∧
        FoundAsWord l.table (front ++ rest) (byteLength front) valid w piece token.symbol := by
  obtain ⟨c, hc, hsymbol, hstart, hstop, hmode⟩ := exists_candidate_of_isKeyword h hlex hkey
  rw [hsymbol] at hkey ⊢
  obtain ⟨piece, hlength, hfound⟩ :=
    foundAsWord_of_scanPatterns (fun _ => h.isKeyword_word) hw hnotices hc hkey
  exact ⟨hmode, hstart, piece, hstop.trans (congrArg _ hlength), hfound⟩

/-- A keyword that the lexer finds is the one of some text. -/
theorem exists_keyword?_of_lex {g : PreparedGrammar} (h : g.Compiles l.table)
    (hlex : lex l (front ++ rest) (byteLength front) state valid errorMode = some token)
    (hkey : l.table.parts.lex.isKeyword token.symbol = true) :
    ∃ text, l.table.parts.lex.keyword? text = some token.symbol := by
  obtain ⟨c, hc, hsymbol, -⟩ := exists_candidate_of_isKeyword h hlex hkey
  obtain ⟨number, piece, -, hmatch, -⟩ := exists_of_scanPatterns hc
  obtain ⟨matched, -, hstands⟩ := (symbolOf?_eq_some_iff fun _ => h.isKeyword_word).mp hmatch
  rw [hsymbol] at hkey ⊢
  exact ⟨_, (hstands.of_isKeyword hkey fun _ => h.isKeyword_word).2⟩

/-- Whether a terminal comes nowhere, whatever the text, the state of the scanner and the terminals of
use. -/
def NeverFinds (l : Language) (s : Symbol) : Prop :=
  ∀ (text : List Char) (place : Nat) (state : ScannerState) (valid : TerminalSet),
    isBoundary place text →
      (nextTokenInErrorMode l text place state).symbol ≠ s ∧
        (nextToken l text place state valid).symbol ≠ s

/-- Whatever is of use, the keywords that come next in a text are those of some text. -/
theorem exists_keyword?_of_nextToken {g : PreparedGrammar} (h : g.Compiles l.table)
    (hplace : isBoundary place text) :
    (l.table.parts.lex.isKeyword (nextTokenInErrorMode l text place state).symbol = true →
      ∃ text', l.table.parts.lex.keyword? text' =
        some (nextTokenInErrorMode l text place state).symbol) ∧
    (l.table.parts.lex.isKeyword (nextToken l text place state valid).symbol = true →
      ∃ text', l.table.parts.lex.keyword? text' =
        some (nextToken l text place state valid).symbol) := by
  obtain ⟨front, rest, rfl, rfl⟩ := isBoundary_iff.mp hplace
  by_cases hrest : rest = []
  · -- there is nothing left, and the end of the input is no keyword
    simp [nextToken, nextTokenInErrorMode, hrest, endToken, h.isKeyword_endOfInput]
  obtain ⟨hnormal, hmode⟩ := nextToken_eq_getD l front hrest state valid
  have herror : l.table.parts.lex.isKeyword
      (nextTokenInErrorMode l (front ++ rest) (byteLength front) state).symbol = true →
      ∃ text', l.table.parts.lex.keyword? text' =
        some (nextTokenInErrorMode l (front ++ rest) (byteLength front) state).symbol := by
    rw [hmode]
    cases hall : lex l (front ++ rest) (byteLength front) state (allTerminals l.table) true with
    | some token => exact exists_keyword?_of_lex h hall
    | none =>
      intro hkey
      rw [Option.getD_none] at hkey
      cases h.isKeyword_error.symm.trans hkey
  refine ⟨herror, ?_⟩
  rw [hnormal]
  cases hlex : lex l (front ++ rest) (byteLength front) state valid false with
  | some token => exact exists_keyword?_of_lex h hlex
  | none => exact herror

/-- Where every terminal is allowed no word is of no use. -/
theorem not_isUseless_allTerminals {t : ParseTable} (hcount : t.terminalCount < 65536)
    (h : t.MatchesAt text place w piece) : ¬IsUseless t.parts.lex (allTerminals t) w piece := by
  obtain ⟨-, -, number, -, -, hnumber, -⟩ := h
  have hfault := t.isConsistent.patterns w (List.mem_of_getElem? hnumber)
  have hlt : w.index < t.terminalCount := by
    rw [TableParts.patternFault?] at hfault
    split at hfault
    · cases hfault
    · rename_i hrange
      simp only [Bool.or_eq_true, decide_eq_true_eq, not_or, Nat.not_le] at hrange
      exact hrange.1
  rintro ⟨huseless, -⟩
  rw [allTerminals, TerminalSet.contains_full_iff.mpr ⟨hlt, hlt.trans hcount⟩] at huseless
  cases huseless

/-- **Keywords are words.** Where the token at a place is a keyword, the pattern of the word matches
its text there, and it is the keyword of that text. A longer piece is matched by the word only if
the token was found among the terminals of use and these include neither the word nor the keyword
of the longer piece. The end of the text has to be one that the patterns notice. -/
theorem word_of_keyword {grammar : Grammar} (hcompile : grammar.compile = .ok l.table)
    (hw : l.table.parts.lex.word = some w) (hplace : isBoundary place text)
    (hnotices : l.table.NoticesEndAt text place)
    (hkey : l.table.parts.lex.isKeyword (nextToken l text place state valid).symbol = true) :
    ∃ piece, (nextToken l text place state valid).start = place ∧
      (nextToken l text place state valid).stop = place + byteLength piece ∧
      l.table.MatchesAt text place w piece ∧
      l.table.parts.lex.keyword? (String.ofList piece) =
        some (nextToken l text place state valid).symbol ∧
      ∀ longer, l.table.MatchesAt text place w longer → byteLength piece < byteLength longer →
        (nextToken l text place state valid).errorMode = false ∧
          IsUseless l.table.parts.lex valid w longer := by
  obtain ⟨prepared, -, h⟩ := Grammar.exists_prepared hcompile
  obtain ⟨front, rest, rfl, rfl⟩ := isBoundary_iff.mp hplace
  by_cases hrest : rest = []
  · -- there is nothing left, and the end of the input is no keyword
    rw [nextToken, if_pos (by simp [hrest]), endToken, h.isKeyword_endOfInput] at hkey
    cases hkey
  obtain ⟨hnormal, hmode⟩ := nextToken_eq_getD l front hrest state valid
  -- The keyword was found among the valid terminals or, in error mode, among all of them.
  cases hlex : lex l (front ++ rest) (byteLength front) state valid false with
  | some token =>
    rw [hlex, Option.getD_some] at hnormal
    rw [hnormal] at hkey ⊢
    obtain ⟨herror, hstart, piece, hstop, hfound⟩ := foundAsWord_of_lex h hw hnotices hlex hkey
    exact ⟨piece, hstart, hstop, hfound.matched, hfound.keyword, fun longer hlonger hlt =>
      ⟨herror, hfound.longest longer hlonger hlt⟩⟩
  | none =>
    rw [hlex, Option.getD_none, hmode] at hnormal
    cases hall : lex l (front ++ rest) (byteLength front) state (allTerminals l.table) true with
    | some token =>
      rw [hall, Option.getD_some] at hnormal
      rw [hnormal] at hkey ⊢
      obtain ⟨-, hstart, piece, hstop, hfound⟩ := foundAsWord_of_lex h hw hnotices hall hkey
      exact ⟨piece, hstart, hstop, hfound.matched, hfound.keyword, fun longer hlonger hlt =>
        absurd (hfound.longest longer hlonger hlt)
          (not_isUseless_allTerminals h.terminalCount_lt hlonger)⟩
    | none =>
      rw [hall, Option.getD_none] at hnormal
      have hsymbol : (nextToken l (front ++ rest) (byteLength front) state valid).symbol = .error := by
        rw [hnormal]
        rfl
      rw [hsymbol, h.isKeyword_error] at hkey
      cases hkey

/-- A keyword and a word behind it. -/
def conditions : Grammar where
  name := "conditions"
  rules := [
    ("phrase", .seq [.literal "if", .reference "name"]),
    ("name", .pattern "[a-z]+" none)]
  extras := []
  conflicts := []
  externals := []
  word := some "name"

/-- The keyword `if` is a word. -/
theorem word_of_keyword_conditions : ∃ l w, conditions.compile = .ok (Language.table l) ∧
    l.table.parts.lex.word = some w ∧ isBoundary 0 "if".toList ∧
    l.table.NoticesEndAt "if".toList 0 ∧
    l.table.parts.lex.isKeyword
      (nextToken l "if".toList 0 [] (l.table.validTerminals 0)).symbol = true ∧
    ∃ piece, l.table.MatchesAt "if".toList 0 w piece ∧
      l.table.parts.lex.keyword? (String.ofList piece) =
        some (nextToken l "if".toList 0 [] (l.table.validTerminals 0)).symbol := by
  have hrun : (conditions.compile.toOption).any (fun t =>
      decide (t.parts.lex.word = some ⟨2⟩) && t.patterns.patterns.all (fun r => !r.hasLook) &&
        t.parts.lex.isKeyword
          (nextToken ⟨t, none⟩ "if".toList 0 [] (t.validTerminals 0)).symbol) = true := by
    decide +kernel
  obtain ⟨t, ht, hcheck⟩ := (Option.any_eq_true ..).mp hrun
  simp only [Bool.and_eq_true, decide_eq_true_eq] at hcheck
  obtain ⟨⟨hword, hlooks⟩, hkey⟩ := hcheck
  have hcompile : conditions.compile = .ok t := eq_ok_of_toOption ht
  have hnotices := ParseTable.noticesEndAt_of_not_hasLook hlooks "if".toList 0
  obtain ⟨piece, -, -, hmatches, hlookup, -⟩ :=
    word_of_keyword (l := ⟨t, none⟩) hcompile hword (by decide) hnotices hkey
  exact ⟨⟨t, none⟩, ⟨2⟩, hcompile, hword, by decide, hnotices, hkey, piece, hmatches, hlookup⟩

/-- At the start of `iffy`, where only `if` is of use, the keyword is cut off a word that is
longer. -/
theorem not_longest_conditions : ∃ l w, conditions.compile = .ok (Language.table l) ∧
    l.table.parts.lex.word = some w ∧ isBoundary 0 "iffy".toList ∧
    l.table.parts.lex.isKeyword
      (nextToken l "iffy".toList 0 [] (l.table.validTerminals 0)).symbol = true ∧
    ∃ longer, l.table.MatchesAt "iffy".toList 0 w longer ∧
      (nextToken l "iffy".toList 0 [] (l.table.validTerminals 0)).stop < byteLength longer := by
  have hrun : (conditions.compile.toOption).any (fun t =>
      decide (t.parts.lex.word = some ⟨2⟩) && decide (t.parts.lex.patternSymbols[1]? = some ⟨2⟩) &&
        (t.patterns.patterns[1]?).any (fun r => r.matchesAll "iffy".toList) &&
        t.parts.lex.isKeyword
          (nextToken ⟨t, none⟩ "iffy".toList 0 [] (t.validTerminals 0)).symbol &&
        decide ((nextToken ⟨t, none⟩ "iffy".toList 0 [] (t.validTerminals 0)).stop = 2)) = true := by
    decide +kernel
  obtain ⟨t, ht, hcheck⟩ := (Option.any_eq_true ..).mp hrun
  simp only [Bool.and_eq_true, decide_eq_true_eq] at hcheck
  obtain ⟨⟨⟨⟨hword, hsymbol⟩, hpattern⟩, hkey⟩, hstop⟩ := hcheck
  obtain ⟨r, hr, hmatches⟩ := (Option.any_eq_true ..).mp hpattern
  have hmatch : r.Matches none "iffy".toList none :=
    (Regex.matchesAll_iff (t.patterns.wellFormed_of_mem (List.mem_of_getElem? hr))).mp hmatches
  refine ⟨⟨t, none⟩, ⟨2⟩, eq_ok_of_toOption ht, hword, by decide, hkey, "iffy".toList,
    ⟨[], [], 1, rfl, rfl, hsymbol, r, hr, hmatch⟩, ?_⟩
  dsimp only
  rw [hstop]
  decide

end Lexer

/-! ### What the pattern of the word matches -/

namespace Regex

open Read

/-- What is left of the expression for a whole text behind the group. -/
theorem sequenceItems_textEnd {fuel : Nat} {items : List Nested} {names : List (List Char)}
    {out : List Nested × ReadState}
    (h : sequenceItems fuel items ⟨['\\', 'z'], .initial, names⟩ = some out) :
    out = (⟨.look .textEnd, 0, .plain⟩ :: items, ⟨[], .initial, names⟩) := by
  cases fuel with
  | zero => cases h
  | succ fuel =>
    cases fuel with
    | zero => cases h
    | succ fuel =>
      have hlook : primitive ⟨['\\', 'z'], .initial, names⟩ =
          some (⟨.look .textEnd, 0, .plain⟩, ⟨[], .initial, names⟩) := rfl
      rw [sequenceItems] at h
      change (primitive >>= fun x => sequenceItems (fuel + 1) (x :: items))
        ⟨['\\', 'z'], .initial, names⟩ = some out at h
      rw [Read.bind_apply, hlook, Option.bind_some, sequenceItems] at h
      exact (Option.some.inj h).symm

/-- The expression for whole texts matches what the one for pieces does, and behind it the end of the
text. -/
theorem matches_wholeText?_iff {source : String} {r whole : Regex} {before after : Option Char}
    {u : List Char} (halone : parse? source.toList = some r) (h : wholeText? source = some whole) :
    whole.Matches before u after ↔ InTurn [r, .look .textEnd] before u after := by
  have htext : ("(?:" ++ source ++ ")\\z").toList =
      opening false ++ (source.toList ++ ')' :: ['\\', 'z']) := by
    rw [String.toList_append, String.toList_append, List.append_assoc]
    rfl
  rw [wholeText?, htext, parse?_eq_readWith?] at h
  obtain ⟨_, x, s, hread, -, rfl⟩ := exists_of_readWith? h
  obtain ⟨_, items, t, hitems, hend⟩ := exists_of_alternatives hread
  obtain ⟨_, inner, t', _, g, hinner, hclosed, hregex, -, hitems⟩ := exists_of_opening hitems
  obtain ⟨rfl, hrest⟩ := eq_of_closed halone (by decide) hinner hclosed
  rw [hrest] at hitems
  obtain ⟨rfl, rfl⟩ := Prod.mk.inj (sequenceItems_textEnd hitems)
  rw [if_neg (by simp)] at hend
  obtain ⟨rfl, -⟩ := hend
  rw [← hregex]
  exact matches_sequence_iff _

theorem matches_wholeText_iff {source : String} {r whole : Regex}
    (halone : parse? source.toList = some r) (h : wholeText? source = some whole)
    {text : List Char} : whole.Matches none text none ↔ r.Matches none text none := by
  rw [matches_wholeText?_iff halone h]
  constructor
  · intro hturn
    cases hturn with
    | cons first rest =>
      cases inTurn_singleton.mp rest
      rwa [List.append_nil]
  · intro hr
    rw [← List.append_nil text]
    exact .cons hr (inTurn_singleton.mpr (.look rfl))

/-- Every source of a set is read. -/
theorem exists_of_mem_sources {sources : List String} {patterns : List Regex}
    (h : compileAll? sources = some patterns) {source : String} (hs : source ∈ sources) :
    ∃ r, parse? source.toList = some r := by
  induction sources generalizing patterns with
  | nil => cases hs
  | cons first rest ih =>
    rw [compileAll?, List.mapM_cons] at h
    obtain ⟨r, hr, h⟩ := Option.bind_eq_some_iff.mp h
    obtain ⟨rs, hrs, -⟩ := Option.bind_eq_some_iff.mp h
    rcases List.mem_cons.mp hs with rfl | hs
    · split at hr
      · exact ⟨_, ‹_›⟩
      · cases hr
    · exact ih hrs hs

end Regex

/-! ### The table of keywords -/

namespace Keywords

variable {text : String} {k : Symbol} {entries : List (String × Symbol)}

theorem lookup_cons_eq (t : String) (s : Symbol) (keywords : Keywords) :
    List.lookup text ((t, s) :: keywords) = if text = t then some s else keywords.lookup text := by
  rw [List.lookup_cons]
  by_cases heq : text = t
  · simp [heq]
  · simp [heq, beq_eq_false_iff_ne.mpr heq]

/-- A keyword that is added is the one of its text, whatever was there. -/
theorem lookup_insert (t : String) (s : Symbol) (keywords : Keywords) :
    (insert t s keywords).lookup text = if text = t then some s else keywords.lookup text := by
  induction keywords with
  | nil => exact lookup_cons_eq t s []
  | cons first rest ih =>
    obtain ⟨u, old⟩ := first
    rw [insert]
    split
    · exact lookup_cons_eq t s _
    · split
      · rename_i heq
        by_cases ht : text = t <;> simp [lookup_cons_eq, ← heq, ht]
      · rename_i hne
        rw [lookup_cons_eq, lookup_cons_eq, ih]
        by_cases hu : text = u
        · simp [hu, Ne.symm hne]
        · simp [hu]

/-- The keyword of a text is the last one with that text. -/
theorem lookup_ofList (entries : List (String × Symbol)) (text : String) :
    (ofList entries).lookup text = entries.reverse.lookup text := by
  induction entries using List.reverseRecOn with
  | nil => rfl
  | append_singleton front entry ih =>
    rw [ofList, List.foldl_append, List.reverse_concat, lookup_cons_eq, ← ih]
    exact lookup_insert entry.1 entry.2 (ofList front)

theorem lookup_ofList_eq_some_iff (hsorted : entries.Pairwise fun a b => a.2.index < b.2.index) :
    (ofList entries).lookup text = some k ↔
      (text, k) ∈ entries ∧ ∀ k', (text, k') ∈ entries → k'.index ≤ k.index := by
  rw [lookup_ofList, List.lookup_eq_some_iff]
  constructor
  · rintro ⟨back, front, heq, hback⟩
    obtain rfl : entries = front.reverse ++ (text, k) :: back.reverse := by
      rw [← List.reverse_reverse entries, heq]
      simp
    refine ⟨by simp, fun k' hk' => ?_⟩
    rcases List.mem_append.mp hk' with hfront | hrest
    · exact Nat.le_of_lt ((List.pairwise_append.mp hsorted).2.2 _ hfront _ List.mem_cons_self)
    · rcases List.mem_cons.mp hrest with heq | hlater
      · exact (Prod.mk.inj heq).2 ▸ Nat.le_refl _
      · exact absurd rfl (bne_iff_ne.mp (hback _ (List.mem_reverse.mp hlater)))
  · rintro ⟨hmem, hlast⟩
    obtain ⟨front, back, rfl⟩ := List.append_of_mem hmem
    refine ⟨back.reverse, front.reverse, by simp, fun p hp => bne_iff_ne.mpr fun heq => ?_⟩
    have hback := List.mem_reverse.mp hp
    have hle := hlast p.2 (List.mem_append_right _ (List.mem_cons_of_mem _ (heq ▸ hback)))
    have hlt := List.rel_of_pairwise_cons (List.pairwise_append.mp hsorted).2.1 hback
    exact Nat.not_le.mpr hlt hle

end Keywords

namespace PreparedGrammar

variable {g : PreparedGrammar} {lex : LexSpec} {patterns : PatternSet} {k : Symbol} {text : String}

/-- The text that a terminal takes literally, if it does. -/
def literalAt? (g : PreparedGrammar) (k : Symbol) : Option String :=
  g.terminals[k.index]?.bind (·.literal?)

/-- Whether the pattern of the word matches a text from end to end. -/
def WordMatches (g : PreparedGrammar) (text : String) : Prop :=
  ∃ word source precedence r, g.word = some word ∧
    g.terminals[word.index]?.bind (·.definition?) = some (source, precedence) ∧
    Regex.parse? source.toList = some r ∧ r.Matches none text.toList none

/-- Whether a terminal is a keyword: a text that the pattern of the word matches, and not the word
itself. -/
structure IsKeyword (g : PreparedGrammar) (k : Symbol) (text : String) : Prop where
  literal : g.literalAt? k = some text
  ne_word : g.word ≠ some k
  matched : g.WordMatches text

theorem pairwise_literals (word : Symbol) :
    (g.literals word).Pairwise fun a b => a.2.index < b.2.index := by
  rw [literals, List.pairwise_filterMap]
  have hplaces : (g.terminals.toList.zipIdx.map (·.2)).Pairwise (· < ·) := by
    rw [List.zipIdx_map_snd]
    exact List.pairwise_lt_range'
  have hplace : ∀ {entry : Terminal × Nat} {x : String × Symbol},
      (if entry.2 = word.index then none else entry.1.literal?.map fun text => (text, ⟨entry.2⟩)) =
        some x → x.2.index = entry.2 := by
    intro entry x hx
    split at hx
    · cases hx
    · obtain ⟨text, -, rfl⟩ := Option.map_eq_some_iff.mp hx
      rfl
  refine (List.pairwise_map.mp hplaces).imp fun {a b} hlt x hx y hy => ?_
  rw [hplace hx, hplace hy]
  exact hlt

/-- The patterns of terminals are read before the keywords are looked for. -/
theorem exists_parse_of_lexSpec (hlex : g.lexSpec = .ok (lex, patterns)) {source : String}
    {precedence : Int}
    (hsource : g.terminals[k.index]?.bind (·.definition?) = some (source, precedence)) :
    ∃ r, Regex.parse? source.toList = some r := by
  obtain ⟨hmade, -⟩ := lexSpec_eq_ok.mp hlex
  obtain ⟨terminal, hterminal, hdefinition⟩ := Option.bind_eq_some_iff.mp hsource
  have hlexical : (k, (source, precedence)) ∈ g.lexicalTerminals := by
    rw [lexicalTerminals, List.mem_filterMap]
    refine ⟨(terminal, k.index), List.mem_zipIdx_iff_getElem?.mpr ?_, ?_⟩
    · rwa [Array.getElem?_toList]
    · dsimp only
      rw [hdefinition, Option.map_some]
  rw [PatternSet.ofSources?] at hmade
  split at hmade
  · rename_i hcompiled
    exact Regex.exists_of_mem_sources hcompiled (List.mem_map.mpr ⟨_, hlexical, rfl⟩)
  · cases hmade

theorem literalAt?_eq_some_iff : g.literalAt? k = some text ↔
    ∃ terminal, g.terminals[k.index]? = some terminal ∧ terminal.literal? = some text :=
  Option.bind_eq_some_iff

/-- The keywords that are found are the terminals that are keywords. -/
theorem mem_keywordList_iff (hlex : g.lexSpec = .ok (lex, patterns))
    {keywords : List (String × Symbol)} (hkeywords : g.keywordList = .ok keywords) :
    (text, k) ∈ keywords ↔ g.IsKeyword k text := by
  rw [keywordList] at hkeywords
  split at hkeywords
  case h_1 hnone =>
    cases hkeywords
    refine iff_of_false List.not_mem_nil fun h => ?_
    obtain ⟨word, _, _, _, hword, -⟩ := h.matched
    cases hnone.symm.trans hword
  case h_2 word hword =>
  split at hkeywords
  case h_1 hnone =>
    cases hkeywords
    refine iff_of_false List.not_mem_nil fun h => ?_
    obtain ⟨word', _, _, _, hword', hsource, -⟩ := h.matched
    obtain rfl := Option.some.inj (hword.symm.trans hword')
    cases hnone.symm.trans hsource
  case h_2 source precedence hsource =>
  obtain ⟨r, hr⟩ := exists_parse_of_lexSpec hlex hsource
  split at hkeywords
  case h_1 => cases hkeywords
  case h_2 whole hwhole =>
  cases hkeywords
  -- the expression for whole texts matches what the pattern of the word matches
  have hmatches : whole.matchesAll text.toList = true ↔ g.WordMatches text := by
    rw [Regex.matchesAll_iff (Regex.wellFormed_of_parse? hwhole),
      Regex.matches_wholeText_iff hr hwhole]
    constructor
    · intro h
      exact ⟨word, source, precedence, r, hword, hsource, hr, h⟩
    · rintro ⟨word', source', precedence', r', hword', hsource', hr', h⟩
      obtain rfl := Option.some.inj (hword.symm.trans hword')
      obtain ⟨rfl, -⟩ := Prod.mk.inj (Option.some.inj (hsource.symm.trans hsource'))
      obtain rfl := Option.some.inj (hr.symm.trans hr')
      exact h
  have hother : g.word ≠ some k ↔ k.index ≠ word.index := by
    rw [hword, ne_eq, ne_eq, Option.some.injEq, eq_comm, Symbol.mk.injEq]
  rw [keywordsLike, List.mem_filter, hmatches, mem_literals_iff, ← literalAt?_eq_some_iff, ← hother]
  constructor
  · rintro ⟨⟨hne, hliteral⟩, hmatched⟩
    exact ⟨hliteral, hne, hmatched⟩
  · rintro ⟨hliteral, hne, hmatched⟩
    exact ⟨⟨hne, hliteral⟩, hmatched⟩

theorem pairwise_keywordList {keywords : List (String × Symbol)}
    (h : g.keywordList = .ok keywords) : keywords.Pairwise fun a b => a.2.index < b.2.index := by
  rw [keywordList] at h
  split at h
  · cases h
    exact .nil
  split at h
  · cases h
    exact .nil
  split at h
  · cases h
  · cases h
    exact (pairwise_literals _).filter _

/-- The keywords of the lexer are those of the grammar. -/
theorem isKeyword_iff (hlex : g.lexSpec = .ok (lex, patterns)) :
    lex.isKeyword k = true ↔ ∃ text, g.IsKeyword k text := by
  obtain ⟨-, keywords, hkeywords, -, hset⟩ := exists_of_lexSpec hlex
  rw [LexSpec.isKeyword, hset, contains_terminalSet, List.mem_map]
  constructor
  · rintro ⟨⟨text, _⟩, hentry, rfl⟩
    exact ⟨text, (mem_keywordList_iff hlex hkeywords).mp hentry⟩
  · rintro ⟨text, hk⟩
    exact ⟨(text, k), (mem_keywordList_iff hlex hkeywords).mpr hk, rfl⟩

/-- The keyword that is looked up by a text is the last one of the text. -/
theorem keyword?_eq_some_iff (hlex : g.lexSpec = .ok (lex, patterns)) :
    lex.keyword? text = some k ↔
      g.IsKeyword k text ∧ ∀ k', g.IsKeyword k' text → k'.index ≤ k.index := by
  obtain ⟨-, keywords, hkeywords, htable, -⟩ := exists_of_lexSpec hlex
  have hmem : ∀ k', (text, k') ∈ keywords ↔ g.IsKeyword k' text := fun k' =>
    mem_keywordList_iff hlex hkeywords
  rw [LexSpec.keyword?, htable,
    Keywords.lookup_ofList_eq_some_iff (pairwise_keywordList hkeywords), hmem]
  simp only [hmem]

/-- A keyword with the text of a later one is never found. -/
theorem Compiles.neverFinds_of_later {l : Language} (h : g.Compiles l.table) {k k' : Symbol}
    (hk : g.IsKeyword k text) (hlater : g.IsKeyword k' text) (hlt : k.index < k'.index) :
    Lexer.NeverFinds l k := by
  obtain ⟨rows, lex, patterns, -, hlex, hparts⟩ := h.parts_eq
  have hlexeq : l.table.parts.lex = lex := by
    rw [hparts]
    rfl
  have hkey : l.table.parts.lex.isKeyword k = true := by
    rw [hlexeq]
    exact (isKeyword_iff hlex).mpr ⟨text, hk⟩
  -- the text that it would be the keyword of is its own, which has a later one
  have hnone : ¬∃ text', l.table.parts.lex.keyword? text' = some k := by
    rintro ⟨text', hlookup⟩
    rw [hlexeq] at hlookup
    obtain ⟨hk', hlast⟩ := (keyword?_eq_some_iff hlex).mp hlookup
    obtain rfl := Option.some.inj (hk.literal.symm.trans hk'.literal)
    exact Nat.not_le.mpr hlt (hlast k' hlater)
  intro source place state valid hplace
  obtain ⟨herror, hnormal⟩ := Lexer.exists_keyword?_of_nextToken h hplace
  constructor
  · intro heq
    rw [heq] at herror
    exact hnone (herror hkey)
  · intro heq
    rw [heq] at hnormal
    exact hnone (hnormal hkey)

/-- **The lexer gets each keyword, the last one of each text.** The keywords are the literal texts,
other than the word, that the pattern of the word matches. All of them are looked up by their texts
just if no two have one text; of those that have, only the last one is ever found. -/
theorem keywords_of_lexSpec (hlex : g.lexSpec = .ok (lex, patterns)) :
    (∀ k, lex.isKeyword k = true ↔ ∃ text, g.IsKeyword k text) ∧
      (∀ text k, lex.keyword? text = some k ↔
        g.IsKeyword k text ∧ ∀ k', g.IsKeyword k' text → k'.index ≤ k.index) ∧
      ((∀ text k, g.IsKeyword k text → lex.keyword? text = some k) ↔
        ∀ text k k', g.IsKeyword k text → g.IsKeyword k' text → k = k') ∧
      ∀ l : Language, g.Compiles l.table → ∀ text k k', g.IsKeyword k text → g.IsKeyword k' text →
        k.index < k'.index → Lexer.NeverFinds l k := by
  refine ⟨fun _ => isKeyword_iff hlex, fun _ _ => keyword?_eq_some_iff hlex, ?_,
    fun l h _ _ _ hk hlater hlt => h.neverFinds_of_later hk hlater hlt⟩
  constructor
  · intro h text k k' hk hk'
    exact Option.some.inj ((h text k hk).symm.trans (h text k' hk'))
  · intro h text k hk
    refine (keyword?_eq_some_iff hlex).mpr ⟨hk, fun k' hk' => ?_⟩
    rw [h text k k' hk hk']

/-- `if` is the only keyword of its text. -/
theorem keywords_conditions : ∃ prepared lex patterns, Lexer.conditions.prepare = .ok prepared ∧
    prepared.lexSpec = .ok (lex, patterns) ∧ lex.keyword? "if" = some ⟨1⟩ ∧
    prepared.IsKeyword ⟨1⟩ "if" ∧ ∀ k, prepared.IsKeyword k "if" → k.index ≤ 1 := by
  have hrun : Lexer.conditions.prepare.toOption.any (fun prepared =>
      prepared.lexSpec.toOption.any fun spec =>
        decide (spec.1.keyword? "if" = some ⟨1⟩)) = true := by
    decide +kernel
  obtain ⟨prepared, hprepare, hrun⟩ := (Option.any_eq_true ..).mp hrun
  obtain ⟨⟨lex, patterns⟩, hlex, hkeyword⟩ := (Option.any_eq_true ..).mp hrun
  have hlex := eq_ok_of_toOption hlex
  have hkeyword := of_decide_eq_true hkeyword
  obtain ⟨-, hlast, -⟩ := keywords_of_lexSpec hlex
  obtain ⟨hone, hmost⟩ := (hlast "if" ⟨1⟩).mp hkeyword
  exact ⟨prepared, lex, patterns, eq_ok_of_toOption hprepare, hlex, hkeyword, hone, hmost⟩

/-- Two tokens with one text, which are told apart by their levels. Behind the parenthesis only the
first one can come. -/
def twice : Grammar where
  name := "twice"
  rules := [
    ("phrase", .choice [.seq [.literal "(", .reference "first"], .reference "second"]),
    ("first", .literal "if"),
    ("second", .prec none 1 (.literal "if")),
    ("name", .pattern "[a-z]+" none)]
  extras := []
  conflicts := []
  externals := []
  word := some "name"

/-- The first of two keywords with one text is not found, not even where the parser has a use for no
other terminal. -/
theorem dead_keyword_twice : ∃ prepared lex patterns t, twice.prepare = .ok prepared ∧
    prepared.lexSpec = .ok (lex, patterns) ∧ twice.compile = .ok t ∧
    prepared.IsKeyword ⟨2⟩ "if" ∧ lex.isKeyword ⟨2⟩ = true ∧ lex.keyword? "if" = some ⟨3⟩ ∧
    (t.validTerminals 1).toList = [⟨2⟩] ∧
    (Lexer.nextToken ⟨t, none⟩ "(if".toList 1 [] (t.validTerminals 1)).symbol = ⟨3⟩ ∧
    (Lexer.nextToken ⟨t, none⟩ "(if".toList 1 [] (t.validTerminals 1)).errorMode = true := by
  have hrun : twice.prepare.toOption.any (fun prepared =>
      prepared.lexSpec.toOption.any fun spec =>
        prepared.keywordList.toOption.any (fun keywords => decide (("if", ⟨2⟩) ∈ keywords)) &&
          spec.1.isKeyword ⟨2⟩ && decide (spec.1.keyword? "if" = some ⟨3⟩)) = true := by
    decide +kernel
  have hcompile : twice.compile.toOption.any (fun t =>
      decide ((t.validTerminals 1).toList = [⟨2⟩]) &&
        decide ((Lexer.nextToken ⟨t, none⟩ "(if".toList 1 [] (t.validTerminals 1)).symbol = ⟨3⟩) &&
        (Lexer.nextToken ⟨t, none⟩ "(if".toList 1 [] (t.validTerminals 1)).errorMode) = true := by
    decide +kernel
  obtain ⟨prepared, hprepare, hrun⟩ := (Option.any_eq_true ..).mp hrun
  obtain ⟨⟨lex, patterns⟩, hlex, hrun⟩ := (Option.any_eq_true ..).mp hrun
  obtain ⟨t, ht, hcompile⟩ := (Option.any_eq_true ..).mp hcompile
  simp only [Bool.and_eq_true, decide_eq_true_eq] at hrun hcompile
  obtain ⟨⟨hlisted, hset⟩, htable⟩ := hrun
  obtain ⟨keywords, hkeywords, hmem⟩ := (Option.any_eq_true ..).mp hlisted
  have hlex := eq_ok_of_toOption hlex
  have hkeyword := (mem_keywordList_iff hlex (eq_ok_of_toOption hkeywords)).mp
    (of_decide_eq_true hmem)
  exact ⟨prepared, lex, patterns, t, eq_ok_of_toOption hprepare, hlex, eq_ok_of_toOption ht, hkeyword,
    hset, htable, hcompile.1.1, hcompile.1.2, hcompile.2⟩

end PreparedGrammar

end LRWorkbench
