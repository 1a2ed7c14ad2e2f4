import LRWorkbench.Proofs.Lexing.Stray

/-!
# Languages that account for what they look at

A token that stands before the end of the text takes at least one character, and it remembers how far
the lexer looked: behind its own end, and no further than to the end of the text, which counts as one
byte (`Lexer.progresses_nextToken`).

A subtree remembers how far its tokens looked. That is not all that a subtree depends on in every
language. `Language.KeepsAccount` says what has to hold of patterns, extras and the scanner so that
it is.

A language without external tokens keeps account if no pattern looks behind and its extras are apart
from all that the parser has a use for, with no more than the byte behind them looked at
(`Language.keepsAccount_of_sparesExtras`). The last is so if all patterns are for single characters
(`PatternSet.examined_eq_of_isChars`).
-/

namespace LRWorkbench

open Text

/-- Whether what tokens remember accounts for all that was looked at to find them and the extras
before them. Subtrees are taken over on the strength of what they remember, so each of the conditions
closes a gap in that. -/
structure Language.KeepsAccount (l : Language) : Prop where
  /-- No pattern depends on the character before it. The one before a subtree may be another one after
  an edit, and the subtree does not remember it. -/
  before : l.table.patterns.looksBehind = false
  /-- An extra is found like a token of use, and no more than the byte behind it is looked at. Extras
  before the token that settles what is reduced stay outside the node, and how far they looked is
  forgotten with them. -/
  extras : ∀ text place state q,
    (Lexer.nextToken l text place state (l.table.validTerminals q)).isExtra = true →
      (Lexer.nextToken l text place state (l.table.validTerminals q)).errorMode = false ∧
        (Lexer.nextToken l text place state (l.table.validTerminals q)).lookaheadEnd ≤
          (Lexer.nextToken l text place state (l.table.validTerminals q)).stop + 1
  /-- The parser has no use for extras. Otherwise a token is an extra in one state and a step of a
  phrase in another one, and which it is depends on more than the subtree. -/
  useless : ∀ q s, l.table.parts.lex.isExtra s = true → l.table.action q s = .error
  /-- What the parser has a use for settles which token is found, and nothing else about it. A subtree
  is taken over if its first token is found again, by its kind and its length; what a scanner makes of
  its state, and how far the token looked, have to follow from these. -/
  steady : ∀ text place state q r,
    (Lexer.nextToken l text place state (l.table.validTerminals q)).errorMode = false →
    (Lexer.nextToken l text place state (l.table.validTerminals r)).errorMode = false →
    (Lexer.nextToken l text place state (l.table.validTerminals r)).symbol =
      (Lexer.nextToken l text place state (l.table.validTerminals q)).symbol →
    (Lexer.nextToken l text place state (l.table.validTerminals r)).stop =
      (Lexer.nextToken l text place state (l.table.validTerminals q)).stop →
    Lexer.nextToken l text place state (l.table.validTerminals r) =
      Lexer.nextToken l text place state (l.table.validTerminals q)

/-- A scan looks at the end of the text at most. -/
theorem ScanResult.reach_le (r : ScanResult) (length : Nat) : r.reach length ≤ length + 1 := by
  rw [reach]
  split <;> omega

/-- Whether what a token remembers to have been looked at goes beyond its own end and not beyond
the end of the text. -/
structure Token.LooksAhead (text : List Char) (token : Token) : Prop where
  lt_lookaheadEnd : token.stop < token.lookaheadEnd
  lookaheadEnd_le : token.lookaheadEnd ≤ byteLength text + 1

/-- Whether a token takes at least one character at a place of a text, and remembers how far was looked. -/
structure Token.Progresses (text : List Char) (place : Nat) (token : Token) : Prop extends
    token.LooksAhead text where
  start_eq : token.start = place
  lt_stop : place < token.stop
  stop_le : token.stop ≤ byteLength text
  isBoundary_stop : isBoundary token.stop text = true
  isEnd_eq : token.isEnd = false

/-- Before the end of the text tokens do that. -/
theorem Token.Takes.progresses {text front piece rest : List Char} {token : Token}
    (h : token.Takes text front piece rest) (hlooks : token.LooksAhead text)
    (hlt : byteLength front < byteLength text) : token.Progresses text (byteLength front) := by
  have htext : byteLength text = byteLength front + byteLength piece + byteLength rest := by
    rw [h.text_eq, byteLength_append, byteLength_append]
  have hpiece : piece ≠ [] := by
    intro hnil
    rw [hnil, h.ends hnil, byteLength_nil] at htext
    omega
  have hpos := byteLength_pos.mpr hpiece
  have hstop := h.stop_eq
  exact {
    toLooksAhead := hlooks
    start_eq := h.start_eq
    lt_stop := by omega
    stop_le := by omega
    isBoundary_stop := isBoundary_iff.mpr
      ⟨front ++ piece, rest, h.text_eq, (byteLength_append ..).trans hstop.symm⟩
    isEnd_eq := Bool.eq_false_iff.mpr fun hend => hpiece (h.isEnd_iff.mp hend) }

namespace Lexer

section LooksAhead

variable {l : Language} {front back : List Char} {state : ScannerState} {valid : TerminalSet}
  {errorMode : Bool} {token : Token}

/-- So does the scan with the patterns of a row. -/
theorem examined_scanPatterns_le (t : ParseTable) (valid : TerminalSet) (before : Option Char)
    (text : List Char) : (scanPatterns t valid before text).2 ≤ byteLength text + 1 :=
  (ByteAutomaton.readsWithin_scan ..).examined_le.trans_eq (by rw [Nat.zero_add])

/-- The scanner is not taken to have looked beyond the end of the text, whatever it tells. -/
theorem examined_scanExternal_le :
    (scanExternal l (front ++ back) (byteLength front) state valid errorMode).2 ≤
      byteLength (front ++ back) + 1 := by
  rw [scanExternal_append, byteLength_append]
  split
  · dsimp only
    omega
  split
  · dsimp only
    omega
  · have hreach := ScanResult.reach_le
    dsimp only
    exact Nat.add_le_add_left (hreach _ _) _

/-- A token of the scanner ends in the text. -/
theorem lookaheadEnd_le_of_scanExternal {examined : Nat}
    (h : scanExternal l (front ++ back) (byteLength front) state valid errorMode =
      (some token, examined)) : token.lookaheadEnd ≤ byteLength (front ++ back) + 1 := by
  rw [scanExternal_append] at h
  split at h
  · cases h
  split at h
  · cases h
  obtain ⟨htoken, -⟩ := Prod.mk.inj h
  obtain ⟨s, -, hs⟩ := Option.bind_eq_some_iff.mp htoken
  split at hs
  · cases hs
  rename_i hfits
  simp only [Bool.or_eq_true, decide_eq_true_eq, not_or, Nat.not_lt] at hfits
  obtain ⟨⟨⟨-, hconsumed⟩, -⟩, -⟩ := hfits
  obtain rfl := Option.some.inj hs
  have hreach := ScanResult.reach_le
  rw [byteLength_append]
  exact Nat.add_le_add_left (Nat.max_le.mpr ⟨hreach _ _, Nat.succ_le_succ hconsumed⟩) _

/-- A token that is found in the text says how far it was looked ahead for it. -/
theorem looksAhead_of_lex
    (h : lex l (front ++ back) (byteLength front) state valid errorMode = some token) :
    token.LooksAhead (front ++ back) := by
  refine ⟨(spec_of_lex h).2.2, ?_⟩
  have hexamined : (scanExternal l (front ++ back) (byteLength front) state valid errorMode).2 ≤
      byteLength (front ++ back) + 1 := examined_scanExternal_le
  simp only [lex] at h
  split at h
  · rename_i found examined hfound
    obtain rfl := Option.some.inj h
    exact lookaheadEnd_le_of_scanExternal hfound
  · rename_i examined hnone
    rw [hnone] at hexamined
    rw [seek_append] at h
    obtain ⟨c, -, rfl⟩ := Option.map_eq_some_iff.mp h
    have hcount := examined_scanPatterns_le l.table valid front.getLast? back
    rw [byteLength_append] at hexamined ⊢
    dsimp only at hexamined ⊢
    omega

/-- The end of the text is found by looking at it. -/
theorem looksAhead_endToken (text : List Char) (state : ScannerState) :
    (endToken (byteLength text) state).LooksAhead text :=
  ⟨Nat.lt_succ_self _, Nat.le_refl _⟩

/-- Skipping ends in the text, and so does what is looked at on the way. -/
theorem skipFrom_le (t : ParseTable) (before : Option Char) (place lookahead : Nat)
    (text : List Char) :
    (skipFrom t before place lookahead text).1 ≤ place + byteLength text ∧
      (skipFrom t before place lookahead text).2 ≤
        max lookahead (place + byteLength text + 1) := by
  induction text generalizing before place lookahead with
  | nil => exact ⟨Nat.le_refl _, Nat.le_max_left ..⟩
  | cons c cs ih =>
    have hcount := examined_scanPatterns_le t (allTerminals t) before (c :: cs)
    rw [byteLength_cons] at hcount ⊢
    simp only [skipFrom]
    split
    · dsimp only
      omega
    · obtain ⟨hplace, hlookahead⟩ := ih (some c) (place + c.utf8Size)
        (max lookahead (place + (scanPatterns t (allTerminals t) before (c :: cs)).2))
      omega

/-- So is a character that nothing recognizes. -/
theorem looksAhead_errorToken (t : ParseTable) (hback : back ≠ []) :
    (errorToken t (front ++ back) (byteLength front) state).LooksAhead (front ++ back) := by
  obtain ⟨c, cs, rfl⟩ := List.exists_cons_of_ne_nil hback
  obtain ⟨hplace, hlookahead⟩ := skipFrom_le t (some c) (byteLength front + c.utf8Size)
    (byteLength front) cs
  refine ⟨?_, ?_⟩ <;> rw [errorToken, seek_append] <;> dsimp only
  · omega
  · rw [byteLength_append, byteLength_cons]
    omega

/-- The token at a place when every terminal is allowed looks behind its end, and not beyond the
text. -/
theorem looksAhead_nextTokenInErrorMode (l : Language) (front back : List Char)
    (state : ScannerState) :
    (nextTokenInErrorMode l (front ++ back) (byteLength front) state).LooksAhead
      (front ++ back) := by
  rw [nextTokenInErrorMode]
  split
  · exact looksAhead_endToken _ state
  · rename_i hle
    cases hlex : lex l (front ++ back) (byteLength front) state (allTerminals l.table) true with
    | some token => exact looksAhead_of_lex hlex
    | none => exact looksAhead_errorToken l.table fun hnil => hle (by simp [hnil])

/-- The token at a place looks behind its end, and not beyond the text. -/
theorem looksAhead_nextToken (l : Language) (front back : List Char) (state : ScannerState)
    (valid : TerminalSet) :
    (nextToken l (front ++ back) (byteLength front) state valid).LooksAhead (front ++ back) := by
  rw [nextToken]
  split
  · exact looksAhead_endToken _ state
  · cases hlex : lex l (front ++ back) (byteLength front) state valid false with
    | some token => exact looksAhead_of_lex hlex
    | none => exact looksAhead_nextTokenInErrorMode l front back state

/-- Before the end of the text, every token takes at least one character, whatever the scanner reports. -/
theorem progresses_nextToken (hl : l.table.SparesEnd) (hback : back ≠ []) (state : ScannerState)
    (valid : TerminalSet) :
    (nextToken l (front ++ back) (byteLength front) state valid).Progresses (front ++ back)
      (byteLength front) := by
  obtain ⟨piece, rest, htakes⟩ := takes_nextToken hl front back state valid
  have hpos := byteLength_pos.mpr hback
  exact htakes.progresses (looksAhead_nextToken l front back state valid)
    (by rw [byteLength_append]; omega)

/-- So does every token when every terminal is allowed. -/
theorem progresses_nextTokenInErrorMode (hl : l.table.SparesEnd) (hback : back ≠ [])
    (state : ScannerState) :
    (nextTokenInErrorMode l (front ++ back) (byteLength front) state).Progresses (front ++ back)
      (byteLength front) := by
  obtain ⟨piece, rest, htakes⟩ := takes_nextTokenInErrorMode hl front back state
  have hpos := byteLength_pos.mpr hback
  exact htakes.progresses (looksAhead_nextTokenInErrorMode l front back state)
    (by rw [byteLength_append]; omega)

end LooksAhead

variable {l : Language} {text : List Char} {place : Nat} {state : ScannerState}
  {valid : TerminalSet} {errorMode : Bool} {token : Token}

/-! ### What is known of any token -/

/-- What is known of the token at a place, whatever it is. -/
structure FoundWith (l : Language) (state : ScannerState) (token : Token) : Prop where
  scannerBefore : token.scannerBefore = state
  isExtra : token.isExtra = true → l.table.parts.lex.isExtra token.symbol = true
  isError : token.isError = true → token.symbol = .error ∧ token.isExtra = false
  scannerAfter : l.scanner = none → token.scannerAfter = state

/-- Only extras of the grammar are taken for extras at a place. -/
theorem isExtra_of_isExtraHere {t : ParseTable} {s : Symbol}
    (h : isExtraHere t valid errorMode s = true) : t.parts.lex.isExtra s = true :=
  (Bool.and_eq_true_iff.mp h).1

/-- The scanner is given the state that the token remembers as the one before it. -/
theorem foundWith_scanExternal {examined : Nat}
    (h : scanExternal l text place state valid errorMode = (some token, examined)) :
    FoundWith l state token := by
  rw [scanExternal] at h
  dsimp only at h
  split at h
  case h_1 => cases h
  case h_2 scanner hscanner =>
  split at h
  case isTrue => cases h
  case isFalse =>
  split at h
  case h_1 => cases h
  case h_2 =>
  split at h
  case isTrue => cases h
  case isFalse =>
    cases h
    refine ⟨rfl, isExtra_of_isExtraHere, fun herror => ?_, fun hnone => ?_⟩
    · cases herror
    · cases hnone.symm.trans hscanner

/-- Without a scanner the state stays as it is. -/
theorem foundWith_lex (h : lex l text place state valid errorMode = some token) :
    FoundWith l state token := by
  rw [lex] at h
  split at h
  · rename_i hexternal
    cases h
    exact foundWith_scanExternal hexternal
  · obtain ⟨c, -, rfl⟩ := Option.map_eq_some_iff.mp h
    refine ⟨rfl, isExtra_of_isExtraHere, fun herror => ?_, fun _ => rfl⟩
    cases herror

theorem foundWith_endToken (length : Nat) : FoundWith l state (endToken length state) :=
  ⟨rfl, nofun, nofun, fun _ => rfl⟩

/-- What nothing recognizes is an error and no extra. -/
theorem foundWith_nextTokenInErrorMode :
    FoundWith l state (nextTokenInErrorMode l text place state) := by
  rw [nextTokenInErrorMode]
  split
  · exact foundWith_endToken _
  · cases hlex : lex l text place state (allTerminals l.table) true with
    | none =>
      refine ⟨rfl, fun hextra => ?_, fun _ => ⟨rfl, rfl⟩, fun _ => rfl⟩
      cases hextra
    | some token => exact foundWith_lex hlex

/-- So every token remembers the state before it, and only extras of the grammar are taken for such. -/
theorem foundWith_nextToken : FoundWith l state (nextToken l text place state valid) := by
  rw [nextToken]
  split
  · exact foundWith_endToken _
  · cases hlex : lex l text place state valid false with
    | none => exact foundWith_nextTokenInErrorMode
    | some token => exact foundWith_lex hlex

end Lexer

/-! ### Patterns of one character -/

/-- Whether a pattern is one for single characters. -/
def Regex.isChars : Regex → Bool
  | .chars _ => true
  | _ => false

namespace PatternSet

variable {before : Option Char} {place : Nat} {live : Live} {text : List Char}

variable (before place text) in
/-- Where nothing is left of the patterns in the game, the next byte settles it. -/
theorem scanOn_of_spent (h : ∀ entry ∈ live, ∀ r ∈ entry.2, r = .empty) :
    (∀ found ∈ (scanOn before place live text).found, found.2 = place) ∧
      (scanOn before place live text).examined = place + 1 := by
  have hplace (numbers : List Nat) : ∀ found ∈ numbers.map (·, place), found.2 = place := by
    intro found hfound
    obtain ⟨number, -, rfl⟩ := List.mem_map.mp hfound
    rfl
  cases text with
  | nil => exact ⟨hplace _, rfl⟩
  | cons c cs =>
    -- Expressions that are used up can not read another byte, so the scan ends with the next one.
    have hread (lo hi : Nat) : live.canRead before (some c) lo hi = false := by
      refine List.any_eq_false.mpr fun entry hentry => ?_
      rw [Bool.not_eq_true, List.any_eq_false]
      intro r hr
      rw [h entry hentry r hr]
      exact Bool.false_ne_true
    have hnext : live.next before c = [] := by
      refine List.filterMap_eq_nil_iff.mpr fun entry hentry => ?_
      have hnone : (entry.2.flatMap fun r => r.residuals before c) = [] :=
        List.flatMap_eq_nil_iff.mpr fun r hr => by rw [h entry hentry r hr, Regex.residuals]
      dsimp only
      rw [hnone]
      rfl
    rw [scanOn]
    dsimp only
    split
    · rename_i n hlost
      obtain ⟨hpos, -⟩ := Live.lt_of_lostWithin hlost
      have hone : n = 1 := by
        by_contra hne
        have := Live.canRead_of_lt_lostWithin hlost Nat.one_pos (by omega)
        rw [hread] at this
        cases this
      exact ⟨hplace _, by rw [hone]⟩
    · rename_i hlost
      have hsize : c.utf8Size = 1 := by
        have hpos := c.utf8Size_pos
        by_contra hne
        have := Live.canRead_of_not_lostWithin hlost Nat.one_pos (by omega)
        rw [hread] at this
        cases this
      rw [hnext, List.isEmpty_nil, Bool.true_or, if_pos rfl, hsize]
      exact ⟨hplace _, rfl⟩

variable (before) in
/-- What is left of a pattern for single characters is nothing. -/
theorem spent_of_next {c : Char} (h : ∀ entry ∈ live, ∀ r ∈ entry.2, r.isChars = true) :
    ∀ entry ∈ live.next before c, ∀ r ∈ entry.2, r = .empty := by
  rintro ⟨number, rests⟩ hentry r hr
  obtain ⟨-, old, hold, rfl⟩ := Live.mem_next_iff.mp hentry
  obtain ⟨x, hx, hres⟩ := List.mem_flatMap.mp (List.mem_eraseDups.mp hr)
  have hchars := h _ hold x hx
  cases x with
  | chars set =>
    rw [Regex.residuals] at hres
    split at hres
    · exact List.mem_singleton.mp hres
    · cases hres
  | _ => cases hchars

/-- At the start all of each pattern is left. -/
theorem forall_start {P : Regex → Prop} {number : Nat} {patterns : List Regex}
    (h : ∀ r ∈ patterns, P r) : ∀ entry ∈ Live.start number patterns, ∀ r ∈ entry.2, P r := by
  induction patterns generalizing number with
  | nil => exact fun _ h => absurd h List.not_mem_nil
  | cons r rs ih =>
    obtain ⟨hfirst, hrest⟩ := List.forall_mem_cons.mp h
    refine List.forall_mem_cons.mpr ⟨fun r' hr' => ?_, ih hrest⟩
    rw [List.mem_singleton.mp hr']
    exact hfirst

/-- Patterns for single characters look at the byte behind a match, and no further. -/
theorem examined_eq_of_isChars {p : PatternSet} (h : ∀ r ∈ p.patterns, r.isChars = true)
    {found : Nat × Nat} (hfound : found ∈ (p.scan before 0 text).found) :
    (p.scan before 0 text).examined = found.2 + 1 := by
  have hlive : ∀ entry ∈ Live.start 0 p.patterns, ∀ r ∈ entry.2, r.isChars = true :=
    forall_start h
  have haccepting (after : Option Char) : (Live.start 0 p.patterns).accepting before after = [] := by
    refine List.filterMap_eq_nil_iff.mpr fun entry hentry => ?_
    have hany : entry.2.any (·.nullable before after) = false := by
      refine List.any_eq_false.mpr fun r hr => ?_
      have hchars := hlive entry hentry r hr
      cases r with
      | chars set => exact Bool.false_ne_true
      | _ => cases hchars
    dsimp only
    rw [hany]
    rfl
  rw [scan] at hfound ⊢
  cases text with
  | nil =>
    rw [scanOn, haccepting] at hfound
    cases hfound
  | cons c cs =>
    rw [scanOn, haccepting] at hfound ⊢
    dsimp only at hfound ⊢
    split at hfound
    · cases hfound
    · split at hfound
      · cases hfound
      · rename_i hgo
        rw [if_neg hgo]
        have hspent := spent_of_next before (c := c) hlive
        obtain ⟨hplaces, hexamined⟩ := scanOn_of_spent (some c) (0 + c.utf8Size) cs hspent
        rw [List.map_nil, List.nil_append] at hfound
        rw [hplaces found hfound]
        exact hexamined

end PatternSet

/-! ### Languages without external tokens -/

/-- A state has an action on each terminal of use. -/
theorem ParseTable.action_ne_error {t : ParseTable} (ht : t.terminalCount < 65536) {q : Nat}
    {s : Symbol} (h : (t.validTerminals q).contains s = true) : t.action q s ≠ .error := by
  obtain ⟨i, hi, rfl, a, ha, herror⟩ := exists_of_contains_validTerminals h
  have hterminal : t.isTerminal ⟨i⟩ = true := decide_eq_true hi
  rw [Symbol.ofIndex_of_lt (by omega), action, if_pos hterminal, ha, Option.getD_some]
  rintro rfl
  cases herror

/-- Behind the last state there are no actions. -/
theorem ParseTable.action_of_le {t : ParseTable} {q : Nat} (h : t.parts.stateCount ≤ q) (s : Symbol) :
    t.action q s = .error := by
  have hrows : t.parts.stateCount * t.parts.terminalCount ≤ q * t.parts.terminalCount :=
    Nat.mul_le_mul_right _ h
  have hsize := t.isConsistent.size_actions
  rw [action, Array.getElem?_eq_none (by omega), Option.getD_none, ite_self]

/-- Whether the extras of a table are apart from what the parser has a use for, from keywords, and from the
token that these are spelled like, and no more than the byte behind an extra is looked at to find it. -/
structure ParseTable.SparesExtras (t : ParseTable) : Prop where
  useless : ∀ q s, t.parts.lex.isExtra s = true → t.action q s = .error
  word : ∀ s, t.parts.lex.word = some s → t.parts.lex.isExtra s = false
  keyword : ∀ text s, t.parts.lex.keyword? text = some s → t.parts.lex.isExtra s = false
  examined_le : ∀ valid before text c, (Lexer.scanPatterns t valid before text).1 = some c →
    t.parts.lex.isExtra c.symbol = true →
      (Lexer.scanPatterns t valid before text).2 ≤ c.length + 1

namespace Lexer

variable {l : Language} {text : List Char} {place : Nat} {state : ScannerState}
  {valid valid' : TerminalSet}

/-- A match that stands for an extra does so whatever is of use. -/
theorem symbolOf?_of_isExtra {t : ParseTable} (ht : t.SparesExtras) {pattern : Nat} {s : Symbol}
    (h : symbolOf? t.parts.lex valid pattern text = some s) (hs : t.parts.lex.isExtra s = true) :
    symbolOf? t.parts.lex valid' pattern text = some s := by
  rw [symbolOf?] at h ⊢
  split at h
  case h_1 => cases h
  case h_2 found hfound =>
  split at h
  case isTrue => cases h
  case isFalse hkeyword =>
  rw [if_neg hkeyword]
  split at h
  case isTrue hword =>
    split at h
    case h_1 keyword hmeant =>
      obtain rfl := Option.some.inj h
      obtain ⟨hmeant, -⟩ := Option.filter_eq_some_iff.mp hmeant
      exact absurd (hs.symm.trans (ht.keyword _ _ hmeant)) Bool.noConfusion
    case h_2 =>
      split at h
      case isFalse => cases h
      case isTrue =>
        obtain rfl := Option.some.inj h
        exact absurd (hs.symm.trans (ht.word _ hword)) Bool.noConfusion
  case isFalse hword =>
    split at h
    case isFalse => cases h
    case isTrue =>
      obtain rfl := Option.some.inj h
      rw [if_neg hword, if_pos (by rw [hs, Bool.or_true])]

/-- A candidate was read with the byte behind it if all patterns are for single characters. -/
theorem examined_scanPatterns_of_isChars {t : ParseTable}
    (h : ∀ r ∈ t.patterns.patterns, r.isChars = true) {before : Option Char} {c : Candidate}
    (hc : (scanPatterns t valid before text).1 = some c) :
    (scanPatterns t valid before text).2 = c.length + 1 := by
  obtain ⟨⟨pattern, length⟩, hfound, hcandidate⟩ := List.mem_filterMap.mp (Candidate.mem_of_best hc)
  have hlength : c.length = length := by
    simp only [candidate?] at hcandidate
    split at hcandidate
    case isTrue => cases hcandidate
    case isFalse =>
    split at hcandidate
    case h_1 => cases hcandidate
    case h_2 =>
      obtain ⟨s, -, rfl⟩ := Option.map_eq_some_iff.mp hcandidate
      rfl
  rw [PatternSet.scan_eq_scan] at hfound
  rw [scanPatterns, PatternSet.scan_eq_scan, hlength]
  exact PatternSet.examined_eq_of_isChars h hfound

/-- Where an extra is found, something is found whatever is of use. -/
theorem scanPatterns_ne_none_of_isExtra {t : ParseTable} (ht : t.SparesExtras) {before : Option Char}
    {c : Candidate} (h : (scanPatterns t valid before text).1 = some c)
    (hs : t.parts.lex.isExtra c.symbol = true) : (scanPatterns t valid' before text).1 ≠ none := by
  intro hnone
  have hall := List.filterMap_eq_nil_iff.mp (Candidate.eq_nil_of_best hnone)
  obtain ⟨⟨pattern, length⟩, hfound, hcandidate⟩ := List.mem_filterMap.mp (Candidate.mem_of_best h)
  have hagain := hall _ hfound
  simp only [candidate?] at hcandidate hagain
  split at hcandidate
  case isTrue => cases hcandidate
  case isFalse hlength =>
  rw [if_neg hlength] at hagain
  split at hcandidate
  case h_1 => cases hcandidate
  case h_2 front hfront =>
    obtain ⟨s, hsymbol, rfl⟩ := Option.map_eq_some_iff.mp hcandidate
    rw [hfront] at hagain
    dsimp only at hagain
    rw [symbolOf?_of_isExtra ht hsymbol hs] at hagain
    cases hagain

/-- A token that was found among the terminals of use is that of a candidate. -/
theorem exists_candidate (hl : l.scanner = none) (hplace : ¬ byteLength text ≤ place)
    (hmode : (nextToken l text place state valid).errorMode = false) :
    ∃ c, (scanPatterns l.table valid (seek place text).1 (seek place text).2).1 = some c ∧
      nextToken l text place state valid = c.token place
        (scanPatterns l.table valid (seek place text).1 (seek place text).2).2 state
          (isExtraHere l.table valid false c.symbol) false := by
  rw [nextToken, if_neg hplace, lex_of_noScanner hl] at hmode ⊢
  cases hfound : (scanPatterns l.table valid (seek place text).1 (seek place text).2).1 with
  | some c => exact ⟨c, rfl, rfl⟩
  | none =>
    rw [hfound, Option.map_none, Option.getD_none, nextTokenInErrorMode, if_neg hplace,
      lex_of_noScanner hl] at hmode
    cases hall : (scanPatterns l.table (allTerminals l.table) (seek place text).1
      (seek place text).2).1 <;> rw [hall] at hmode <;> cases hmode

end Lexer

/-- Where the parser has no use for extras, an extra is one in every state. -/
theorem isExtraHere_eq {t : ParseTable} (hcount : t.terminalCount < 65536) (ht : t.SparesExtras)
    (q : Nat) (s : Symbol) : Lexer.isExtraHere t (t.validTerminals q) false s = t.parts.lex.isExtra s := by
  rw [Lexer.isExtraHere, Bool.false_or]
  cases hs : t.parts.lex.isExtra s with
  | false => rfl
  | true =>
    rw [Bool.true_and, Bool.not_eq_true']
    exact Bool.eq_false_iff.mpr fun hvalid => ParseTable.action_ne_error hcount hvalid (ht.useless q s hs)

/-- **Languages without external tokens keep account** if no pattern looks behind and extras are apart from
all else. -/
theorem Language.keepsAccount_of_sparesExtras {g : PreparedGrammar} {l : Language}
    (hg : g.Compiles l.table) (hl : l.scanner = none)
    (hbefore : l.table.patterns.looksBehind = false) (ht : l.table.SparesExtras) :
    l.KeepsAccount where
  before := hbefore
  useless := ht.useless
  extras text place state q hextra := by
    by_cases hplace : byteLength text ≤ place
    · rw [Lexer.nextToken, if_pos hplace] at hextra
      cases hextra
    cases hmode : (Lexer.nextToken l text place state (l.table.validTerminals q)).errorMode with
    | false =>
      obtain ⟨c, hc, hfound⟩ := Lexer.exists_candidate hl hplace hmode
      rw [hfound] at hextra ⊢
      have hs : l.table.parts.lex.isExtra c.symbol = true := Lexer.isExtra_of_isExtraHere hextra
      have hnear := ht.examined_le _ _ _ _ hc hs
      refine ⟨rfl, ?_⟩
      dsimp only [Lexer.Candidate.token]
      omega
    | true =>
      -- An extra that the second try finds is found by the first one already, whatever is valid.
      exfalso
      rw [Lexer.nextToken, if_neg hplace, Lexer.lex_of_noScanner hl] at hextra hmode
      cases hfew : (Lexer.scanPatterns l.table (l.table.validTerminals q) (seek place text).1
        (seek place text).2).1 with
      | some c =>
        rw [hfew] at hmode
        cases hmode
      | none =>
        rw [hfew, Option.map_none, Option.getD_none, Lexer.nextTokenInErrorMode, if_neg hplace,
          Lexer.lex_of_noScanner hl] at hextra
        cases hall : (Lexer.scanPatterns l.table (Lexer.allTerminals l.table) (seek place text).1
          (seek place text).2).1 with
        | none =>
          rw [hall] at hextra
          cases hextra
        | some c =>
          rw [hall] at hextra
          exact Lexer.scanPatterns_ne_none_of_isExtra ht hall
            (Lexer.isExtra_of_isExtraHere hextra) hfew
  steady text place state q r hq hr hsymbol hstop := by
    by_cases hplace : byteLength text ≤ place
    · rw [Lexer.nextToken, Lexer.nextToken, if_pos hplace, if_pos hplace]
    obtain ⟨c, -, hfound⟩ := Lexer.exists_candidate hl hplace hq
    obtain ⟨d, -, hfound'⟩ := Lexer.exists_candidate hl hplace hr
    -- A token is told by its symbol and its end: whether it is an extra does not depend on the
    -- state.
    have hextra := isExtraHere_eq hg.terminalCount_lt ht
    rw [hextra] at hfound hfound'
    rw [hfound, hfound'] at hsymbol hstop ⊢
    have hsame : d.symbol = c.symbol := hsymbol
    have hlength : place + d.length = place + c.length := hstop
    rw [Lexer.Candidate.token, Lexer.Candidate.token, hsame, hlength]
    rfl

end LRWorkbench
