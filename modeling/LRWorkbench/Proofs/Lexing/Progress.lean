import LRWorkbench.Lexing.Lexer
import LRWorkbench.Proofs.Table.Consistent
import LRWorkbench.Proofs.Text.Bytes

/-!
# Every token takes a piece of the text

From a place between two characters the lexer goes on to a place between two characters: it takes
a piece of what is left, and the piece is empty only where nothing is left (`spans_nextToken`,
`spans_nextTokenInErrorMode`). This holds whatever an external scanner reports, since a report that
does not fit the text counts as none. If no keyword is called the end of the input, only the end of the
text is (`takes_nextToken`).
-/

namespace LRWorkbench

open Text

variable {A : Type} [ByteAutomaton A]

/-- Whether a table calls no keyword the end of the input. -/
def ParseTable.SparesEnd (t : ParseTable A) : Prop :=
  ∀ text s, t.parts.lex.keyword? text = some s → s ≠ .endOfInput

/-- The terminals of patterns are tokens of the text. -/
theorem ParseTable.patternSymbol_ne_end (t : ParseTable A) {pattern : Nat} {s : Symbol}
    (h : t.parts.lex.patternSymbols[pattern]? = some s) : s ≠ .endOfInput := by
  have hfault := t.isConsistent.patterns s (List.mem_of_getElem? h)
  rintro rfl
  simp [TableParts.patternFault?, Symbol.endOfInput] at hfault

/-- A token that stands behind `front` and is found in `piece`. Where that is empty the text ends. -/
structure Token.Spans (text front piece rest : List Char) (token : Token) : Prop where
  text_eq : text = front ++ piece ++ rest
  start_eq : token.start = byteLength front
  stop_eq : token.stop = byteLength front + byteLength piece
  ends : piece = [] → rest = []
  extra : token.isExtra = true → piece ≠ []

/-- A token that stands behind `front` and takes `piece`. Where it takes nothing the text ends. -/
structure Token.Takes (text front piece rest : List Char) (token : Token) : Prop where
  text_eq : text = front ++ piece ++ rest
  start_eq : token.start = byteLength front
  stop_eq : token.stop = byteLength front + byteLength piece
  isEnd_iff : token.isEnd = true ↔ piece = []
  ends : piece = [] → rest = []
  extra : token.isExtra = true → piece ≠ []

theorem Token.isEnd_iff_symbol {token : Token} :
    token.isEnd = true ↔ token.symbol = .endOfInput := by
  simp [Token.isEnd]

namespace Lexer

/-! ### The best of some candidates is one of them -/

theorem Candidate.mem_of_foldl {cs : List Candidate} {best : Option Candidate} {c : Candidate}
    (h : cs.foldl better best = some c) : c ∈ cs ∨ best = some c := by
  induction cs generalizing best with
  | nil => exact .inr h
  | cons d cs ih =>
    rcases ih h with hmem | hbest
    · exact .inl (List.mem_cons_of_mem _ hmem)
    · cases best with
      | none =>
        obtain rfl := Option.some.inj hbest
        exact .inl (List.mem_cons_self ..)
      | some b =>
        simp only [better] at hbest
        split at hbest
        · obtain rfl := Option.some.inj hbest
          exact .inl (List.mem_cons_self ..)
        · exact .inr hbest

theorem Candidate.mem_of_best {cs : List Candidate} {c : Candidate} (h : best cs = some c) :
    c ∈ cs := by
  rcases mem_of_foldl h with hmem | hnone
  · exact hmem
  · cases hnone

theorem Candidate.isSome_foldl (cs : List Candidate) (best : Candidate) :
    (cs.foldl better (some best)).isSome := by
  induction cs generalizing best with
  | nil => rfl
  | cons c cs ih =>
    rw [List.foldl_cons, better]
    split
    · exact ih c
    · exact ih best

theorem Candidate.eq_nil_of_best {cs : List Candidate} (h : best cs = none) : cs = [] := by
  cases cs with
  | nil => rfl
  | cons c cs =>
    have hsome := isSome_foldl cs c
    rw [best, List.foldl_cons] at h
    rw [show List.foldl better (some c) cs = none from h] at hsome
    cases hsome

/-! ### Patterns -/

theorem symbolOf?_ne_end {t : ParseTable A} (ht : t.SparesEnd) {valid : TerminalSet} {pattern : Nat}
    {text : List Char} {s : Symbol} (h : symbolOf? t.parts.lex valid pattern text = some s) :
    s ≠ .endOfInput := by
  simp only [symbolOf?] at h
  split at h
  · cases h
  rename_i found hfound
  have hne := t.patternSymbol_ne_end hfound
  split at h
  · cases h
  split at h
  · split at h
    · rename_i keyword hkeyword
      obtain rfl := Option.some.inj h
      obtain ⟨hkey, -⟩ := Option.filter_eq_some_iff.mp hkeyword
      exact ht _ _ hkey
    · split at h
      · obtain rfl := Option.some.inj h
        exact hne
      · cases h
  split at h
  · obtain rfl := Option.some.inj h
    exact hne
  · cases h

/-- The best candidate is one of the matches of the patterns, and takes a piece of the text that is not
empty. -/
theorem exists_of_scanPatterns {t : ParseTable A} {valid : TerminalSet} {before : Option Char}
    {text : List Char} {c : Candidate} (h : (scanPatterns t valid before text).1 = some c) :
    ∃ pattern piece rest, symbolOf? t.parts.lex valid pattern piece = some c.symbol ∧
      text = piece ++ rest ∧ piece ≠ [] ∧ byteLength piece = c.length := by
  obtain ⟨⟨pattern, length⟩, -, hc⟩ := List.mem_filterMap.mp (Candidate.mem_of_best h)
  simp only [candidate?] at hc
  split at hc
  · cases hc
  rename_i hlength
  split at hc
  · cases hc
  rename_i front hfront
  obtain ⟨s, hs, rfl⟩ := Option.map_eq_some_iff.mp hc
  obtain ⟨rest, rfl, hn⟩ := exists_of_takeBytes hfront
  refine ⟨pattern, front, rest, hs, rfl, ?_, hn⟩
  rintro rfl
  exact hlength hn.symm

/-! ### External tokens -/

theorem externalSymbol?_ne_end {t : ParseTable A} {index : Nat} {s : Symbol}
    (h : t.externalSymbol? index = some s) : s ≠ .endOfInput := by
  rw [ParseTable.externalSymbol?] at h
  split at h
  · obtain rfl := Option.some.inj h
    simp [Symbol.endOfInput]
  · cases h

/-- A report of the scanner that is used is an external token and takes a piece of the text that is
not empty. -/
theorem exists_of_scanExternal {l : Language A} {front back : List Char} {state : ScannerState}
    {valid : TerminalSet} {errorMode : Bool} {token : Token} {examined : Nat}
    (h : scanExternal l (front ++ back) (byteLength front) state valid errorMode =
      (some token, examined)) :
    (∃ index, l.table.externalSymbol? index = some token.symbol) ∧
      token.start = byteLength front ∧
      ∃ piece rest, back = piece ++ rest ∧ piece ≠ [] ∧
        token.stop = byteLength front + byteLength piece := by
  simp only [scanExternal] at h
  split at h
  · cases h
  split at h
  · cases h
  split at h
  · cases h
  rename_i scanner _ _ s hs
  split at h
  · cases h
  rename_i hfits
  simp only [Bool.or_eq_true, decide_eq_true_eq, Bool.not_eq_true', not_or, Nat.not_lt,
    Bool.not_eq_false] at hfits
  obtain ⟨⟨⟨hconsumed, -⟩, hboundary⟩, -⟩ := hfits
  obtain ⟨rfl, -⟩ := Prod.mk.inj (Option.some.inj (congrArg some h)) |>.imp Option.some.inj id
  obtain ⟨index, -, hindex⟩ := Option.bind_eq_some_iff.mp hs
  obtain ⟨u, v, huv, hu⟩ := isBoundary_iff.mp hboundary
  obtain ⟨piece, rfl, rfl⟩ := exists_of_append_eq_append huv (by omega)
  simp only [byteLength_append, Nat.add_left_cancel_iff] at hu
  refine ⟨⟨index, hindex⟩, rfl, piece, v, rfl, ?_, by rw [hu]⟩
  rintro rfl
  exact hconsumed hu.symm

/-! ### Tokens -/

/-- Where the scanner reports nothing of use the best match is taken. -/
theorem lex_of_scanExternal {l : Language A} {front back : List Char} {state : ScannerState}
    {valid : TerminalSet} {errorMode : Bool} {examined : Nat}
    (h : scanExternal l (front ++ back) (byteLength front) state valid errorMode =
      (none, examined)) :
    lex l (front ++ back) (byteLength front) state valid errorMode =
      (scanPatterns l.table valid front.getLast? back).1.map fun c => {
        symbol := c.symbol
        start := byteLength front
        stop := byteLength front + c.length
        lookaheadEnd := max examined
          (byteLength front + (scanPatterns l.table valid front.getLast? back).2)
        isExtra := isExtraHere l.table valid errorMode c.symbol
        isError := false
        errorMode := errorMode
        scannerBefore := state
        scannerAfter := state } := by
  rw [lex, h, seek_append]

/-- A token found among the terminals of use takes a piece that is not empty. -/
theorem exists_piece_of_lex {l : Language A} {front back : List Char}
    {state : ScannerState} {valid : TerminalSet} {errorMode : Bool} {token : Token}
    (h : lex l (front ++ back) (byteLength front) state valid errorMode = some token) :
    token.start = byteLength front ∧ ∃ piece rest, back = piece ++ rest ∧ piece ≠ [] ∧
      token.stop = byteLength front + byteLength piece := by
  simp only [lex] at h
  split at h
  · rename_i found examined hfound
    obtain rfl := Option.some.inj h
    exact (exists_of_scanExternal hfound).2
  · rw [seek_append] at h
    obtain ⟨c, hc, rfl⟩ := Option.map_eq_some_iff.mp h
    obtain ⟨pattern, piece, rest, -, rfl, hpiece, hlength⟩ := exists_of_scanPatterns hc
    exact ⟨rfl, piece, rest, rfl, hpiece, by rw [hlength]⟩

/-- A token found among the terminals of use is not the end of the input. -/
theorem exists_of_lex {l : Language A} (hl : l.table.SparesEnd) {front back : List Char}
    {state : ScannerState} {valid : TerminalSet} {errorMode : Bool} {token : Token}
    (h : lex l (front ++ back) (byteLength front) state valid errorMode = some token) :
    token.symbol ≠ .endOfInput ∧ token.start = byteLength front ∧
      ∃ piece rest, back = piece ++ rest ∧ piece ≠ [] ∧
        token.stop = byteLength front + byteLength piece := by
  refine ⟨?_, exists_piece_of_lex h⟩
  simp only [lex] at h
  split at h
  · rename_i found examined hfound
    obtain rfl := Option.some.inj h
    obtain ⟨⟨index, hindex⟩, -⟩ := exists_of_scanExternal hfound
    exact externalSymbol?_ne_end hindex
  · rw [seek_append] at h
    obtain ⟨c, hc, rfl⟩ := Option.map_eq_some_iff.mp h
    obtain ⟨pattern, piece, rest, hsymbol, -⟩ := exists_of_scanPatterns hc
    exact symbolOf?_ne_end hl hsymbol

/-- What is skipped is a piece of the text. -/
theorem exists_of_skipFrom (t : ParseTable A) (before : Option Char) (place lookahead : Nat)
    (text : List Char) :
    ∃ u v, text = u ++ v ∧ (skipFrom t before place lookahead text).1 = place + byteLength u := by
  induction text generalizing before place lookahead with
  | nil => exact ⟨[], [], rfl, rfl⟩
  | cons c cs ih =>
    simp only [skipFrom]
    split
    · exact ⟨[], c :: cs, rfl, rfl⟩
    · obtain ⟨u, v, rfl, hu⟩ := ih (some c) (place + c.utf8Size)
        (max lookahead (place + (scanPatterns t (allTerminals t) before (c :: cs)).2))
      exact ⟨c :: u, v, rfl, by rw [hu, byteLength_cons]; omega⟩

theorem spans_endToken (front : List Char) (state : ScannerState) :
    (endToken (byteLength front) state).Spans front front [] [] where
  text_eq := by simp
  start_eq := rfl
  stop_eq := rfl
  ends := fun _ => rfl
  extra := fun h => by cases h

/-- A token with a piece of its own is not where the text ends. -/
theorem spans_of_ne {front piece rest : List Char} {token : Token} (hpiece : piece ≠ [])
    (hstart : token.start = byteLength front)
    (hstop : token.stop = byteLength front + byteLength piece) :
    token.Spans (front ++ (piece ++ rest)) front piece rest where
  text_eq := by simp
  start_eq := hstart
  stop_eq := hstop
  ends := fun h => absurd h hpiece
  extra := fun _ => hpiece

/-- Behind what is left there is nothing. -/
theorem eq_nil_of_length_le {front back : List Char}
    (h : byteLength (front ++ back) ≤ byteLength front) : back = [] := by
  rw [← byteLength_eq_zero]
  rw [byteLength_append] at h
  omega

/-- The token at a place when every terminal is allowed is found in a piece of what is left. -/
theorem spans_nextTokenInErrorMode (l : Language A) (front back : List Char) (state : ScannerState) :
    ∃ piece rest, (nextTokenInErrorMode l (front ++ back) (byteLength front) state).Spans
      (front ++ back) front piece rest := by
  rw [nextTokenInErrorMode]
  split
  · rename_i hle
    obtain rfl := eq_nil_of_length_le hle
    rw [List.append_nil]
    exact ⟨[], [], spans_endToken front state⟩
  · rename_i hle
    rcases hlex : lex l (front ++ back) (byteLength front) state (allTerminals l.table) true with
      _ | token
    · -- nothing matches: the first character is taken, and all up to the next match
      cases back with
      | nil => simp at hle
      | cons c cs =>
        obtain ⟨u, v, rfl, hu⟩ := exists_of_skipFrom l.table (some c)
          (byteLength front + c.utf8Size) (byteLength front) cs
        refine ⟨c :: u, v, spans_of_ne (List.cons_ne_nil c u) rfl ?_⟩
        simp only [Option.getD_none, errorToken, seek_append, hu, byteLength_cons]
        omega
    · obtain ⟨hstart, piece, rest, rfl, hpiece, hstop⟩ := exists_piece_of_lex hlex
      exact ⟨piece, rest, spans_of_ne hpiece hstart hstop⟩

/-- The token at a place is found in a piece of what is left. -/
theorem spans_nextToken (l : Language A) (front back : List Char) (state : ScannerState)
    (valid : TerminalSet) :
    ∃ piece rest, (nextToken l (front ++ back) (byteLength front) state valid).Spans
      (front ++ back) front piece rest := by
  rw [nextToken]
  split
  · rename_i hle
    obtain rfl := eq_nil_of_length_le hle
    rw [List.append_nil]
    exact ⟨[], [], spans_endToken front state⟩
  · rcases hlex : lex l (front ++ back) (byteLength front) state valid false with _ | token
    · exact spans_nextTokenInErrorMode l front back state
    · obtain ⟨hstart, piece, rest, rfl, hpiece, hstop⟩ := exists_piece_of_lex hlex
      exact ⟨piece, rest, spans_of_ne hpiece hstart hstop⟩

/-! ### The end of the input -/

/-- When every terminal is allowed, only the end of the text is the end of the input. -/
theorem isEnd_nextTokenInErrorMode {l : Language A} (hl : l.table.SparesEnd) (front back : List Char)
    (state : ScannerState) :
    (nextTokenInErrorMode l (front ++ back) (byteLength front) state).isEnd = true ↔ back = [] := by
  rw [nextTokenInErrorMode]
  split
  · rename_i hle
    exact iff_of_true rfl (eq_nil_of_length_le hle)
  · rename_i hle
    refine iff_of_false (Bool.eq_false_iff.mp ?_) fun hnil => hle (by simp [hnil])
    rcases hlex : lex l (front ++ back) (byteLength front) state (allTerminals l.table) true with
      _ | token
    · simp [errorToken, Token.isEnd, Symbol.error, Symbol.endOfInput]
    · obtain ⟨hsymbol, -⟩ := exists_of_lex hl hlex
      exact decide_eq_false hsymbol

/-- Only the end of the text is the end of the input. -/
theorem isEnd_nextToken {l : Language A} (hl : l.table.SparesEnd) (front back : List Char)
    (state : ScannerState) (valid : TerminalSet) :
    (nextToken l (front ++ back) (byteLength front) state valid).isEnd = true ↔ back = [] := by
  rw [nextToken]
  split
  · rename_i hle
    exact iff_of_true rfl (eq_nil_of_length_le hle)
  · rename_i hle
    rcases hlex : lex l (front ++ back) (byteLength front) state valid false with _ | token
    · exact isEnd_nextTokenInErrorMode hl front back state
    · obtain ⟨hsymbol, -⟩ := exists_of_lex hl hlex
      exact iff_of_false (fun h => hsymbol (of_decide_eq_true h)) fun hnil => hle (by simp [hnil])

theorem takes_of_spans {front back piece rest : List Char} {token : Token}
    (h : token.Spans (front ++ back) front piece rest) (hend : token.isEnd = true ↔ back = []) :
    token.Takes (front ++ back) front piece rest where
  text_eq := h.text_eq
  start_eq := h.start_eq
  stop_eq := h.stop_eq
  isEnd_iff := by
    have hback : back = piece ++ rest :=
      List.append_cancel_left (h.text_eq.trans (List.append_assoc ..))
    rw [hend, hback]
    constructor
    · exact fun hnil => (List.append_eq_nil_iff.mp hnil).1
    · intro hnil
      rw [hnil, h.ends hnil, List.append_nil]
  ends := h.ends
  extra := h.extra

/-- The token at a place when every terminal is allowed takes a piece of what is left. -/
theorem takes_nextTokenInErrorMode {l : Language A} (hl : l.table.SparesEnd) (front back : List Char)
    (state : ScannerState) :
    ∃ piece rest, (nextTokenInErrorMode l (front ++ back) (byteLength front) state).Takes
      (front ++ back) front piece rest := by
  obtain ⟨piece, rest, hspans⟩ := spans_nextTokenInErrorMode l front back state
  exact ⟨piece, rest, takes_of_spans hspans (isEnd_nextTokenInErrorMode hl front back state)⟩

/-- The token at a place takes a piece of what is left. -/
theorem takes_nextToken {l : Language A} (hl : l.table.SparesEnd) (front back : List Char)
    (state : ScannerState) (valid : TerminalSet) :
    ∃ piece rest, (nextToken l (front ++ back) (byteLength front) state valid).Takes
      (front ++ back) front piece rest := by
  obtain ⟨piece, rest, hspans⟩ := spans_nextToken l front back state valid
  exact ⟨piece, rest, takes_of_spans hspans (isEnd_nextToken hl front back state valid)⟩

end Lexer

end LRWorkbench
