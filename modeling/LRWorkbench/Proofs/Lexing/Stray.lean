import LRWorkbench.Proofs.Lexing.Locality
import LRWorkbench.Proofs.Table.TerminalSet

/-!
# Stray characters

Where no terminal matches, the lexer skips one character if a terminal matches behind it, or the text
ends there (`Lexer.nextToken_of_stray`). Behind it, and behind the token that follows, the text is
read as if the character were not there (`Lexer.nextToken_behind`).
-/

namespace LRWorkbench

open Text

/-- What is of use in a state are the terminals on which its row has an action. -/
theorem ParseTable.exists_of_contains_validTerminals {t : ParseTable} {q : Nat} {s : Symbol}
    (h : (t.validTerminals q).contains s = true) : ∃ i < t.terminalCount, s = .ofIndex i ∧
      ∃ a, t.parts.actions[q * t.parts.terminalCount + i]? = some a ∧ a.isError = false := by
  rw [validTerminals, t.valid_eq, Array.getElem?_map] at h
  cases hq : (Array.range t.parts.stateCount)[q]? with
  | none =>
    rw [hq] at h
    exact absurd h (by simp)
  | some state =>
    rw [hq] at h
    obtain ⟨_, hstate⟩ := Array.getElem?_eq_some_iff.mp hq
    rw [Array.getElem_range] at hstate
    subst hstate
    obtain ⟨i, hi, rfl⟩ := List.mem_map.mp (TerminalSet.contains_ofList.mp h)
    obtain ⟨hi, haction⟩ := List.mem_filter.mp hi
    refine ⟨i, List.mem_range.mp hi, rfl, ?_⟩
    split at haction
    · rename_i a ha
      exact ⟨a, ha, by simpa using haction⟩
    · cases haction

/-- What may be of use in a state are terminals. -/
theorem ParseTable.contains_allTerminals {t : ParseTable} {q : Nat} {s : Symbol}
    (h : (t.validTerminals q).contains s = true) : (Lexer.allTerminals t).contains s = true := by
  obtain ⟨i, hlt, rfl, -⟩ := exists_of_contains_validTerminals h
  exact TerminalSet.contains_full_iff.mpr
    ⟨(Nat.mod_le i 65536).trans_lt hlt, Nat.mod_lt i (by decide)⟩

namespace Lexer

variable {l : Language} {front front' back : List Char} {state : ScannerState}
  {valid valid' : TerminalSet} {errorMode : Bool} {c : Char}

/-! ### More terminals match where some do -/

theorem symbolOf?_mono (h : ∀ s, valid.contains s = true → valid'.contains s = true) {lex : LexSpec}
    {pattern : Nat} {text : List Char} (hsome : (symbolOf? lex valid pattern text).isSome) :
    (symbolOf? lex valid' pattern text).isSome := by
  rw [symbolOf?] at hsome ⊢
  split at hsome
  case h_1 => cases hsome
  case h_2 s hs =>
  split at hsome
  case isTrue => cases hsome
  case isFalse hkeyword =>
  rw [if_neg hkeyword]
  split at hsome
  case isTrue hword =>
    rw [if_pos hword]
    split at hsome
    case h_1 keyword hfound =>
      obtain ⟨hfound, hvalid⟩ := Option.filter_eq_some_iff.mp hfound
      rw [hfound, Option.filter_some, if_pos (h _ hvalid)]
      rfl
    case h_2 =>
      split at hsome
      case isTrue hvalid =>
        rw [if_pos (h _ hvalid)]
        split <;> rfl
      case isFalse => cases hsome
  case isFalse hword =>
    rw [if_neg hword]
    split at hsome
    case isTrue hvalid =>
      rw [if_pos]
      · rfl
      · rw [Bool.or_eq_true] at hvalid ⊢
        exact hvalid.imp_left (h _)
    case isFalse => cases hsome

theorem candidate?_mono (h : ∀ s, valid.contains s = true → valid'.contains s = true) {lex : LexSpec}
    {text : List Char} {found : Nat × Nat} (hsome : (candidate? lex valid text found).isSome) :
    (candidate? lex valid' text found).isSome := by
  obtain ⟨pattern, length⟩ := found
  simp only [candidate?] at hsome ⊢
  split at hsome
  case isTrue => cases hsome
  case isFalse hlength =>
  rw [if_neg hlength]
  split at hsome
  case h_1 => cases hsome
  case h_2 front hfront =>
    rw [Option.isSome_map] at hsome ⊢
    exact symbolOf?_mono h hsome

/-- Where none of some terminals matches, none of fewer does. -/
theorem scanPatterns_eq_none (h : ∀ s, valid.contains s = true → valid'.contains s = true)
    {t : ParseTable} {before : Option Char} {text : List Char}
    (hnone : (scanPatterns t valid' before text).1 = none) :
    (scanPatterns t valid before text).1 = none := by
  have hall := List.filterMap_eq_nil_iff.mp (Candidate.eq_nil_of_best hnone)
  have hnil : (ByteAutomaton.scan t.patterns before text).found.filterMap
      (candidate? t.parts.lex valid text) = [] := by
    refine List.filterMap_eq_nil_iff.mpr fun found hfound => ?_
    cases hcandidate : candidate? t.parts.lex valid text found with
    | none => rfl
    | some c =>
      have hsome := candidate?_mono h (Option.isSome_of_eq_some hcandidate)
      rw [hall found hfound] at hsome
      cases hsome
  rw [scanPatterns, hnil]
  rfl

/-! ### Languages without external tokens -/

/-- The token of a candidate at a place. -/
def Candidate.token (c : Candidate) (place examined : Nat) (state : ScannerState)
    (isExtra errorMode : Bool) : Token where
  symbol := c.symbol
  start := place
  stop := place + c.length
  lookaheadEnd := max place (place + examined)
  isExtra := isExtra
  isError := false
  errorMode := errorMode
  scannerBefore := state
  scannerAfter := state

/-- Without a scanner the patterns alone tell what is found. -/
theorem lex_of_noScanner (hl : l.scanner = none) (text : List Char) (place : Nat) (state : ScannerState)
    (valid : TerminalSet) (errorMode : Bool) : lex l text place state valid errorMode =
      (scanPatterns l.table valid (seek place text).1 (seek place text).2).1.map fun c =>
        c.token place (scanPatterns l.table valid (seek place text).1 (seek place text).2).2 state
          (isExtraHere l.table valid errorMode c.symbol) errorMode := by
  rw [lex, scanExternal, hl]
  rfl

theorem nextToken_eq_getD (l : Language) (front : List Char) (hback : back ≠ [])
    (state : ScannerState) (valid : TerminalSet) :
    nextToken l (front ++ back) (byteLength front) state valid =
      (lex l (front ++ back) (byteLength front) state valid false).getD
        (nextTokenInErrorMode l (front ++ back) (byteLength front) state) ∧
    nextTokenInErrorMode l (front ++ back) (byteLength front) state =
      (lex l (front ++ back) (byteLength front) state (allTerminals l.table) true).getD
        (errorToken l.table (front ++ back) (byteLength front) state) := by
  have hgo : ¬ byteLength (front ++ back) ≤ byteLength front := by
    have hpos := byteLength_pos.mpr hback
    rw [byteLength_append]
    omega
  exact ⟨by rw [nextToken, if_neg hgo], by rw [nextTokenInErrorMode, if_neg hgo]⟩

/-- Where no terminal matches one character is skipped, if a terminal matches behind it or the text
ends there. -/
theorem nextToken_of_stray (hl : l.scanner = none)
    (hnone : lex l (front ++ c :: back) (byteLength front) state (allTerminals l.table) true = none)
    (hnext : back ≠ [] → (lex l (front ++ [c] ++ back) (byteLength (front ++ [c])) state
      (allTerminals l.table) true).isSome) (q : Nat) :
    ∃ token, nextToken l (front ++ c :: back) (byteLength front) state (l.table.validTerminals q) =
      token ∧ token.symbol = .error ∧ token.start = byteLength front ∧
        token.stop = byteLength (front ++ [c]) ∧ token.isExtra = false ∧ token.scannerAfter = state := by
  obtain ⟨hnormal, herror⟩ :=
    nextToken_eq_getD l front (List.cons_ne_nil c back) state (l.table.validTerminals q)
  have hfewer : lex l (front ++ c :: back) (byteLength front) state (l.table.validTerminals q) false =
      none := by
    rw [lex_of_noScanner hl, seek_append, Option.map_eq_none_iff] at hnone ⊢
    exact scanPatterns_eq_none (fun _ => ParseTable.contains_allTerminals) hnone
  rw [hnone] at herror
  rw [hfewer, Option.getD_none, herror, Option.getD_none] at hnormal
  refine ⟨_, hnormal, rfl, rfl, ?_, rfl, rfl⟩
  rw [errorToken, seek_append, byteLength_append]
  change (skipFrom l.table (some c) (byteLength front + c.utf8Size) (byteLength front) back).1 = _
  cases back with
  | nil => rfl
  | cons d back =>
    have hsome := hnext (List.cons_ne_nil d back)
    rw [lex_of_noScanner hl, seek_append, Option.isSome_map, List.getLast?_concat] at hsome
    rw [skipFrom]
    dsimp only
    rw [if_pos hsome]
    rfl

theorem lex_behind (hl : l.scanner = none) (hbefore : front'.getLast? = front.getLast?) :
    lex l (front' ++ back) (byteLength front') state valid errorMode =
      (lex l (front ++ back) (byteLength front) state valid errorMode).map
        (·.moved (byteLength front) (byteLength front')) := by
  have hhonest : l.IsHonest := fun x hx => nomatch hl.symm.trans hx
  cases hlex : lex l (front ++ back) (byteLength front) state valid errorMode with
  | some token => exact lex_eq hhonest (fun _ => hbefore) hlex (.refl _ _)
  | none =>
    cases hlex' : lex l (front' ++ back) (byteLength front') state valid errorMode with
    | none => rfl
    | some token =>
      have hagain := lex_eq hhonest (fun _ => hbefore.symm) hlex' (.refl _ back)
      exact nomatch hlex.symm.trans hagain

/-- The same text is read in the same way at another place, if the same character stands before. -/
theorem nextToken_behind (hl : l.scanner = none) (hbefore : front'.getLast? = front.getLast?)
    (herror : (nextToken l (front ++ back) (byteLength front) state valid).isError = false) :
    nextToken l (front' ++ back) (byteLength front') state valid =
      (nextToken l (front ++ back) (byteLength front) state valid).moved (byteLength front)
        (byteLength front') := by
  by_cases hback : back = []
  · rw [hback, List.append_nil, List.append_nil, nextToken, nextToken, if_pos (Nat.le_refl _),
      if_pos (Nat.le_refl _)]
    simp [Token.moved, endToken]
  · obtain ⟨hnormal, hmode⟩ := nextToken_eq_getD l front hback state valid
    obtain ⟨hnormal', hmode'⟩ := nextToken_eq_getD l front' hback state valid
    rw [lex_behind hl hbefore] at hnormal' hmode'
    rw [hnormal, hmode] at herror ⊢
    rw [hnormal', hmode']
    cases hfew : lex l (front ++ back) (byteLength front) state valid false with
    | some token => rfl
    | none =>
      rw [hfew, Option.getD_none] at herror
      cases hall : lex l (front ++ back) (byteLength front) state (allTerminals l.table) true with
      | some token => rfl
      | none =>
        rw [hall] at herror
        cases herror

end Lexer

end LRWorkbench
