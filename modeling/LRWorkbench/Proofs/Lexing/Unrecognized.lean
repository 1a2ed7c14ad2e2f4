import LRWorkbench.Lexing.ScannerRules
import LRWorkbench.Proofs.Lexing.MaximalMunch
import LRWorkbench.Proofs.Lexing.Stray

/-!
# What is skipped

Where nothing is found even with every terminal allowed, the lexer skips characters up to the next
place where some pattern matches (`Lexer.exists_skipped`). At no place that it passes over a pattern
matches, and behind what is skipped there is a token or the end of the text
(`Lexer.unrecognized_of_isError`).

The scanner is not asked on the way, though it is asked first where a token begins. So external
tokens are passed over together with what stands before them (`Lexer.skips_bangs`).
-/

namespace LRWorkbench

open Text

namespace Lexer

variable {l : Language} {front back : List Char} {state : ScannerState}

/-- **Skipping stops at the first match.** No pattern matches at a place that is passed over, and
where the text goes on some pattern matches behind what is skipped. -/
theorem exists_skipped (t : ParseTable) (front : List Char) (place lookahead : Nat)
    (text : List Char) : ∃ u v, text = u ++ v ∧
      (skipFrom t front.getLast? place lookahead text).1 = place + byteLength u ∧
      (∀ x y, u = x ++ y → y ≠ [] →
        (scanPatterns t (allTerminals t) (front ++ x).getLast? (y ++ v)).1 = none) ∧
      (v ≠ [] → (scanPatterns t (allTerminals t) (front ++ u).getLast? v).1.isSome) := by
  induction text generalizing front place lookahead with
  | nil =>
    refine ⟨[], [], rfl, rfl, fun x y hxy hy => ?_, fun h => absurd rfl h⟩
    exact absurd (List.append_eq_nil_iff.mp hxy.symm).2 hy
  | cons c cs ih =>
    rw [skipFrom]
    dsimp only
    split
    case isTrue hfound =>
      refine ⟨[], c :: cs, rfl, rfl, fun x y hxy hy => ?_, fun _ => ?_⟩
      · exact absurd (List.append_eq_nil_iff.mp hxy.symm).2 hy
      · rwa [List.append_nil]
    case isFalse hnone =>
      obtain ⟨u, v, rfl, hu, hpassed, hnext⟩ := ih (front ++ [c]) (place + c.utf8Size)
        (max lookahead (place + (scanPatterns t (allTerminals t) front.getLast? (c :: cs)).2))
      rw [List.getLast?_concat] at hu
      refine ⟨c :: u, v, rfl, ?_, fun x y hxy hy => ?_, fun hv => ?_⟩
      · rw [hu, byteLength_cons]
        omega
      · cases x with
        | nil =>
          obtain rfl : c :: u = y := hxy
          rw [List.append_nil]
          simpa using hnone
        | cons d x =>
          obtain ⟨rfl, rfl⟩ := List.cons.inj hxy
          simpa using hpassed x y rfl hy
      · simpa using hnext hv

/-- What the lexer does with every terminal allowed where the text goes on. -/
theorem isError_nextTokenInErrorMode_iff (hback : back ≠ []) :
    (nextTokenInErrorMode l (front ++ back) (byteLength front) state).isError = true ↔
      (scanExternal l (front ++ back) (byteLength front) state (allTerminals l.table) true).1 = none ∧
        (scanPatterns l.table (allTerminals l.table) front.getLast? back).1 = none := by
  rw [(nextToken_eq_getD l front hback state (allTerminals l.table)).2]
  cases hexternal :
      scanExternal l (front ++ back) (byteLength front) state (allTerminals l.table) true with
  | mk found examined =>
    cases found with
    | some token =>
      have hlex : lex l (front ++ back) (byteLength front) state (allTerminals l.table) true =
          some token := by
        rw [lex, hexternal]
      rw [hlex, Option.getD_some, (spec_of_lex hlex).2.1]
      simp
    | none =>
      rw [lex_of_scanExternal hexternal]
      cases (scanPatterns l.table (allTerminals l.table) front.getLast? back).1 with
      | some c => simp
      | none => simp [errorToken]

/-- The piece that is found to be no token: no pattern matches inside it, but one does behind it. -/
theorem exists_piece_of_isError
    (herror : (nextTokenInErrorMode l (front ++ back) (byteLength front) state).isError = true) :
    ∃ c u v, back = c :: u ++ v ∧
      (nextTokenInErrorMode l (front ++ back) (byteLength front) state).stop =
        byteLength (front ++ c :: u) ∧
      (∀ x y, u = x ++ y → y ≠ [] →
        (scanPatterns l.table (allTerminals l.table) (front ++ c :: x).getLast? (y ++ v)).1 = none) ∧
      (v ≠ [] →
        (scanPatterns l.table (allTerminals l.table) (front ++ c :: u).getLast? v).1.isSome) := by
  cases back with
  | nil =>
    -- the end of the text is no error
    rw [nextTokenInErrorMode, if_pos (by simp)] at herror
    cases herror
  | cons c cs =>
    rw [(nextToken_eq_getD l front (List.cons_ne_nil c cs) state .empty).2] at herror ⊢
    cases hlex : lex l (front ++ c :: cs) (byteLength front) state (allTerminals l.table) true with
    | some token =>
      rw [hlex, Option.getD_some, (spec_of_lex hlex).2.1] at herror
      cases herror
    | none =>
      obtain ⟨u, v, rfl, hu, hpassed, hnext⟩ := exists_skipped l.table (front ++ [c])
        (byteLength front + c.utf8Size) (byteLength front) cs
      rw [List.getLast?_concat] at hu
      refine ⟨c, u, v, rfl, ?_, fun x y hxy hy => ?_, fun hv => ?_⟩
      · rw [Option.getD_none, errorToken, seek_append, byteLength_append, byteLength_cons,
          ← Nat.add_assoc]
        exact hu
      · simpa using hpassed x y hxy hy
      · simpa using hnext hv

/-- **Only what no pattern matches is skipped.** Where a piece is found to be no token, the same
would be found at every place inside the piece, unless the scanner reports a token there, and it is
not found behind the piece. Without external tokens it would be found at every place inside. -/
theorem unrecognized_of_isError {text : List Char} {place : Nat} (hplace : isBoundary place text)
    (herror : (nextTokenInErrorMode l text place state).isError = true) :
    (∀ q, isBoundary q text → place < q → q < (nextTokenInErrorMode l text place state).stop →
      ((nextTokenInErrorMode l text q state).isError = true ↔
        (scanExternal l text q state (allTerminals l.table) true).1 = none)) ∧
    (l.table.parts.externalCount = 0 → ∀ q, isBoundary q text → place < q →
      q < (nextTokenInErrorMode l text place state).stop →
        (nextTokenInErrorMode l text q state).isError = true) ∧
    (nextTokenInErrorMode l text (nextTokenInErrorMode l text place state).stop state).isError =
      false := by
  obtain ⟨front, back, rfl, rfl⟩ := isBoundary_iff.mp hplace
  obtain ⟨c, u, v, rfl, hstop, hpassed, hnext⟩ := exists_piece_of_isError herror
  have hinside : ∀ q, isBoundary q (front ++ (c :: u ++ v)) → byteLength front < q →
      q < byteLength (front ++ c :: u) →
        ((nextTokenInErrorMode l (front ++ (c :: u ++ v)) q state).isError = true ↔
          (scanExternal l (front ++ (c :: u ++ v)) q state (allTerminals l.table) true).1 = none) := by
    intro q hq hlt hgt
    obtain ⟨before, behind, htext, rfl⟩ := isBoundary_iff.mp hq
    obtain ⟨w, rfl, hw⟩ := exists_of_append_eq_append htext (Nat.le_of_lt hlt)
    rw [byteLength_append] at hlt hgt
    obtain ⟨y, hy, rfl⟩ := exists_of_append_eq_append hw.symm
      (by rw [byteLength_append] at hgt; omega)
    -- the place is inside the piece, so something of the piece stands before it and behind it
    have hne : y ≠ [] := by
      rintro rfl
      rw [hy, List.append_nil, byteLength_append] at hgt
      exact Nat.lt_irrefl _ hgt
    cases w with
    | nil => exact absurd hlt (Nat.lt_irrefl _)
    | cons d x =>
      obtain ⟨rfl, rfl⟩ := List.cons.inj hy
      have hnone := hpassed x y rfl hne
      rw [htext, isError_nextTokenInErrorMode_iff (by simp [hne])]
      exact and_iff_left hnone
  rw [hstop]
  refine ⟨hinside, fun hexternals q hq hlt hgt => ?_, ?_⟩
  · rw [hinside q hq hlt hgt, scanExternal_of_noExternals hexternals]
  · rw [← List.append_assoc]
    by_cases hv : v = []
    · rw [nextTokenInErrorMode, if_pos (by simp [hv])]
      rfl
    · refine Bool.eq_false_iff.mpr fun hbehind => ?_
      have hnone := ((isError_nextTokenInErrorMode_iff hv).mp hbehind).2
      have hsome := hnext hv
      rw [hnone] at hsome
      cases hsome

/-- An `a`, or an external token. -/
def bangs : Grammar where
  name := "bangs"
  rules := [("phrase", .choice [.reference "bang", .literal "a"])]
  extras := []
  conflicts := []
  externals := ["bang"]
  word := none

/-- A scanner that finds exclamation marks. -/
def bangScanner : ExternalScanner :=
  ScannerRules.scanner ⟨1, false, [⟨none, ['!'], none, 0, none, none, .consumed⟩], .bytes 1⟩

/-- In `??a` two characters are skipped. -/
theorem unrecognized_bangs : ∃ l, bangs.compile = .ok (Language.table l) ∧
    isBoundary 0 "??a".toList ∧ (nextTokenInErrorMode l "??a".toList 0 []).isError = true ∧
    isBoundary 1 "??a".toList ∧ 1 < (nextTokenInErrorMode l "??a".toList 0 []).stop ∧
    (nextTokenInErrorMode l "??a".toList 1 []).isError = true ∧
    (nextTokenInErrorMode l "??a".toList (nextTokenInErrorMode l "??a".toList 0 []).stop []).isError =
      false := by
  have hrun : (bangs.compile.toOption).any (fun t =>
      (nextTokenInErrorMode ⟨t, some bangScanner⟩ "??a".toList 0 []).isError &&
        decide (1 < (nextTokenInErrorMode ⟨t, some bangScanner⟩ "??a".toList 0 []).stop) &&
        decide ((scanExternal ⟨t, some bangScanner⟩ "??a".toList 1 [] (allTerminals t) true).1 =
          none)) = true := by
    decide +kernel
  obtain ⟨t, ht, hcheck⟩ := (Option.any_eq_true ..).mp hrun
  simp only [Bool.and_eq_true, decide_eq_true_eq] at hcheck
  obtain ⟨⟨herror, hstop⟩, hscan⟩ := hcheck
  obtain ⟨hinside, -, hbehind⟩ := unrecognized_of_isError (by decide) herror
  exact ⟨⟨t, some bangScanner⟩, eq_ok_of_toOption ht, by decide, herror, by decide, hstop,
    (hinside 1 (by decide) Nat.zero_lt_one hstop).mpr hscan, hbehind⟩

/-- In `?!` the exclamation mark is skipped with the question mark, though it is an external token. -/
theorem skips_bangs : ∃ l, bangs.compile = .ok (Language.table l) ∧
    isBoundary 0 "?!".toList ∧ (nextTokenInErrorMode l "?!".toList 0 []).isError = true ∧
    isBoundary 1 "?!".toList ∧ 1 < (nextTokenInErrorMode l "?!".toList 0 []).stop ∧
    (nextTokenInErrorMode l "?!".toList 1 []).isError = false := by
  have hrun : (bangs.compile.toOption).any (fun t =>
      (nextTokenInErrorMode ⟨t, some bangScanner⟩ "?!".toList 0 []).isError &&
        decide (1 < (nextTokenInErrorMode ⟨t, some bangScanner⟩ "?!".toList 0 []).stop) &&
        !(nextTokenInErrorMode ⟨t, some bangScanner⟩ "?!".toList 1 []).isError) = true := by
    decide +kernel
  obtain ⟨t, ht, hcheck⟩ := (Option.any_eq_true ..).mp hrun
  simp only [Bool.and_eq_true, Bool.not_eq_true', decide_eq_true_eq] at hcheck
  obtain ⟨⟨herror, hstop⟩, hfound⟩ := hcheck
  exact ⟨⟨t, some bangScanner⟩, eq_ok_of_toOption ht, by decide, herror, by decide, hstop, hfound⟩

end Lexer

end LRWorkbench
