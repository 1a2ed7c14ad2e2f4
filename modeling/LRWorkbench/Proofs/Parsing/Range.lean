import LRWorkbench.Lexing.ScannerRules
import LRWorkbench.Parsing.Parser
import LRWorkbench.Proofs.Grammar.Compile
import LRWorkbench.Proofs.Lexing.Account
import LRWorkbench.Proofs.Parsing.Trail
import LRWorkbench.Proofs.Parsing.Upkeep

/-!
# Runs stay in range

Rows, productions and pieces of the text are looked up unchecked once a table has passed its check
(`Parser.accesses`). That all of them are there follows from what every run keeps: the states that it comes
to are rows (`Parser.InRows`), and it stands between two characters of the text (`Parser.FillsTo`). This
holds of any table, and of whatever a scanner reports (`Setting.Genuine.staysInRange`), but for one thing: a
report that leads beyond all numbers is not compared with the length of the text, because the comparison
already overflows (`Parsing.not_staysInRange_shout`).

Where a run stays in range, the parser ends with what the run ends with (`parse?_eq`, `reparse?_eq`), and
the lexer finds a token before the end of the text (`Lexer.exists_progresses`).
-/

namespace LRWorkbench

open Text

variable {A : Type} [ByteAutomaton A]

namespace Access

variable {t : ParseTable A} {text front piece rest : List Char} {as bs : List Access} {a : Access}

/-- Whether all that is accessed is in range. -/
def AllInRange (t : ParseTable A) (text : List Char) (as : List Access) : Prop :=
  ∀ a ∈ as, a.isInRange t text = true

@[simp] theorem allInRange_nil : AllInRange t text [] := fun _ h => absurd h List.not_mem_nil

@[simp] theorem allInRange_cons :
    AllInRange t text (a :: as) ↔ a.isInRange t text = true ∧ AllInRange t text as :=
  List.forall_mem_cons

@[simp] theorem allInRange_append :
    AllInRange t text (as ++ bs) ↔ AllInRange t text as ∧ AllInRange t text bs :=
  List.forall_mem_append

/-- Rows of the table are there for its states. -/
theorem isInRange_row {state : Nat} :
    (row state).isInRange t text = true ↔ state < t.parts.stateCount := decide_eq_true_iff

theorem isInRange_production {index : Nat} :
    (production index).isInRange t text = true ↔ index < t.parts.productions.size :=
  decide_eq_true_iff

/-- A place of the text is a number. -/
theorem isInRange_place {position consumed : Nat} :
    (place position consumed).isInRange t text = true ↔ position + consumed < placeCount :=
  decide_eq_true_iff

/-- Pieces of the text that stand behind a beginning of it are in range. -/
theorem isInRange_piece (t : ParseTable A) (front piece rest : List Char) :
    (Access.piece (byteLength front) (byteLength front + byteLength piece)).isInRange t
      (front ++ piece ++ rest) = true := by
  simp only [isInRange, Bool.and_eq_true, decide_eq_true_eq]
  refine ⟨⟨Nat.le_add_right .., ?_⟩, ?_⟩
  · exact isBoundary_iff.mpr ⟨front, piece ++ rest, List.append_assoc .., rfl⟩
  · exact isBoundary_iff.mpr ⟨front ++ piece, rest, rfl, byteLength_append ..⟩

end Access

open Access

/-- Whether the ends of the tokens that a scanner reports behind the beginnings of a text are places. They
need not be places in the text. -/
def Language.ReportsPlaces (l : Language A) (text : List Char) : Prop :=
  ∀ scanner, l.scanner = some scanner → ∀ front rest, text = front ++ rest → ∀ state flags index,
    (scanner.scan rest state flags).token = some index →
      byteLength front + (scanner.scan rest state flags).consumed < placeCount

/-- So they are if no token is longer than what is left of the text. -/
theorem Language.reportsPlaces_of_le {l : Language A} {text : List Char}
    (h : ∀ scanner, l.scanner = some scanner → ∀ rest state flags,
      (scanner.scan rest state flags).consumed ≤ byteLength rest)
    (htext : byteLength text < placeCount) : l.ReportsPlaces text := by
  rintro scanner hscanner front rest rfl state flags index -
  have hle := h scanner hscanner rest state flags
  rw [byteLength_append] at htext
  omega

/-- Whether the ends of the tokens that a scanner reports at one place of a text are places. -/
def Language.ReportsPlaceAt (l : Language A) (text : List Char) (place : Nat) (state : ScannerState) :
    Prop :=
  ∀ scanner, l.scanner = some scanner → ∀ flags index,
    (scanner.scan (seek place text).2 state flags).token = some index →
      place + (scanner.scan (seek place text).2 state flags).consumed < placeCount

/-- What holds behind all beginnings of a text holds at each of its places. -/
theorem Language.ReportsPlaces.reportsPlaceAt {l : Language A} {front back : List Char}
    (h : l.ReportsPlaces (front ++ back)) (state : ScannerState) :
    l.ReportsPlaceAt (front ++ back) (byteLength front) state := by
  intro scanner hscanner
  rw [seek_append]
  exact h scanner hscanner front back rfl state

/-! ### The lexer -/

namespace Lexer

variable {l : Language A} {front back : List Char} {state : ScannerState} {valid : TerminalSet}

/-- The text is cut behind one of its beginnings. -/
theorem isInRange_rest (t : ParseTable A) (front back : List Char) :
    (restAccess (front ++ back) (byteLength front)).isInRange t (front ++ back) = true := by
  have h := isInRange_piece t front back []
  rwa [List.append_nil, ← byteLength_append] at h

/-- The end of a token that the scanner reports is computed without an overflow. -/
theorem allInRange_scannerAccesses (hreports : l.ReportsPlaceAt (front ++ back) (byteLength front) state) :
    AllInRange l.table (front ++ back)
      (scannerAccesses l (front ++ back) (byteLength front) state valid) := by
  rw [scannerAccesses]
  split
  · exact allInRange_nil
  · rename_i scanner hscanner
    dsimp only
    split
    · exact allInRange_nil
    · rw [seek_append]
      refine allInRange_cons.mpr ⟨isInRange_rest .., ?_⟩
      split
      · exact allInRange_nil
      · rename_i symbol hsymbol
        obtain ⟨index, htoken, -⟩ := Option.bind_eq_some_iff.mp hsymbol
        have hplace := hreports scanner hscanner _ index (by rwa [seek_append])
        rw [seek_append] at hplace
        exact allInRange_cons.mpr ⟨isInRange_place.mpr hplace, allInRange_nil⟩

/-- The patterns are run on what stands behind a beginning of the text, and find what stands in
it. -/
theorem allInRange_patternAccesses (t : ParseTable A) (front back : List Char) (before : Option Char) :
    AllInRange t (front ++ back)
      (patternAccesses t (front ++ back) (byteLength front) before back) := by
  refine allInRange_cons.mpr ⟨isInRange_rest .., fun a ha => ?_⟩
  obtain ⟨⟨pattern, length⟩, -, ha⟩ := List.mem_filterMap.mp ha
  dsimp only at ha
  -- a match that ends within a character is no access
  split at ha
  · cases ha
  rename_i hinside
  rw [Bool.not_eq_true, Bool.or_eq_false_iff, Bool.not_eq_false'] at hinside
  obtain ⟨⟩ := ha
  have hstart : isBoundary (byteLength front) (front ++ back) = true :=
    isBoundary_iff.mpr ⟨front, back, rfl, rfl⟩
  simp only [isInRange, Nat.le_add_right, decide_true, Bool.true_and, hstart, hinside.2]

/-- So looking for a token stays in range. -/
theorem allInRange_lexAccesses
    (hreports : l.ReportsPlaceAt (front ++ back) (byteLength front) state) (errorMode : Bool) :
    AllInRange l.table (front ++ back)
      (lexAccesses l (front ++ back) (byteLength front) state valid errorMode) := by
  refine allInRange_append.mpr ⟨allInRange_scannerAccesses hreports, ?_⟩
  split
  · exact allInRange_nil
  · rw [seek_append]
    exact allInRange_patternAccesses _ _ _ _

/-- Characters that nothing recognizes are skipped one by one, within the text. -/
theorem allInRange_skipAccesses (t : ParseTable A) (before : Option Char) (front back : List Char) :
    AllInRange t (front ++ back)
      (skipAccesses t (front ++ back) before (byteLength front) back) := by
  induction back generalizing before front with
  | nil => exact allInRange_nil
  | cons c cs ih =>
    refine allInRange_append.mpr ⟨allInRange_patternAccesses _ _ _ _, ?_⟩
    split
    · exact allInRange_nil
    · have hrest := ih (some c) (front ++ [c])
      rwa [byteLength_append, byteLength_cons, byteLength_nil, Nat.add_zero, List.append_assoc] at hrest

/-- So they are put into an error token. -/
theorem allInRange_errorAccesses (t : ParseTable A) (front back : List Char) :
    AllInRange t (front ++ back) (errorAccesses t (front ++ back) (byteLength front)) := by
  refine allInRange_cons.mpr ⟨isInRange_rest .., ?_⟩
  rw [seek_append]
  cases back with
  | nil => exact allInRange_nil
  | cons c cs =>
    have hrest := allInRange_skipAccesses t (some c) (front ++ [c]) cs
    rwa [byteLength_append, byteLength_cons, byteLength_nil, Nat.add_zero, List.append_assoc] at hrest

/-- Looking for a token in error mode stays in range, too. -/
theorem allInRange_accessesInErrorMode
    (hreports : l.ReportsPlaceAt (front ++ back) (byteLength front) state) :
    AllInRange l.table (front ++ back)
      (accessesInErrorMode l (front ++ back) (byteLength front) state) := by
  rw [accessesInErrorMode]
  split
  · exact allInRange_nil
  · refine allInRange_append.mpr ⟨allInRange_lexAccesses hreports true, ?_⟩
    split
    · exact allInRange_nil
    · exact allInRange_errorAccesses _ _ _

/-- What looking for a token between two characters accesses is in range. -/
theorem allInRange_accesses (hreports : l.ReportsPlaceAt (front ++ back) (byteLength front) state) :
    AllInRange l.table (front ++ back)
      (accesses l (front ++ back) (byteLength front) state valid) := by
  rw [accesses]
  split
  · exact allInRange_nil
  · refine allInRange_append.mpr ⟨allInRange_lexAccesses hreports false, ?_⟩
    split
    · exact allInRange_nil
    · exact allInRange_accessesInErrorMode hreports

end Lexer

namespace Parsing

namespace Parser

variable {s : Setting A} {p : Parser} {token : Token} {front back : List Char}

/-- Whether a parser stands between two characters of the text. -/
def OnBoundary (s : Setting A) (p : Parser) : Prop :=
  ∃ front back, s.text = front ++ back ∧ p.position = byteLength front

/-- A parser that has filled the text up to where it stands does not stand within a character. -/
theorem Fills.onBoundary (h : Fills s p front back) : OnBoundary s p :=
  ⟨front, back, h.text_eq, h.position_eq⟩

/-- Nor does it behind a token. -/
theorem onBoundary_behind {piece rest : List Char} (h : token.Spans s.text front piece rest) :
    OnBoundary s (p.behind token) :=
  ⟨front ++ piece, rest, h.text_eq, h.stop_eq.trans (byteLength_append ..).symm⟩

theorem FillsTo.onBoundary (h : FillsTo s token p) : OnBoundary s p := by
  obtain ⟨front, piece, rest, hspans, -, hposition⟩ := h
  exact ⟨front ++ piece, rest, hspans.text_eq,
    (hposition.trans hspans.stop_eq).trans (byteLength_append ..).symm⟩

/-- The leaf of a token is in range. -/
theorem isInRange_leafAccess {t : ParseTable A} {text piece rest : List Char}
    (h : token.Spans text front piece rest) : (leafAccess token).isInRange t text = true := by
  rw [leafAccess, h.start_eq, h.stop_eq, h.text_eq]
  exact isInRange_piece ..

/-! ### Reading tokens -/

/-- Reading on takes one token after the other, each of which starts between two characters. -/
theorem allInRange_readOnAccesses (hreports : s.language.ReportsPlaces s.text) (lexState fuel : Nat)
    {p : Parser} (h : OnBoundary s p) :
    AllInRange s.table s.text (readOnAccesses s lexState fuel p) := by
  induction fuel generalizing p with
  | zero => exact allInRange_nil
  | succ fuel ih =>
    obtain ⟨front, back, htext, hposition⟩ := h
    obtain ⟨piece, rest, hspans⟩ := Lexer.spans_nextToken s.language front back p.scanner
      (s.table.validTerminals lexState)
    refine allInRange_append.mpr ⟨?_, ?_⟩
    · rw [hposition, htext]
      exact Lexer.allInRange_accesses ((htext ▸ hreports).reportsPlaceAt _)
    · rw [← htext, ← hposition] at hspans
      split
      · exact allInRange_cons.mpr ⟨isInRange_leafAccess hspans, ih (onBoundary_behind hspans)⟩
      · exact allInRange_nil

/-- Reading from a row, between two characters, stays in range. -/
theorem allInRange_readAccesses (hreports : s.language.ReportsPlaces s.text) (hrows : InRows s p)
    (h : OnBoundary s p) : AllInRange s.table s.text (readAccesses s p) :=
  allInRange_cons.mpr ⟨isInRange_row.mpr hrows.lexState_getD, allInRange_readOnAccesses hreports _ _ h⟩

/-- So does looking ahead of an error. -/
theorem allInRange_readAheadOnAccesses (hreports : s.language.ReportsPlaces s.text) (fuel : Nat)
    {p : Parser} (h : OnBoundary s p) :
    AllInRange s.table s.text (readAheadOnAccesses s fuel p) := by
  induction fuel generalizing p with
  | zero => exact allInRange_nil
  | succ fuel ih =>
    obtain ⟨front, back, htext, hposition⟩ := h
    obtain ⟨piece, rest, hspans⟩ := Lexer.spans_nextTokenInErrorMode s.language front back p.scanner
    refine allInRange_append.mpr ⟨?_, ?_⟩
    · rw [hposition, htext]
      exact Lexer.allInRange_accessesInErrorMode ((htext ▸ hreports).reportsPlaceAt _)
    · rw [← htext, ← hposition] at hspans
      split
      · exact allInRange_cons.mpr ⟨isInRange_leafAccess hspans, ih (onBoundary_behind hspans)⟩
      · exact allInRange_nil

/-- Reading ahead ends between two characters, behind a token that is in range. -/
theorem onBoundary_readAheadOn (extras : List (Subtree × Nat)) (fuel : Nat) {p : Parser}
    (h : OnBoundary s p) :
    OnBoundary s (readAheadOn s extras fuel p).2 ∧
      (leafAccess (readAheadOn s extras fuel p).1.token).isInRange s.table s.text = true := by
  induction fuel generalizing extras p with
  | zero =>
    have hspans := Lexer.spans_endToken s.text p.scanner
    exact ⟨h, isInRange_leafAccess hspans⟩
  | succ fuel ih =>
    obtain ⟨front, back, htext, hposition⟩ := h
    obtain ⟨piece, rest, hspans⟩ := Lexer.spans_nextTokenInErrorMode s.language front back p.scanner
    rw [← htext, ← hposition] at hspans
    rw [readAheadOn]
    split
    · exact ih _ (onBoundary_behind hspans)
    · exact ⟨onBoundary_behind hspans, isInRange_leafAccess hspans⟩

/-! ### Recovery -/

/-- Only reductions of the table are tried. -/
theorem allInRange_resumeAccesses (t : ParseTable A) (symbol : Symbol) (text : List Char) (fuel : Nat)
    (states : List Nat) : AllInRange t text (resumeAccesses t symbol fuel states) := by
  induction fuel generalizing states with
  | zero => exact allInRange_nil
  | succ fuel ih =>
    cases states with
    | nil => exact allInRange_nil
    | cons top below =>
      rw [resumeAccesses]
      split
      case h_4 production haction =>
        refine allInRange_cons.mpr
          ⟨isInRange_production.mpr (ParseTable.lt_of_action_reduce haction), ?_⟩
        split
        · exact allInRange_nil
        split
        · exact allInRange_nil
        split
        · exact ih _
        · exact allInRange_nil
      all_goals exact allInRange_nil

/-- Whether a stack can be popped for a token is looked up checked. -/
theorem allInRange_popAccesses (t : ParseTable A) (stack : Stack) (skipped : Nat) (symbol : Symbol)
    (text : List Char) : AllInRange t text (popAccesses t stack skipped symbol) := by
  intro a ha
  obtain ⟨popped, -, ha⟩ := List.mem_flatMap.mp ha
  exact allInRange_resumeAccesses _ _ _ _ _ a ha

/-- Looking for a recovery stays in range. -/
theorem allInRange_recoveryAccesses (hreports : s.language.ReportsPlaces s.text) (skipped : List Ahead)
    (current : Ahead) (window : Nat) {p : Parser} (h : OnBoundary s p) :
    AllInRange s.table s.text (recoveryAccesses s skipped current window p) := by
  induction window generalizing skipped current p with
  | zero =>
    unfold recoveryAccesses
    refine allInRange_append.mpr ⟨allInRange_popAccesses _ _ _ _ _, ?_⟩
    cases popsFor? s.table p.stack skipped.length current.token.symbol <;> exact allInRange_nil
  | succ window ih =>
    unfold recoveryAccesses
    refine allInRange_append.mpr ⟨allInRange_popAccesses _ _ _ _ _, ?_⟩
    cases popsFor? s.table p.stack skipped.length current.token.symbol with
    | some popped => exact allInRange_nil
    | none =>
      dsimp only
      split
      · exact allInRange_nil
      · exact allInRange_append.mpr ⟨allInRange_readAheadOnAccesses hreports _ h,
          ih _ _ (onBoundary_readAheadOn [] (s.length + 1) h).1⟩

/-- The leaves of the tokens that are skipped are in range. -/
theorem allInRange_skipped {skipped : List Ahead} {current : Ahead} {window : Nat} {p p' : Parser}
    {r : Recovery} (h : OnBoundary s p)
    (hskipped : AllInRange s.table s.text (skipped.map (leafAccess ·.token)))
    (hcurrent : (leafAccess current.token).isInRange s.table s.text = true)
    (hfound : findRecovery s skipped current window p = some (r, p')) :
    AllInRange s.table s.text (r.skipped.map (leafAccess ·.token)) := by
  replace hfound := finds_of_findRecovery hfound
  induction hfound with
  | here => exact hskipped
  | behind _ _ ih =>
    obtain ⟨hahead, hnext⟩ := onBoundary_readAheadOn [] (s.length + 1) h
    refine ih hahead ?_ hnext
    rw [List.map_append]
    exact allInRange_append.mpr ⟨hskipped, allInRange_cons.mpr ⟨hcurrent, allInRange_nil⟩⟩

/-- Getting over an error reads ahead, and reads on behind what is skipped. -/
theorem allInRange_recoverAccesses (hreports : s.language.ReportsPlaces s.text) (h : Kept s token p) :
    AllInRange s.table s.text (recoverAccesses s p token) := by
  have hleaf : (leafAccess token).isInRange s.table s.text = true := by
    obtain ⟨front, piece, rest, hspans, -⟩ := h.fills
    exact isInRange_leafAccess hspans
  refine allInRange_append.mpr
    ⟨allInRange_recoveryAccesses hreports _ _ _ h.fills.onBoundary, ?_⟩
  split
  · rename_i r p' hfound
    exact allInRange_skipped h.fills.onBoundary allInRange_nil hleaf hfound
  · split
    · exact allInRange_nil
    · obtain ⟨front, back, hfills⟩ := h.fills.giveUpToken h.rows
      exact allInRange_cons.mpr ⟨hleaf,
        allInRange_readAccesses hreports (h.rows.giveUpToken token) hfills.onBoundary⟩

/-! ### Moves -/

/-- A move from where a run gets to stays in range. -/
theorem Kept.allInRange (h : Kept s token p) (hreuse : s.Filling)
    (hreports : s.language.ReportsPlaces s.text) :
    AllInRange s.table s.text (accesses s (toReuse? s p token) p token) := by
  rw [accesses]
  split
  · rename_i next haction
    split
    · rename_i t after htaken
      obtain ⟨front, back, hfills⟩ := h.fills.takeOver hreuse htaken
      exact allInRange_readAccesses hreports (h.rows.takeOver h.fills hreuse htaken) hfills.onBoundary
    · obtain ⟨front, back, hfills⟩ := h.fills.shift (ParseTable.lt_of_action_shift haction)
      obtain ⟨front', piece, rest, hspans, -⟩ := h.fills
      exact allInRange_cons.mpr ⟨isInRange_leafAccess hspans,
        allInRange_readAccesses hreports (h.rows.shift haction) hfills.onBoundary⟩
  · rename_i production haction
    exact allInRange_cons.mpr
      ⟨isInRange_production.mpr (ParseTable.lt_of_action_reduce haction), allInRange_nil⟩
  · exact allInRange_nil
  · exact allInRange_recoverAccesses hreports h

end Parser

open Parsing.Parser

/-- Whether a run stays in range: from the start to wherever it gets to, the states on the stack are rows of
the table, and what the next move accesses is there. -/
structure Setting.StaysInRange (s : Setting A) : Prop where
  start : AllInRange s.table s.text (readAccesses s start)
  states : ∀ token p, Reaches s token p → ∀ e ∈ p.stack, e.state < s.table.parts.stateCount
  moves : ∀ token p, Reaches s token p →
    AllInRange s.table s.text (accesses s (toReuse? s p token) p token)

/-- **Tables that passed their check are safe to run.** Whatever the table, the text, the edits before and the
window are, and whatever the scanner reports, as long as the ends it reports are places: no move of the
parser, of recovery or of the lexer leaves what is in range. -/
theorem Setting.Genuine.staysInRange {l : Language A} {s : Setting A} (hs : s.Genuine l)
    (hreports : l.ReportsPlaces s.text) : s.StaysInRange := by
  obtain ⟨rfl, hreuse⟩ := hs.filling
  exact {
    start := allInRange_readAccesses hreports (inRows_start s) (fills_start s).onBoundary
    states := fun token p h => (h.kept hreuse).rows.stack
    moves := fun token p h => (h.kept hreuse).allInRange hreuse hreports }

/-! ### What the parser ends with -/

theorem Setting.Filling.addsUp {s : Setting} (h : s.Filling) : s.AddsUp := by
  intro r hr
  obtain ⟨u, v, hfills, -⟩ := h r hr
  exact hfills.addUp.1

/-- Whether all accesses are in range can be computed. -/
theorem Parser.inRange_iff {s : Setting} {as : List Access} :
    inRange s as = true ↔ AllInRange s.table s.text as := List.all_eq_true

/-- Where a run stays in range, running as long as it does is running. -/
theorem Setting.StaysInRange.runInRange_eq {s : Setting} (hs : s.AddsUp) (hrange : s.StaysInRange)
    {token : Token} {p : Parser} (hreaches : Reaches s token p) {trail : Trail}
    (htrail : s.HasTrail trail) (fuel : Nat) : runInRange s fuel trail token p = run s fuel token p := by
  induction fuel generalizing trail token p with
  | zero => rfl
  | succ fuel ih =>
    obtain ⟨hstep, hleft⟩ := stepAlong_eq hs htrail p token
    rw [runInRange, run, (toReuseAlong?_eq hs htrail p token).1,
      if_pos (inRange_iff.mpr (hrange.moves token p hreaches))]
    rcases hmove : stepAlong s trail p token with ⟨outcome, trail'⟩
    rw [hmove] at hstep hleft
    cases outcome with
    | done tree => rw [← hstep]
    | more token' p' =>
      rw [← hstep]
      exact ih (hreaches.step hstep.symm) hleft

/-- A run that checks each access first ends like one that does not, if all are in range. -/
theorem Setting.StaysInRange.runInRangeFromStart_eq {s : Setting} (hs : s.AddsUp)
    (hrange : s.StaysInRange) (fuel : Nat) : runInRangeFromStart s fuel = runFromStart s fuel := by
  rw [runInRangeFromStart, if_pos (inRange_iff.mpr hrange.start)]
  exact hrange.runInRange_eq hs .start (fun r _ => r.isTrail_nil) fuel

/-- To parse a text is to run from the start, if the ends that the scanner reports are places. -/
theorem parse?_eq {l : Language} {text : List Char} (hreports : l.ReportsPlaces text) (window : Nat) :
    parse? l text window = runFromStart (.fresh l text window) maxMoves := by
  have hs : Setting.Genuine l (.fresh l text window) := .fresh text window
  exact (hs.staysInRange hreports).runInRangeFromStart_eq hs.filling.2.addsUp maxMoves

/-- So it is to parse a text again that a tree's text was edited into. -/
theorem reparse?_eq {l : Language} {s : Setting} {old : SyntaxTree} (hs : s.Genuine l)
    (hyields : s.Yields old) {edits : List Edit} {text : List Char}
    (hreports : l.ReportsPlaces text)
    (hturns : ∀ set, EditSet.of edits (byteLength old.text) (byteLength text) = .ok set →
      set.Turns old.text text) (window : Nat) :
    reparse? old edits text window =
      (EditSet.of edits (byteLength old.text) (byteLength text)).map fun set =>
        runFromStart (.edited old set text window) maxMoves := by
  rw [reparse?]
  cases haccepted : EditSet.of edits (byteLength old.text) (byteLength text) with
  | error e => rfl
  | ok set =>
    have hedited : Setting.Genuine l (.edited old set text window) :=
      .edited hs hyields haccepted (hturns set haccepted)
    exact congrArg Except.ok
      ((hedited.staysInRange hreports).runInRangeFromStart_eq hedited.filling.2.addsUp maxMoves)

/-! ### Exclamation marks -/

/-- An `a` and an exclamation mark, which is an external token. -/
def shout : Grammar where
  name := "shout"
  rules := [("phrase", .seq [.literal "a", .reference "bang"])]
  extras := []
  conflicts := []
  externals := ["bang"]
  word := none

/-- A scanner that finds exclamation marks, and may claim that they take a number of bytes. -/
def shoutScanner (claims : Option Nat) : ExternalScanner :=
  ScannerRules.scanner ⟨1, false, [⟨none, ['!'], none, 0, claims, none, .bytes 1⟩], .bytes 1⟩

/-- The scanner for exclamation marks stays in the text unless it claims more than it finds. -/
theorem consumed_shoutScanner_le (rest : List Char) (state : ScannerState) (flags : List Bool) :
    ((shoutScanner none).scan rest state flags).consumed ≤ byteLength rest := by
  simp only [shoutScanner, ScannerRules.scanner, List.findSome?_cons, List.findSome?_nil,
    ScannerRule.outcome?, ScannerRule.find?]
  cases hdrop : dropPrefix? ['!'] rest with
  | none => exact Nat.zero_le _
  | some behind =>
    rw [← append_of_dropPrefix? hdrop, byteLength_append]
    exact Nat.le_add_right ..

/-- In `!a!` there is an error to get over. -/
theorem staysInRange_shout : ∃ l, shout.compile = .ok (Language.table l) ∧ l.scanner.isSome ∧
    l.ReportsPlaces "!a!".toList ∧ Setting.Genuine l (.fresh l "!a!".toList defaultWindow) ∧
      (Setting.fresh l "!a!".toList defaultWindow).StaysInRange := by
  have hrun : shout.compile.toOption.isSome = true := by decide +kernel
  obtain ⟨t, ht⟩ := Option.isSome_iff_exists.mp hrun
  have hreports : Language.ReportsPlaces ⟨t, some (shoutScanner none)⟩ "!a!".toList := by
    refine Language.reportsPlaces_of_le (fun scanner hscanner => ?_) (by decide)
    obtain rfl := Option.some.inj hscanner
    exact consumed_shoutScanner_le
  exact ⟨⟨t, some (shoutScanner none)⟩, eq_ok_of_toOption ht, rfl, hreports, .fresh _ _,
    Setting.Genuine.staysInRange (.fresh _ _) hreports⟩

/-- A token behind the `a` that claims to take more bytes than can be counted from there leaves what is in
range, and there is no tree. -/
theorem not_staysInRange_shout : ∃ l, shout.compile = .ok (Language.table l) ∧
    l.scanner = some (shoutScanner (some (placeCount - 1))) ∧
    ¬ (Setting.fresh l "a!".toList defaultWindow).StaysInRange ∧
    parse? l "a!".toList defaultWindow = none := by
  have hrun : shout.compile.toOption.any (fun t =>
      let s := Setting.fresh ⟨t, some (shoutScanner (some (placeCount - 1)))⟩ "a!".toList defaultWindow
      let first := read s start
      !inRange s (accesses s (toReuse? s first.2 first.1) first.2 first.1) &&
        (runInRangeFromStart s maxMoves).isNone) = true := by
    decide +kernel
  obtain ⟨t, ht, hcheck⟩ := (Option.any_eq_true ..).mp hrun
  obtain ⟨hleaves, hnone⟩ := Bool.and_eq_true_iff.mp hcheck
  refine ⟨⟨t, _⟩, eq_ok_of_toOption ht, rfl, fun hrange => ?_, Option.isNone_iff_eq_none.mp hnone⟩
  rw [Bool.not_eq_true', ← Bool.not_eq_true] at hleaves
  exact hleaves (inRange_iff.mpr (hrange.moves _ _ .start))

end Parsing

/-! ### Finding tokens -/

namespace Lexer

/-- Where the scanner reports places, the next token is found. -/
theorem nextToken?_eq {l : Language} {front back : List Char} {state : ScannerState}
    (hreports : l.ReportsPlaceAt (front ++ back) (byteLength front) state) (valid : TerminalSet) :
    nextToken? l (front ++ back) (byteLength front) state valid =
      some (nextToken l (front ++ back) (byteLength front) state valid) :=
  if_pos (List.all_eq_true.mpr (allInRange_accesses hreports))

/-- So it is in error mode. -/
theorem nextTokenInErrorMode?_eq {l : Language} {front back : List Char} {state : ScannerState}
    (hreports : l.ReportsPlaceAt (front ++ back) (byteLength front) state) :
    nextTokenInErrorMode? l (front ++ back) (byteLength front) state =
      some (nextTokenInErrorMode l (front ++ back) (byteLength front) state) :=
  if_pos (List.all_eq_true.mpr (allInRange_accessesInErrorMode hreports))

/-- **Tokens make progress.** Before the end of the text there is a token between any two characters, whatever
is of use there and whatever the scanner reports, as long as the ends it reports are places. The token takes
at least one character, is not the end of the input, and looks behind its own end but not beyond the text. -/
theorem exists_progresses {g : Grammar} {l : Language} (hcompile : g.compile = .ok l.table)
    {text : List Char} {place : Nat} {state : ScannerState} (hplace : isBoundary place text = true)
    (hlt : place < byteLength text) (hreports : l.ReportsPlaceAt text place state)
    (valid : TerminalSet) :
    (∃ token, nextToken? l text place state valid = some token ∧ token.Progresses text place) ∧
      ∃ token, nextTokenInErrorMode? l text place state = some token ∧
        token.Progresses text place := by
  obtain ⟨prepared, -, hcompiles⟩ := Grammar.exists_prepared hcompile
  obtain ⟨front, back, rfl, rfl, hback⟩ := exists_append_of_lt hplace hlt
  exact ⟨⟨_, nextToken?_eq hreports valid, progresses_nextToken hcompiles.sparesEnd hback state valid⟩,
    ⟨_, nextTokenInErrorMode?_eq hreports,
      progresses_nextTokenInErrorMode hcompiles.sparesEnd hback state⟩⟩

open Parsing

/-- An arrow, which takes three bytes, is taken where no pattern matches it. -/
theorem exists_progresses_shout : ∃ l, shout.compile = .ok (Language.table l) ∧
    isBoundary 1 "a→!".toList = true ∧ 1 < byteLength "a→!".toList ∧
    l.ReportsPlaceAt "a→!".toList 1 [] ∧
    (∃ token, nextToken? l "a→!".toList 1 [] (allTerminals l.table) = some token ∧
      token.Progresses "a→!".toList 1) ∧
    ∃ token, nextTokenInErrorMode? l "a→!".toList 1 [] = some token ∧
      token.Progresses "a→!".toList 1 := by
  have hrun : shout.compile.toOption.isSome = true := by decide +kernel
  obtain ⟨t, ht⟩ := Option.isSome_iff_exists.mp hrun
  have hreports : Language.ReportsPlaces ⟨t, some (shoutScanner none)⟩ (['a'] ++ "→!".toList) := by
    refine Language.reportsPlaces_of_le (fun scanner hscanner => ?_) (by decide)
    obtain rfl := Option.some.inj hscanner
    exact consumed_shoutScanner_le
  have hplace : isBoundary 1 "a→!".toList = true := by decide
  have hlt : 1 < byteLength "a→!".toList := by decide
  exact ⟨⟨t, some (shoutScanner none)⟩, eq_ok_of_toOption ht, hplace, hlt, hreports.reportsPlaceAt [],
    exists_progresses (eq_ok_of_toOption ht) hplace hlt (hreports.reportsPlaceAt []) _⟩

/-- No token is found behind the `a` if the scanner claims that the exclamation mark takes more bytes than
can be counted from there. -/
theorem nextToken_none_shout : ∃ l, shout.compile = .ok (Language.table l) ∧
    l.scanner = some (shoutScanner (some (placeCount - 1))) ∧ isBoundary 1 "a!".toList = true ∧
    1 < byteLength "a!".toList ∧
    nextToken? l "a!".toList 1 [] (allTerminals l.table) = none ∧
    nextTokenInErrorMode? l "a!".toList 1 [] = none := by
  have hrun : shout.compile.toOption.any (fun t =>
      let l : Language := ⟨t, some (shoutScanner (some (placeCount - 1)))⟩
      (nextToken? l "a!".toList 1 [] (allTerminals t)).isNone &&
        (nextTokenInErrorMode? l "a!".toList 1 []).isNone) = true := by
    decide +kernel
  obtain ⟨t, ht, hcheck⟩ := (Option.any_eq_true ..).mp hrun
  obtain ⟨hnone, hnoneInErrorMode⟩ := Bool.and_eq_true_iff.mp hcheck
  exact ⟨⟨t, _⟩, eq_ok_of_toOption ht, rfl, by decide, by decide,
    Option.isNone_iff_eq_none.mp hnone, Option.isNone_iff_eq_none.mp hnoneInErrorMode⟩

end Lexer

end LRWorkbench
