import LRWorkbench.Diagnostic.Basic
import LRWorkbench.Snippet.Suggestion

/-!
# Reports

A report shows a diagnostic in the text that it is about: its message, a snippet with what it
points at, its hints, and below that the replacement it suggests.

    error: missing a semicolon
      |
    1 | a = b
      |      ^
      |
    help: terminate the statement
      |
    1 | a = b;
      |      +
-/

namespace LRWorkbench.Diagnostic

open Snippet (Canvas Ink Line Patch)

/-- What is pointed at for a span of a text: at least one byte, unless the text ends there. -/
def visibleSpan (span : Span) (length : Nat) : Span :=
  if span.start < span.stop then span else ⟨span.start, min (span.start + 1) length⟩

def inkOf : Severity → Ink
  | .error => .error
  | .warning => .warning

/-- The number of the last line that a report of some spans shows. -/
def lastLine (source : List Char) (spans : List Span) : Nat :=
  let stop := spans.foldl (fun n s => max n s.stop) 0
  1 + Snippet.lineChanges (Snippet.charsWithin stop source)

/-- Draws a text on a row and the rows below it, each line behind some blanks. -/
def drawText (c : Canvas) (row indent : Nat) (ink : Ink) (text : List Char) : Canvas :=
  (Snippet.pieces text).zipIdx.foldl (fun c (line, i) =>
    let c := if i = 0 then c else c.write (row + i) 0 .plain (List.replicate indent ' ')
    c.append (row + i) ink line) c

/-- A canvas with a headline: a word and what comes of it. -/
def headline (word : String) (wordInk textInk : Ink) (text : List Char) : Canvas :=
  let c := (Canvas.empty.append 0 wordInk word.toList).append 0 textInk [':', ' ']
  drawText c 0 (word.length + 2) textInk text

/-- Draws a hint below what there is. -/
def drawHint (digits : Nat) (c : Canvas) (hint : String) : Canvas :=
  let row := c.height
  let c := ((c.write row (digits + 1) .frame ['=', ' ']).append row .strong "note".toList).append
    row .plain [':', ' ']
  drawText c row (digits + 3 + "note: ".length) .plain hint.toList

/-- Draws what is wrong: the message, the snippet and the hints. -/
def drawProblem (d : Diagnostic) (source : List Char) (path : Option String) (digits : Nat) :
    Canvas :=
  let length := Text.byteLength source
  let ink := inkOf d.severity
  let annotations := ⟨visibleSpan d.span length, true, none⟩ ::
    d.related.map fun r => ⟨visibleSpan r.span length, false, some r.message⟩
  let c := headline d.severity.text ink .strong (Snippet.shownText d.message.toList)
  let c := Snippet.drawSnippet c digits ink path (Line.list source) annotations
  let c := if d.hints.isEmpty && d.fix.isNone then c else c.frame digits c.height
  d.hints.foldl (drawHint digits) c

/-- Draws a suggested replacement. -/
def drawFix (fix : Fix) (source : List Char) (span : Span) (digits : Nat) : Canvas :=
  Snippet.drawSuggestion digits (headline "help" .help .plain fix.description.toList) source
    ⟨span, fix.replacement.toList⟩

/-- The report of a diagnostic of a text. -/
def report (d : Diagnostic) (source : List Char) (path : Option String) (coloured : Bool) :
    String :=
  let length := Text.byteLength source
  let span := visibleSpan d.span length
  let last := lastLine source (span :: d.related.map fun r => visibleSpan r.span length)
  let digits := (Nat.toDigits 10 last).length
  let problem := (drawProblem d source path digits).text coloured
  match d.fix with
  | none => problem
  | some fix => problem ++ "\n" ++ (drawFix fix source span digits).text coloured

/-- The reports of several diagnostics of a text. -/
def reports (ds : List Diagnostic) (source : List Char) (path : Option String) (coloured : Bool) :
    String :=
  "\n".intercalate (ds.map fun d => d.report source path coloured)

end LRWorkbench.Diagnostic
