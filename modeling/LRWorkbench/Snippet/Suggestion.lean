import LRWorkbench.Snippet.Drawing

/-!
# Drawing suggestions

A suggestion is a replacement for a span of a text. How it is shown depends on what it does:

- text that is only **added** to a line is underlined in the line as it will be;
- where something is **lost**, the line as it is and the line as it will be stand below each
  other;
- a replacement of **several lines** is shown without the old ones.
-/

namespace LRWorkbench.Snippet

/-- What a text is replaced with at a span. -/
structure Patch where
  span : Span
  replacement : List Char
  deriving DecidableEq, Repr, Inhabited

namespace Patch

/-- A text without blanks at its start. -/
def trimStart (cs : List Char) : List Char := cs.dropWhile Unicode.space.contains

/-- A text without blanks at its ends. -/
def trim (cs : List Char) : List Char := (trimStart (trimStart cs).reverse).reverse

/-- The common beginning of two texts. -/
def commonPrefix : List Char → List Char → List Char
  | a :: as, b :: bs => if a = b then a :: commonPrefix as bs else []
  | _, _ => []

/-- If a new text is an old one with a piece put in: what comes before it, the piece, and what
comes after it. -/
def inserted? (old new : List Char) : Option (List Char × List Char × List Char) :=
  if old.isPrefixOf new then some (old, new.drop old.length, [])
  else if old.isSuffixOf new then some ([], new.take (new.length - old.length), old)
  else
    let front := commonPrefix old new
    let oldRest := old.drop front.length
    let newRest := new.drop front.length
    if oldRest.isSuffixOf newRest then
      some (front, newRest.take (newRest.length - oldRest.length), oldRest)
    else none

/-- A patch without what it leaves as it is. -/
def trimmed (p : Patch) (source : List Char) : Patch :=
  if p.replacement.isEmpty then p
  else
    match inserted? (Text.slice p.span.start p.span.stop source) p.replacement with
    | some (front, piece, back) =>
      ⟨⟨p.span.start + Text.byteLength front, p.span.stop - Text.byteLength back⟩, piece⟩
    | none => p

section Effect

variable (p : Patch) (source : List Char)

/-- The text that is replaced. -/
def replaced : List Char := Text.slice p.span.start p.span.stop source

/-- Whether the text that is replaced has more than blanks. -/
def losesText : Bool := !(trim (p.replaced source)).isEmpty

/-- Whether something is put where nothing was. -/
def isAddition : Bool := !p.replacement.isEmpty && !p.losesText source

/-- Whether something is lost that the replacement does not have. -/
def isDestructive : Bool :=
  p.losesText source &&
    ((trim p.replacement).isEmpty ||
      (inserted? (trim (p.replaced source)) (trim p.replacement)).isNone)

end Effect

end Patch

/-! ### The new lines -/

/-- The characters of a line from one up to another, counted in tabs of four. -/
structure Highlight where
  start : Nat
  stop : Nat
  deriving DecidableEq, Repr, Inhabited

/-- The pieces of a text between line breaks. -/
def pieces : List Char → List (List Char)
  | [] => [[]]
  | c :: rest =>
    if c = '\n' then [] :: pieces rest
    else
      match pieces rest with
      | first :: others => (c :: first) :: others
      | [] => [[c]]

/-- The lines of a text; one that is empty at the end does not count. -/
def textLines (cs : List Char) : List (List Char) :=
  let all := pieces cs
  let all := if all.getLast? = some [] then all.dropLast else all
  match all.reverse with
  | [] => []
  | last :: others =>
    let strip (line : List Char) : List Char :=
      if line.getLast? = some '\r' then line.dropLast else line
    ((if cs.getLast? = some '\n' then strip last else last) :: others.map strip).reverse

/-- The number of characters, tabs as four. -/
def tabbedLength (cs : List Char) : Nat :=
  cs.foldl (fun n c => n + if c = '\t' then 4 else 1) 0

/-- The lines that a patch leads to, from the line in which the untrimmed one starts on, each with
what is new in it. -/
structure PatchedLines where
  lines : List (List Char)
  highlights : List (List Highlight)
  deriving DecidableEq, Repr, Inhabited

/-- Applies a patch to the lines it touches, given the line in which it started before it was
trimmed. -/
def patchedLines (lines : List Line) (startLine : Nat) (p : Patch) : PatchedLines :=
  let (start, stop) := Location.ofSpan lines p.span
  let text (number : Nat) : List Char := (Line.text? lines number).getD []
  let above := (List.range (start.line - startLine)).map (startLine + ·)
  let front := above.flatMap (fun n => text n ++ ['\n']) ++ (text start.line).take start.char
  let changed := front ++ p.replacement
  let full := if changed.getLast? = some '\n' then changed
    else changed ++ (text stop.line).drop stop.char
  let full := (full.reverse.dropWhile (· = '\n')).reverse
  let rows := pieces p.replacement
  let first := tabbedLength (rows.head?.getD [])
  { lines := textLines full
    highlights := above.map (fun _ => []) ++
      [⟨start.char, start.char + first⟩] :: rows.tail.map fun r => [⟨0, tabbedLength r⟩] }

/-! ### Drawing -/

/-- How a suggestion is shown. -/
inductive SuggestionForm where
  /-- The old and the new line below each other. -/
  | comparison
  /-- Whole lines that are added. -/
  | newLines
  /-- The new line with what is new underlined. -/
  | underlined
  /-- The new lines alone. -/
  | alone
  deriving DecidableEq, Repr

/-- How the suggestion of a patch is shown that leads to some lines. -/
def suggestionForm (p : Patch) (source : List Char) (new : List (List Char)) : SuggestionForm :=
  let full := (new.intersperse ['\n']).flatten
  let isWhole := Patch.trim p.replacement = Patch.trim full
  if p.isDestructive source && new.length ≤ 1 then .comparison
  else if p.replacement.getLast? = some '\n' && isWhole then .newLines
  else if !isWhole && new.length ≤ 1 then .underlined
  else .alone

/-- A canvas and the row on which it goes on. -/
abbrev Sheet := Canvas × Nat

section Drawing

variable (digits : Nat)

/-- Draws a line with a sign in place of the frame. -/
def drawSignedLine (c : Canvas) (row number : Nat) (sign : Char) (ink : Ink) (text : List Char) :
    Canvas :=
  ((c.lineNumber digits row number).write row (digits + 1) ink [sign, ' ']).write row (digits + 3)
    .plain (shownText text)

/-- Draws the old lines and the new one, from the row before the given one on. The last old line
and the new one are left out if they are the same, and so is the new one if it is blank. -/
def drawComparison (s : Sheet) (number : Nat) (old : List (List Char)) (new : List Char) : Sheet :=
  let (c, row) := s
  let c := old.zipIdx.foldl (fun c (text, i) =>
    if i + 1 = old.length && text = new then c
    else drawSignedLine digits c (row - 1 + i) (number + i) '-' .removal text) c
  let row := row + (old.length - 1)
  if old.getLast? = some new then (c, row - 2)
  else if (Patch.trim new).isEmpty then (c, row - 1)
  else (drawSignedLine digits c row number '+' .addition new, row)

/-- Draws one of several new lines. -/
def drawNewLine (c : Canvas) (row number : Nat) (text : List Char) (new : List Highlight) :
    Canvas :=
  match new with
  | [] => (drawSignedLine digits c row number '|' .frame text).put row (digits + 2) ' ' .plain
  | [⟨0, stop⟩] =>
    if stop = Text.byteLength text then drawSignedLine digits c row number '+' .addition text
    else if stop = 0 then
      (drawSignedLine digits c row number '|' .frame text).put row (digits + 2) ' ' .plain
    else drawSignedLine digits c row number '~' .addition text
  | _ => drawSignedLine digits c row number '~' .addition text

/-- Paints what is new in a line. -/
def paintNew (c : Canvas) (row : Nat) (text : List Char) (new : List Highlight) : Canvas :=
  new.foldl (fun c h =>
    let tabs := 3 * (text.take h.start).count '\t'
    if h.start = h.stop then c
    else c.repaint row (digits + 3 + h.start + tabs) (digits + 3 + h.stop + tabs) .addition) c

/-- Draws a line that a patch leads to, and goes on to the next row. -/
def drawPatchedLine (form : SuggestionForm) (old : List (List Char)) (isSeveral : Bool) (s : Sheet)
    (number : Nat) (text : List Char) (new : List Highlight) : Sheet :=
  let (c, row) :=
    if form = .comparison then drawComparison digits s number old text
    else if isSeveral then (drawNewLine digits s.1 s.2 number text new, s.2)
    else if form = .newLines then (drawSignedLine digits s.1 s.2 number '+' .addition text, s.2)
    else (drawSignedLine digits s.1 s.2 number '|' .frame text, s.2)
  (paintNew digits c row text new, row + 1)

/-- Draws lines in which nothing is new: all of a few, and of many the first and the last one. -/
def drawOldLines (form : SuggestionForm) (old : List (List Char)) (isSeveral : Bool) (s : Sheet)
    (unchanged : List (Nat × List Char)) : Sheet :=
  let draw (s : Sheet) (line : Nat × List Char) : Sheet :=
    drawPatchedLine digits form old isSeveral s line.1 line.2 []
  if unchanged.length ≤ 3 then unchanged.foldl draw s
  else
    let (c, row) := unchanged.head?.elim s (draw s)
    let s := (c.write row (digits - ellipsis.length) .frame ellipsis, row + 1)
    unchanged.getLast?.elim s (draw s)

/-- Draws the lines that a patch leads to, given those in which nothing is new and which have not
been drawn. -/
def drawPatchedLines (form : SuggestionForm) (old : List (List Char)) (isSeveral : Bool)
    (unchanged : List (Nat × List Char)) (s : Sheet) :
    List (Nat × List Char × List Highlight) → Sheet
  | [] => s
  | (number, text, new) :: rest =>
    if new.isEmpty then
      drawPatchedLines form old isSeveral (unchanged ++ [(number, text)]) s rest
    else
      let s := drawOldLines digits form old isSeveral s unchanged
      let s := drawPatchedLine digits form old isSeveral s number text new
      drawPatchedLines form old isSeveral [] s rest

/-- Draws lines of which nothing is left, from the row before the given one on. -/
def drawLostLines (s : Sheet) (lines : List (Nat × List Char)) : Sheet :=
  let c := lines.zipIdx.foldl (fun c ((number, text), i) =>
    (drawSignedLine digits c (s.2 - 1 + i) number '-' .removal text).repaint (s.2 - 1 + i)
      (digits + 3) (digits + 3 + (shownText text).length) .removal) s.1
  (c, s.2 + (lines.length - 1))

/-- Underlines what a patch puts into a line. -/
def underlineNew (c : Canvas) (row column : Nat) (p : Patch) (source : List Char) : Canvas :=
  let isBlank := (Patch.trim p.replacement).isEmpty
  let skipped := if isBlank then 0
    else Text.byteLength p.replacement - Text.byteLength (Patch.trimStart p.replacement)
  let length := columns (if isBlank then p.replacement else Patch.trim p.replacement)
  let start := digits + 3 + column + skipped
  c.fill row start (start + length) (if p.isAddition source then '+' else '~') .addition

/-- Paints what a patch takes away in the rows above the given one, where the columns of its ends
are known. -/
def paintLost (c : Canvas) (row startColumn stopColumn : Nat) (p : Patch) (source : List Char) :
    Canvas :=
  let lost := textLines (p.replaced source)
  if lost.length > 0 && row > lost.length then
    lost.zipIdx.foldl (fun c (text, i) =>
      let length := Text.byteLength (shownText text)
      let start := if i = 0 then startColumn else 0
      let stop := if i = 0 then startColumn + length
        else if i + 1 = lost.length then stopColumn else length
      c.repaint (row - 2 - (lost.length - i - 1)) (digits + 3 + start) (digits + 3 + stop)
        .removal) c
  else c.repaint (row - 2) (digits + 3 + startColumn) (digits + 3 + stopColumn) .removal

/-- Draws the suggestion to replace a span below what there is. -/
def drawSuggestion (c : Canvas) (source : List Char) (whole : Patch) : Canvas :=
  let lines := Line.list source
  let p := whole.trimmed source
  let (wholeStart, wholeStop) := Location.ofSpan lines whole.span
  let (start, stop) := Location.ofSpan lines p.span
  let new := patchedLines lines wholeStart.line p
  let form := suggestionForm p source new.lines
  let old := (Line.touched lines p.span).map (·.text)
  let top := c.height
  let s : Sheet := (c.frame digits top, top + 1)
  let s : Sheet := if form = .comparison then (s.1, s.2 + 1) else s
  let s := if new.lines.isEmpty then
      drawLostLines digits s ((List.range (wholeStop.line + 1 - wholeStart.line)).map fun i =>
        (wholeStart.line + i, (Line.text? lines (wholeStart.line + i)).getD []))
    else s
  let rows := (new.lines.zip new.highlights).zipIdx.map fun ((text, new), i) =>
    (wholeStart.line + i, text, new)
  let (c, row) := drawPatchedLines digits form old (1 < new.lines.length) [] s rows
  let c :=
    match form with
    | .underlined => underlineNew digits c row start.column p source
    | .comparison => paintLost digits c row start.column stop.column p source
    | _ => c
  c.frame digits row

end Drawing

end LRWorkbench.Snippet
