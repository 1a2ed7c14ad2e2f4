import LRWorkbench.Snippet.Canvas
import LRWorkbench.Snippet.Mark

/-!
# Drawing snippets

A snippet shows the marked lines of a text. Below a line stand its marks: carets under what the
snippet is about, dashes under what is related, with labels to the right of a mark or, where there
is no room, on rows below it. Brackets run to the left of the lines.

    1 | let a = b
      |     ^ - label
      |     |
      |     another label
-/

namespace LRWorkbench.Snippet

/-- What the drawing of all lines depends on. -/
structure Layout where
  /-- The number of digits of the longest line number. -/
  digits : Nat
  /-- The number of brackets side by side. -/
  depth : Nat
  window : Window
  /-- The ink of what the snippet is about. -/
  ink : Ink

namespace Layout

variable (l : Layout)

/-- The column of the frame. -/
def frameColumn : Nat := l.digits + 1

/-- The column of the outermost bracket. -/
def gutter : Nat := l.digits + 3

/-- The column in which the text of lines begins. -/
def codeColumn : Nat := if l.depth = 0 then l.gutter else l.gutter + l.depth + 1

def inkOf (m : Mark) : Ink := if m.isPrimary then l.ink else .frame

end Layout

namespace Canvas

/-- Draws the frame in a row. -/
def frame (c : Canvas) (digits row : Nat) : Canvas := c.put row (digits + 1) '|' .frame

/-- Draws a line number in a row, to the right. -/
def lineNumber (c : Canvas) (digits row number : Nat) : Canvas :=
  let text := Nat.toDigits 10 number
  c.write row (digits - text.length) .frame text

end Canvas

/-! ### Lines -/

/-- Draws a line in a row. Tells which column of the line is the first one shown. -/
def drawLine (l : Layout) (c : Canvas) (row number : Nat) (text : List Char) : Canvas × Nat :=
  let text := shownText text
  let length := columns text
  let left := l.window.leftOf length
  let right := l.window.rightOf length
  let code := takeColumns (right - left) (dropColumns left text)
  let hidden := if l.window.left = 0 then [] else coverColumns ellipsis.length code
  let rest := code.drop hidden.length
  let column := l.codeColumn + columns hidden
  let c := if l.window.left = 0 then c else c.write row l.codeColumn .frame ellipsis
  let c := c.write row column .plain rest
  let c :=
    if right < length then
      let covered := (coverColumns ellipsis.length code.reverse).length
      c.write row (column + rest.length - covered) .frame ellipsis
    else c
  ((c.lineNumber l.digits row number).frame l.digits row,
    left - (columns hidden - ellipsis.length))

/-! ### Places of marks -/

/-- Whether a mark has to stand below its line of carets because a mark to its left shares columns
with it. A mark without label that has the same columns does no harm. -/
def hangs (m : Mark) (further : List Mark) : Bool :=
  m.hasLabel && further.any fun next =>
    next.overlaps m 0 && !(next.sameColumns m && !next.hasLabel)

/-- Whether the next mark to the left has to stand further below than a mark, which stands some
rows below. -/
def crowds (m : Mark) (rows : Nat) (next : Mark) : Bool :=
  let room := match next.label with | some label => label.utf8ByteSize + 2 | none => 0
  (next.overlaps m room && m.hasLabel && next.hasLabel) ||
    (m.isCorner && next.hasLabel) || (m.hasLabel && next.isCorner) ||
    (m.isCorner && next.isCorner) ||
    (next.overlaps m room && next.stop ≤ m.stop && next.hasLabel && rows = 0)

/-- The rows on which the labels of marks stand, from right to left, counted from the row of
carets. Also tells the row for one more mark. -/
def rowsOf (rows : Nat) : List Mark → List (Nat × Mark) × Nat
  | [] => ([], rows)
  | m :: further =>
    let rows := if rows = 0 && hangs m further then 1 else rows
    let next := if further.any (crowds m rows) then rows + 1 else rows
    let (placed, last) := rowsOf next further
    ((rows, m) :: placed, last)

/-- The marks of a line with the rows of their labels, and the number of rows besides that of the
carets. Brackets that only begin are nested the other way round. -/
def placeMarks (marks : List Mark) : List (Nat × Mark) × Nat :=
  let (placed, last) := rowsOf 0 (marks.mergeSort fun a b => b.start ≤ a.start)
  let height := if last = 0 then 0 else last + 1
  if placed.all fun p => p.2.isFirst then
    let deepest := Window.greatest (placed.map (·.1))
    (placed.map fun (row, m) => (deepest - row, m), height - 1)
  else (placed, height)

/-! ### Marks -/

section Marks

variable (l : Layout) (left row : Nat)

/-- The column of the canvas for a column of the line. -/
def canvasColumn (column : Nat) : Nat := l.codeColumn + column - left

/-- Draws the part of a bracket between its corner and its mark. -/
def drawArm (c : Canvas) (p : Nat × Mark) : Canvas :=
  match p.2.cornerDepth? with
  | some depth =>
    c.fill (row + p.1 + 1) (l.gutter + depth) (canvasColumn l left p.2.start) '_' (l.inkOf p.2)
  | none => c

/-- Draws the line between a mark and its label or the arm of its bracket. -/
def drawStem (c : Canvas) (p : Nat × Mark) : Canvas :=
  if 0 < p.1 && (p.2.hasLabel || p.2.isCorner) then
    c.fillDown ((List.range (p.1 + 1)).map (row + 1 + ·)) (canvasColumn l left p.2.start) '|'
      (l.inkOf p.2)
  else c

/-- Draws the bracket itself beside the rows of a line that has some rows of labels. -/
def drawSide (height : Nat) (c : Canvas) (p : Nat × Mark) : Canvas :=
  match p.2.role with
  | .first depth =>
    let column := l.gutter + depth - 1
    let corner := row + p.1 + 1
    (c.put corner column ' ' (l.inkOf p.2)).fillDown
      ((List.range (row + height + 2 - (corner + 1))).map (corner + 1 + ·)) column '|' (l.inkOf p.2)
  | .last depth =>
    c.fillDown ((List.range (p.1 + 2)).map (row + ·)) (l.gutter + depth - 1) '|' (l.inkOf p.2)
  | _ => c

/-- Draws the label of a mark. -/
def drawLabel (c : Canvas) (p : Nat × Mark) : Canvas :=
  match p.2.label with
  | none => c
  | some label =>
    let (labelRow, column) :=
      if p.1 = 0 then
        (row + 1, if p.2.stop = 0 then p.2.stop + 2 - left else p.2.stop + 1 - left)
      else (row + p.1 + 2, p.2.start - left)
    c.write labelRow (l.codeColumn + column) (l.inkOf p.2) label.toList

/-- Draws the carets or dashes of a mark. -/
def drawUnderline (c : Canvas) (p : Nat × Mark) : Canvas :=
  let sign := if p.2.isPrimary then '^' else '-'
  let columns := ((List.range (p.2.stop - p.2.start)).map (p.2.start + ·)) ++
    if p.2.isCorner || (0 < p.1 && p.2.hasLabel) then [p.2.start] else []
  columns.foldl (fun c column => c.put (row + 1) (canvasColumn l left column) sign (l.inkOf p.2)) c

/-- Leaves out the middle of a mark that is longer than two pages and shares no column with
another one. -/
def shortenMark (marks : List Mark) (c : Canvas) (m : Mark) : Canvas :=
  let room := l.window.room
  let isAlone := (marks.filter fun other => other.overlaps m 0).length ≤ 1
  if isAlone && m.role = .whole && room * 2 < m.length && 10 < m.length then
    let pad := max (room / 3) 5
    (c.replace row (m.start + pad) (m.stop - pad) .frame ellipsis).replace (row + 1)
      (m.start + pad) (m.stop - pad) .frame ellipsis
  else c

end Marks

/-- A bracket that is open or opens at a line, by its depth, and its ink. -/
abbrev Side := Nat × Ink

/-- The brackets that begin before the text of a line, if that is all there is to mark. -/
def plainSides? (l : Layout) (m : MarkedLine) : Option (List Side) :=
  let text := shownText m.line.text
  let isPlain (mark : Mark) : Bool :=
    match mark.role with
    | .first _ => (text.take mark.start).all Unicode.space.contains
    | .inside _ => true
    | _ => false
  if m.marks.all isPlain then
    some (m.marks.filterMap fun mark => mark.cornerDepth?.map (·, l.inkOf mark))
  else none

/-- Longer marks first, and of two that are equally long the primary one last, so that it is on
top. -/
def drawnBefore (a b : Nat × Mark) : Bool :=
  b.2.length < a.2.length ||
    (a.2.length = b.2.length && (!a.2.isPrimary || b.2.isPrimary))

/-- Draws a line with its marks below what there is. Tells which brackets begin or end there. -/
def drawMarkedLine (l : Layout) (c : Canvas) (m : MarkedLine) : Canvas × List Side :=
  let row := c.height
  let (c, left) := drawLine l c row m.line.number m.line.text
  match plainSides? l m with
  | some sides =>
    (sides.foldl (fun c (depth, ink) => c.put row (l.gutter + depth - 1) '/' ink) c, sides)
  | none =>
    let (placed, height) := placeMarks m.marks
    let c := (List.range (height + 1)).foldl (fun c i => c.frame l.digits (row + i + 1)) c
    let c := placed.foldl (drawArm l left row) c
    let c := placed.foldl (fun c p => drawSide l row height (drawStem l left row c p) p) c
    let c := placed.foldl (drawLabel l left row) c
    let ordered := placed.mergeSort drawnBefore
    let c := ordered.foldl (drawUnderline l left row) c
    let c := ordered.foldl (fun c p => shortenMark l row m.marks c p.2) c
    (c, ordered.filterMap fun p => p.2.cornerDepth?.map (·, l.inkOf p.2))

/-! ### Snippets -/

/-- Draws open brackets beside some rows. -/
def drawSides (l : Layout) (c : Canvas) (rows : List Nat) (sides : List Side) : Canvas :=
  sides.foldl (fun c (depth, ink) => c.fillDown rows (l.gutter + depth - 1) '|' ink) c

/-- The brackets that are open after a line at which some begin or end. -/
def afterLine (sides met : List Side) : List Side :=
  met.foldl (fun sides side =>
    if sides.any fun s => s.1 = side.1 then sides.filter fun s => s.1 ≠ side.1
    else sides ++ [side]) sides

/-- Draws what is between two marked lines: nothing, the one line there is, or an ellipsis. -/
def drawGap (l : Layout) (lines : List Line) (c : Canvas) (sides : List Side)
    (above below : Nat) : Canvas :=
  let row := c.height
  if above + 2 < below then drawSides l (c.write row 0 .frame ellipsis) [row] sides
  else if above + 2 = below then
    let text := (Line.text? lines (above + 1)).getD []
    drawSides l (drawLine l c row (above + 1) text).1 [row] sides
  else c

/-- Draws marked lines and what is between them, given the brackets that are open before. -/
def drawMarkedLines (l : Layout) (lines : List Line) (c : Canvas) (sides : List Side) :
    List MarkedLine → Canvas
  | [] => c
  | m :: rest =>
    let top := c.height
    let (c, met) := drawMarkedLine l c m
    let going := sides.filter fun s => !met.any fun side => side.1 = s.1
    let c := drawSides l c ((List.range (c.height - top)).map (top + ·)) going
    let opened := m.marks.filterMap fun mark =>
      if mark.isFirst then mark.cornerDepth?.map (·, l.inkOf mark) else none
    let c :=
      match rest.head? with
      | some next => drawGap l lines c (going ++ opened) m.line.number next.line.number
      | none => c
    drawMarkedLines l lines c (afterLine sides met) rest

/-- The place that a snippet is about, as line and character, counted from one. -/
def placeOf? (marked : List MarkedLine) : Option (Nat × Nat) := do
  let m ← (marked.find? fun m => m.marks.any (·.isPrimary)).or marked.head?
  let mark ← (m.marks.find? (·.isPrimary)).or m.marks.head?
  return (m.line.number, mark.char + 1)

/-- Draws a snippet below what there is, under a path if there is one. -/
def drawSnippet (c : Canvas) (digits : Nat) (ink : Ink) (path : Option String)
    (lines : List Line) (annotations : List Annotation) : Canvas :=
  let (marked, depth) := markedLines lines annotations
  let l : Layout := ⟨digits, depth, default, ink⟩
  let l := { l with window := Window.of marked (pageWidth - l.codeColumn) }
  let c :=
    match path with
    | none => c
    | some path =>
      let place := match placeOf? marked with
        | some (line, char) => ":" ++ toString line ++ ":" ++ toString char
        | none => ""
      let row := c.height
      (c.write row digits .frame ['-', '-', '>', ' ']).append row .plain (path ++ place).toList
  drawMarkedLines l lines (c.frame digits c.height) [] marked

end LRWorkbench.Snippet
