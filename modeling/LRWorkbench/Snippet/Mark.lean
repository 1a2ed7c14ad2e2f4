import LRWorkbench.Snippet.Source

/-!
# Marks and windows

An annotation points at a span of a text and may have a label. On the lines of the text it becomes
marks: one if the span lies in one line, and otherwise a bracket along the lines, with marks where
it begins and ends and where it only passes.

Brackets that overlap are drawn at different **depths**, counted from the left.

A window is the range of columns of the lines that is shown. All lines are shown in full if they
are not too long for the page. Otherwise the window is put where the marks are, with their labels
if possible.
-/

namespace LRWorkbench.Snippet

/-! ### Marks -/

/-- What a span of a text is annotated with. -/
structure Annotation where
  span : Span
  /-- Whether the annotation is what the snippet is about. -/
  isPrimary : Bool
  label : Option String
  deriving DecidableEq, Repr, Inhabited

/-- What part of an annotation is on a line. -/
inductive MarkRole where
  | whole
  | first (depth : Nat)
  | inside (depth : Nat)
  | last (depth : Nat)
  deriving DecidableEq, Repr, Inhabited

/-- An annotation on a line, from a column up to another. -/
structure Mark where
  start : Nat
  stop : Nat
  /-- The number of characters before the mark. -/
  char : Nat
  isPrimary : Bool
  label : Option String
  role : MarkRole
  deriving DecidableEq, Repr, Inhabited

namespace Mark

def hasLabel (m : Mark) : Bool := m.label.any fun label => !label.isEmpty

/-- Whether a bracket begins or ends at the mark. -/
def isCorner (m : Mark) : Bool :=
  match m.role with
  | .first _ | .last _ => true
  | _ => false

def isFirst (m : Mark) : Bool :=
  match m.role with
  | .first _ => true
  | _ => false

def isInside (m : Mark) : Bool :=
  match m.role with
  | .inside _ => true
  | _ => false

/-- The depth of a bracket that begins or ends at the mark. -/
def cornerDepth? (m : Mark) : Option Nat :=
  match m.role with
  | .first depth | .last depth => some depth
  | _ => none

/-- The number of columns between the ends. -/
def length (m : Mark) : Nat := max m.start m.stop - min m.start m.stop

/-- Whether two marks have the same columns. -/
def sameColumns (a b : Mark) : Bool := a.start = b.start && a.stop = b.stop

/-- Whether two marks share a column, the first one with some columns more. -/
def overlaps (a b : Mark) (room : Nat) : Bool :=
  (b.start ≤ a.start && a.start < b.stop) || (a.start ≤ b.start && b.start < a.stop + room)

end Mark

/-! ### Brackets -/

/-- An annotation of several lines. -/
structure Bracket where
  start : Location
  stop : Location
  isPrimary : Bool
  label : Option String
  depth : Nat
  /-- Whether another one has the same span and is drawn in its place. -/
  isDouble : Bool
  deriving DecidableEq, Repr, Inhabited

namespace Bracket

def sameSpan (a b : Bracket) : Bool := a.start = b.start && a.stop = b.stop

/-- Whether two brackets share a line. -/
def meets (a b : Bracket) : Bool :=
  (b.start.line ≤ a.start.line && a.start.line ≤ b.stop.line) ||
    (a.start.line ≤ b.start.line && b.start.line ≤ a.stop.line)

/-- The order of brackets: by first line, longer ones first. -/
def le (a b : Bracket) : Bool :=
  a.start.line < b.start.line || (a.start.line = b.start.line && b.stop.line ≤ a.stop.line)

/-- Moves brackets that meet a given one, which has a place in the row, one step in, up to the
first that does not. Those with the same span are drawn in its place. `primary` are the primary
brackets so far. -/
def moveIn (place : Nat) (outer : Bracket) (primary : List Bracket) :
    List (Bracket × Nat) → List (Bracket × Nat)
  | [] => []
  | (b, i) :: rest =>
    if !outer.sameSpan b && outer.meets b then
      ({ b with depth := b.depth + 1 }, i) :: moveIn place outer primary rest
    else if outer.sameSpan b && i ≠ place then
      ({ b with isDouble := true }, i) :: moveIn place outer primary rest
    else
      ({ b with isPrimary := b.isPrimary || primary.any fun p => p.sameSpan b }, i) :: rest

/-- Finds depths for brackets, given those whose neighbours still have to be moved. -/
def spread (primary : List Bracket) :
    List (Bracket × Nat) → List (Bracket × Nat) → List (Bracket × Nat)
  | [], found => found
  | (outer, place) :: rest, found =>
    let primary := if outer.isPrimary then primary ++ [outer] else primary
    spread primary rest (moveIn place outer primary found)

/-- Brackets in order with depths from one on, such that those that begin first are the innermost
ones, and the greatest depth. -/
def arrange (brackets : List Bracket) : List Bracket × Nat :=
  let row := (brackets.mergeSort le).zipIdx
  let found := (spread [] row row).map (·.1)
  let deepest := found.foldl (fun n b => max n b.depth) 0
  (found.map fun b => { b with depth := deepest + 1 - b.depth }, deepest)

/-- The mark where a bracket begins. -/
def firstMark (b : Bracket) : Mark :=
  ⟨b.start.column, b.start.column + 1, b.start.char, b.isPrimary, none, .first b.depth⟩

/-- The mark where a bracket passes. -/
def insideMark (b : Bracket) : Mark := ⟨0, 0, 0, b.isPrimary, none, .inside b.depth⟩

/-- The mark where a bracket ends. -/
def lastMark (b : Bracket) : Mark :=
  ⟨b.stop.column - 1, b.stop.column, b.stop.char - 1, b.isPrimary, b.label,
    if b.isDouble then .whole else .last b.depth⟩

/-- Whether a line says something: it has more than a comment or a single delimiter. -/
def isTelling (text : List Char) : Bool :=
  let blank (c : Char) : Bool := Unicode.space.contains c
  let inner := ((text.dropWhile blank).reverse.dropWhile blank).reverse
  let isComment := ['/', '/'].isPrefixOf inner && !(['/', '/', '/'].isPrefixOf inner) &&
    !(['/', '/', '!'].isPrefixOf inner)
  !isComment && !(["", "\x7b", "\x7d", "(", ")", "[", "]"].contains (String.ofList inner))

/-- The lines at which a bracket is shown while it passes: the first few, without those at the end
that tell nothing, and the one before the end, if it tells something. -/
def insideLines (lines : List Line) (b : Bracket) : List Nat :=
  let middle := min (b.start.line + 4) b.stop.line
  let tells (number : Nat) : Bool := (Line.text? lines number).any isTelling
  let front := (List.range (middle - b.start.line)).map (b.start.line + ·)
  let rowEnd := ((front.reverse.find? tells).map (· + 1)).getD b.start.line
  let early := (List.range (rowEnd - (b.start.line + 1))).map (b.start.line + 1 + ·)
  let late := b.stop.line - 1
  early ++ if middle < late && tells late then [late] else []

/-- The marks of a bracket with the numbers of their lines. -/
def marks (lines : List Line) (b : Bracket) : List (Nat × Mark) :=
  (if b.isDouble then []
    else (b.start.line, b.firstMark) :: (b.insideLines lines).map (·, b.insideMark)) ++
    [(b.stop.line, b.lastMark)]

end Bracket

/-! ### Lines with marks -/

/-- A line and its marks. -/
structure MarkedLine where
  line : Line
  marks : List Mark
  deriving DecidableEq, Repr, Inhabited

/-- The mark of an annotation that lies in one line, with the number of the line, or else its
bracket. -/
def Annotation.locate (lines : List Line) (a : Annotation) : (Nat × Mark) ⊕ Bracket :=
  let (start, stop) := Location.ofSpan lines a.span
  if start.line = stop.line then
    let stopColumn := if start.column = stop.column then stop.column + 1 else stop.column
    .inl (start.line, ⟨start.column, stopColumn, start.char, a.isPrimary, a.label, .whole⟩)
  else .inr ⟨start, stop, a.isPrimary, a.label, 1, false⟩

/-- The lines of a text with marks for some annotations, and the greatest depth of a bracket. Lines
without marks are left out. -/
def markedLines (lines : List Line) (annotations : List Annotation) : List MarkedLine × Nat :=
  let located := annotations.map (·.locate lines)
  let (brackets, depth) := Bracket.arrange (located.filterMap (·.getRight?))
  let marks := located.filterMap (·.getLeft?) ++ brackets.flatMap (·.marks lines)
  let marked := lines.map fun line =>
    ⟨line, (marks.filter fun m => m.1 = line.number).map (·.2)⟩
  (marked.filter fun m => !m.marks.isEmpty, depth)

/-! ### Windows -/

/-- The number of columns of a page. -/
def pageWidth : Nat := 140

/-- What stands for columns that are left out. -/
def ellipsis : List Char := ['.', '.', '.']

/-- A range of columns. -/
structure Window where
  left : Nat
  right : Nat
  /-- How many columns there is room for. -/
  room : Nat
  deriving DecidableEq, Repr, Inhabited

namespace Window

/-- Columns around marks that are left free for ellipses. -/
def border : Nat := 6

/-- How much a line is indented. -/
def indent (text : List Char) : Nat :=
  (text.takeWhile Unicode.space.contains).foldl (fun n c => n + if c = '\t' then 4 else 1) 0

/-- The least of some numbers, zero if there are none. -/
def least : List Nat → Nat
  | [] => 0
  | n :: rest => rest.foldl min n

/-- The greatest of some numbers. -/
def greatest (numbers : List Nat) : Nat := numbers.foldl max 0

/-- The column behind a mark and its label. -/
def labelStop (m : Mark) : Nat :=
  m.stop + (match m.label with | some label => columns label.toList + 1 | none => 0)

/-- The window for some lines, given the room. -/
def of (lines : List MarkedLine) (room : Nat) : Window :=
  let texts := lines.map (·.line.text)
  let marks := lines.flatMap (·.marks)
  let indented := least ((texts.filter fun t => t.any fun c => !Unicode.space.contains c).map indent)
  let blank := indented - border
  let markLeft := least (marks.flatMap fun m => [m.start, m.stop]) - border
  let markRight := greatest (marks.flatMap fun m => [m.start, m.stop]) + border
  let labelRight := greatest (marks.map labelStop) + border
  let left := if blank > 20 then blank - 16 else 0
  let right := max (greatest (texts.map columns)) left
  if right - left ≤ room then ⟨left, right, room⟩
  else if labelRight - blank ≤ room then ⟨blank, blank + room, room⟩
  else if labelRight - markLeft ≤ room then
    let left := markLeft - (room - (labelRight - markLeft)) / 2
    ⟨left, left + room, room⟩
  else if markRight - markLeft ≤ room then
    let left := markLeft - (room - (markRight - markLeft)) / 5 * 2
    ⟨left, left + room, room⟩
  else ⟨markLeft, markRight, room⟩

/-- The first column that is shown of a line of some columns. -/
def leftOf (w : Window) (length : Nat) : Nat := min w.left length

/-- The column up to which a line of some columns is shown. -/
def rightOf (w : Window) (length : Nat) : Nat :=
  if length - w.left ≤ w.room then length else min length w.right

end Window

/-- A text without the characters that lie in its first columns. -/
def dropColumns (count : Nat) : List Char → List Char
  | [] => []
  | c :: rest =>
    if charColumns c ≤ count then dropColumns (count - charColumns c) rest else c :: rest

/-- The characters of a text that lie in its first columns. -/
def takeColumns (count : Nat) : List Char → List Char
  | [] => []
  | c :: rest =>
    if charColumns c ≤ count then c :: takeColumns (count - charColumns c) rest else []

/-- The first characters of a text that take up some columns, or a few more. -/
def coverColumns (count : Nat) : List Char → List Char
  | [] => []
  | c :: rest =>
    if count ≤ charColumns c then [c] else c :: coverColumns (count - charColumns c) rest

end LRWorkbench.Snippet
