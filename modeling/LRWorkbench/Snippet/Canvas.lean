/-!
# Canvases

A canvas is a number of rows of characters, each of which is drawn with an ink. It grows as it is
drawn on, blanks in between. `Canvas.text` prints it, with or without colours.
-/

namespace LRWorkbench.Snippet

/-- What a character is drawn with. -/
inductive Ink where
  /-- The colour that text has anyway. -/
  | plain
  /-- Text that stands out. -/
  | strong
  /-- Line numbers, frames and what is only related. -/
  | frame
  | error
  | warning
  | help
  | addition
  | removal
  deriving DecidableEq, Repr, Inhabited

namespace Ink

/-- The numbers that switch an ink on in a terminal, one after the other. -/
def codes : Ink → List Nat
  | plain => []
  | strong => [1]
  | frame => [1, 94]
  | error => [1, 91]
  | warning => [1, 33]
  | help => [1, 96]
  | addition => [92]
  | removal => [91]

/-- The control sequence of a number. -/
def control (code : Nat) : String := "\x1b[" ++ toString code ++ "m"

/-- What switches an ink on. -/
def on (ink : Ink) : String := String.join (ink.codes.map control)

/-- What switches an ink off. -/
def off (ink : Ink) : String := if ink.codes.isEmpty then "" else control 0

end Ink

/-- A character on a canvas. -/
structure Cell where
  char : Char
  ink : Ink
  deriving DecidableEq, Repr, Inhabited

/-- Rows of characters. -/
structure Canvas where
  rows : List (List Cell)
  deriving DecidableEq, Repr, Inhabited

namespace Canvas

def empty : Canvas := ⟨[]⟩

/-- The number of rows. -/
def height (c : Canvas) : Nat := c.rows.length

/-- A list with a member changed, which is there after others if need be. -/
def changeAt {α : Type} (filler : α) (f : α → α) : Nat → List α → List α
  | 0, [] => [f filler]
  | 0, x :: xs => f x :: xs
  | n + 1, [] => filler :: changeAt filler f n []
  | n + 1, x :: xs => x :: changeAt filler f n xs

/-- Changes a row. -/
def changeRow (c : Canvas) (row : Nat) (f : List Cell → List Cell) : Canvas :=
  ⟨changeAt [] f row c.rows⟩

/-- Draws a character. -/
def put (c : Canvas) (row column : Nat) (char : Char) (ink : Ink) : Canvas :=
  c.changeRow row (changeAt ⟨' ', .plain⟩ (fun _ => ⟨char, ink⟩) column)

/-- Draws characters from a column on. -/
def write (c : Canvas) (row column : Nat) (ink : Ink) : List Char → Canvas
  | [] => c
  | char :: rest => (c.put row column char ink).write row (column + 1) ink rest

/-- Draws one character over and over, from a column up to another. -/
def fill (c : Canvas) (row start stop : Nat) (char : Char) (ink : Ink) : Canvas :=
  c.write row start ink (List.replicate (stop - start) char)

/-- Draws one character at a column of some rows. -/
def fillDown (c : Canvas) (rows : List Nat) (column : Nat) (char : Char) (ink : Ink) : Canvas :=
  rows.foldl (fun c row => c.put row column char ink) c

/-- Draws characters behind those in a row. -/
def append (c : Canvas) (row : Nat) (ink : Ink) (text : List Char) : Canvas :=
  c.write row (c.rows[row]?.getD []).length ink text

/-- Changes the ink of what there is in a row from a column up to another. -/
def repaint (c : Canvas) (row start stop : Nat) (ink : Ink) : Canvas :=
  ⟨c.rows.mapIdx fun i cells =>
    if i ≠ row then cells
    else cells.mapIdx fun j cell =>
      if start ≤ j && j < stop then { cell with ink := ink } else cell⟩

/-- Puts characters in the place of those from a column up to another, if there are that many. -/
def replace (c : Canvas) (row start stop : Nat) (ink : Ink) (text : List Char) : Canvas :=
  c.changeRow row fun cells =>
    if stop ≤ start || cells.length < stop then cells
    else cells.take start ++ text.map (⟨·, ink⟩) ++ cells.drop stop

/-- Prints a row in colours, given the ink that is switched on. -/
def colouredRow (on : Ink) : List Cell → String
  | [] => on.off
  | cell :: rest =>
    (if cell.ink.codes = on.codes then "" else on.off ++ cell.ink.on) ++
      String.singleton cell.char ++ colouredRow cell.ink rest

/-- Prints a row. -/
def rowText (coloured : Bool) (cells : List Cell) : String :=
  if coloured then colouredRow .plain cells else String.ofList (cells.map (·.char))

/-- Prints a canvas. -/
def text (c : Canvas) (coloured : Bool) : String :=
  "\n".intercalate (c.rows.map (rowText coloured))

end Canvas

end LRWorkbench.Snippet
