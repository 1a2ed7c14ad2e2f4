import LRWorkbench.Text.Bytes

/-!
# Extents: how far a text reaches

An `Extent` measures a text in bytes and in the row and column it advances by. Extents add up:
the extent of a concatenation is the sum of the extents, which is what lets a syntax tree keep
sizes instead of positions.
-/

namespace LRWorkbench

/-- A position as a row and a column, both counted from zero, columns in bytes. -/
structure Point where
  row : Nat
  column : Nat
  deriving DecidableEq, Repr, Inhabited

namespace Point

def zero : Point := ⟨0, 0⟩

/-- The form `row:column`. -/
def text (p : Point) : String := toString p.row ++ ":" ++ toString p.column

end Point

/-- The bytes of a text and the point it advances by. -/
structure Extent where
  bytes : Nat
  point : Point
  deriving DecidableEq, Repr, Inhabited

namespace Extent

/-- The extent of the empty text. -/
def zero : Extent := ⟨0, Point.zero⟩

/-- One text after another: rows add up, and columns restart after a line break. -/
protected def add (a b : Extent) : Extent where
  bytes := a.bytes + b.bytes
  point :=
    if b.point.row > 0 then ⟨a.point.row + b.point.row, b.point.column⟩
    else ⟨a.point.row, a.point.column + b.point.column⟩

/-- What is left of a text's extent after the extent of a text it begins with. -/
protected def sub (a b : Extent) : Extent where
  bytes := a.bytes - b.bytes
  point :=
    if a.point.row > b.point.row then ⟨a.point.row - b.point.row, a.point.column⟩
    else ⟨0, a.point.column - b.point.column⟩

instance : Add Extent := ⟨Extent.add⟩

instance : Sub Extent := ⟨Extent.sub⟩

/-- The extent of one character. -/
def ofChar (c : Char) : Extent :=
  if c = '\n' then ⟨1, ⟨1, 0⟩⟩ else ⟨c.utf8Size, ⟨0, c.utf8Size⟩⟩

/-- The extent of a text. -/
def of (cs : List Char) : Extent :=
  cs.foldl (fun acc c => acc + ofChar c) zero

/-- The extent of the part of a text before a byte offset. -/
def upTo (cs : List Char) (offset : Nat) : Extent :=
  of ((Text.takeBytes (min offset (Text.byteLength cs)) cs).getD [])

end Extent

end LRWorkbench
