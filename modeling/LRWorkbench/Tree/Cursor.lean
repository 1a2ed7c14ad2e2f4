import LRWorkbench.Tree.Node

/-!
# Tree cursors

A cursor stands at a visible node and remembers the way there from the node it began at: for each
level, the siblings passed, the one it stands at and those to come. It never leaves the node it
began at, of which it does not know any siblings.
-/

namespace LRWorkbench

/-- A row of siblings, one of which is singled out. -/
structure SiblingRow where
  /-- The siblings before, the nearest first. -/
  before : List Shown
  here : Shown
  after : List Shown
  deriving Inhabited

/-- A place in a visible tree. -/
structure Cursor where
  row : SiblingRow
  /-- The rows above, the nearest first. -/
  above : List SiblingRow
  deriving Inhabited

namespace Cursor

/-- A cursor that begins at a node. -/
def start (s : Shown) : Cursor := ⟨⟨[], s, []⟩, []⟩

/-- The node the cursor stands at. -/
def node (c : Cursor) : Node := c.row.here.node

/-- How far the cursor is below the node it began at. -/
def depth (c : Cursor) : Nat := c.above.length

/-- Goes to the first child. -/
def firstChild? (c : Cursor) : Option Cursor :=
  match c.row.here.children with
  | [] => none
  | first :: rest => some ⟨⟨[], first, rest⟩, c.row :: c.above⟩

/-- Goes back up. -/
def parent? (c : Cursor) : Option Cursor :=
  match c.above with
  | [] => none
  | row :: above => some ⟨row, above⟩

/-- Goes to the next sibling. -/
def nextSibling? (c : Cursor) : Option Cursor :=
  match c.above, c.row.after with
  | _ :: _, next :: rest => some { c with row := ⟨c.row.here :: c.row.before, next, rest⟩ }
  | _, _ => none

/-- Goes to the sibling before. -/
def previousSibling? (c : Cursor) : Option Cursor :=
  match c.above, c.row.before with
  | _ :: _, previous :: rest => some { c with row := ⟨rest, previous, c.row.here :: c.row.after⟩ }
  | _, _ => none

/-- Splits a row of siblings at the first one that holds a byte. -/
def rowForByte? (byte : Nat) (before : List Shown) : List Shown → Option SiblingRow
  | [] => none
  | s :: rest =>
    if s.node.startByte ≤ byte && byte < s.node.endByte then some ⟨before, s, rest⟩
    else rowForByte? byte (s :: before) rest

/-- Goes to the first child that holds a byte. -/
def firstChildForByte? (c : Cursor) (byte : Nat) : Option Cursor :=
  (rowForByte? byte [] c.row.here.children).map fun row => ⟨row, c.row :: c.above⟩

/-- The place of the node among its siblings. -/
def place (c : Cursor) : Nat := c.row.before.length

/-- How a walk goes on: at another node, or not at all. -/
inductive Advance where
  | onward (c : Cursor)
  /-- The walk is over, and the cursor stays where it is. -/
  | halt (c : Cursor)

/-- Leaves a node with all that is below it: goes up, but not above a depth, until there is a next
sibling to go to. Going up leaves fewer rows above. -/
def leave (base : Nat) (row : SiblingRow) : List SiblingRow → Advance
  | [] => .halt ⟨row, []⟩
  | up :: above =>
    if above.length + 1 = base then .halt ⟨row, up :: above⟩
    else
      match row.after with
      | next :: rest => .onward ⟨⟨row.here :: row.before, next, rest⟩, up :: above⟩
      | [] => leave base up above

/-- Goes to the next node in the order parents before children, but not above a depth. -/
def advance (base : Nat) (c : Cursor) : Advance :=
  match c.firstChild? with
  | some c => .onward c
  | none => leave base c.row c.above

/-- Calls at all nodes in a row, in a number of steps at most. Answers the nodes, and where the walk
leaves the cursor. -/
def walk (base : Nat) : Nat → Cursor → List Node × Cursor
  | 0, c => ([c.node], c)
  | steps + 1, c =>
    match c.advance base with
    | .onward next =>
      let (nodes, last) := walk base steps next
      (c.node :: nodes, last)
    | .halt last => ([c.node], last)

/-- Calls at the current node and all below it. A walk has no more steps than there are nodes. -/
def visitAll (c : Cursor) : List Node × Cursor := c.walk c.depth c.row.here.preorder.length

/-- The current node and all below it, in the order a walk calls at them. -/
def descendants (c : Cursor) : List Node := c.visitAll.1

end Cursor

end LRWorkbench
