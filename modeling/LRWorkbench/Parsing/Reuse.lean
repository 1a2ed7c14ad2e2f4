import LRWorkbench.Parsing.Edit
import LRWorkbench.Tree.Subtree

/-!
# Subtrees that may be taken over

When a text is parsed again after some edits, subtrees of the old tree may be taken over as they
are. `Reuse.candidates` lists those that start at a place of the old text, the outermost first;
`Reuse.isUntouched` tells which ones do not depend on anything that was edited.

Places are mostly looked up from left to right. `Reuse.lookUp` finds the same as `Reuse.candidates`, but
starts from the way to the place that was looked up before, the `Trail`, instead of from the root.
-/

namespace LRWorkbench.Parsing

/-- The subtrees from the root down to one that holds a byte, the innermost first, each with its start. -/
abbrev Trail := List (Subtree × Nat)

/-- A tree to take subtrees from, and what happened to its text. -/
structure Reuse where
  root : Subtree
  edits : EditSet
  deriving Repr

namespace Reuse

mutual

/-- The subtrees below a subtree that hold a byte, the outermost first, with their starts. -/
def holding (position start : Nat) : Subtree → List (Subtree × Nat)
  | .leaf _ _ => []
  | .node _ _ children => holdingAmong position start children

/-- The first of several subtrees in a row that holds a byte, and those below it that do. -/
def holdingAmong (position start : Nat) : List Subtree → List (Subtree × Nat)
  | [] => []
  | t :: rest =>
    if position < start then []
    else if position < start + t.length then (t, start) :: holding position start t
    else holdingAmong position (start + t.length) rest

end

/-- The subtrees that start at a place of the old text, the outermost first. The root is not
offered. -/
def candidates (r : Reuse) (position : Nat) : List Subtree :=
  if position < r.root.length then
    ((holding position 0 r.root).filter fun entry => entry.2 = position).map (·.1)
  else []

/-! ### Looking up one place after another -/

/-- Whether a subtree that starts at a place holds a byte. -/
def holdsAt (position : Nat) (entry : Subtree × Nat) : Bool :=
  entry.2 ≤ position && position < entry.2 + entry.1.length

/-- Goes back up a trail as far as it does not lead to a byte. Nothing leads to a byte behind the
end. -/
def backUp (r : Reuse) (position : Nat) (trail : Trail) : Trail :=
  match trail.dropWhile fun entry => !holdsAt position entry with
  | [] => if position < r.root.length then [(r.root, 0)] else []
  | entry :: above => entry :: above

/-- Goes on from the end of a trail to the innermost subtree that holds a byte. -/
def goDown (position : Nat) : Trail → Trail
  | [] => []
  | (t, start) :: above => (holding position start t).reverse ++ (t, start) :: above

/-- The subtrees that start at a place of the old text, the outermost first, each with that place, and the
trail to them, given the trail that is left from the lookup before. The root is not offered. -/
def lookUp (r : Reuse) (trail : Trail) (position : Nat) : List (Subtree × Nat) × Trail :=
  let trail := goDown position (r.backUp position trail)
  (trail.dropLast.reverse.filter fun entry => entry.2 = position, trail)

/-! ### Edits -/

/-- Whether no edit touched a subtree that starts at a place of the old text, nor what was looked at
to build it. -/
def isUntouched (r : Reuse) (t : Subtree) (start : Nat) : Bool :=
  r.edits.isClear start (start + t.length + t.info.lookaheadBytes)

end Reuse

end LRWorkbench.Parsing
