import LRWorkbench.Query.Pattern
import LRWorkbench.Tree.Node

/-!
# Matching queries

A pattern is tried at a node of the visible tree. All tries work on one list of what is bound: they
put the nodes that their captures are bound to at its end, outer ones before inner ones, and those
that fail cut it back.

**Children** are matched in order, and any number of nodes may stand between them. A repeated
child binds every node from some place on that it can, and gives up the last ones again if the
children after it find no place.

`Matches` is the sequence of all matches at a node and below it: for each node in pre-order, the
patterns that match there, in the order in which they are written. It is a value that says what
is still to come, so to keep it is to keep one's place in the sequence.
-/

namespace LRWorkbench

namespace Query

/-- A node that is bound to a capture. -/
structure Capture where
  index : Nat
  node : Node
  deriving Repr, Inhabited

/-- One pattern that matched at one node. -/
structure Match where
  pattern : Nat
  captures : List Capture
  deriving Repr, Inhabited

/-- The nodes that are bound to a capture. -/
def Match.nodesFor (m : Match) (index : Nat) : List Node :=
  (m.captures.filter fun c => c.index = index).map (·.node)

/-- A try. It tells whether it succeeds, and works on the list of what is bound. -/
abbrev Try := StateM (List Capture) Bool

namespace Try

/-- How much is bound. -/
def mark : StateM (List Capture) Nat := do return (← get).length

/-- Gives up what was bound after a mark. -/
def cutBack (mark : Nat) : StateM (List Capture) Unit := modify fun bound => bound.take mark

end Try

/-! ### Children in order -/

section Sequence

open Try

variable (one : Shown → Try) (others : List Shown → Try)

/-- Tries `one` at every place, and the others behind it. -/
def oneThen : List Shown → Try
  | [] => return false
  | s :: rest => do
    let before ← mark
    if ← one s then
      if ← others rest then return true
      cutBack before
    oneThen rest

/-- Tries `one` at every place. Where it succeeds is a stop: it tells how much is bound there and which
places are left, the first stop first. -/
def stops : List Shown → StateM (List Capture) (List (Nat × List Shown))
  | [] => return []
  | s :: rest => do
    if ← one s then
      let here ← mark
      return (here, rest) :: (← stops rest)
    else stops rest

/-- Tries the others behind one stop after the other, as long as there are enough stops. -/
def fromStops (least : Nat) : List (Nat × List Shown) → Try
  | [] => return false
  | (here, rest) :: earlier => do
    if earlier.length + 1 < max least 1 then return false
    cutBack here
    if ← others rest then return true
    fromStops least earlier

/-- Tries `one` as often as possible and then the others, behind the last stop first. If `one` is not
needed, the others are also tried without it. -/
def repeatedThen (least : Nat) (nodes : List Shown) : Try := do
  let before ← mark
  let found ← stops one nodes
  if ← fromStops others least found.reverse then return true
  cutBack before
  if least = 0 then others nodes else return false

/-- Tries `one` as often as a quantifier says, and then the others. -/
def quantifiedThen : Quantifier → List Shown → Try
  | .one, nodes => oneThen one others nodes
  | .optional, nodes => do if ← oneThen one others nodes then return true else others nodes
  | .zeroOrMore, nodes => repeatedThen one others 0 nodes
  | .oneOrMore, nodes => repeatedThen one others 1 nodes

end Sequence

/-! ### Patterns -/

/-- Whether a node is named, of some kind if one is given, and has no child in some fields. -/
def isNodeOf (t : ParseTable) (symbol : Option Symbol) (negated : List FieldId) (s : Shown) :
    Bool :=
  s.node.isNamed t && symbol.all (s.node.symbol = ·) &&
    negated.all fun field => s.children.all fun child => child.node.field ≠ some field

mutual

/-- Tries a pattern at a node. -/
def Pattern.tryAt (t : ParseTable) : Pattern → Shown → Try
  | .mk form captures, s => do
    let before ← Try.mark
    modify fun bound => bound ++ captures.map (⟨·, s.node⟩)
    if ← form.tryAt t s then return true
    Try.cutBack before
    return false

/-- Tries what a pattern asks for at a node. -/
def PatternForm.tryAt (t : ParseTable) : PatternForm → Shown → Try
  | .node symbol children negated, s =>
    if isNodeOf t symbol negated s then tryChildren t children s.children else return false
  | .wildcard, _ => return true
  | .anonymous symbol, s => return s.node.symbol = symbol && !s.node.isNamed t
  | .choice alternatives, s => tryFirst t alternatives s

/-- Tries several patterns at a node until one matches. -/
def tryFirst (t : ParseTable) : List Pattern → Shown → Try
  | [], _ => return false
  | p :: rest, s => do if ← p.tryAt t s then return true else tryFirst t rest s

/-- Tries a pattern for a child at a node. -/
def ChildPattern.tryAt (t : ParseTable) : ChildPattern → Shown → Try
  | .mk field p _, s => if field.all (s.node.field = some ·) then p.tryAt t s else return false

/-- Tries patterns for children, in order, at some nodes. -/
def tryChildren (t : ParseTable) : List ChildPattern → List Shown → Try
  | [], _ => return true
  | c :: rest, nodes =>
    quantifiedThen (fun s => c.tryAt t s) (fun nodes => tryChildren t rest nodes) c.quantifier nodes

end

/-- Tries a pattern at a node after some captures were bound. Gives what is bound if it matches. -/
def Pattern.bind? (t : ParseTable) (p : Pattern) (s : Shown) (bound : List Capture) :
    Option (List Capture) :=
  match (p.tryAt t s).run bound with
  | (true, bound) => some bound
  | (false, _) => none

/-! ### All matches -/

/-- The matches of a query that are still to come. -/
structure Matches where
  query : Query
  table : ParseTable
  /-- The node at which the sequence began. -/
  top : Shown
  /-- The nodes that have not been looked at, each with those below it. -/
  pending : List Shown
  /-- The node that is looked at, and the patterns that are still to be tried there. -/
  current : Option (Shown × List (Nat × Pattern))

/-- All matches of a query at a node and below it. -/
def matchesAt (q : Query) (t : ParseTable) (top : Shown) : Matches :=
  ⟨q, t, top, [top], none⟩

namespace Matches

/-- The patterns of a query with their numbers. -/
def numbered (q : Query) : List (Nat × Pattern) :=
  (List.range q.patterns.length).zip q.patterns

/-- What comes of one step: the end, a step on, or a match. -/
inductive Step where
  | done
  | skip (rest : Matches)
  | found (m : Match) (rest : Matches)

/-- Tries the next pattern, or takes the next node. -/
def step (ms : Matches) : Step :=
  match ms.current with
  | some (s, (index, p) :: left) =>
    let rest := { ms with current := some (s, left) }
    match p.bind? ms.table s [] with
    | some bound => .found ⟨index, bound⟩ rest
    | none => .skip rest
  | _ =>
    match ms.pending with
    | [] => .done
    | s :: rest =>
      .skip { ms with pending := s.children ++ rest, current := some (s, numbered ms.query) }

/-- The number of steps that are left. -/
def work (ms : Matches) : Nat :=
  (Shown.preorders ms.pending).length * (ms.query.patterns.length + 1) +
    ((ms.current.map fun (_, left) => left.length).getD 0)

/-- The next match and the sequence after it, a number of steps away at most. -/
def nextWithin : Nat → Matches → Option Match × Matches
  | 0, ms => (none, ms)
  | fuel + 1, ms =>
    match ms.step with
    | .done => (none, ms)
    | .skip rest => nextWithin fuel rest
    | .found m rest => (some m, rest)

/-- The next match and the sequence after it. -/
def next (ms : Matches) : Option Match × Matches := nextWithin (ms.work + 1) ms

/-- The matches that are found in a number of steps. -/
def listWithin : Nat → Matches → List Match
  | 0, _ => []
  | fuel + 1, ms =>
    match ms.step with
    | .done => []
    | .skip rest => listWithin fuel rest
    | .found m rest => m :: listWithin fuel rest

/-- The matches that are still to come. -/
def toList (ms : Matches) : List Match := listWithin (ms.work + 1) ms

/-- A number of matches at most, and the sequence after them. -/
def take : Nat → Matches → List Match × Matches
  | 0, ms => ([], ms)
  | n + 1, ms =>
    match ms.next with
    | (none, rest) => ([], rest)
    | (some m, rest) =>
      let (more, rest) := take n rest
      (m :: more, rest)

/-- The sequence from its beginning. -/
def reset (ms : Matches) : Matches := matchesAt ms.query ms.table ms.top

end Matches

end Query

end LRWorkbench
