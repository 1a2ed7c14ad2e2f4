import LRWorkbench.Text.Extent

/-!
# Edits

An edit replaces a range of a text. All edits of a batch are given in offsets of the text before
the batch. `EditSet.of` accepts a batch whose edits are in range, do not overlap and account for
the length of the new text.

- `EditSet.toOld?` finds the place in the old text that a place of the new text comes from;
- `EditSet.isClear` tells whether a range of the old text is untouched.
-/

namespace LRWorkbench

/-- The replacement of the bytes from `start` to `oldEnd` by as many as there are from `start` to
`newEnd`. -/
structure Edit where
  start : Nat
  oldEnd : Nat
  newEnd : Nat
  startPoint : Point
  oldEndPoint : Point
  newEndPoint : Point
  deriving DecidableEq, Repr, Inhabited

namespace Edit

/-- An edit given by offsets alone. -/
def ofBytes (start oldEnd newEnd : Nat) : Edit :=
  ⟨start, oldEnd, newEnd, Point.zero, Point.zero, Point.zero⟩

/-- The replacement of some bytes from a place on. -/
def replace (start oldLength newLength : Nat) : Edit :=
  ofBytes start (start + oldLength) (start + newLength)

def inserted (e : Edit) : Nat := e.newEnd - e.start

def removed (e : Edit) : Nat := e.oldEnd - e.start

/-- By how much an edit makes the text longer. -/
def growth (e : Edit) : Int := (e.inserted : Int) - (e.removed : Int)

/-- The order of edits: by start, empty ranges first. -/
def le (a b : Edit) : Bool := a.start < b.start || (a.start = b.start && a.oldEnd ≤ b.oldEnd)

end Edit

/-- Why a batch of edits is refused. -/
inductive EditError where
  | outOfRange (start stop length : Nat)
  | inverted (start stop : Nat)
  | overlap (firstStart firstEnd secondStart secondEnd : Nat)
  | lengthMismatch (expected actual : Nat)
  deriving DecidableEq, Repr

/-- The wording of an error. -/
def EditError.message : EditError → String
  | outOfRange start stop length =>
    "edit " ++ toString start ++ ".." ++ toString stop ++ " is outside the old text of " ++
      toString length ++ " bytes"
  | inverted start stop =>
    "edit has its end before its start (" ++ toString start ++ " > " ++ toString stop ++ ")"
  | overlap firstStart firstEnd secondStart secondEnd =>
    "edits " ++ toString firstStart ++ ".." ++ toString firstEnd ++ " and " ++
      toString secondStart ++ ".." ++ toString secondEnd ++ " overlap"
  | lengthMismatch expected actual =>
    "new text is " ++ toString actual ++ " bytes but the edits imply " ++ toString expected

/-- A batch of edits, in order. -/
structure EditSet where
  edits : List Edit
  deriving DecidableEq, Repr, Inhabited

namespace EditSet

/-- Refuses an edit that is inverted, out of range or overlaps the one before. -/
def checkEdit (oldLength : Nat) (previous : Option Edit) (e : Edit) : Except EditError Unit :=
  if e.oldEnd < e.start then .error (.inverted e.start e.oldEnd)
  else if e.newEnd < e.start then .error (.inverted e.start e.newEnd)
  else if oldLength < e.oldEnd then .error (.outOfRange e.start e.oldEnd oldLength)
  else
    match previous with
    | some p =>
      if e.start < p.oldEnd then .error (.overlap p.start p.oldEnd e.start e.oldEnd) else .ok ()
    | none => .ok ()

/-- Checks edits one after the other. -/
def checkAll (oldLength : Nat) (previous : Option Edit) : List Edit → Except EditError Unit
  | [] => .ok ()
  | e :: rest =>
    match checkEdit oldLength previous e with
    | .error error => .error error
    | .ok () => checkAll oldLength (some e) rest

/-- The length of the new text. -/
def expectedLength (oldLength : Nat) (edits : List Edit) : Int :=
  edits.foldl (fun n e => n + e.growth) (oldLength : Int)

/-- The batch of some edits that turn a text of one length into a text of another. -/
def of (edits : List Edit) (oldLength newLength : Nat) : Except EditError EditSet :=
  let sorted := edits.mergeSort Edit.le
  match checkAll oldLength none sorted with
  | .error error => .error error
  | .ok () =>
    let expected := expectedLength oldLength sorted
    if expected ≠ newLength then .error (.lengthMismatch expected.toNat newLength)
    else .ok ⟨sorted⟩

/-- A place moved back by some growth, if that leads to one. -/
def moveBack (growth : Int) (position : Nat) : Option Nat :=
  if (position : Int) < growth then none else some ((position : Int) - growth).toNat

/-- The place in the old text of a place in the new one, given by how much the edits before made
the text longer; none if the place lies in inserted text. -/
def toOldFrom (growth : Int) (position : Nat) : List Edit → Option Nat
  | [] => moveBack growth position
  | e :: rest =>
    if (position : Int) < e.start + growth then moveBack growth position
    else if (position : Int) < e.newEnd + growth then none
    else toOldFrom (growth + e.growth) position rest

/-- The place in the old text that a place of the new text comes from; none in inserted text. -/
def toOld? (s : EditSet) (position : Nat) : Option Nat := toOldFrom 0 position s.edits

/-- Whether no edit touches a range of the old text. -/
def isClear (s : EditSet) (start stop : Nat) : Bool :=
  s.edits.all fun e => stop ≤ e.start || e.oldEnd ≤ start

end EditSet

end LRWorkbench
