import LRWorkbench.Grammar.Symbol

/-!
# Sets of terminals

A set of terminals is a list of words of 64 bits; terminal `64 * i + j` is bit `j` of word `i`.
Words that are not there count as zero: a set **grows on demand** and remembers how far it grew.

- `contains` is membership, and `toList` lists the members in ascending order;
- `insert`, `remove` and `union` change one word after the other;
- `includes` tells whether a union would change anything, so that `insertNew` and `unionNew` can
  tell whether a set grew.

Where places become terminals, in `full` and `toList`, a build with assertions stops at a place that
no table has a symbol at (`fullAsserted?`, `toListAsserted?`); others go on with its lower 16 bits.
-/

namespace LRWorkbench

/-- A set of terminals. -/
structure TerminalSet where
  words : List UInt64
  deriving DecidableEq, Repr, Inhabited

namespace TerminalSet

/-- The empty set. -/
def empty : TerminalSet := ⟨[]⟩

/-- The empty set, with words for the terminals below `capacity`. -/
def withCapacity (capacity : Nat) : TerminalSet := ⟨List.replicate ((capacity + 63) / 64) 0⟩

/-- The bit of a terminal in its word. -/
def bit (s : Symbol) : UInt64 := 1 <<< (s.index % 64).toUInt64

/-- The word that holds a terminal. -/
def wordOf (set : TerminalSet) (s : Symbol) : UInt64 := set.words[s.index / 64]?.getD 0

def contains (set : TerminalSet) (s : Symbol) : Bool := set.wordOf s &&& bit s != 0

/-- Sets the bits of a mask in the word at a place, adding zero words up to there. -/
def setBits (mask : UInt64) : Nat → List UInt64 → List UInt64
  | 0, [] => [mask]
  | 0, w :: ws => (w ||| mask) :: ws
  | i + 1, [] => 0 :: setBits mask i []
  | i + 1, w :: ws => w :: setBits mask i ws

/-- Clears the bits of a mask in the word at a place, if there is one. -/
def clearBits (mask : UInt64) : Nat → List UInt64 → List UInt64
  | _, [] => []
  | 0, w :: ws => (w &&& ~~~mask) :: ws
  | i + 1, w :: ws => w :: clearBits mask i ws

def insert (set : TerminalSet) (s : Symbol) : TerminalSet :=
  ⟨setBits (bit s) (s.index / 64) set.words⟩

def remove (set : TerminalSet) (s : Symbol) : TerminalSet :=
  ⟨clearBits (bit s) (s.index / 64) set.words⟩

/-- Joins two lists of words; the longer one decides how many there are. -/
def joinWords : List UInt64 → List UInt64 → List UInt64
  | [], vs => vs
  | ws, [] => ws
  | w :: ws, v :: vs => (w ||| v) :: joinWords ws vs

/-- Whether no word of the second list has a bit that the first one lacks. -/
def coverWords : List UInt64 → List UInt64 → Bool
  | _, [] => true
  | [], v :: vs => v = 0 && coverWords [] vs
  | w :: ws, v :: vs => w ||| v = w && coverWords ws vs

/-- Whether two lists of words share a bit. -/
def meetWords : List UInt64 → List UInt64 → Bool
  | w :: ws, v :: vs => w &&& v != 0 || meetWords ws vs
  | _, _ => false

def union (a b : TerminalSet) : TerminalSet := ⟨joinWords a.words b.words⟩

/-- Whether every member of `b` is one of `a`, so that their union has no new one. -/
def includes (a b : TerminalSet) : Bool := coverWords a.words b.words

/-- Puts a terminal in, and tells whether it was not there before. -/
def insertNew (set : TerminalSet) (s : Symbol) : TerminalSet × Bool :=
  (set.insert s, !set.contains s)

/-- Joins two sets, and tells whether the second one has a member that the first one lacks. -/
def unionNew (a b : TerminalSet) : TerminalSet × Bool := (a.union b, !a.includes b)

def intersects (a b : TerminalSet) : Bool := meetWords a.words b.words

def isEmpty (set : TerminalSet) : Bool := set.words.all (· = 0)

/-- The places of the members that a word holds, if it begins at place `start`. -/
def placesOf (start : Nat) (w : UInt64) : List Nat :=
  if w = 0 then []
  else
    (List.range 64).filterMap fun j =>
      if w &&& bit ⟨j⟩ != 0 then some (start + j) else none

/-- The places of the members that words hold, the first of which begins at place `start`. -/
def placesFrom (start : Nat) : List UInt64 → List Nat
  | [] => []
  | w :: ws => placesOf start w ++ placesFrom (start + 64) ws

/-- The places of the members in ascending order. -/
def places (set : TerminalSet) : List Nat := placesFrom 0 set.words

/-- The members in ascending order. -/
def toList (set : TerminalSet) : List Symbol := set.places.map .ofIndex

/-- The members in ascending order, in a build with assertions. -/
def toListAsserted? (set : TerminalSet) : Option (List Symbol) := set.places.mapM Symbol.asserted?

/-- The number of bits that are set in a word. -/
def countBits (w : UInt64) : Nat := (List.range 64).countP fun j => w &&& bit ⟨j⟩ != 0

/-- The number of members. -/
def size (set : TerminalSet) : Nat := set.words.foldr (fun w count => countBits w + count) 0

/-- The set of the members of a list, with no more words than they need. -/
def ofList (symbols : List Symbol) : TerminalSet := symbols.foldl insert empty

/-- The set of all terminals below `capacity`. -/
def full (capacity : Nat) : TerminalSet :=
  (List.range capacity).foldl (fun set i => set.insert (.ofIndex i)) (withCapacity capacity)

/-- The set of all terminals below `capacity`, in a build with assertions. -/
def fullAsserted? (capacity : Nat) : Option TerminalSet :=
  (List.range capacity).foldlM (fun set i => (Symbol.asserted? i).map set.insert)
    (withCapacity capacity)

instance : Membership Symbol TerminalSet := ⟨fun set s => set.contains s = true⟩

instance (s : Symbol) (set : TerminalSet) : Decidable (s ∈ set) :=
  inferInstanceAs (Decidable (_ = true))

end TerminalSet

end LRWorkbench
