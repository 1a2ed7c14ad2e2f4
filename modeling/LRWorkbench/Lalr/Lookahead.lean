import LRWorkbench.Lalr.Collection

/-!
# Lookaheads

The lookahead of an item is the set of terminals that may follow its production when it is
complete. Lookaheads of kernel items come about in two ways. Some terminals are **generated**
within a state, by what follows a phrase in another item; others are **inherited** from a kernel
item that the closure began with.

- `Augmented.closureLookaheads` finds both for the phrase kinds of a closure;
- `Augmented.flows` lists, for each kernel item, where its lookahead goes on to;
- `Automaton` has the states and, for each kernel item, the whole lookahead.
-/

namespace LRWorkbench.Lalr

/-- Terminals that may follow, and whether those of the kernel item do too. -/
structure Lookahead where
  terminals : TerminalSet
  inherits : Bool
  deriving DecidableEq, Repr, Inhabited

namespace Lookahead

def none : Lookahead := ⟨.empty, false⟩

/-- Just what the kernel item has. -/
def inherited : Lookahead := ⟨.empty, true⟩

def union (a b : Lookahead) : Lookahead := ⟨a.terminals.union b.terminals, a.inherits || b.inherits⟩

/-- Whether a union with `b` would change nothing. -/
def includes (a b : Lookahead) : Bool :=
  a.terminals.includes b.terminals && (a.inherits || !b.inherits)

/-- The terminals, given those of the kernel item. -/
def resolve (a : Lookahead) (kernel : TerminalSet) : TerminalSet :=
  if a.inherits then a.terminals.union kernel else a.terminals

end Lookahead

namespace Augmented

variable (a : Augmented)

/-! ### Lookaheads in a closure -/

/-- The lookahead of a phrase that begins at the dot of an item with a given lookahead. -/
def follow (item : Item) (own : Lookahead) : Lookahead :=
  let (first, nullable) := a.firsts.ofSymbols (a.afterNext item)
  if nullable then ⟨own.terminals.union first, own.inherits⟩ else ⟨first, false⟩

/-- Adds to the lookahead of a phrase kind. -/
def widen (found : Array Lookahead) (kind : Nat) (more : Lookahead) : Array Lookahead :=
  match found[kind]? with
  | some old => if old.includes more then found else found.setIfInBounds kind (old.union more)
  | none => found

/-- Passes the lookahead of an item on to the phrase kind after its dot. -/
def passOn (found : Array Lookahead) (item : Item) (own : Lookahead) : Array Lookahead :=
  match a.nextKind? item with
  | some kind => widen found kind (a.follow item own)
  | none => found

/-- Passes the lookahead of a phrase kind on through the items that begin it. -/
def passOnKind (found : Array Lookahead) (kind : Nat) : Array Lookahead :=
  match found[kind]? with
  | some own => (a.itemsOf kind).foldl (fun found item => a.passOn found item own) found
  | none => found

/-- Passes lookaheads on until nothing changes, in a number of rounds at most. -/
def settle (kinds : List Nat) : Nat → Array Lookahead → Array Lookahead
  | 0, found => found
  | rounds + 1, found =>
    let found' := kinds.foldl a.passOnKind found
    if found' = found then found else settle kinds rounds found'

/-- The lookaheads of the phrase kinds that begin at the dots of some items. Every round but the
last makes a set larger. -/
def closureLookaheads (kernel : List (Item × Lookahead)) : Array Lookahead :=
  let kinds := a.closureKinds (kernel.map (·.1))
  let none := Array.replicate a.grammar.nonTerminals.size Lookahead.none
  a.settle kinds (kinds.length * (a.grammar.terminalCount + 1) + 1)
    (kernel.foldl (fun found entry => a.passOn found entry.1 entry.2) none)

/-- Some items with all that may begin at their dots, and the lookahead of each. -/
def closureWith (kernel : List (Item × Lookahead)) : List (Item × Lookahead) :=
  let found := a.closureLookaheads kernel
  kernel ++ (a.closureKinds (kernel.map (·.1))).flatMap fun kind =>
    (a.itemsOf kind).map fun item => (item, found[kind]?.getD .none)

/-! ### From state to state -/

/-- The lookahead that a kernel item of a state passes on to a kernel item of another state. -/
structure Flow where
  target : Nat
  /-- The place of the item in the kernel of the target. -/
  position : Nat
  lookahead : Lookahead
  deriving Repr

/-- Where an item of a closure goes on to. -/
def flow? (states : Array State) (state : State) (entry : Item × Lookahead) : Option Flow := do
  let s ← a.next? entry.1
  let target ← state.transition? s
  let successor ← states[target]?
  let position ← successor.kernel.findIdx? (· = entry.1.advance)
  return ⟨target, position, entry.2⟩

/-- What a kernel item of a state passes on. -/
def flows (states : Array State) (state : State) (item : Item) : List Flow :=
  (a.closureWith [(item, .inherited)]).filterMap (a.flow? states state)

end Augmented

/-- The lookahead of each kernel item of each state. -/
abbrev Lookaheads := Array (Array TerminalSet)

namespace Lookaheads

/-- The lookahead of a kernel item. -/
def lookup (found : Lookaheads) (state position : Nat) : TerminalSet :=
  (found[state]?.bind (·[position]?)).getD .empty

/-- Adds to the lookahead of a kernel item. -/
def widen (found : Lookaheads) (state position : Nat) (more : TerminalSet) : Lookaheads :=
  let old := found.lookup state position
  if old.includes more then found
  else found.modify state fun row => row.setIfInBounds position (old.union more)

end Lookaheads

/-- A kernel item, by its state and place there, and what it passes on. -/
structure Source where
  state : Nat
  position : Nat
  flows : List Augmented.Flow
  deriving Repr

/-- Passes on what a kernel item has. -/
def Source.spread (found : Lookaheads) (source : Source) : Lookaheads :=
  let own := found.lookup source.state source.position
  source.flows.foldl (fun found f => found.widen f.target f.position (f.lookahead.resolve own)) found

/-- Passes lookaheads on until nothing changes, in a number of rounds at most. -/
def spreadAll (sources : List Source) : Nat → Lookaheads → Lookaheads
  | 0, found => found
  | rounds + 1, found =>
    let found' := sources.foldl Source.spread found
    if found' = found then found else spreadAll sources rounds found'

/-- The states of the parser with the lookaheads of their kernel items. -/
structure Automaton where
  augmented : Augmented
  states : Array State
  lookaheads : Lookaheads

namespace Augmented

variable (a : Augmented)

/-- What every kernel item passes on. -/
def sources (states : Array State) : List Source :=
  states.toList.zipIdx.flatMap fun (state, place) =>
    state.kernel.zipIdx.map fun (item, position) =>
      ⟨place, position, a.flows states state item⟩

/-- At first only the start has a lookahead, the end of the input. -/
def initialLookaheads (states : Array State) : Lookaheads :=
  Lookaheads.widen (states.map fun state => Array.replicate state.kernel.length .empty) 0 0
    (TerminalSet.empty.insert .endOfInput)

/-- The states with their lookaheads. Every round but the last makes a lookahead larger. -/
def automaton : Automaton :=
  let states := a.collection
  let sources := a.sources states
  ⟨a, states, spreadAll sources (sources.length * a.grammar.terminalCount + 1)
    (initialLookaheads states)⟩

end Augmented

namespace Automaton

variable (m : Automaton)

/-- The kernel of a state with its lookaheads. -/
def kernelOf (place : Nat) : List (Item × TerminalSet) :=
  match m.states[place]? with
  | none => []
  | some state => state.kernel.zipIdx.map fun (item, position) =>
      (item, m.lookaheads.lookup place position)

/-- All items of a state with their lookaheads. -/
def closureOf (place : Nat) : List (Item × TerminalSet) :=
  (m.augmented.closureWith ((m.kernelOf place).map fun (item, set) => (item, ⟨set, false⟩))).map
    fun (item, l) => (item, l.terminals)

end Automaton

end LRWorkbench.Lalr
