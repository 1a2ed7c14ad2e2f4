import LRWorkbench.Graph.Reach
import LRWorkbench.Lalr.First

/-!
# Items and their collection

An item is a production with a dot in it: what stands before the dot has been read, what stands
after it may come. The grammar is **augmented** with one more production, the last one, whose only
step is the start symbol and which stands for the whole input.

- `Augmented.next?` is the symbol after the dot;
- `Augmented.closureKinds` lists the phrase kinds that may begin at the dot of some items;
- `Augmented.closure` adds the items that begin there, in the order they come up.

A state of the parser stands for a set of items, kept as its **kernel**: the items whose dot has
moved, in order. From a state, each symbol that follows a dot leads to the state of the items
advanced over it. `Augmented.collection` lists all states that the start leads to, in the order
they are found: states one after the other, symbols in ascending order.
-/

namespace LRWorkbench.Lalr

/-! ### Items -/

/-- A place within a production. -/
structure Item where
  production : Nat
  dot : Nat
  deriving DecidableEq, Repr, Inhabited

namespace Item

/-- The order by production, then by dot. -/
def le (a b : Item) : Bool :=
  a.production < b.production || (a.production = b.production && a.dot ≤ b.dot)

/-- The item with the dot one step further. -/
def advance (item : Item) : Item := ⟨item.production, item.dot + 1⟩

end Item

/-- A grammar with a production for the whole input, which is the last one. -/
structure Augmented where
  grammar : PreparedGrammar
  /-- The symbols of each production. -/
  rhs : Array (List Symbol)
  /-- For each phrase kind, its productions. -/
  productionsOf : Array (List Nat)
  /-- For each phrase kind, the phrase kinds that its productions begin with. -/
  beginnings : Array (List Nat)
  firsts : FirstSets

/-- The places of the productions of a phrase kind. -/
def productionsOf (g : PreparedGrammar) (kind : Nat) : List Nat :=
  (List.range g.productions.size).filter fun p => g.productions[p]?.map (·.lhs) = some kind

/-- The phrase kinds that the productions of a phrase kind begin with. -/
def beginningsOf (g : PreparedGrammar) (kind : Nat) : List Nat :=
  ((productionsOf g kind).filterMap fun p =>
    ((g.productions[p]?.bind (·.symbols.head?)).bind g.nonTerminalIndex?)).eraseDups

/-- Adds the production for the whole input. -/
def augment (g : PreparedGrammar) : Augmented where
  grammar := g
  rhs := (g.productions.map (·.symbols)).push [g.nonTerminalSymbol 0]
  productionsOf := (Array.range g.nonTerminals.size).map (productionsOf g)
  beginnings := (Array.range g.nonTerminals.size).map (beginningsOf g)
  firsts := .ofGrammar g

namespace Augmented

variable (a : Augmented)

/-- The production for the whole input. -/
def whole : Nat := a.grammar.productions.size

/-- The item before anything is read. -/
def startItem : Item := ⟨a.whole, 0⟩

/-- The symbols of a production. -/
def symbolsOf (production : Nat) : List Symbol := a.rhs[production]?.getD []

/-- The symbol after the dot. -/
def next? (item : Item) : Option Symbol := (a.symbolsOf item.production)[item.dot]?

/-- The phrase kind after the dot, if the next symbol is one. -/
def nextKind? (item : Item) : Option Nat := (a.next? item).bind a.grammar.nonTerminalIndex?

/-- The symbols after the one that follows the dot. -/
def afterNext (item : Item) : List Symbol := (a.symbolsOf item.production).drop (item.dot + 1)

/-- Whether the dot is at the end. -/
def isComplete (item : Item) : Bool := (a.next? item).isNone

/-- A production with the dot at its end. -/
def completed (production : Nat) : Item := ⟨production, (a.symbolsOf production).length⟩

/-- The phrase kinds that may begin at the dot of some items, in the order they come up. -/
def closureKinds (kernel : List Item) : List Nat :=
  Graph.reachFrom (fun kind => a.beginnings[kind]?.getD []) a.grammar.nonTerminals.size
    (kernel.filterMap a.nextKind?)

/-- The items that begin a phrase of a kind. -/
def itemsOf (kind : Nat) : List Item :=
  (a.productionsOf[kind]?.getD []).map fun production => ⟨production, 0⟩

/-- Some items with all that may begin at their dots. -/
def closure (kernel : List Item) : List Item :=
  kernel ++ (a.closureKinds kernel).flatMap a.itemsOf

end Augmented

/-! ### States -/

/-- A set of items and where it leads. -/
structure State where
  kernel : List Item
  /-- For each symbol after a dot, in ascending order, the state it leads to. -/
  transitions : List (Symbol × Nat)
  deriving DecidableEq, Repr, Inhabited

namespace State

/-- Where a symbol leads. -/
def transition? (state : State) (s : Symbol) : Option Nat :=
  (state.transitions.find? fun t => t.1 = s).map (·.2)

end State

/-- Puts an item among items that are in order, unless it is one of them. -/
def Item.insert (item : Item) : List Item → List Item
  | [] => [item]
  | i :: rest =>
    if item = i then i :: rest
    else if item.le i then item :: i :: rest
    else i :: insert item rest

/-- Adds a move to item sets gathered so far, which are in the order of their symbols. -/
def addMove (s : Symbol) (item : Item) : List (Symbol × List Item) → List (Symbol × List Item)
  | [] => [(s, [item])]
  | (t, items) :: rest =>
    if s = t then (t, item.insert items) :: rest
    else if s.index < t.index then (s, [item]) :: (t, items) :: rest
    else (t, items) :: addMove s item rest

/-- Gathers the items of some moves by their symbols, each item once. -/
def gather : List (Symbol × Item) → List (Symbol × List Item)
  | [] => []
  | (s, item) :: rest => addMove s item (gather rest)

namespace Augmented

variable (a : Augmented)

/-- The symbols that follow a dot of an item set, each with the kernel it leads to. -/
def successors (kernel : List Item) : List (Symbol × List Item) :=
  gather ((a.closure kernel).filterMap fun item =>
    (a.next? item).map fun s => (s, item.advance))

/-- The place of the state of a kernel, which is added if it is new. -/
def locate (states : Array State) (kernel : List Item) : Nat × Array State :=
  match states.findIdx? fun state => state.kernel = kernel with
  | some place => (place, states)
  | none => (states.size, states.push ⟨kernel, []⟩)

/-- Finds the states that some kernels belong to. -/
def link (states : Array State) : List (Symbol × List Item) → List (Symbol × Nat) × Array State
  | [] => ([], states)
  | (s, kernel) :: rest =>
    let (place, states) := locate states kernel
    let (transitions, states) := link states rest
    ((s, place) :: transitions, states)

/-- Links the states from a place on. -/
def explore : Nat → Nat → Array State → Array State
  | 0, _, states => states
  | fuel + 1, place, states =>
    match states[place]? with
    | none => states
    | some state =>
      let (transitions, states) := link states (a.successors state.kernel)
      explore fuel (place + 1) (states.setIfInBounds place ⟨state.kernel, transitions⟩)

/-- The number of items. -/
def itemCount : Nat := a.rhs.foldl (fun n symbols => n + symbols.length + 1) 0

/-- All states that the start leads to. There are no more than there are sets of items. -/
def collection : Array State := a.explore (Nat.pow 2 a.itemCount + 1) 0 #[⟨[a.startItem], []⟩]

end Augmented

end LRWorkbench.Lalr
