import LRWorkbench.Grammar.Error
import LRWorkbench.Lalr.Lookahead
import LRWorkbench.Table.Basic

/-!
# Actions and conflicts

In a state, a terminal may be shifted by some items and complete others. Where more than one move
is possible, what the grammar declares decides:

- between shifting and reducing, the higher level of precedence; on one level the side of the
  reduced production, and without a side the production that is declared first. A production in
  conflict with itself is an error;
- between two reductions, the higher level; on one level they have to share a declared conflict
  group, and the production that is declared first wins.

`Automaton.rows` decides all cells of the table, in the order of the states.
-/

namespace LRWorkbench.Lalr

/-- The actions and gotos of all states, row after row. -/
structure Rows where
  stateCount : Nat
  actions : Array Action
  gotos : Array (Option Nat)
  /-- How many conflicts were decided. -/
  resolved : Nat
  deriving DecidableEq, Repr

/-- The outcome of a conflict between shifting and reducing. -/
inductive Winner where
  | shift
  | reduce
  deriving DecidableEq, Repr

/-- The earliest declared of the shifting productions and the reduced one wins. There is no winner
when the earliest one is itself both. -/
def declaredFirst (items : List Item) (reduced : Nat) : Option Winner :=
  match (items.map (·.production)).min? with
  | none => none
  | some first => if first < reduced then some .shift else if reduced < first then some .reduce else none

/-- The highest number of a list; zero if there is none. -/
def highest (levels : List Int) : Int := levels.max?.getD 0

namespace Automaton

variable (m : Automaton)

def grammar : PreparedGrammar := m.augmented.grammar

/-- The level at which a production is reduced; the production for the whole input has none. -/
def levelOf (production : Nat) : Int := (m.grammar.productions[production]?.map (·.precedence)).getD 0

/-- The side on which a production nests. -/
def assocOf (production : Nat) : Option Assoc := m.grammar.productions[production]?.bind (·.assoc)

/-- The level of the step after the dot. -/
def shiftLevel (item : Item) : Int :=
  ((m.grammar.productions[item.production]?.bind (·.steps[item.dot]?)).map (·.precedence)).getD 0

/-- An item as `lhs → a • b`. -/
def describe (item : Item) : String :=
  if item.production = m.augmented.whole then
    let start := m.grammar.displaySymbol (m.grammar.nonTerminalSymbol 0)
    if item.dot = 0 then "(accept) → • " ++ start else "(accept) → " ++ start ++ " •"
  else m.grammar.describeProduction item.production (some item.dot)

/-- An undecided conflict. -/
def conflict (state : Nat) (terminal : Symbol) (kind : ConflictKind) (lines : List String) :
    GrammarError :=
  .conflict state (m.grammar.displaySymbol terminal) kind ("\n".intercalate lines)

/-- A line about a reduction. -/
def reduceLine (production : Nat) : String :=
  "  reduce " ++ m.describe (m.augmented.completed production)

/-- Decides between shifting and reducing. -/
def shiftReduce (state : Nat) (terminal : Symbol) (items : List Item) (reduced : Nat) :
    Except GrammarError Winner :=
  let shiftLevel := highest (items.map m.shiftLevel)
  let reduceLevel := m.levelOf reduced
  if shiftLevel < reduceLevel then .ok .reduce
  else if reduceLevel < shiftLevel then .ok .shift
  else
    match m.assocOf reduced with
    | some .left => .ok .reduce
    | some .right => .ok .shift
    | none =>
      match declaredFirst items reduced with
      | some winner => .ok winner
      | none =>
        .error (m.conflict state terminal .shiftReduce
          (items.map (fun item => "  shift  " ++ m.describe item) ++ [m.reduceLine reduced]))

/-- Whether the phrases of some productions share a declared conflict group. -/
def inOneGroup (productions : List Nat) : Bool :=
  let owners := productions.map fun p =>
    m.grammar.conflictOwner ((m.grammar.productions[p]?.map (·.lhs)).getD 0)
  m.grammar.conflictGroups.any fun group => owners.all fun owner => group.contains owner

/-- Decides between several reductions. -/
def reduceReduce (state : Nat) (terminal : Symbol) (productions : List Nat) :
    Except GrammarError Nat :=
  let top := productions.filter fun p => m.levelOf p = highest (productions.map m.levelOf)
  let undecided := .error (m.conflict state terminal .reduceReduce (productions.map m.reduceLine))
  match top with
  | [single] => .ok single
  | _ =>
    if !top.contains m.augmented.whole && m.inOneGroup top then
      match top.min? with
      | some first => .ok first
      | none => undecided
    else undecided

/-- Decides what to do on a terminal, given where it leads if it can be shifted, the items that
shift it and the productions that it completes. Also counts the conflicts on the way. -/
def decide (state : Nat) (terminal : Symbol) (target? : Option Nat) (items : List Item)
    (productions : List Nat) : Except GrammarError (Action × Nat) := do
  if productions.isEmpty then
    return (match target? with | some target => .shift target | none => .error, 0)
  let (production, count) ←
    match productions with
    | [single] => pure (single, 0)
    | _ => do
      let production ← m.reduceReduce state terminal productions
      pure (production, 1)
  if production = m.augmented.whole then return (.accept, count)
  match target? with
  | none => return (.reduce production, count)
  | some target =>
    match ← m.shiftReduce state terminal items production with
    | .shift => return (.shift target, count + 1)
    | .reduce => return (.reduce production, count + 1)

/-- The items of a closure that shift a terminal, each with it. -/
def shifting (closure : List (Item × TerminalSet)) : List (Symbol × Item) :=
  closure.filterMap fun (item, _) =>
    match m.augmented.next? item with
    | some s => if m.grammar.isTerminal s then some (s, item) else none
    | none => none

/-- The complete items of a closure. -/
def complete (closure : List (Item × TerminalSet)) : List (Item × TerminalSet) :=
  closure.filter fun (item, _) => m.augmented.isComplete item

/-- The cells of a state that are no errors, by terminal, and the number of conflicts decided:
first the terminals that can be shifted, then the others. -/
def cells (place : Nat) (state : State) : Except GrammarError (List (Symbol × Action × Nat)) := do
  let closure := m.closureOf place
  let shifts := m.shifting closure
  let completes := m.complete closure
  let completedOn (s : Symbol) : List Nat :=
    (completes.filter fun (_, set) => set.contains s).map (·.1.production)
  let shifted ← (state.transitions.filter fun t => m.grammar.isTerminal t.1).mapM
    fun (s, target) => do
      let cell ← m.decide place s (some target)
        ((shifts.filter fun move => move.1 = s).map (·.2)) (completedOn s)
      return (s, cell)
  let others := ((List.range m.grammar.terminalCount).map Symbol.mk).filter fun s =>
    (state.transition? s).isNone && !(completedOn s).isEmpty
  let reduced ← others.mapM fun s => do
    let cell ← m.decide place s none [] (completedOn s)
    return (s, cell)
  return shifted ++ reduced

/-- The row of actions that some cells make up. -/
def actionRow (cells : List (Symbol × Action × Nat)) : Array Action :=
  cells.foldl (fun row (s, action, _) => row.setIfInBounds s.index action)
    (Array.replicate m.grammar.terminalCount .error)

/-- The row of gotos of a state. -/
def gotoRow (state : State) : Array (Option Nat) :=
  state.transitions.foldl (fun row (s, target) =>
      match m.grammar.nonTerminalIndex? s with
      | some kind => row.setIfInBounds kind (some target)
      | none => row)
    (Array.replicate m.grammar.nonTerminals.size none)

/-- Appends the rows of some states, given with their places. -/
def addRows (rows : Rows) : List (State × Nat) → Except GrammarError Rows
  | [] => .ok rows
  | (state, place) :: rest => do
    let cells ← m.cells place state
    addRows
      { rows with
        actions := rows.actions ++ m.actionRow cells
        gotos := rows.gotos ++ m.gotoRow state
        resolved := cells.foldl (fun n cell => n + cell.2.2) rows.resolved } rest

/-- The actions and gotos of all states. -/
def rows : Except GrammarError Rows :=
  m.addRows ⟨m.states.size, #[], #[], 0⟩ m.states.toList.zipIdx

end Automaton

end LRWorkbench.Lalr
