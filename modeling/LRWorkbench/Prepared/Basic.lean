import LRWorkbench.Grammar.Basic
import LRWorkbench.Grammar.Symbol
import LRWorkbench.Text.Quoted

/-!
# Prepared grammars

A prepared grammar lists terminals and phrase kinds and has flat productions instead of rule
expressions. Symbols number the terminals first (the end of the input, the external tokens, the
others in the order they are met), then the phrase kinds, the start rule first and the helpers
made for repetitions last.
-/

namespace LRWorkbench

/-- How a terminal is found. -/
inductive TerminalKind where
  | endOfInput
  /-- By an external scanner. -/
  | external
  /-- By a regular expression, which comes from a literal text or not. -/
  | lexical (regex : String) (precedence : Int) (literal : Option String)
  deriving DecidableEq, Repr, Inhabited

/-- A kind of token. -/
structure Terminal where
  name : String
  kind : TerminalKind
  isNamed : Bool
  deriving DecidableEq, Repr, Inhabited

namespace Terminal

/-- The regular expression and precedence that define a terminal. -/
def definition? (t : Terminal) : Option (String × Int) :=
  match t.kind with
  | .lexical regex precedence _ => some (regex, precedence)
  | _ => none

/-- The literal text that defines a terminal. -/
def literal? (t : Terminal) : Option String :=
  match t.kind with
  | .lexical _ _ literal => literal
  | _ => none

end Terminal

/-- A kind of phrase. -/
structure NonTerminal where
  name : String
  /-- Whether its nodes show in trees. -/
  isVisible : Bool
  /-- The phrase kind that a helper was made for. -/
  parent : Option Nat
  deriving DecidableEq, Repr, Inhabited

/-- A member of a production. -/
structure Step where
  symbol : Symbol
  field : Option FieldId
  precedence : Int
  assoc : Option Assoc
  deriving DecidableEq, Repr, Inhabited

/-- One way to build a phrase. -/
structure Production where
  /-- The phrase kind, by its place among the phrase kinds. -/
  lhs : Nat
  steps : List Step
  /-- The level around a production without steps. -/
  emptyPrecedence : Int
  emptyAssoc : Option Assoc
  deriving DecidableEq, Repr, Inhabited

namespace Production

/-- The level at which a production is complete: that of its last step. -/
def precedence (p : Production) : Int := (p.steps.getLast?.map (·.precedence)).getD p.emptyPrecedence

/-- The side on which a production nests: that of its last step. -/
def assoc (p : Production) : Option Assoc := (p.steps.getLast?.map (·.assoc)).getD p.emptyAssoc

/-- The symbols of a production's steps. -/
def symbols (p : Production) : List Symbol := p.steps.map (·.symbol)

end Production

/-- A grammar with numbered symbols and flat productions. -/
structure PreparedGrammar where
  name : String
  terminals : Array Terminal
  externalCount : Nat
  nonTerminals : Array NonTerminal
  productions : Array Production
  fieldNames : List String
  extras : List Symbol
  word : Option Symbol
  /-- Groups of phrase kinds whose conflicts are settled by the order of definition. -/
  conflictGroups : List (List Nat)
  deriving DecidableEq, Repr

/-- The phrase kind that a helper was made for in the end; other phrase kinds stand for themselves.
The helper's place bounds the number of steps to there. -/
def ownerOf (nonTerminals : Array NonTerminal) : Nat → Nat → Nat
  | 0, index => index
  | steps + 1, index =>
    match nonTerminals[index]?.bind (·.parent) with
    | some parent => ownerOf nonTerminals steps parent
    | none => index

namespace PreparedGrammar

variable (g : PreparedGrammar)

def terminalCount : Nat := g.terminals.size

def symbolCount : Nat := g.terminals.size + g.nonTerminals.size

def isTerminal (s : Symbol) : Bool := s.index < g.terminals.size

/-- The symbol of the phrase kind at a place. -/
def nonTerminalSymbol (index : Nat) : Symbol := ⟨g.terminals.size + index⟩

/-- The place of a symbol among the phrase kinds, if it is one. -/
def nonTerminalIndex? (s : Symbol) : Option Nat :=
  if s.index < g.terminals.size then none else some (s.index - g.terminals.size)

/-- The phrase kind that a phrase kind counts as where conflicts are concerned. -/
def conflictOwner (index : Nat) : Nat := ownerOf g.nonTerminals index index

def symbolName (s : Symbol) : String :=
  match g.terminals[s.index]? with
  | some t => t.name
  | none => (g.nonTerminals[s.index - g.terminals.size]?.map (·.name)).getD "<unknown>"

/-- A symbol as a grammar writes it: unnamed texts between quotes, all else by name. -/
def displaySymbol (s : Symbol) : String :=
  match g.terminals[s.index]? with
  | some t =>
    if !t.isNamed && t.literal?.isSome then Text.quoted t.name.toList else t.name
  | none => g.symbolName s

/-- The steps of a production, each after a blank, with a dot before the step at a place. -/
def describeSteps (dot : Option Nat) (place : Nat) : List Step → String
  | [] => if dot = some place then " •" else ""
  | s :: rest =>
    (if dot = some place then " •" else "") ++ " " ++ g.displaySymbol s.symbol ++
      describeSteps dot (place + 1) rest

/-- The form `lhs → a • b`, with or without a dot. -/
def describeProduction (production : Nat) (dot : Option Nat) : String :=
  match g.productions[production]? with
  | none => ""
  | some p =>
    ((g.nonTerminals[p.lhs]?.map (·.name)).getD "<unknown>") ++ " →" ++
      g.describeSteps dot 0 p.steps

end PreparedGrammar

end LRWorkbench
