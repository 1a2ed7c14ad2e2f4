import LRWorkbench.Lexing.PatternSet
import LRWorkbench.Table.TerminalSet
import LRWorkbench.Text.Quoted

/-!
# Parse tables

An `Action` is what the parser does in a state when it sees a terminal.

`TableParts` is all that a parse table says, apart from the patterns of its tokens. Symbols come in
sections: the end of the input, the external tokens, the other terminals, then the phrase kinds,
the start symbol first. Actions and gotos are stored row after row, one row a state.

`TableParts.check` finds out whether all numbers fit together; a `ParseTable` has passed it.
-/

namespace LRWorkbench

/-- A move of the parser: what it does in a state when it sees a terminal. -/
inductive Action where
  | error
  /-- Reads the terminal and goes to a state. -/
  | shift (state : Nat)
  /-- Puts together the phrase of a production. -/
  | reduce (production : Nat)
  | accept
  deriving DecidableEq, Repr, Inhabited

namespace Action

def isError (a : Action) : Bool := a = error

/-- The form `s3`, `r3` or `acc`; errors have none. -/
def text? : Action → Option String
  | error => none
  | shift state => some ("s" ++ toString state)
  | reduce production => some ("r" ++ toString production)
  | accept => some "acc"

end Action

/-- The section of a symbol. -/
inductive SymbolKind where
  /-- Found by the patterns. -/
  | terminal
  /-- Found by an external scanner. -/
  | external
  | nonTerminal
  deriving DecidableEq, Repr, Inhabited

/-- What a table knows about a symbol. -/
structure SymbolInfo where
  name : String
  kind : SymbolKind
  /-- Whether it has nodes of its own in trees. -/
  isVisible : Bool
  /-- Whether it has a name, as opposed to a literal text. -/
  isNamed : Bool
  deriving DecidableEq, Repr, Inhabited

/-- A production, as far as the parser needs it. -/
structure TableProduction where
  lhs : Symbol
  /-- The number of steps. -/
  length : Nat
  /-- The field of each step; empty if no step has one. -/
  fields : List (Option FieldId)
  deriving DecidableEq, Repr, Inhabited

namespace TableProduction

/-- The field of a step. -/
def fieldAt? (p : TableProduction) (step : Nat) : Option FieldId := (p.fields[step]?).join

end TableProduction

/-- The keywords by their texts, in the order of the texts. -/
abbrev Keywords := List (String × Symbol)

namespace Keywords

/-- Adds a keyword; it replaces one with the same text. -/
def insert (text : String) (s : Symbol) : Keywords → Keywords
  | [] => [(text, s)]
  | (t, old) :: rest =>
    if text < t then (text, s) :: (t, old) :: rest
    else if text = t then (text, s) :: rest
    else (t, old) :: insert text s rest

/-- The keywords of a list, the last one of each text. -/
def ofList (entries : List (String × Symbol)) : Keywords :=
  entries.foldl (fun found entry => insert entry.1 entry.2 found) []

end Keywords

/-- What the lexer needs to know about tokens. -/
structure LexSpec where
  /-- The terminal of each pattern. -/
  patternSymbols : List Symbol
  /-- The precedence of each terminal. -/
  precedence : Array Int
  keywords : Keywords
  keywordSet : TerminalSet
  /-- The token that keywords are spelled like. -/
  word : Option Symbol
  /-- The terminals that may stand between any two others. -/
  extras : TerminalSet
  deriving DecidableEq, Repr, Inhabited

namespace LexSpec

def precedenceOf (spec : LexSpec) (s : Symbol) : Int := spec.precedence[s.index]?.getD 0

/-- The keyword of a text. -/
def keyword? (spec : LexSpec) (text : String) : Option Symbol := spec.keywords.lookup text

def isKeyword (spec : LexSpec) (s : Symbol) : Bool := spec.keywordSet.contains s

def isExtra (spec : LexSpec) (s : Symbol) : Bool := spec.extras.contains s

end LexSpec

/-- All that a table says, apart from its patterns. -/
structure TableParts where
  name : String
  symbols : Array SymbolInfo
  terminalCount : Nat
  externalCount : Nat
  fieldNames : List String
  productions : Array TableProduction
  stateCount : Nat
  /-- Row after row, a column for each terminal. -/
  actions : Array Action
  /-- Row after row, a column for each phrase kind. -/
  gotos : Array (Option Nat)
  lex : LexSpec
  deriving DecidableEq, Repr

/-! ### Consistency -/

/-- How the parts of a table may fail to fit together. -/
inductive Inconsistency where
  | terminalCount (terminals symbols : Nat)
  | externalCount (count : Nat)
  | noStates
  | wrongSection (name : String)
  | wrongKind (name : String)
  | actionCount (count : Nat)
  | gotoCount (count : Nat)
  | missingShift (state : Nat)
  | missingReduce (production : Nat)
  | missingGoto (state : Nat)
  | terminalLhs (symbol : Nat)
  | missingField
  | patternCount (patterns terminals : Nat)
  | notLexable (symbol : Symbol)
  deriving DecidableEq, Repr

/-- The wording of an inconsistency. -/
def Inconsistency.message : Inconsistency → String
  | terminalCount terminals symbols =>
    toString terminals ++ " terminals out of " ++ toString symbols ++ " symbols"
  | externalCount count => toString count ++ " external tokens"
  | noStates => "no states"
  | wrongSection name => "symbol `" ++ name ++ "` is in the wrong section"
  | wrongKind name => "symbol `" ++ name ++ "` has the wrong kind"
  | actionCount count => toString count ++ " action entries"
  | gotoCount count => toString count ++ " goto entries"
  | missingShift state => "shift to missing state " ++ toString state
  | missingReduce production => "reduce by missing production " ++ toString production
  | missingGoto state => "goto to missing state " ++ toString state
  | terminalLhs symbol => "production with terminal lhs " ++ toString symbol
  | missingField => "production references a missing field"
  | patternCount patterns terminals =>
    "lexer has " ++ toString patterns ++ " patterns for " ++ toString terminals ++ " terminals"
  | notLexable symbol => "lexer pattern for non-lexable symbol " ++ symbol.text

namespace TableParts

variable (t : TableParts)

/-- The number of phrase kinds. -/
def nonTerminalCount : Nat := t.symbols.size - t.terminalCount

/-- Whether the symbol at a place is an external token, by its place. -/
def isExternalPlace (place : Nat) : Bool := 1 ≤ place && place ≤ t.externalCount

/-- What is wrong with the symbol at a place. -/
def symbolFault? (place : Nat) (info : SymbolInfo) : Option Inconsistency :=
  if (info.kind ≠ .nonTerminal) != (place < t.terminalCount : Bool) then
    some (.wrongSection info.name)
  else if (info.kind = .external) != t.isExternalPlace place then some (.wrongKind info.name)
  else none

/-- What is wrong with an action. -/
def actionFault? : Action → Option Inconsistency
  | .shift state => if state < t.stateCount then none else some (.missingShift state)
  | .reduce production =>
    if production < t.productions.size then none else some (.missingReduce production)
  | .error | .accept => none

/-- What is wrong with a goto. -/
def gotoFault? : Option Nat → Option Inconsistency
  | some state => if state < t.stateCount then none else some (.missingGoto state)
  | none => none

/-- What is wrong with a production. -/
def productionFault? (p : TableProduction) : Option Inconsistency :=
  if p.lhs.index < t.terminalCount || t.symbols.size ≤ p.lhs.index then
    some (.terminalLhs p.lhs.index)
  else if p.fields.any fun f =>
      match f with
      | some f => t.fieldNames.length ≤ f.index
      | none => false
    then some .missingField
  else none

/-- What is wrong with the terminal of a pattern. -/
def patternFault? (s : Symbol) : Option Inconsistency :=
  if t.terminalCount ≤ s.index || s.index ≤ t.externalCount then some (.notLexable s) else none

/-- The first thing wrong with the parts of a table that has a number of patterns. -/
def fault? (patternCount : Nat) : Option Inconsistency :=
  if t.terminalCount = 0 || t.symbols.size ≤ t.terminalCount then
    some (.terminalCount t.terminalCount t.symbols.size)
  else if t.terminalCount ≤ t.externalCount then some (.externalCount t.externalCount)
  else if t.stateCount = 0 then some .noStates
  else
    (t.symbols.toList.zipIdx.findSome? fun (info, place) => t.symbolFault? place info).or <|
    if t.actions.size ≠ t.stateCount * t.terminalCount then some (.actionCount t.actions.size)
    else if t.gotos.size ≠ t.stateCount * t.nonTerminalCount then some (.gotoCount t.gotos.size)
    else
      (t.actions.toList.findSome? t.actionFault?).or <|
      (t.gotos.toList.findSome? t.gotoFault?).or <|
      (t.productions.toList.findSome? t.productionFault?).or <|
      if patternCount ≠ t.lex.patternSymbols.length then
        some (.patternCount patternCount t.lex.patternSymbols.length)
      else t.lex.patternSymbols.findSome? t.patternFault?

/-- The terminals on which a state has an action. -/
def validIn (state : Nat) : TerminalSet :=
  .ofList (((List.range t.terminalCount).filter fun s =>
    match t.actions[state * t.terminalCount + s]? with
    | some action => !action.isError
    | none => false).map Symbol.ofIndex)

end TableParts

/-- A table whose parts fit together. An automaton reads its patterns, which is a set of patterns unless
something else is said. -/
structure ParseTable (A : Type := PatternSet) [ByteAutomaton A] where
  parts : TableParts
  patterns : A
  /-- For each state, the terminals it has an action on. -/
  valid : Array TerminalSet
  consistent : parts.fault? (ByteAutomaton.patternCount patterns) = none
  valid_eq : valid = (Array.range parts.stateCount).map parts.validIn

namespace ParseTable

variable {A : Type} [ByteAutomaton A]

/-- The table of some parts and patterns, if they fit together. -/
def ofParts (parts : TableParts) (patterns : A) : Except Inconsistency (ParseTable A) :=
  match h : parts.fault? (ByteAutomaton.patternCount patterns) with
  | some fault => .error fault
  | none => .ok ⟨parts, patterns, _, h, rfl⟩

variable (t : ParseTable A)

def name : String := t.parts.name

def terminalCount : Nat := t.parts.terminalCount

/-! ### Symbols and fields -/

def isTerminal (s : Symbol) : Bool := s.index < t.parts.terminalCount

def isExternal (s : Symbol) : Bool := t.parts.isExternalPlace s.index

/-- The external tokens, in the order the scanner counts them. -/
def externalTokens : List Symbol := (List.range t.parts.externalCount).map fun i => ⟨i + 1⟩

/-- The place of an external token in the order the scanner counts them. -/
def externalIndex? (s : Symbol) : Option Nat :=
  if t.isExternal s then some (s.index - 1) else none

/-- The external token at a place. -/
def externalSymbol? (index : Nat) : Option Symbol :=
  if index < t.parts.externalCount then some ⟨index + 1⟩ else none

def startSymbol : Symbol := ⟨t.parts.terminalCount⟩

def symbolName (s : Symbol) : String :=
  if s.isError then "ERROR" else (t.parts.symbols[s.index]?.map (·.name)).getD "<unknown>"

def isVisible (s : Symbol) : Bool :=
  s.isError || (t.parts.symbols[s.index]?.map (·.isVisible)).getD false

def isNamed (s : Symbol) : Bool :=
  s.isError || (t.parts.symbols[s.index]?.map (·.isNamed)).getD false

/-- The first symbol of a name, hidden ones included. -/
def symbolFor? (name : String) (named : Bool) : Option Symbol :=
  if named && name = "ERROR" then some .error
  else
    (t.parts.symbols.findIdx? fun info => info.name = name && info.isNamed = named).map Symbol.mk

def fieldName (f : FieldId) : String := t.parts.fieldNames[f.index]?.getD "<unknown>"

/-- The first field of a name. -/
def fieldFor? (name : String) : Option FieldId :=
  (t.parts.fieldNames.findIdx? (· = name)).map FieldId.ofIndex

/-! ### What to do -/

/-- The action of a state on a terminal. -/
def action (state : Nat) (s : Symbol) : Action :=
  if t.isTerminal s then t.parts.actions[state * t.parts.terminalCount + s.index]?.getD .error
  else .error

/-- The state that a phrase leads to. -/
def goto? (state : Nat) (s : Symbol) : Option Nat :=
  if s.index < t.parts.terminalCount then none
  else
    (t.parts.gotos[state * t.parts.nonTerminalCount + (s.index - t.parts.terminalCount)]?).join

/-- The terminals on which a state has an action. -/
def validTerminals (state : Nat) : TerminalSet := t.valid[state]?.getD .empty

def production? (index : Nat) : Option TableProduction := t.parts.productions[index]?

/-- The form `ParseTable { name: "x", … }` with the sizes of the parts. -/
def summary : String :=
  "ParseTable \x7b name: " ++ Text.quoted t.name.toList ++ ", symbols: " ++
    toString t.parts.symbols.size ++ ", terminals: " ++ toString t.parts.terminalCount ++
    ", productions: " ++ toString t.parts.productions.size ++ ", states: " ++
    toString t.parts.stateCount ++ " \x7d"

end ParseTable

end LRWorkbench
