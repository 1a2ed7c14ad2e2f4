import LRWorkbench.Grammar.Error
import LRWorkbench.Lalr.Resolution
import LRWorkbench.Prepared.Basic
import LRWorkbench.Prepared.Productions
import LRWorkbench.Table.Basic

/-!
# Compiling a grammar

`Grammar.compile` makes the parse table of a grammar: it numbers symbols and flattens rules, finds
the states and decides conflicts, and puts the table together.

The patterns of the lexer are those of the lexical terminals, in order. **Keywords** are the literal texts
that the pattern of the word matches from end to end: the lexer reads them as words first.
-/

namespace LRWorkbench

/-- An expression that matches a whole text only, made of the text of an expression. -/
def Regex.wholeText? (source : String) : Option Regex :=
  Regex.parse? ("(?:" ++ source ++ ")\\z").toList

namespace PreparedGrammar

variable (g : PreparedGrammar)

/-! ### What the lexer needs -/


/-- The lexical terminals with their regular expressions and precedences. -/
def lexicalTerminals : List (Symbol × (String × Int)) :=
  g.terminals.toList.zipIdx.filterMap fun (t, index) =>
    t.definition?.map fun definition => (⟨index⟩, definition)

/-- The terminals with literal texts, apart from the word. -/
def literals (word : Symbol) : List (String × Symbol) :=
  g.terminals.toList.zipIdx.filterMap fun (t, index) =>
    if index = word.index then none else t.literal?.map fun text => (text, ⟨index⟩)

/-- The literal texts that a word pattern matches, with their terminals. -/
def keywordsLike (word : Symbol) (regex : Regex) : List (String × Symbol) :=
  (g.literals word).filter fun entry => regex.matchesAll entry.1.toList

/-- The literal texts that are keywords, with their terminals. -/
def keywordList : Except GrammarError (List (String × Symbol)) :=
  match g.word with
  | none => .ok []
  | some word =>
    match g.terminals[word.index]?.bind (·.definition?) with
    | none => .ok []
    | some (source, _) =>
      match Regex.wholeText? source with
      | none => .error (.invalidPattern g.name)
      | some regex => .ok (g.keywordsLike word regex)

/-- The precedence of each terminal. -/
def precedences : Array Int :=
  g.terminals.map fun t => (t.definition?.map (·.2)).getD 0

/-- A set of terminals of the grammar. -/
def terminalSet (symbols : List Symbol) : TerminalSet :=
  symbols.foldl .insert (.withCapacity g.terminalCount)

/-- What the lexer needs, and its patterns. -/
def lexSpec : Except GrammarError (LexSpec × PatternSet) := do
  let some patterns := PatternSet.ofSources? (g.lexicalTerminals.map (·.2.1)) |
    .error (.invalidPattern g.name)
  let keywords ← g.keywordList
  return ({
    patternSymbols := g.lexicalTerminals.map (·.1)
    precedence := g.precedences
    keywords := Keywords.ofList keywords
    keywordSet := g.terminalSet (keywords.map (·.2))
    word := g.word
    extras := g.terminalSet g.extras }, patterns)

/-! ### The table -/

/-- What the table knows about a terminal. Patterns without a name stay out of trees, as do tokens
whose name begins with an underscore. -/
def terminalInfo (t : Terminal) : SymbolInfo where
  name := t.name
  kind := if t.kind = .external then .external else .terminal
  isVisible := t.isNamed || t.literal?.isSome
  isNamed := t.isNamed

/-- What the table knows about a phrase kind. -/
def nonTerminalInfo (n : NonTerminal) : SymbolInfo where
  name := n.name
  kind := .nonTerminal
  isVisible := n.isVisible
  isNamed := true

/-- A production of the table. -/
def tableProduction (p : Production) : TableProduction where
  lhs := g.nonTerminalSymbol p.lhs
  length := p.steps.length
  fields := if p.steps.any fun s => s.field.isSome then p.steps.map (·.field) else []

/-- Refuses a production with more steps than there are numbers. -/
def checkLengths : Except GrammarError Unit :=
  match g.productions.findIdx? fun p => 65535 < p.steps.length with
  | some index =>
    .error (.unsupported ("production `" ++ g.describeProduction index none ++ "` is too long"))
  | none => .ok ()

/-- The parts of the table, given its rows and what the lexer needs. -/
def tableParts (rows : Lalr.Rows) (lex : LexSpec) : TableParts where
  name := g.name
  symbols := g.terminals.map terminalInfo ++ g.nonTerminals.map nonTerminalInfo
  terminalCount := g.terminalCount
  externalCount := g.externalCount
  fieldNames := g.fieldNames
  productions := g.productions.map g.tableProduction
  stateCount := rows.stateCount
  actions := rows.actions
  gotos := rows.gotos
  lex := lex

/-- The states of the parser. -/
def automaton : Lalr.Automaton := (Lalr.augment g).automaton

/-- Puts the table together. -/
def emit (rows : Lalr.Rows) : Except GrammarError ParseTable := do
  let (lex, patterns) ← g.lexSpec
  g.checkLengths
  match ParseTable.ofParts (g.tableParts rows lex) patterns with
  | .ok t => .ok t
  | .error fault =>
    .error (.unsupported ("table failed validation: inconsistent table: " ++ fault.message))

end PreparedGrammar

/-- The parse table of a grammar. -/
def Grammar.compile (g : Grammar) : Except GrammarError ParseTable := do
  let prepared ← g.prepare
  let rows ← prepared.automaton.rows
  prepared.emit rows

end LRWorkbench
