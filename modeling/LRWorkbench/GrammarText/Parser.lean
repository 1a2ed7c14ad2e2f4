import LRWorkbench.GrammarText.Tree
import LRWorkbench.Diagnostic.Basic

/-!
# Parsing grammar texts

    root      = (directive | rule)*
    directive = DIRECTIVE args ";"
    rule      = ID "=" expr ";"
    expr      = "|"? seq ("|" seq)*
    seq       = postfix*
    postfix   = term ("*" | "+" | "?")*
    term      = ID ":" term | ID | STRING | REGEX | "(" expr ")"
              | PREC "(" [INT ","] expr ")" | "token" "(" expr ")"

Parsing always yields a tree of the whole text. What fits nowhere goes into nodes of the kind
`error`, and at most one diagnostic in a row is reported at one place.

Whatever repeats or nests is given a **bound** on how often it may, which the tokens ahead never call
for; the parser keeps whether one was ever reached.

**Blanks and comments** are put into the tree late: those before a token join the node that is
open when a node or a wrapping starts in front of the token, or when the token itself is taken.
-/

namespace LRWorkbench.GrammarText

open Diagnostic (Kind)

/-- What the parser has in hand. -/
structure ParseState where
  /-- The tokens that are not in the tree yet. -/
  rest : List Token
  /-- The children of the open node so far, the latest first. -/
  built : List Tree
  /-- The diagnostics so far, the latest first. -/
  reported : List Diagnostic
  /-- Where the latest report was made. -/
  lastReport : Option Nat
  /-- Where the latest token that means something ended. -/
  lastEnd : Nat
  /-- How many terms are open around the place of parsing. -/
  depth : Nat
  /-- The length of the text. -/
  stop : Nat
  /-- Whether something was cut off by its bound. -/
  isCutOff : Bool

/-- A step of the parser. -/
abbrev Parse (α : Type) := StateM ParseState α

namespace Parse

/-- Terms nested deeper than this are reported and skipped. -/
def maxDepth : Nat := 256

/-! ### Looking ahead -/

/-- The next token that means something. -/
def peek? (s : ParseState) : Option Token := s.rest.find? fun t => !t.kind.isTrivia

/-- The token after it that means something. -/
def peekSecond? (s : ParseState) : Option Token :=
  ((s.rest.dropWhile fun t => t.kind.isTrivia).drop 1).find? fun t => !t.kind.isTrivia

/-- The kind of the next token. -/
def current : Parse (Option TokenKind) := return (peek? (← get)).map (·.kind)

/-- Whether the next token is of a kind. -/
def isAt (kind : TokenKind) : Parse Bool := return (← current) = some kind

/-- Whether the token after the next one is of a kind. -/
def nextIs (kind : TokenKind) : Parse Bool := do
  return (peekSecond? (← get)).any fun t => t.kind = kind

def atEnd : Parse Bool := return (← current).isNone

def atQuantifier : Parse Bool := return (← current).any TokenKind.isQuantifier

/-- Where the next token stands, or the end of the text. -/
def currentSpan : Parse Span := do
  let s ← get
  return ((peek? s).map Token.span).getD (Span.emptyAt s.stop)

/-- Whether a term can start here; a name before `=` starts the next rule instead. -/
def atTermStart : Parse Bool := do
  if !(← current).any TokenKind.startsTerm then return false
  return !((← isAt .ident) && (← nextIs .equals))

def atStatementStart : Parse Bool := do
  if ← isAt .directive then return true
  if !(← isAt .ident) then return false
  nextIs .equals

def atStatementEnd : Parse Bool := do
  if ← atEnd then return true
  if ← isAt .semicolon then return true
  atStatementStart

/-! ### Building the tree -/

/-- Moves blanks and comments in front of the next token into the open node. -/
def flush : Parse Unit := modify fun s =>
  { s with
    built := ((s.rest.takeWhile fun t => t.kind.isTrivia).map Tree.leaf).reverse ++ s.built
    rest := s.rest.dropWhile fun t => t.kind.isTrivia }

/-- Takes the next token, and what stands before it, into the open node. -/
def bump : Parse Unit := do
  if ← atEnd then return
  flush
  modify fun s =>
    match s.rest with
    | [] => s
    | t :: rest => { s with built := .leaf t :: s.built, rest := rest, lastEnd := t.span.stop }

/-- Takes the next token if it is of a kind. -/
def eat (kind : TokenKind) : Parse Bool := do
  if ← isAt kind then
    bump
    return true
  else return false

/-- Runs a step with no children built, and hands out the children it built. -/
def children (body : Parse Unit) : Parse (List Tree) := do
  let before := (← get).built
  modify fun s => { s with built := [] }
  body
  let inner := (← get).built.reverse
  modify fun s => { s with built := before }
  return inner

/-- Appends trees to the open node. -/
def append (trees : List Tree) : Parse Unit := modify fun s =>
  { s with built := trees.reverse ++ s.built }

/-- A node with the children that a step builds. -/
def node (kind : NodeKind) (body : Parse Unit) : Parse Unit := do
  flush
  let inner ← children body
  append [.node kind inner]

/-- The children that a step builds, in a node of the kind the step asks for, if it does. -/
def wrapped (body : Parse (Option NodeKind)) : Parse Unit := do
  flush
  let before := (← get).built
  modify fun s => { s with built := [] }
  let kind ← body
  let inner := (← get).built.reverse
  modify fun s => { s with built := before }
  match kind with
  | some kind => append [.node kind inner]
  | none => append inner

/-! ### Reporting -/

/-- Reports a diagnostic unless the latest one was made at the same place. -/
def report (place : Nat) (d : Diagnostic) : Parse Unit := modify fun s =>
  if s.lastReport = some place then s
  else { s with lastReport := some place, reported := d :: s.reported }

/-- Reports at the next token. -/
def error (kind : Kind) : Parse Unit := do
  let span ← currentSpan
  report span.start (.ofKind kind span)

/-- Reports at the next token, with a detail. -/
def errorWith (kind : Kind) (detail : String) : Parse Unit := do
  let span ← currentSpan
  report span.start ((Diagnostic.ofKind kind span).withDetail detail)

/-- Puts the next token into a node of its own, as an error. -/
def bumpAsError : Parse Unit := do
  if ← atEnd then return
  node .error bump

/-- Reports that a delimiter is not closed: the whole region is marked, the opener pointed at. -/
def unclosed (kind : Kind) (message : String) (opener : Span) : Parse Unit := do
  let span ← currentSpan
  report span.start
    ((Diagnostic.ofKind kind ⟨opener.start, span.stop⟩).withRelated message opener)

/-- Stops where a bound is reached. -/
def cutOff : Parse Unit := modify fun s => { s with isCutOff := true }

/-- Takes tokens up to the end of the statement. -/
def skipStatement : Nat → Parse Unit
  | 0 => cutOff
  | fuel + 1 => do
    if ← atStatementEnd then return
    bump
    skipStatement fuel

/-- A bound on how often something that takes tokens can still be tried. -/
def room : Parse Nat := return (← get).rest.length + 1

/-- The end of a statement. -/
def expectSemicolon : Parse Unit := do
  if ← eat .semicolon then return
  if (← atEnd) || (← atStatementStart) then
    let place := (← get).lastEnd
    report place ((Diagnostic.ofKind .missingSemicolon (.emptyAt place)).withFix
      "terminate the statement" ";")
    return
  node .error do
    errorWith .unexpectedToken "expected `;`"
    skipStatement (← room)
  let _ ← eat .semicolon

/-- The closing parenthesis of a region. -/
def expectCloseParen (opener : Span) : Parse Unit := do
  if ← eat .parenClose then return
  unclosed .unclosedParen "opened here" opener

/-! ### Expressions -/

mutual

/-- An expression, or a report that there is none. -/
def exprOrError (fuel : Nat) (context : String) : Parse Unit := do
  match fuel with
  | 0 => cutOff
  | fuel + 1 =>
    if (← atTermStart) || (← isAt .pipe) || (← atQuantifier) then expr fuel
    else errorWith .expectedExpression context

/-- Alternatives. A single branch without a leading bar is not wrapped. -/
def expr (fuel : Nat) : Parse Unit := do
  match fuel with
  | 0 => cutOff
  | fuel + 1 =>
    wrapped do
      let leading ← eat .pipe
      seq fuel
      let more ← branches fuel
      return if leading || more then some .alt else none

/-- Further branches, each after a bar; answers whether there were any. -/
def branches (fuel : Nat) : Parse Bool := do
  match fuel with
  | 0 =>
    cutOff
    return false
  | fuel + 1 =>
    if ← eat .pipe then
      seq fuel
      let _ ← branches fuel
      return true
    else return false

/-- Terms in a row. A single one is not wrapped. -/
def seq (fuel : Nat) : Parse Unit := do
  match fuel with
  | 0 => cutOff
  | fuel + 1 =>
    wrapped do
      let count ← seqItems fuel
      return if count = 1 then none else some .seq

/-- The terms of a row; answers how many there are. -/
def seqItems (fuel : Nat) : Parse Nat := do
  match fuel with
  | 0 =>
    cutOff
    return 0
  | fuel + 1 =>
    if ← atTermStart then
      postfixed fuel
      return (← seqItems fuel) + 1
    else if ← atQuantifier then
      error .quantifierWithoutTarget
      bumpAsError
      seqItems fuel
    else if ← isAt .garbage then
      errorWith .unexpectedToken "not a valid expression"
      bumpAsError
      seqItems fuel
    else return 0

/-- A term and the quantifiers after it, each wrapping all before it. -/
def postfixed (fuel : Nat) : Parse Unit := do
  match fuel with
  | 0 => cutOff
  | fuel + 1 =>
    flush
    let inner ← children (term fuel)
    quantifiers fuel inner

/-- Wraps what was built for each quantifier that follows. -/
def quantifiers (fuel : Nat) (inner : List Tree) : Parse Unit := do
  match fuel with
  | 0 =>
    cutOff
    append inner
  | fuel + 1 =>
    if ← atQuantifier then
      let sign ← children bump
      quantifiers fuel [.node .quantified (inner ++ sign)]
    else append inner

/-- A term, unless too many are open around it. -/
def term (fuel : Nat) : Parse Unit := do
  match fuel with
  | 0 => cutOff
  | fuel + 1 =>
    if (← get).depth ≥ maxDepth then
      errorWith .unexpectedToken "expression nested too deeply"
      node .error do skipStatement (← room)
    else
      modify fun s => { s with depth := s.depth + 1 }
      match ← current with
      | some .ident =>
        if ← nextIs .colon then field fuel else node .ref bump
      | some .stringLiteral => node .str bump
      | some .regexLiteral => node .regex bump
      | some .unterminatedString =>
        error .unterminatedString
        node .str bump
      | some .unterminatedRegex =>
        error .unterminatedPattern
        node .regex bump
      | some .parenOpen => group fuel
      | some .kwPrec => prec fuel true
      | some .kwPrecLeft => prec fuel false
      | some .kwPrecRight => prec fuel false
      | some .kwToken => tokenCall fuel
      | _ =>
        errorWith .unexpectedToken "not a valid expression"
        bumpAsError
      modify fun s => { s with depth := s.depth - 1 }

/-- A name, a colon and a term. -/
def field (fuel : Nat) : Parse Unit := do
  match fuel with
  | 0 => cutOff
  | fuel + 1 =>
    node .field do
      bump
      bump
      if ← atTermStart then term fuel
      else errorWith .expectedExpression "after field name"

/-- An expression in parentheses. -/
def group (fuel : Nat) : Parse Unit := do
  match fuel with
  | 0 => cutOff
  | fuel + 1 =>
    node .group do
      let opener ← currentSpan
      bump
      exprOrError fuel "inside parentheses"
      expectCloseParen opener

/-- A level of precedence around an expression; without a side the level is required. -/
def prec (fuel : Nat) (plain : Bool) : Parse Unit := do
  match fuel with
  | 0 => cutOff
  | fuel + 1 =>
    node .prec do
      bump
      if !(← isAt .parenOpen) then
        errorWith .unexpectedToken "expected `(` after precedence keyword"
        return
      let opener ← currentSpan
      bump
      if ← eat .integer then
        if !(← eat .comma) then
          errorWith .unexpectedToken "expected `,` after precedence value"
      else if plain then
        errorWith .expectedInteger "`prec` needs a precedence value"
      exprOrError fuel "inside precedence"
      expectCloseParen opener

/-- An expression read as one token. -/
def tokenCall (fuel : Nat) : Parse Unit := do
  match fuel with
  | 0 => cutOff
  | fuel + 1 =>
    node .tokenCall do
      bump
      if !(← isAt .parenOpen) then
        errorWith .unexpectedToken "expected `(` after `token`"
        return
      let opener ← currentSpan
      bump
      exprOrError fuel "inside `token(...)`"
      expectCloseParen opener

end

/-! ### Statements -/

/-- More nested steps than the tokens ahead can call for: each token taken passes through at most
seven of them. -/
def fuelOf (tokens : Nat) : Nat := 8 * tokens + 16

/-- A rule: its name, `=`, its body and `;`. -/
def rule : Parse Unit :=
  node .ruleDef do
    bump
    if !(← eat .equals) then error .missingEquals
    if ← isAt .semicolon then node .seq (return)
    else exprOrError (fuelOf (← room)) "after `=` in rule"
    expectSemicolon

/-- The names of a conflict group, and what stands between them. -/
def groupNames : Nat → Parse Unit
  | 0 => cutOff
  | fuel + 1 => do
    if (← isAt .bracketClose) || (← atStatementEnd) then return
    if !(← eat .ident) then
      error .expectedName
      bumpAsError
    groupNames fuel

/-- A group of names in brackets. -/
def conflictGroup : Parse Unit :=
  node .conflictGroup do
    let opener ← currentSpan
    bump
    groupNames (← room)
    if !(← eat .bracketClose) then unclosed .unclosedBracket "group started here" opener

/-- Repeats a step as long as a test holds. -/
def repeatWhile (test : Parse Bool) (step : Parse Unit) : Nat → Parse Unit
  | 0 => cutOff
  | fuel + 1 => do
    if ← test then
      step
      repeatWhile test step fuel

/-- A directive: its name, its arguments and `;`. -/
def directive : Parse Unit :=
  node .directiveDecl do
    let name := ((peek? (← get)).map fun t => String.ofList t.text).getD ""
    bump
    let fuel ← room
    if name = "@grammar" ∨ name = "@word" then
      if !(← eat .ident) then error .expectedName
    else if name = "@externals" then repeatWhile (isAt .ident) bump fuel
    else if name = "@extras" then repeatWhile atTermStart (postfixed (fuelOf fuel)) fuel
    else if name = "@conflicts" then repeatWhile (isAt .bracketOpen) conflictGroup fuel
    else skipStatement fuel
    expectSemicolon

/-- Takes tokens up to the next rule or directive. -/
def skipToStatement : Nat → Parse Unit
  | 0 => cutOff
  | fuel + 1 => do
    match ← current with
    | none | some .ident | some .directive => return
    | _ =>
      bump
      skipToStatement fuel

/-- The statements of a text. -/
def statements : Nat → Parse Unit
  | 0 => cutOff
  | fuel + 1 => do
    match ← current with
    | none => return
    | some .directive => directive
    | some .ident => rule
    | _ =>
      node .error do
        errorWith .unexpectedToken "expected a rule or a directive"
        skipToStatement (← room)
    statements fuel

/-- The state before anything is parsed. -/
def start (tokens : List Token) (stop : Nat) : ParseState where
  rest := tokens
  built := []
  reported := []
  lastReport := none
  lastEnd := 0
  depth := 0
  stop := stop
  isCutOff := false

end Parse

/-- The tree of a text and what is wrong with it. -/
structure Parsed where
  tree : Tree
  diagnostics : List Diagnostic

/-- What is in hand after the statements of a text. Every statement takes a token, so there are no
more statements than tokens. -/
def parseState (source : List Char) : ParseState :=
  let tokens := lex source
  ((Parse.statements (tokens.length + 1)).run
    (Parse.start tokens (offset (Text.byteLength source)))).2

/-- The tree and the diagnostics of a text whose tokens have texts. -/
def parse (source : List Char) : Parsed :=
  let s := parseState source
  { tree := .node .root (s.built.reverse ++ s.rest.map .leaf)
    diagnostics := s.reported.reverse }

/-- Parses a text. The program stops at a token whose text would end inside a character. -/
def parse? (source : List Char) : Option Parsed :=
  if splitsCharacter source then none else some (parse source)

end LRWorkbench.GrammarText
