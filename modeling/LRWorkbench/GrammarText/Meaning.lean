import LRWorkbench.GrammarText.Parser
import LRWorkbench.GrammarText.Literal
import LRWorkbench.Grammar.Basic
import LRWorkbench.Grammar.Error

/-!
# What grammar texts mean

The grammar of a tree is worked out for every tree, also for one with errors: a missing piece
counts as blank, so that later problems are still found. Of a directive given twice the last one
counts, of a rule defined twice the first one.

A literal is taken apart by its bytes. In a text that goes on behind the last offset a literal may
have lost the bytes that this asks for; the program stops there (`Reading.isBroken`).

`Grammar.ofText` reads a grammar, unless the text has errors, and `Grammar.ofText?` also tells
whether the program comes that far.
-/

namespace LRWorkbench

namespace GrammarText

/-- What is known of the grammar while its statements are gone through. -/
structure Reading where
  grammar : Grammar
  /-- The names of the rules so far, and where they are defined. -/
  ruleSpans : List (String × Span)
  /-- The directives so far, the latest first, and where they stand. -/
  directiveSpans : List (String × Span)
  /-- The diagnostics so far, the latest first. -/
  reported : List Diagnostic
  /-- Whether a literal had too few bytes to be taken apart. -/
  isBroken : Bool

/-- The state before anything is read. -/
def Reading.start (name : String) : Reading := ⟨⟨name, [], [], [], [], none⟩, [], [], [], false⟩

/-- A step that may report diagnostics. -/
abbrev Read (α : Type) := StateM Reading α

def report (d : Diagnostic) : Read Unit := modify fun s => { s with reported := d :: s.reported }

/-- Stops where a literal cannot be taken apart. -/
def breakUnless (isWhole : Bool) : Read Unit := modify fun s =>
  { s with isBroken := s.isBroken || !isWhole }

/-- The number that digits stand for, of which there is at least one. -/
def decimal? (digits : List Char) : Option Nat :=
  if digits.isEmpty then none else some (digits.foldl (fun n d => 10 * n + (d.toNat - 48)) 0)

/-- The number that a token stands for, a sign before it included. -/
def integer? : List Char → Option Int
  | '-' :: digits => (decimal? digits).map fun n => -(n : Int)
  | digits => (decimal? digits).map fun n => (n : Int)

/-- The level of precedence that a token gives, zero when it does not fit. -/
def levelOf : Option Token → Read Int
  | none => return 0
  | some t => do
    match (integer? t.text).filter fun n => -2147483648 ≤ n ∧ n ≤ 2147483647 with
    | some n => return n
    | none =>
      report ((Diagnostic.ofKind .invalidPrecedence t.span).withDetail
        ("`" ++ String.ofList t.text ++ "` does not fit in 32 bits"))
      return 0

/-- Whether a string can be taken out of its quotes: there is an opening one, and the byte of a closing
one behind it if it is closed. -/
def hasQuotes (t : Token) : Bool :=
  match t.text with
  | [] => false
  | _ :: body => t.kind ≠ .stringLiteral || body.getLast?.any fun c => c.utf8Size = 1

/-- The text that a string stands for; blank when an escape is malformed. -/
def literalOf (t : Token) : Read Rule := do
  breakUnless (hasQuotes t)
  let body := if t.kind = .stringLiteral then t.text.tail.dropLast else t.text.tail
  match unescape body with
  | .ok value => return .literal (String.ofList value)
  | .error bad =>
    let start := t.start + 1 + bad.offset
    report ((Diagnostic.ofKind .invalidEscape ⟨start, start + bad.length⟩).withDetail
      ("`" ++ String.ofList (Text.slice bad.offset (bad.offset + bad.length) body) ++ "`"))
    return .blank

/-- The name that a reference, a field or a rule gives first. -/
def nameOf? (children : List Tree) : Option String :=
  (Tree.token? .ident children).map fun t => String.ofList t.text

mutual

/-- The rule that a node stands for; nothing when it is no expression. -/
def ruleOf? : Tree → Read (Option Rule)
  | .leaf _ => return none
  | .node kind children => do
    match kind with
    | .alt => return some (.choice (← rulesOf children))
    | .seq =>
      match ← rulesOf children with
      | [] => return some .blank
      | [r] => return some r
      | rs => return some (.seq rs)
    | .quantified =>
      let inner ← firstRule children
      match (Tree.tokens children).find? fun t => t.kind.isQuantifier with
      | none => return some inner
      | some sign =>
        if sign.kind = .star then return some (.zeroOrMore inner)
        else if sign.kind = .plus then return some (.oneOrMore inner)
        else return some (.optional inner)
    | .group => return some (← firstRule children)
    | .field =>
      let value ← firstRule children
      match nameOf? children with
      | some name => return some (.field name value)
      | none => return some value
    | .prec =>
      let level ← levelOf (Tree.token? .integer children)
      let body ← firstRule children
      let assoc :=
        match (Tree.tokens children).find? fun t =>
          t.kind = .kwPrec ∨ t.kind = .kwPrecLeft ∨ t.kind = .kwPrecRight with
        | none => none
        | some t =>
          if t.kind = .kwPrecLeft then some Assoc.left
          else if t.kind = .kwPrecRight then some Assoc.right
          else none
      return some (.prec assoc level body)
    | .tokenCall => return some (.token (← firstRule children))
    | .str =>
      match (Tree.tokens children).find? fun t =>
        t.kind = .stringLiteral ∨ t.kind = .unterminatedString with
      | none => return some .blank
      | some t => return some (← literalOf t)
    | .regex =>
      match (Tree.tokens children).find? fun t =>
        t.kind = .regexLiteral ∨ t.kind = .unterminatedRegex with
      | none => return some .blank
      | some t =>
        breakUnless !t.text.isEmpty
        let (value, flags) := patternParts (t.kind = .regexLiteral) t.text.tail
        return some (.pattern value flags)
    | .ref =>
      match nameOf? children with
      | some name => return some (.reference name)
      | none => return some .blank
    | _ => return none

/-- The rules of all expressions among some trees. -/
def rulesOf : List Tree → Read (List Rule)
  | [] => return []
  | t :: ts => do
    match ← ruleOf? t with
    | some r => return r :: (← rulesOf ts)
    | none => rulesOf ts

/-- The rule of the first expression among some trees, blank when there is none. -/
def firstRule : List Tree → Read Rule
  | [] => return .blank
  | t :: ts => do
    match ← ruleOf? t with
    | some r => return r
    | none => firstRule ts

end

/-- The names right below a node. -/
def namesOf (children : List Tree) : List String :=
  ((Tree.tokens children).filter fun t => t.kind = .ident).map fun t => String.ofList t.text

/-- The name of a directive, without its sign. -/
def directiveName (t : Token) : String := String.ofList (t.text.dropWhile fun c => c = '@')

/-- Takes in a directive. -/
def readDirective (children : List Tree) : Read Unit := do
  match Tree.token? .directive children with
  | none => return
  | some keyword =>
    let name := directiveName keyword
    if name ∉ ["grammar", "word", "externals", "extras", "conflicts"] then
      report ((Diagnostic.ofKind .unknownDirective keyword.span).withDetail name)
      return
    match (← get).directiveSpans.find? fun entry => entry.1 = name with
    | some (_, first) =>
      report (((Diagnostic.ofKind .duplicateDirective keyword.span).withDetail name).withRelated
        "first declared here" first)
    | none => pure ()
    modify fun s => { s with directiveSpans := (name, keyword.span) :: s.directiveSpans }
    let names := namesOf children
    match name with
    | "grammar" =>
      match names.head? with
      | some given => modify fun s => { s with grammar := { s.grammar with name := given } }
      | none => return
    | "word" => modify fun s => { s with grammar := { s.grammar with word := names.head? } }
    | "externals" => modify fun s => { s with grammar := { s.grammar with externals := names } }
    | "extras" =>
      let extras ← rulesOf children
      modify fun s => { s with grammar := { s.grammar with extras := extras } }
    | _ =>
      let groups := (Tree.nodesOf .conflictGroup children).map namesOf
      modify fun s => { s with grammar := { s.grammar with conflicts := groups } }

/-- Takes in a rule. -/
def readRule (children : List Tree) : Read Unit := do
  match Tree.token? .ident children with
  | none => return
  | some token =>
    let name := String.ofList token.text
    match (← get).ruleSpans.find? fun entry => entry.1 = name with
    | some (_, first) =>
      report (((Diagnostic.ofKind .duplicateRule token.span).withDetail name).withRelated
        "first defined here" first)
    | none =>
      modify fun s => { s with ruleSpans := (name, token.span) :: s.ruleSpans }
      let body ← firstRule children
      modify fun s =>
        { s with grammar := { s.grammar with rules := s.grammar.rules ++ [(name, body)] } }

/-- Takes in the statements below the root, passing over errors. -/
def readStatements : List Tree → Read Unit
  | [] => return
  | .node .directiveDecl children :: ts => do
    readDirective children
    readStatements ts
  | .node .ruleDef children :: ts => do
    readRule children
    readStatements ts
  | _ :: ts => readStatements ts

/-- The name of a grammar that gives itself none. -/
def defaultName : String := "grammar"

/-- What is known of the grammar of a tree after its statements. -/
def meaningState : Tree → Reading
  | .leaf _ => .start defaultName
  | .node _ children => ((readStatements children).run (.start defaultName)).2

/-- The grammar of a tree, and what is wrong with it beside its form. -/
def meaning (t : Tree) : Grammar × List Diagnostic :=
  ((meaningState t).grammar, (meaningState t).reported.reverse)

/-- The names of the directives of a tree. -/
def directiveNames : Tree → List (Option String)
  | .leaf _ => []
  | .node _ children =>
    (Tree.nodesOf .directiveDecl children).map fun cs =>
      (Tree.token? .directive cs).map directiveName

/-- The names of the rules of a tree. -/
def ruleNames : Tree → List (Option String)
  | .leaf _ => []
  | .node _ children => (Tree.nodesOf .ruleDef children).map nameOf?

/-- The grammar of a parsed text. Of several errors, those that are fallout of others are left out. -/
def Parsed.grammar (parsed : Parsed) : Except GrammarError Grammar :=
  let (grammar, found) := meaning parsed.tree
  let diagnostics := parsed.diagnostics ++ found
  if Diagnostic.errorCount diagnostics = 0 then .ok grammar
  else .error (.malformedText (Diagnostic.filtered diagnostics))

end GrammarText

/-- Reads a grammar text that the program does not stop at. -/
def Grammar.ofText (source : List Char) : Except GrammarError Grammar :=
  (GrammarText.parse source).grammar

/-- Reads a grammar text. The program may stop at one that goes on behind the last offset. -/
def Grammar.ofText? (source : List Char) : Option (Except GrammarError Grammar) := do
  let parsed ← GrammarText.parse? source
  if (GrammarText.meaningState parsed.tree).isBroken then none
  return parsed.grammar

end LRWorkbench
