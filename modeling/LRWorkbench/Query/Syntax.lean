import LRWorkbench.Diagnostic.Basic
import LRWorkbench.Query.Token

/-!
# The form of queries

    query       = pattern*
    pattern     = ("(" (ID | "_") member* ")" | "[" pattern+ "]" | STRING | "_") CAPTURE*
    member      = (ID ":")? pattern quantifier? | "!" ID
    quantifier  = ("?" | "*" | "+") CAPTURE*

Reading a query never stops at the first problem: what cannot be used is reported and skipped.
-/

namespace LRWorkbench.Query

open Diagnostic (Kind)

/-- A name and where it is written. -/
structure Name where
  text : String
  span : Span
  deriving DecidableEq, Repr, Inhabited

/-- How often a child may occur. -/
inductive Quantifier where
  | one
  | optional
  | zeroOrMore
  | oneOrMore
  deriving DecidableEq, Repr, Inhabited

mutual

/-- What a pattern asks for. -/
inductive FormSyntax where
  /-- A node of a kind, or any named node, with some children and without some fields. -/
  | node (kind : Option Name) (children : List ChildSyntax) (negated : List Name)
  /-- Any node. -/
  | wildcard
  /-- A token by its text. -/
  | text (text : Name)
  /-- One of several patterns. -/
  | choice (alternatives : List PatternSyntax)

/-- A pattern as it is written. -/
inductive PatternSyntax where
  | mk (form : FormSyntax) (captures : List Name) (span : Span)

/-- A pattern for a child. -/
inductive ChildSyntax where
  | mk (field : Option Name) (pattern : PatternSyntax) (quantifier : Quantifier)

end

deriving instance Repr for FormSyntax, PatternSyntax, ChildSyntax
deriving instance Inhabited for FormSyntax, PatternSyntax, ChildSyntax

/-- Adds captures behind those that a pattern has. -/
def PatternSyntax.addCaptures (more : List Name) : PatternSyntax → PatternSyntax
  | mk form captures span => mk form (captures ++ more) span

/-- What the reader of a query has in hand. -/
structure ReadState where
  /-- The tokens that are not read yet. -/
  rest : List Token
  /-- Where the latest token that was read stands. -/
  last : Span
  /-- The diagnostics so far, the latest first. -/
  reported : List Diagnostic
  /-- The length of the query. -/
  stop : Nat

/-- A step of the reader. -/
abbrev Read (α : Type) := StateM ReadState α

namespace Read

/-! ### Steps -/

/-- The next token. -/
def peek? : Read (Option Token) := return (← get).rest.head?

/-- Whether the next token is of a kind. -/
def isAt (kind : TokenKind) : Read Bool := return (← peek?).any fun t => t.kind = kind

/-- Whether the token after the next one is of a kind. -/
def nextIs (kind : TokenKind) : Read Bool :=
  return ((← get).rest[1]?).any fun t => t.kind = kind

/-- Reads a token. -/
def bump : Read Unit := modify fun s =>
  match s.rest with
  | [] => s
  | t :: rest => { s with rest := rest, last := t.span }

/-- Reports a diagnostic. -/
def report (d : Diagnostic) : Read Unit := modify fun s => { s with reported := d :: s.reported }

/-- Reports that a token cannot stand where it does. -/
def unexpected (t : Token) : Read Unit :=
  report ((Diagnostic.ofKind .unexpectedToken t.span).withDetail
    ("`" ++ String.ofList t.text ++ "`"))

/-- Reports an opening sign that is never closed. -/
def unclosed (kind : Kind) (opener : Token) : Read Unit := do
  report ((Diagnostic.ofKind kind opener.span).withRelated "never closed"
    (.emptyAt (← get).stop))

/-- The name that a token spells. -/
def nameOf (t : Token) : Name := ⟨String.ofList t.text, t.span⟩

/-- The name in a capture, without its at sign. -/
def captureOf (t : Token) : Name := ⟨String.ofList (t.text.drop 1), t.span⟩

/-- The value of the inside of a string, and the characters after backslashes that mean nothing
there. -/
def unescape : List Char → List Char × List Char
  | [] => ([], [])
  | '\\' :: c :: rest =>
    let (value, wrong) := unescape rest
    if c = 'n' then ('\n' :: value, wrong)
    else if c = 't' then ('\t' :: value, wrong)
    else if c = 'r' then ('\r' :: value, wrong)
    else if c = '\\' ∨ c = '"' then (c :: value, wrong)
    else (value, c :: wrong)
  | c :: rest =>
    let (value, wrong) := unescape rest
    (c :: value, wrong)

/-- The text that a string stands for; wrong escapes are reported. -/
def stringOf (t : Token) : Read (Option Name) := do
  let (value, wrong) := unescape ((t.text.drop 1).dropLast)
  wrong.forM fun c =>
    report ((Diagnostic.ofKind .invalidEscape t.span).withDetail
      ("`" ++ String.ofList ['\\', c] ++ "`"))
  return if wrong.isEmpty then some ⟨String.ofList value, t.span⟩ else none

/-- The captures that follow, a number of tokens at most. At signs alone are reported. -/
def captures : Nat → Read (List Name)
  | 0 => return []
  | fuel + 1 => do
    match ← peek? with
    | none => return []
    | some t =>
      if t.kind = .capture then
        bump
        let more ← captures fuel
        return captureOf t :: more
      else if t.kind = .atSign then
        bump
        report (.ofKind .expectedCaptureName t.span)
        captures fuel
      else return []

/-- The captures that follow directly, a number of tokens at most. -/
def plainCaptures : Nat → Read (List Name)
  | 0 => return []
  | fuel + 1 => do
    match ← peek? with
    | none => return []
    | some t =>
      if t.kind = .capture then
        bump
        let more ← plainCaptures fuel
        return captureOf t :: more
      else return []

/-- The quantifier that follows, if there is one. -/
def quantifier : Read Quantifier := do
  if ← isAt .question then
    bump
    return .optional
  else if ← isAt .star then
    bump
    return .zeroOrMore
  else if ← isAt .plus then
    bump
    return .oneOrMore
  else return .one

/-- A bound on the tokens that can still be read. -/
def room : Read Nat := return (← get).rest.length

/-- The kind of a node, right after its parenthesis. -/
def nodeKind (t : Token) : Read (Option Name) := do
  if t.kind = .underscore then
    bump
    return none
  else if t.kind = .ident then
    bump
    return some (nameOf t)
  else
    report ((Diagnostic.ofKind .expectedName t.span).withDetail "node kind or `_` after `(`")
    return none

/-- The name of a field that must not be there, after its sign. -/
def negatedField (bang : Token) : Read (List Name) := do
  match ← peek? with
  | some t =>
    if t.kind = .ident then
      bump
      return [nameOf t]
    else
      report (.ofKind .expectedFieldName bang.span)
      return []
  | none =>
    report (.ofKind .expectedFieldName bang.span)
    return []

/-! ### Patterns -/

mutual

/-- One pattern with its captures. -/
def pattern (fuel : Nat) : Read (Option PatternSyntax) := do
  match fuel with
  | 0 => return none
  | fuel + 1 =>
    match ← peek? with
    | none => return none
    | some t =>
      bump
      let form ← form fuel t
      let last := (← get).last
      let names ← captures (← room)
      let stop := (names.getLast?.map (·.span)).getD last
      return form.map fun form => .mk form names (t.span.cover stop)

/-- What a pattern asks for, given its first token, which has been read. -/
def form (fuel : Nat) (t : Token) : Read (Option FormSyntax) := do
  match fuel with
  | 0 => return none
  | fuel + 1 =>
    match t.kind with
    | .parenOpen => node fuel t
    | .bracketOpen => choice fuel t
    | .underscore => return some .wildcard
    | .stringLiteral => return (← stringOf t).map .text
    | .unterminatedString =>
      report (.ofKind .unterminatedString t.span)
      return none
    | .ident =>
      let name := String.ofList t.text
      report (((Diagnostic.ofKind .expectedPattern t.span).withDetail
        ("node kinds are written in parentheses, found `" ++ name ++ "`")).withFix
        ("wrap in parentheses: `(" ++ name ++ ")`") ("(" ++ name ++ ")"))
      return none
    | .capture | .atSign =>
      report ((Diagnostic.ofKind .expectedPattern t.span).withDetail
        "a capture must follow a pattern")
      return none
    | _ =>
      unexpected t
      return none

/-- The rest of a node after its opening parenthesis. -/
def node (fuel : Nat) (opener : Token) : Read (Option FormSyntax) := do
  match fuel with
  | 0 => return none
  | fuel + 1 =>
    match ← peek? with
    | none =>
      report (.ofKind .unclosedParen opener.span)
      return none
    | some t =>
      let kind ← nodeKind t
      let (children, negated) ← members fuel opener
      return some (.node kind children negated)

/-- The members of a node up to its closing parenthesis. -/
def members (fuel : Nat) (opener : Token) : Read (List ChildSyntax × List Name) := do
  match fuel with
  | 0 => return ([], [])
  | fuel + 1 =>
    match ← peek? with
    | none =>
      unclosed .unclosedParen opener
      return ([], [])
    | some t =>
      match t.kind with
      | .parenClose =>
        bump
        return ([], [])
      | .bang =>
        bump
        let name ← negatedField t
        let (children, negated) ← members fuel opener
        return (children, name ++ negated)
      | .colon =>
        bump
        report (.ofKind .expectedFieldName t.span)
        members fuel opener
      | .question | .star | .plus =>
        bump
        report (.ofKind .quantifierWithoutTarget t.span)
        members fuel opener
      | _ =>
        let hasField := t.kind = .ident && (← nextIs .colon)
        if hasField then
          bump
          bump
        let first ← child fuel (if hasField then some (nameOf t) else none)
        let (children, negated) ← members fuel opener
        return (first.toList ++ children, negated)

/-- A pattern for a child with its quantifier. -/
def child (fuel : Nat) (field : Option Name) : Read (Option ChildSyntax) := do
  match fuel with
  | 0 => return none
  | fuel + 1 =>
    match ← pattern fuel with
    | none => return none
    | some p =>
      let often ← quantifier
      let more ← if often = .one then pure [] else plainCaptures (← room)
      return some (.mk field (p.addCaptures more) often)

/-- The rest of a choice after its opening bracket. -/
def choice (fuel : Nat) (opener : Token) : Read (Option FormSyntax) := do
  match fuel with
  | 0 => return none
  | fuel + 1 =>
    let found ← alternatives fuel opener
    if found.isEmpty then
      report ((Diagnostic.ofKind .expectedPattern opener.span).withDetail "empty alternation")
      return none
    else return some (.choice found)

/-- The alternatives of a choice up to its closing bracket. -/
def alternatives (fuel : Nat) (opener : Token) : Read (List PatternSyntax) := do
  match fuel with
  | 0 => return []
  | fuel + 1 =>
    match ← peek? with
    | none =>
      unclosed .unclosedBracket opener
      return []
    | some t =>
      match t.kind with
      | .bracketClose =>
        bump
        return []
      | .parenClose =>
        bump
        report ((Diagnostic.ofKind .unexpectedToken t.span).withDetail "`)` inside `[...]`")
        alternatives fuel opener
      | _ =>
        let first ← pattern fuel
        let more ← alternatives fuel opener
        return first.toList ++ more

end

/-- All patterns of a query, a number of tokens at most. -/
def patterns (fuel : Nat) : Nat → Read (List PatternSyntax)
  | 0 => return []
  | tokens + 1 => do
    match ← peek? with
    | none => return []
    | some t =>
      match t.kind with
      | .question | .star | .plus =>
        bump
        report ((Diagnostic.ofKind .quantifierWithoutTarget t.span).withHint
          "quantifiers apply to child patterns")
        patterns fuel tokens
      | .parenClose | .bracketClose =>
        bump
        unexpected t
        patterns fuel tokens
      | _ =>
        let first ← pattern fuel
        let more ← patterns fuel tokens
        return first.toList ++ more

end Read

/-- The patterns of a query and what is wrong with it. Of five calls in a row at least one reads a
token, which bounds their depth. -/
def parse (source : List Char) : List PatternSyntax × List Diagnostic :=
  let tokens := lex source
  let (found, s) := (Read.patterns (5 * tokens.length + 5) tokens.length).run
    ⟨tokens, .emptyAt 0, [], Text.byteLength source⟩
  (found, s.reported.reverse)

end LRWorkbench.Query
