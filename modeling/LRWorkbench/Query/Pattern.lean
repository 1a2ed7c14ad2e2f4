import LRWorkbench.Query.Syntax
import LRWorkbench.Table.Basic

/-!
# Queries

A query is a list of patterns whose names are known to a parse table: kinds are symbols, fields
are numbers, and captures are places in the list of the query's capture names.

`Query.ofText` reads a query. Every name that the table does not know is reported, and a query is
only made when nothing was reported, so that no part of what was written can get lost.
-/

namespace LRWorkbench

namespace Query

mutual

/-- What a pattern asks for. -/
inductive PatternForm where
  /-- A named node, of some kind if one is given, that has some children and no child in some
  fields. -/
  | node (symbol : Option Symbol) (children : List ChildPattern) (negated : List FieldId)
  /-- Any node. -/
  | wildcard
  /-- A node without a name, of some kind. -/
  | anonymous (symbol : Symbol)
  /-- What one of several patterns asks for. -/
  | choice (alternatives : List Pattern)

/-- A pattern and the captures that its node is bound to. -/
inductive Pattern where
  | mk (form : PatternForm) (captures : List Nat)

/-- A pattern for a child, which may have to fill a field. -/
inductive ChildPattern where
  | mk (field : Option FieldId) (pattern : Pattern) (quantifier : Quantifier)

end

deriving instance Repr for PatternForm, Pattern, ChildPattern
deriving instance Inhabited for PatternForm, Pattern, ChildPattern

def ChildPattern.quantifier : ChildPattern → Quantifier
  | mk _ _ quantifier => quantifier

end Query

/-- A list of patterns and the names of their captures. -/
structure Query where
  patterns : List Query.Pattern
  captureNames : List String
  deriving Repr, Inhabited

namespace Query

/-- The place of a capture among the names. -/
def captureIndex? (q : Query) (name : String) : Option Nat :=
  q.captureNames.findIdx? fun other => other = name

/-! ### Looking names up -/

/-- What is known while names are looked up. -/
structure Naming where
  /-- The capture names that came up, in the order of their first use. -/
  captureNames : List String
  /-- The diagnostics so far, the latest first. -/
  reported : List Diagnostic

/-- A step of looking names up. -/
abbrev Resolve (α : Type) := StateM Naming α

namespace Resolve

def report (d : Diagnostic) : Resolve Unit := modify fun s => { s with reported := d :: s.reported }

/-- The place of a capture's name, which is new if the name is. -/
def capture (name : Name) : Resolve Nat := do
  let names := (← get).captureNames
  match names.findIdx? fun other => other = name.text with
  | some index => return index
  | none =>
    modify fun s => { s with captureNames := s.captureNames ++ [name.text] }
    return names.length

variable (t : ParseTable)

/-- The symbol of a named kind that trees show. -/
def named (name : Name) : Resolve (Option Symbol) := do
  match t.symbolFor? name.text true with
  | none =>
    report ((Diagnostic.ofKind .unknownNodeKind name.span).withDetail name.text)
    return none
  | some symbol =>
    if t.isVisible symbol then return some symbol
    else
      report ((Diagnostic.ofKind .hiddenNodeKind name.span).withDetail name.text)
      return none

/-- The symbol of a kind that has no name, by its text. -/
def anonymous (text : Name) : Resolve (Option Symbol) := do
  match t.symbolFor? text.text false with
  | none =>
    report ((Diagnostic.ofKind .unknownNodeKind text.span).withDetail
      (Text.quoted text.text.toList))
    return none
  | some symbol => return some symbol

def field (name : Name) : Resolve (Option FieldId) := do
  match t.fieldFor? name.text with
  | none =>
    report ((Diagnostic.ofKind .unknownField name.span).withDetail name.text)
    return none
  | some field => return some field

/-- The kind that a node has to be of: any one, errors, or one with a name. Errors are asked for
without children and fields. -/
def kind (span : Span) (name : Option Name) (isBare : Bool) :
    Resolve (Option (Option Symbol)) := do
  match name with
  | none => return some none
  | some name =>
    if name.text ≠ "ERROR" then return (← named t name).map some
    else if isBare then return some (some .error)
    else
      report (.ofKind .errorTakesNoChildren span)
      return none

mutual

/-- A pattern with its names looked up. Its captures are numbered behind those inside it, and
even if it cannot be used. -/
def pattern : PatternSyntax → Resolve (Option Pattern)
  | .mk written captures span => do
    let found ← form span written
    let captures ← captures.mapM capture
    return found.map fun form => .mk form captures

/-- What the pattern at a span asks for, with its names looked up. -/
def form (span : Span) : FormSyntax → Resolve (Option PatternForm)
  | .wildcard => return some .wildcard
  | .text text => return (← anonymous t text).map .anonymous
  | .choice alternatives => return (← allPatterns alternatives).map .choice
  | .node name children negated => do
    match ← kind t span name (children.isEmpty && negated.isEmpty) with
    | none => return none
    | some symbol =>
      let found ← allChildren children
      let negated ← negated.filterMapM (field t)
      return found.map fun children => .node symbol children negated

/-- All of several patterns, unless one of them cannot be used. -/
def allPatterns : List PatternSyntax → Resolve (Option (List Pattern))
  | [] => return some []
  | p :: rest => do
    let first ← pattern p
    let others ← allPatterns rest
    return first.bind fun first => others.map (first :: ·)

/-- A pattern for a child with its names looked up. -/
def child : ChildSyntax → Resolve (Option ChildPattern)
  | .mk name p quantifier => do
    match name with
    | none => return (← pattern p).map fun p => .mk none p quantifier
    | some name =>
      let field ← field t name
      let found ← pattern p
      return field.bind fun field => found.map fun p => .mk (some field) p quantifier

/-- All of several patterns for children, unless one of them cannot be used. -/
def allChildren : List ChildSyntax → Resolve (Option (List ChildPattern))
  | [] => return some []
  | c :: rest => do
    let first ← child c
    let others ← allChildren rest
    return first.bind fun first => others.map (first :: ·)

end

end Resolve

/-- Reads a query, or says what is wrong with it. -/
def ofText (t : ParseTable) (source : List Char) : Except (List Diagnostic) Query :=
  let (written, wrong) := parse source
  let (patterns, naming) := (written.filterMapM (Resolve.pattern t)).run ⟨[], []⟩
  let reported := wrong ++ naming.reported.reverse
  if reported.any Diagnostic.isError then .error (Diagnostic.filtered reported)
  else .ok ⟨patterns, naming.captureNames⟩

end Query

end LRWorkbench
