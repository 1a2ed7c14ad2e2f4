import LRWorkbench.Text.Bytes

/-!
# Diagnostics

A diagnostic points at a span of a text and says what is wrong there. It may suggest a
replacement for the span, point at related spans, and carry hints.

- `Diagnostic.Kind` tells what can be wrong with a grammar text or a tree query. **Declaration order
  is priority order**: of two diagnostics that collide, the one whose kind is declared earlier is the
  interesting one (`Diagnostic.Kind.priority`);
- `Diagnostic.line` prints a diagnostic on a line of its own;
- `Diagnostic.filtered` drops those that are probably fallout of another one.
-/

namespace LRWorkbench.Diagnostic

/-- What went wrong. -/
inductive Kind where
  | unclosedParen
  | unclosedBracket
  | unterminatedString
  | unterminatedPattern
  | expectedExpression
  | expectedName
  | expectedInteger
  | expectedPattern
  | expectedCaptureName
  | expectedFieldName
  | missingSemicolon
  | missingEquals
  | unknownDirective
  | invalidEscape
  | invalidPrecedence
  | errorTakesNoChildren
  | quantifierWithoutTarget
  | unexpectedToken
  | duplicateRule
  | duplicateDirective
  | unknownNodeKind
  | hiddenNodeKind
  | unknownField
  deriving DecidableEq, Repr, Inhabited

/-- How bad a diagnostic is. -/
inductive Severity where
  | error
  | warning
  deriving DecidableEq, Repr

/-- A coarse grouping of kinds, for diagnostics at one place. -/
inductive Cause where
  /-- A delimiter or literal that never closed; usually a symptom of something else. -/
  | unclosed
  /-- Something required is absent. -/
  | missing
  | other
  deriving DecidableEq, Repr

/-- The word for a severity. -/
def Severity.text : Severity → String
  | .error => "error"
  | .warning => "warning"

namespace Kind

/-- All kinds in the order of priority. -/
def all : List Kind :=
  [unclosedParen, unclosedBracket, unterminatedString, unterminatedPattern, expectedExpression,
    expectedName, expectedInteger, expectedPattern, expectedCaptureName, expectedFieldName,
    missingSemicolon, missingEquals, unknownDirective, invalidEscape, invalidPrecedence,
    errorTakesNoChildren, quantifierWithoutTarget, unexpectedToken, duplicateRule,
    duplicateDirective, unknownNodeKind, hiddenNodeKind, unknownField]

theorem mem_all (k : Kind) : k ∈ all := by cases k <;> decide

/-- The place of a kind in the order of priority; lower wins. -/
def priority (k : Kind) : Nat := k.ctorIdx

/-- The group a kind belongs to. -/
def cause : Kind → Cause
  | unclosedParen | unclosedBracket | unterminatedString | unterminatedPattern => .unclosed
  | expectedExpression | expectedName | expectedInteger | expectedPattern
  | expectedCaptureName | expectedFieldName => .missing
  | _ => .other

/-- A directive given twice is a warning, all else an error. -/
def severity : Kind → Severity
  | duplicateDirective => .warning
  | _ => .error

/-- The message of a diagnostic without details. -/
def title : Kind → String
  | unclosedParen => "missing closing `)`"
  | unclosedBracket => "missing closing `]`"
  | unterminatedString => "unterminated string"
  | unterminatedPattern => "unterminated regex"
  | expectedExpression => "expected an expression"
  | expectedName => "expected a name"
  | expectedInteger => "expected an integer"
  | expectedPattern => "expected a pattern"
  | expectedCaptureName => "expected capture name"
  | expectedFieldName => "expected field name"
  | missingSemicolon => "missing `;`"
  | missingEquals => "expected `=` after rule name"
  | unknownDirective => "unknown directive"
  | invalidEscape => "invalid escape sequence"
  | invalidPrecedence => "precedence value out of range"
  | errorTakesNoChildren => "`(ERROR)` cannot have children"
  | quantifierWithoutTarget => "quantifier has no target"
  | unexpectedToken => "unexpected token"
  | duplicateRule => "duplicate rule"
  | duplicateDirective => "directive declared more than once"
  | unknownNodeKind => "unknown node kind"
  | hiddenNodeKind => "hidden node kind"
  | unknownField => "unknown field"

/-- The message of a diagnostic with a detail: kinds about a name quote it, the others append it
to their title. -/
def describe (k : Kind) (detail : String) : String :=
  match k with
  | duplicateRule => "`" ++ detail ++ "` is already defined"
  | duplicateDirective => "`@" ++ detail ++ "` declared more than once; the last one wins"
  | unknownNodeKind => "`" ++ detail ++ "` is not a valid node kind"
  | hiddenNodeKind => "`" ++ detail ++ "` is hidden and cannot be matched"
  | unknownField => "`" ++ detail ++ "` is not a valid field"
  | unknownDirective => "unknown directive `@" ++ detail ++ "`"
  | _ =>
    match k.cause with
    | .unclosed => k.title ++ "; " ++ detail
    | _ => k.title ++ ": " ++ detail

/-- Advice that goes with every diagnostic of a kind. -/
def hint? : Kind → Option String
  | unknownDirective =>
    some "directives are `@grammar`, `@extras`, `@externals`, `@word` and `@conflicts`"
  | hiddenNodeKind => some "rules starting with `_` never appear in syntax trees"
  | errorTakesNoChildren => some "match the error node alone: `(ERROR)`"
  | _ => none

end Kind

end LRWorkbench.Diagnostic

namespace LRWorkbench

namespace Diagnostic

/-- A suggested replacement for the span a diagnostic points at. -/
structure Fix where
  description : String
  replacement : String
  deriving DecidableEq, Repr

/-- A second place that explains a diagnostic. -/
structure Related where
  span : Span
  message : String
  deriving DecidableEq, Repr

end Diagnostic

/-- Something wrong at a span of a text. -/
structure Diagnostic where
  kind : Diagnostic.Kind
  span : Span
  message : String
  fix : Option Diagnostic.Fix
  related : List Diagnostic.Related
  hints : List String
  deriving DecidableEq, Repr, Inhabited

namespace Diagnostic

/-- A diagnostic with the title of its kind as its message. -/
def ofKind (kind : Kind) (span : Span) : Diagnostic where
  kind := kind
  span := span
  message := kind.title
  fix := none
  related := []
  hints := kind.hint?.toList

/-- Puts a detail into the message. -/
def withDetail (d : Diagnostic) (detail : String) : Diagnostic :=
  { d with message := d.kind.describe detail }

/-- Adds a related span. -/
def withRelated (d : Diagnostic) (message : String) (span : Span) : Diagnostic :=
  { d with related := d.related ++ [⟨span, message⟩] }

/-- Suggests a replacement. -/
def withFix (d : Diagnostic) (description replacement : String) : Diagnostic :=
  { d with fix := some ⟨description, replacement⟩ }

/-- Adds a hint. -/
def withHint (d : Diagnostic) (hint : String) : Diagnostic :=
  { d with hints := d.hints ++ [hint] }

def severity (d : Diagnostic) : Severity := d.kind.severity

def isError (d : Diagnostic) : Bool := d.severity = .error

/-- The number of errors in a list of diagnostics. -/
def errorCount (ds : List Diagnostic) : Nat := ds.countP isError

/-- The form `start..stop` of a span. -/
def spanText (s : Span) : String := toString s.start ++ ".." ++ toString s.stop

/-- The form `error at 3..7: message (fix: ..) (related: .. at a..b) (hint: ..)`. -/
def line (d : Diagnostic) : String :=
  d.severity.text ++ " at " ++ spanText d.span ++ ": " ++ d.message ++
    (match d.fix with
      | some fix => " (fix: " ++ fix.description ++ ")"
      | none => "") ++
    String.join (d.related.map fun r =>
      " (related: " ++ r.message ++ " at " ++ spanText r.span ++ ")") ++
    String.join (d.hints.map fun hint => " (hint: " ++ hint ++ ")")

/-- Several diagnostics, a line each. -/
def lines (ds : List Diagnostic) : String := "\n".intercalate (ds.map line)

/-! ### Which diagnostics matter -/

/-- Whether `a` makes `b` redundant. A span that begins inside another one and does not outlast
it is explained by a kind of higher priority. At one start, a missing piece explains an unclosed
delimiter, and otherwise the higher priority wins. -/
def shadows (a b : Diagnostic) : Bool :=
  if a.span.start < b.span.start ∧ b.span.stop ≤ a.span.stop then
    a.kind.priority < b.kind.priority
  else if a.span.start ≠ b.span.start then false
  else
    match a.kind.cause, b.kind.cause with
    | .missing, .unclosed => true
    | .unclosed, .missing => false
    | _, _ => a.kind.priority < b.kind.priority

/-- The diagnostics of a list that `d` does not make redundant. -/
def unshadowed (d : Diagnostic) (ds : List Diagnostic) : List Diagnostic :=
  ds.filter fun b => !shadows d b

theorem length_unshadowed_le (d : Diagnostic) (ds : List Diagnostic) :
    (unshadowed d ds).length ≤ ds.length :=
  List.length_filter_le _ _

/-- Lets each diagnostic in turn, if it still stands, strike out all it shadows, both those
already passed and those to come. -/
def sweep (passed : List Diagnostic) : List Diagnostic → List Diagnostic
  | [] => passed
  | d :: todo => sweep (unshadowed d passed ++ [d]) (unshadowed d todo)
termination_by todo => todo.length
decreasing_by exact Nat.lt_succ_of_le (length_unshadowed_le _ _)

/-- The diagnostics that are not fallout of another one, in their order. -/
def filtered (ds : List Diagnostic) : List Diagnostic := sweep [] ds

end Diagnostic

end LRWorkbench
