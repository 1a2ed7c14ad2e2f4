import LRWorkbench.Diagnostic.Basic

/-!
# Why a grammar is refused

One constructor for each cause, from a malformed description to conflicts of the parse table that
no precedence settles. `GrammarError.message` words them.
-/

namespace LRWorkbench

/-- The two ways in which the parse table may be undecided. -/
inductive ConflictKind where
  | shiftReduce
  | reduceReduce
  deriving DecidableEq, Repr

/-- The name of a kind of conflict. -/
def ConflictKind.text : ConflictKind → String
  | .shiftReduce => "shift/reduce"
  | .reduceReduce => "reduce/reduce"

/-- Why a grammar cannot be read or compiled. -/
inductive GrammarError where
  /-- The grammar text itself is malformed. -/
  | malformedText (diagnostics : List Diagnostic)
  | undefinedSymbol (rule symbol : String)
  /-- No token sequence is derived from the rule. -/
  | underivable (rule : String)
  | duplicateTerminal (first second : String)
  | duplicateRule (name : String)
  | emptyToken (name : String)
  | invalidPattern (name : String)
  | unsupported (construct : String)
  | conflict (state : Nat) (symbol : String) (kind : ConflictKind) (description : String)
  | noRules
  | tooManySymbols (count : Nat)
  | malformedJson
  | malformedBinary
  deriving Repr

/-- The wording of an error. -/
def GrammarError.message : GrammarError → String
  | .malformedText ds => "grammar source has " ++ toString (Diagnostic.errorCount ds) ++ " error(s)"
  | .undefinedSymbol rule symbol =>
    "rule `" ++ rule ++ "` references undefined symbol `" ++ symbol ++ "`"
  | .underivable rule => "rule `" ++ rule ++ "` cannot derive any token sequence"
  | .duplicateTerminal first second => "token `" ++ second ++ "` duplicates `" ++ first ++ "`"
  | .duplicateRule name => "rule `" ++ name ++ "` is defined more than once"
  | .emptyToken name => "token `" ++ name ++ "` matches the empty string"
  | .invalidPattern name => "invalid pattern for `" ++ name ++ "`"
  | .unsupported construct => "unsupported grammar construct: " ++ construct
  | .conflict state symbol kind description =>
    "unresolved " ++ kind.text ++ " conflict in state " ++ toString state ++ " on `" ++ symbol ++
      "`:\n" ++ description
  | .noRules => "grammar has no rules"
  | .tooManySymbols count => "grammar defines too many symbols (" ++ toString count ++ ")"
  | .malformedJson => "malformed grammar document"
  | .malformedBinary => "malformed binary grammar"

end LRWorkbench
