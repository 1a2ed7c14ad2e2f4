import LRWorkbench.Table.Basic

/-!
# External scanners and languages

Tokens that patterns cannot describe come from an external scanner. It sees the rest of the text,
a state of its own, and which of its tokens the parser could use, and reports at most one token.

A language is a parse table together with a scanner for its external tokens. It has a scanner
exactly if it has external tokens.
-/

namespace LRWorkbench

/-- The state of a scanner, which nothing else looks into. -/
abbrev ScannerState := List UInt8

/-- What a scanner reports. -/
structure ScanResult where
  /-- The token, by its place in the order the scanner counts them. -/
  token : Option Nat
  /-- How many bytes the token takes. -/
  consumed : Nat
  /-- The state to go on with if there is a token. -/
  state : ScannerState
  /-- How many bytes were looked at, the end of the text counting as one; unknown if any byte may
  have been. -/
  examined : Option Nat
  deriving DecidableEq, Repr

namespace ScanResult

/-- No token. -/
def noMatch (examined : Option Nat) : ScanResult := ⟨none, 0, [], examined⟩

end ScanResult

/-- A scanner, with the version of the interface it is made for. -/
structure ExternalScanner where
  version : Nat
  /-- Looks for a token at the start of a text, given for each token whether it is of use. -/
  scan : List Char → ScannerState → List Bool → ScanResult

namespace ExternalScanner

/-- The version of the interface. -/
def currentVersion : Nat := 1

end ExternalScanner

/-- Why a table and a scanner do not go together. -/
inductive LanguageError where
  | versionMismatch (found : Nat)
  | missingScanner (name : String)
  | unexpectedScanner (name : String)
  deriving DecidableEq, Repr

/-- The wording of an error. -/
def LanguageError.message : LanguageError → String
  | versionMismatch found =>
    "scanner ABI version " ++ toString found ++ " is incompatible with " ++
      toString ExternalScanner.currentVersion
  | missingScanner name =>
    "grammar `" ++ name ++ "` declares external tokens but no scanner was provided"
  | unexpectedScanner name =>
    "grammar `" ++ name ++ "` declares no external tokens but a scanner was provided"

/-- A table and the scanner of its external tokens. -/
structure Language (A : Type := PatternSet) [ByteAutomaton A] where
  table : ParseTable A
  scanner : Option ExternalScanner

namespace Language

variable {A : Type} [ByteAutomaton A]

/-- The language of a table without external tokens. -/
def ofTable (t : ParseTable A) : Except LanguageError (Language A) :=
  if t.parts.externalCount = 0 then .ok ⟨t, none⟩ else .error (.missingScanner t.name)

/-- The language of a table with external tokens. -/
def withScanner (t : ParseTable A) (scanner : ExternalScanner) : Except LanguageError (Language A) :=
  if scanner.version ≠ ExternalScanner.currentVersion then
    .error (.versionMismatch scanner.version)
  else if t.parts.externalCount = 0 then .error (.unexpectedScanner t.name)
  else .ok ⟨t, some scanner⟩

variable (l : Language A)

def name : String := l.table.name

/-- The form `Language { name: "x", scanner: false }`. -/
def summary : String :=
  "Language \x7b name: " ++ Text.quoted l.name.toList ++ ", scanner: " ++
    toString l.scanner.isSome ++ " \x7d"

end Language

end LRWorkbench
