import LRWorkbench.Lexing.Language
import LRWorkbench.Text.Bytes

/-!
# Scanners given by rules

- `ScannerRules.scanner` is a scanner that a list of rules describes: each looks for a fixed text
  and maybe for a second one that ends the token, and the first rule that applies wins;
- `heredoc` is the scanner of texts that run from `<<TAG` to the next line that begins with the
  tag. It counts its tokens in its state.
-/

namespace LRWorkbench

/-- How a scanner tells what it looked at. -/
inductive Examined where
  /-- What it consumed. -/
  | consumed
  /-- All of the text and its end. -/
  | all
  | bytes (count : Nat)
  /-- It does not tell. -/
  | unknown
  deriving DecidableEq, Repr

/-- The bytes looked at, given how many were consumed and how long the text is. -/
def Examined.count (consumed length : Nat) : Examined → Option Nat
  | .consumed => some consumed
  | .all => some (length + 1)
  | .bytes count => some count
  | .unknown => none

/-- A rule of a scanner. -/
structure ScannerRule where
  /-- The state that the rule applies in, if not in all. -/
  inState : Option ScannerState
  /-- What the text begins with. -/
  text : List Char
  /-- What ends the token, if not the beginning alone. -/
  until? : Option (List Char)
  token : Nat
  /-- How many bytes the token claims to take, if not what was found. -/
  claims : Option Nat
  /-- The next state, if it changes. -/
  newState : Option ScannerState
  examined : Examined
  deriving DecidableEq, Repr

/-- A scanner described by rules. -/
structure ScannerRules where
  version : Nat
  /-- Whether only tokens of use are reported. -/
  respectsValid : Bool
  rules : List ScannerRule
  /-- What it tells to have looked at when no rule applies. -/
  onNoMatch : Examined
  deriving DecidableEq, Repr

namespace ScannerRule

/-- The length of what a rule finds at the start of a text. -/
def find? (r : ScannerRule) (input : List Char) : Option Nat :=
  match Text.dropPrefix? r.text input with
  | none => none
  | some rest =>
    match r.until? with
    | none => some (Text.byteLength r.text)
    | some stop =>
      (Text.splitAtFirst? stop rest).map fun (front, _) =>
        Text.byteLength r.text + Text.byteLength front + Text.byteLength stop

/-- What a rule reports, if it applies. -/
def outcome? (r : ScannerRule) (respectsValid : Bool) (input : List Char) (state : ScannerState)
    (valid : List Bool) : Option ScanResult :=
  if r.inState.isSome && r.inState ≠ some state then none
  else if respectsValid && !(valid[r.token]?).getD false then none
  else
    (r.find? input).map fun length =>
      let consumed := r.claims.getD length
      ⟨some r.token, consumed, r.newState.getD state,
        r.examined.count consumed (Text.byteLength input)⟩

end ScannerRule

namespace ScannerRules

/-- The scanner that some rules describe. -/
def scanner (rules : ScannerRules) : ExternalScanner where
  version := rules.version
  scan input state valid :=
    (rules.rules.findSome? fun r => r.outcome? rules.respectsValid input state valid).getD
      (.noMatch (rules.onNoMatch.count 0 (Text.byteLength input)))

end ScannerRules

/-- The state after one more text: its first byte counts them. -/
def countOne (state : ScannerState) : ScannerState := [state.head?.getD 0 + 1]

/-- Looks for a text from `<<TAG` to the next line that begins with the tag. -/
def scanHeredoc (input : List Char) (state : ScannerState) : ScanResult :=
  let length := Text.byteLength input
  match Text.dropPrefix? ['<', '<'] input with
  | none => .noMatch (some (min 2 (length + 1)))
  | some rest =>
    let (tag, body) := Text.spanChars (fun c => 'A' ≤ c && c ≤ 'Z') rest
    if tag.isEmpty then .noMatch (some (min 3 (length + 1)))
    else
      match Text.splitAtFirst? ('\n' :: tag) body with
      | none => .noMatch (some (length + 1))
      | some (front, _) =>
        let consumed := 2 + Text.byteLength tag + Text.byteLength front + 1 + Text.byteLength tag
        ⟨some 0, consumed, countOne state, some consumed⟩

/-- The scanner of such texts. -/
def heredoc : ExternalScanner where
  version := ExternalScanner.currentVersion
  scan input state _ := scanHeredoc input state

end LRWorkbench
