import LRWorkbench.Grammar.Basic
import LRWorkbench.Grammar.Error
import LRWorkbench.Regex.Parser

/-!
# The pattern of a token rule

`Rule.tokenPattern` turns the rule of a token into one regular expression and a precedence. It
refuses rules that refer to others or name fields, malformed patterns, and patterns that the
empty text matches.
-/

namespace LRWorkbench

namespace Rule

/-- Whether the pattern of a rule is one group, so that it can be repeated as it stands. -/
def isGrouped : Rule → Bool
  | pattern _ _ | choice _ => true
  | token content | prec _ _ content => content.isGrouped
  | _ => false

mutual

/-- The first level of precedence that is written in a rule. -/
def firstLevel? : Rule → Option Int
  | prec _ level _ => some level
  | seq members | choice members => firstLevelOf? members
  | zeroOrMore content | oneOrMore content | token content | field _ content => firstLevel? content
  | blank | literal _ | pattern _ _ | reference _ => none

/-- The first level of precedence that is written in some rules. -/
def firstLevelOf? : List Rule → Option Int
  | [] => none
  | r :: rs => (firstLevel? r).or (firstLevelOf? rs)

end

/-- A pattern with its flags: `i` ignores case and `u` is always on. -/
def flaggedPattern (owner value : String) (flags : List Char) : Except GrammarError String :=
  match flags.find? fun f => f ≠ 'i' && f ≠ 'u' with
  | some f =>
    .error (.unsupported ("regex flag `" ++ f.toString ++ "` in token `" ++ owner ++ "`"))
  | none => .ok ((if 'i' ∈ flags then "(?i:" else "(?:") ++ value ++ ")")

mutual

/-- The regular expression of a token rule, as text. -/
def patternText (owner : String) : Rule → Except GrammarError String
  | blank => .ok ""
  | literal text => .ok (String.ofList (Regex.escapeText text.toList))
  | pattern value flags => flaggedPattern owner value (flags.getD "").toList
  | seq members => do
    let parts ← patternTexts owner members
    return String.join (parts.map fun part => "(?:" ++ part ++ ")")
  | choice members => do
    let parts ← patternTexts owner members
    return "(?:" ++ "|".intercalate parts ++ ")"
  | zeroOrMore content => do
    let part ← patternText owner content
    return (if content.isGrouped then part else "(?:" ++ part ++ ")") ++ "*"
  | oneOrMore content => do
    let part ← patternText owner content
    return (if content.isGrouped then part else "(?:" ++ part ++ ")") ++ "+"
  | token content | prec _ _ content => patternText owner content
  | reference name =>
    .error (.unsupported ("rule reference `" ++ name ++ "` inside token `" ++ owner ++ "`"))
  | field name _ =>
    .error (.unsupported ("field `" ++ name ++ "` inside token `" ++ owner ++ "`"))

/-- The regular expressions of several token rules. -/
def patternTexts (owner : String) : List Rule → Except GrammarError (List String)
  | [] => .ok []
  | r :: rs => do
    let part ← patternText owner r
    let parts ← patternTexts owner rs
    return part :: parts

end

/-- The regular expression and the precedence of a token rule. The owner's name is for errors. -/
def tokenPattern (r : Rule) (owner : String) : Except GrammarError (String × Int) := do
  let text ← r.patternText owner
  match Regex.parse? text.toList with
  | none => .error (.invalidPattern owner)
  | some regex =>
    if regex.minLength = some 0 then .error (.emptyToken owner)
    else .ok (text, r.firstLevel?.getD 0)

end Rule

end LRWorkbench
