import LRWorkbench.Grammar.Basic
import LRWorkbench.Grammar.Error
import LRWorkbench.Graph.Reach

/-!
# The names of a grammar

- `Grammar.checkNames` refuses a grammar whose names do not fit together: each name is defined
  once, all that is referred to is defined, phrases start the grammar and a token is its word;
- `Grammar.usedRules` lists the rules that something refers to, directly or not. A text that
  stands in a phrase refers to the token rule that is just that text.
-/

namespace LRWorkbench

namespace Rule

/-- A rule without the levels of precedence around it. -/
def withoutPrec : Rule → Rule
  | prec _ _ content => content.withoutPrec
  | r => r

/-- The text that a rule takes literally, if that is all it does. -/
def literalBody? (r : Rule) : Option String :=
  match r.withoutPrec with
  | literal text => some text
  | _ => none

mutual

/-- The texts that stand in a phrase, outside of tokens. -/
def inlineTexts : Rule → List String
  | literal text => [text]
  | seq members | choice members => inlineTextsOf members
  | zeroOrMore content | oneOrMore content | field _ content | prec _ _ content =>
    inlineTexts content
  | blank | pattern _ _ | reference _ | token _ => []

/-- The texts that stand in some phrases, outside of tokens. -/
def inlineTextsOf : List Rule → List String
  | [] => []
  | r :: rs => inlineTexts r ++ inlineTextsOf rs

end

end Rule

namespace Grammar

/-- The place of the first rule of a name. -/
def ruleIndex? (g : Grammar) (name : String) : Option Nat :=
  g.rules.findIdx? fun entry => entry.1 = name

/-- The place of an external token. -/
def externalIndex? (g : Grammar) (name : String) : Option Nat :=
  g.externals.findIdx? (· = name)

/-- Whether the rule at a place defines a token. -/
def isLexicalAt (g : Grammar) (index : Nat) : Bool :=
  match g.rules[index]? with
  | some (_, r) => r.isLexical
  | none => false

/-- Whether a name stands for a rule or an external token. -/
def defines (g : Grammar) (name : String) : Bool :=
  (g.ruleIndex? name).isSome || (g.externalIndex? name).isSome

/-- The place of the first rule that is just a given text. -/
def textRule? (g : Grammar) (text : String) : Option Nat :=
  g.rules.findIdx? fun entry => entry.2.literalBody? = some text

/-! ### Names that fit together -/

/-- The first member of a list that occurs earlier in it or in `seen`. -/
def firstRepeated? (seen : List String) : List String → Option String
  | [] => none
  | n :: ns => if n ∈ seen then some n else firstRepeated? (n :: seen) ns

/-- The first name that a rule refers to and nothing defines. -/
def undefinedIn? (g : Grammar) (r : Rule) : Option String :=
  r.references.find? fun name => !g.defines name

/-- Refuses the first of some rules, each given with the name to blame, that refers to a name
nothing defines. -/
def checkReferences (g : Grammar) : List (String × Rule) → Except GrammarError Unit
  | [] => .ok ()
  | (owner, r) :: rest =>
    match g.undefinedIn? r with
    | some name => .error (.undefinedSymbol owner name)
    | none => checkReferences g rest

/-- Refuses a name that no rule has. -/
def checkRuleName (g : Grammar) (owner name : String) : Except GrammarError Unit :=
  if (g.ruleIndex? name).isSome then .ok () else .error (.undefinedSymbol owner name)

/-- Refuses a grammar whose names do not fit together. -/
def checkNames (g : Grammar) : Except GrammarError Unit := do
  let some (startName, startRule) := g.rules.head? | .error .noRules
  if let some name := firstRepeated? [] (g.rules.map (·.1)) then
    .error (.duplicateRule name)
  if let some name := firstRepeated? (g.rules.map (·.1)) g.externals then
    .error (.duplicateTerminal name name)
  g.checkReferences g.rules
  g.checkReferences (g.extras.map fun r => ("@extras", r))
  g.word.toList.forM (g.checkRuleName "@word")
  g.conflicts.flatten.forM (g.checkRuleName "@conflicts")
  if startRule.isLexical then
    .error (.unsupported ("start rule `" ++ startName ++ "` is a token definition"))
  g.word.toList.forM fun word =>
    if ((g.ruleIndex? word).map g.isLexicalAt).getD false then .ok ()
    else .error (.unsupported ("word rule `" ++ word ++ "` is not a token definition"))

/-! ### Rules that are used -/

/-- The rules that the rule at a place refers to. -/
def uses (g : Grammar) (index : Nat) : List Nat :=
  match g.rules[index]? with
  | none => []
  | some (_, r) =>
    r.references.filterMap g.ruleIndex? ++
      (if r.isLexical then [] else r.inlineTexts.filterMap g.textRule?)

/-- The rules that are used whatever the rules say: the start rule, those of the extras and the
word. -/
def rootRules (g : Grammar) : List Nat :=
  0 :: g.extras.flatMap (fun extra =>
      extra.references.filterMap g.ruleIndex? ++
        match extra with
        | .literal text => (g.textRule? text).toList
        | _ => []) ++
    (g.word.bind g.ruleIndex?).toList

/-- The places of the rules that are used. -/
def usedRules (g : Grammar) : List Nat :=
  Graph.reachFrom g.uses g.rules.length g.rootRules

end Grammar

end LRWorkbench
