/-!
# Grammars

A grammar is a list of named rules over a small expression language, together with the tokens
that may stand anywhere (`extras`), the tokens an external scanner finds (`externals`), groups of
rules whose conflicts are intended, and the rule that keywords are spelled like (`word`). The
first rule is the start rule.

- `Rule.isLexical` tells token definitions from phrase rules;
- `Rule.references` lists the rules an expression refers to, in the order they are written.
-/

namespace LRWorkbench

/-- Which of two nested uses of an operator at one level comes out on top. -/
inductive Assoc where
  | left
  | right
  deriving DecidableEq, Repr, Inhabited

/-- What a rule stands for. -/
inductive Rule where
  /-- Nothing at all. -/
  | blank
  /-- A text, taken literally. -/
  | literal (text : String)
  /-- A regular expression. -/
  | pattern (value : String) (flags : Option String)
  /-- Another rule or an external token. -/
  | reference (name : String)
  /-- One after the other. -/
  | seq (members : List Rule)
  /-- One of several. -/
  | choice (members : List Rule)
  | zeroOrMore (content : Rule)
  | oneOrMore (content : Rule)
  /-- Content that its parent knows by a name. -/
  | field (name : String) (content : Rule)
  /-- Content read as one token. -/
  | token (content : Rule)
  /-- Content with a level of precedence and, maybe, a side to nest on. -/
  | prec (assoc : Option Assoc) (level : Int) (content : Rule)
  deriving Repr, Inhabited

namespace Rule

mutual

/-- Whether two rules are the same. -/
def beq : Rule → Rule → Bool
  | blank, blank => true
  | literal a, literal b => a == b
  | pattern a f, pattern b g => a == b && f == g
  | reference a, reference b => a == b
  | seq as, seq bs => beqList as bs
  | choice as, choice bs => beqList as bs
  | zeroOrMore a, zeroOrMore b => beq a b
  | oneOrMore a, oneOrMore b => beq a b
  | field m a, field n b => m == n && beq a b
  | token a, token b => beq a b
  | prec s l a, prec t m b => s == t && l == m && beq a b
  | _, _ => false

/-- Whether two lists of rules are the same. -/
def beqList : List Rule → List Rule → Bool
  | [], [] => true
  | a :: as, b :: bs => beq a b && beqList as bs
  | _, _ => false

end

instance : BEq Rule := ⟨beq⟩

/-- Content that may be left out. -/
def optional (content : Rule) : Rule := choice [content, blank]

/-- Whether a rule, seen through its levels of precedence, defines a token. -/
def isLexical : Rule → Bool
  | literal _ | pattern _ _ | token _ => true
  | prec _ _ content => content.isLexical
  | _ => false

mutual

/-- The rules that an expression refers to, in the order they are written. -/
def references : Rule → List String
  | reference name => [name]
  | seq members | choice members => referencesOf members
  | zeroOrMore content | oneOrMore content | field _ content | token content
  | prec _ _ content => references content
  | blank | literal _ | pattern _ _ => []

/-- The rules that some expressions refer to. -/
def referencesOf : List Rule → List String
  | [] => []
  | r :: rs => references r ++ referencesOf rs

end

end Rule

/-- A language, described by rules. -/
structure Grammar where
  name : String
  /-- The rules in the order they are defined, the start rule first. -/
  rules : List (String × Rule)
  /-- Tokens that may stand between any two others. -/
  extras : List Rule
  /-- Groups of rules whose conflicts are settled by the order of definition. -/
  conflicts : List (List String)
  /-- Tokens found by an external scanner, in the order the scanner counts them. -/
  externals : List String
  /-- The token that keywords are spelled like. -/
  word : Option String
  deriving Repr, Inhabited, BEq

namespace Grammar

/-- The name of the start rule. -/
def startRule? (g : Grammar) : Option String := g.rules.head?.map (·.1)

/-- The first rule of a name. -/
def rule? (g : Grammar) (name : String) : Option Rule :=
  (g.rules.find? fun entry => entry.1 = name).map (·.2)

end Grammar

end LRWorkbench
