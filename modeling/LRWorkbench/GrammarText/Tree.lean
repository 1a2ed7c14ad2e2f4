import LRWorkbench.GrammarText.Token

/-!
# Concrete trees of grammar texts

The tree of a grammar text keeps every token as a leaf, blanks and comments included, so
`Tree.text` is the text again. `Tree.dump` shows a tree with one line for each node and each
token that means something.
-/

namespace LRWorkbench.GrammarText

/-- The kinds of nodes. -/
inductive NodeKind where
  /-- Tokens that fit nowhere. -/
  | error
  | root
  | directiveDecl
  | conflictGroup
  | ruleDef
  | alt
  | seq
  | quantified
  | group
  | field
  | prec
  | tokenCall
  | str
  | regex
  | ref
  deriving DecidableEq, Repr, Inhabited

namespace NodeKind

/-- The name of a kind. -/
def name : NodeKind → String
  | error => "Error"
  | root => "Root"
  | directiveDecl => "DirectiveDecl"
  | conflictGroup => "ConflictGroup"
  | ruleDef => "RuleDef"
  | alt => "Alt"
  | seq => "Seq"
  | quantified => "Quantified"
  | group => "Group"
  | field => "Field"
  | prec => "Prec"
  | tokenCall => "TokenCall"
  | str => "Str"
  | regex => "Regex"
  | ref => "Ref"

/-- The kinds that stand for an expression. -/
def isExpr : NodeKind → Bool
  | alt | seq | quantified | group | field | prec | tokenCall | str | regex | ref => true
  | _ => false

end NodeKind

/-- A tree whose leaves are tokens. -/
inductive Tree where
  | leaf (token : Token)
  | node (kind : NodeKind) (children : List Tree)
  deriving Repr, Inhabited

namespace Tree

mutual

/-- The tokens of a tree from left to right. -/
def leaves : Tree → List Token
  | leaf t => [t]
  | node _ children => leavesOf children

/-- The tokens of some trees from left to right. -/
def leavesOf : List Tree → List Token
  | [] => []
  | t :: ts => leaves t ++ leavesOf ts

end

/-- The text that a tree covers. -/
def text (t : Tree) : List Char := t.leaves.flatMap (·.text)

/-- The tokens right below a node. -/
def tokens : List Tree → List Token
  | [] => []
  | leaf t :: ts => t :: tokens ts
  | node _ _ :: ts => tokens ts

/-- The nodes of a kind right below a node, each as its children. -/
def nodesOf (kind : NodeKind) : List Tree → List (List Tree)
  | [] => []
  | leaf _ :: ts => nodesOf kind ts
  | node k children :: ts => if k = kind then children :: nodesOf kind ts else nodesOf kind ts

/-- The first token of a kind right below a node. -/
def token? (kind : TokenKind) (children : List Tree) : Option Token :=
  (tokens children).find? fun t => t.kind = kind

/-- The blanks before a line. -/
def indent (depth : Nat) : String := String.ofList (List.replicate (2 * depth) ' ')

mutual

/-- A tree as indented lines, without blanks and comments. -/
def dumpAt (depth : Nat) : Tree → String
  | leaf t =>
    if t.kind.isTrivia then ""
    else indent depth ++ t.kind.name ++ " " ++ Text.quoted t.text ++ "\n"
  | node kind children => indent depth ++ kind.name ++ "\n" ++ dumpAll (depth + 1) children

/-- Some trees as indented lines. -/
def dumpAll (depth : Nat) : List Tree → String
  | [] => ""
  | t :: ts => dumpAt depth t ++ dumpAll depth ts

end

/-- A tree as indented lines, without blanks and comments. -/
def dump (t : Tree) : String := dumpAt 0 t

end Tree

end LRWorkbench.GrammarText
