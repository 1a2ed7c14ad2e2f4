import LRWorkbench.GrammarText.Meaning

/-!
# Writing grammars as texts

`Grammar.text` writes a grammar as a text: a directive for each part that is not as it is without
one, then the rules. Operands that are more than a name, a string or a pattern stand in parentheses,
and every branch of a choice after a bar. `Grammar.isExpressible` tells which grammars can be
written: names are identifiers, there is something in a row and in a choice, nothing at all is
written as a branch or a body only, and terms are not nested too deeply.
-/

namespace LRWorkbench

namespace GrammarText

/-- A token by its kind and its text, wherever it stands. -/
abbrev Lexeme := TokenKind × List Char

/-- Some tokens without blanks and comments, wherever they stand. -/
def lexemes (tokens : List Token) : List Lexeme :=
  (tokens.filter fun t => !t.kind.isTrivia).map fun t => (t.kind, t.text)

/-! ### Literals -/

/-- A character in a string. -/
def escapeChar (c : Char) : List Char :=
  if c = '\n' then ['\\', 'n']
  else if c = '\r' then ['\\', 'r']
  else if c = '\t' then ['\\', 't']
  else if c = '"' then ['\\', '"']
  else if c = '\\' then ['\\', '\\']
  else [c]

/-- A text in a string. -/
def escapeString (cs : List Char) : List Char := cs.flatMap escapeChar

/-- A pattern between slashes. -/
def escapeSlashes (cs : List Char) : List Char :=
  cs.flatMap fun c => if c = '/' then ['\\', '/'] else [c]

/-- Whether every backslash of a pattern takes a character along, which is no slash, and the pattern
is on one line. -/
def isPaired : List Char → Bool
  | [] => true
  | '\\' :: c :: cs => c ≠ '/' && c ≠ '\n' && isPaired cs
  | c :: cs => c ≠ '\\' && c ≠ '\n' && isPaired cs

def isLowerCase (c : Char) : Bool := 'a' ≤ c ∧ c ≤ 'z'

/-- Whether a pattern can be written between slashes, with its flags behind. -/
def isWritablePattern (value : String) (flags : Option String) : Bool :=
  value ≠ "" && isPaired value.toList &&
    flags.all fun flags => flags ≠ "" && flags.toList.all isLowerCase

/-- Whether a name is an identifier and no keyword. -/
def isName (name : String) : Bool :=
  (match name.toList with
    | [] => false
    | c :: cs => isLetter c && cs.all isNameChar) &&
    name ≠ "prec" && name ≠ "token"

/-- The digits of a level. -/
def digitsOf : Int → List Char
  | .ofNat n => Nat.toDigits 10 n
  | .negSucc n => '-' :: Nat.toDigits 10 (n + 1)

namespace Lexeme

def parenOpen : Lexeme := (.parenOpen, ['('])
def parenClose : Lexeme := (.parenClose, [')'])
def bracketOpen : Lexeme := (.bracketOpen, ['['])
def bracketClose : Lexeme := (.bracketClose, [']'])
def comma : Lexeme := (.comma, [','])
def colon : Lexeme := (.colon, [':'])
def semicolon : Lexeme := (.semicolon, [';'])
def equals : Lexeme := (.equals, ['='])
def pipe : Lexeme := (.pipe, ['|'])
def star : Lexeme := (.star, ['*'])
def plus : Lexeme := (.plus, ['+'])

/-- The keyword for a side to nest on, if any. -/
def precedence : Option Assoc → Lexeme
  | none => (.kwPrec, "prec".toList)
  | some .left => (.kwPrecLeft, "prec.left".toList)
  | some .right => (.kwPrecRight, "prec.right".toList)

def token : Lexeme := (.kwToken, "token".toList)

def name (name : String) : Lexeme := (.ident, name.toList)

def level (n : Int) : Lexeme := (.integer, digitsOf n)

def string (text : String) : Lexeme := (.stringLiteral, '"' :: (escapeString text.toList ++ ['"']))

def pattern (value : String) (flags : Option String) : Lexeme :=
  (.regexLiteral, '/' :: (escapeSlashes value.toList ++ '/' :: (flags.getD "").toList))

def directive (name : String) : Lexeme := (.directive, '@' :: name.toList)

/-- A lexeme in a text: every statement has a line of its own. -/
def written (l : Lexeme) : List Char := l.2 ++ [if l.1 = .semicolon then '\n' else ' ']

end Lexeme

/-! ### Rules -/

/-- Whether a rule is written as one lexeme, or none. -/
def isAtom : Rule → Bool
  | .blank | .literal _ | .pattern _ _ | .reference _ => true
  | _ => false

/-- An operand, given how it is written as an expression. -/
def enclosed (r : Rule) (ls : List Lexeme) : List Lexeme :=
  if isAtom r then ls else .parenOpen :: (ls ++ [.parenClose])

mutual

/-- A rule as an expression. -/
def expression : Rule → List Lexeme
  | .blank => []
  | .literal text => [.string text]
  | .pattern value flags => [.pattern value flags]
  | .reference name => [.name name]
  | .seq members => operands members
  | .choice members => alternatives members
  | .zeroOrMore content => enclosed content (expression content) ++ [.star]
  | .oneOrMore content => enclosed content (expression content) ++ [.plus]
  | .field name content => .name name :: .colon :: enclosed content (expression content)
  | .token content => .token :: .parenOpen :: (expression content ++ [.parenClose])
  | .prec assoc level content =>
    .precedence assoc :: .parenOpen :: .level level :: .comma ::
      (expression content ++ [.parenClose])

/-- Rules in a row. -/
def operands : List Rule → List Lexeme
  | [] => []
  | r :: rs => enclosed r (expression r) ++ operands rs

/-- Rules to choose from. -/
def alternatives : List Rule → List Lexeme
  | [] => []
  | r :: rs => .pipe :: (enclosed r (expression r) ++ alternatives rs)

end

/-- How deeply terms are nested in an operand, given how deeply they are in the expression. -/
def enclosedDepth (r : Rule) (depth : Nat) : Nat := if isAtom r then depth else depth + 1

mutual

/-- How deeply terms are nested in an expression. -/
def depthOf : Rule → Nat
  | .blank => 0
  | .literal _ | .pattern _ _ | .reference _ => 1
  | .seq members | .choice members => depthOfAll members
  | .zeroOrMore content | .oneOrMore content => enclosedDepth content (depthOf content)
  | .field _ content => enclosedDepth content (depthOf content) + 1
  | .token content | .prec _ _ content => depthOf content + 1

/-- How deeply terms are nested in some operands. -/
def depthOfAll : List Rule → Nat
  | [] => 0
  | r :: rs => max (enclosedDepth r (depthOf r)) (depthOfAll rs)

end

mutual

/-- Whether a rule can be written as an operand. -/
def isWritable : Rule → Bool
  | .blank => false
  | .literal _ => true
  | .pattern value flags => isWritablePattern value flags
  | .reference name => isName name
  | .seq members => 2 ≤ members.length && areWritable members
  | .choice members => 1 ≤ members.length && areBranches members
  | .zeroOrMore content | .oneOrMore content | .token content => isWritable content
  | .field name content => isName name && isWritable content
  | .prec _ level content => -2147483648 ≤ level && level ≤ 2147483647 && isWritable content

/-- Whether all of some rules can be written as operands. -/
def areWritable : List Rule → Bool
  | [] => true
  | r :: rs => isWritable r && areWritable rs

/-- Whether all of some rules can be written as branches, which may be empty. -/
def areBranches : List Rule → Bool
  | [] => true
  | r :: rs => (r == .blank || isWritable r) && areBranches rs

end

/-! ### Statements -/

/-- A directive or a rule. -/
inductive Statement where
  | name (name : String)
  | extras (rules : List Rule)
  | word (name : String)
  | externals (names : List String)
  | conflicts (groups : List (List String))
  | rule (name : String) (body : Rule)

/-- The names of a conflict group, in brackets. -/
def groupLexemes (group : List String) : List Lexeme :=
  .bracketOpen :: (group.map .name ++ [.bracketClose])

namespace Statement

/-- A statement without its semicolon. -/
def front : Statement → List Lexeme
  | name n => [.directive "grammar", .name n]
  | extras rules => .directive "extras" :: operands rules
  | word n => [.directive "word", .name n]
  | externals names => .directive "externals" :: names.map .name
  | conflicts groups => .directive "conflicts" :: groups.flatMap groupLexemes
  | rule n body => .name n :: .equals :: expression body

def lexemes (s : Statement) : List Lexeme := s.front ++ [.semicolon]

/-- Whether a statement can be written. -/
def isWritable : Statement → Bool
  | name n | word n => isName n
  | extras rules => areWritable rules && depthOfAll rules ≤ Parse.maxDepth
  | externals names => names.all isName
  | conflicts groups => groups.all (·.all isName)
  | rule n body =>
    isName n && (body == .blank || GrammarText.isWritable body) && depthOf body ≤ Parse.maxDepth

end Statement

end GrammarText

namespace Grammar

open GrammarText

variable (g : Grammar)

/-- The directives of a grammar, apart from those that say what goes without saying. -/
def directives : List Statement :=
  [.name g.name] ++ (if g.extras.isEmpty then [] else [.extras g.extras]) ++
    (match g.word with
      | none => []
      | some name => [.word name]) ++
    (if g.externals.isEmpty then [] else [.externals g.externals]) ++
    (if g.conflicts.isEmpty then [] else [.conflicts g.conflicts])

/-- The statements of a grammar. -/
def statements : List Statement :=
  g.directives ++ g.rules.map fun entry => .rule entry.1 entry.2

/-- The lexemes of a grammar. -/
def lexemes : List Lexeme := g.statements.flatMap Statement.lexemes

/-- A grammar as a text. -/
def text : List Char := g.lexemes.flatMap Lexeme.written

end Grammar

end LRWorkbench
