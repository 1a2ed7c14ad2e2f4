import LRWorkbench.Query.Syntax

/-!
# Writing queries and what tokens spell

The rules of the form of queries, as relations between tokens and what they spell (`SpellsAll`). They
say nothing of how tokens are read: negated fields may stand anywhere among the members of a node, and
captures both in front of a quantifier and behind it. They also say which part of the text each pattern
covers, since the messages of resolution point there.

`queryText` writes patterns as a query in one of these ways, with a blank behind every token. The children of
a node stand in front of the fields that it does not have, and captures in front of quantifiers.
`areWritable` tells which patterns can be written: names are names, and there is something to choose from in
a choice. Spans are not written, so what is read again is the same without them (`allBare`).
-/

namespace LRWorkbench.Query

open Read (nameOf captureOf unescape)

/-! ### What tokens spell -/

/-- The span of the latest of some tokens, or the one before if there are none. -/
def spanBehind (ts : List Token) (last : Span) : Span := ts.foldl (fun _ t => t.span) last

/-- Whether all of some tokens are captures. -/
def AreCaptures (cs : List Token) : Prop := ∀ c ∈ cs, c.kind = .capture

/-- The quantifier that a sign stands for. -/
def TokenKind.quantifier? : TokenKind → Option Quantifier
  | .question => some .optional
  | .star => some .zeroOrMore
  | .plus => some .oneOrMore
  | _ => none

/-- Whether a pattern starts with a token of a kind. -/
def TokenKind.starts : TokenKind → Bool
  | .parenOpen | .bracketOpen | .underscore | .stringLiteral => true
  | _ => false

/-- The characters between the quotes of a string. -/
def inside (text : List Char) : List Char := (text.drop 1).dropLast

/-- Whether a token spells the kind of a node. -/
inductive SpellsKind : Token → Option Name → Prop
  | any {t} (h : t.kind = .underscore) : SpellsKind t none
  | named {t} (h : t.kind = .ident) : SpellsKind t (some (nameOf t))

/-- Whether tokens spell the field of a child. -/
inductive SpellsField : List Token → Option Name → Prop
  | none : SpellsField [] none
  | named {n colon} (hname : n.kind = .ident) (hcolon : colon.kind = .colon) :
    SpellsField [n, colon] (some (nameOf n))

/-- Whether tokens spell a quantifier and the captures behind it. -/
inductive SpellsQuantifier : List Token → Quantifier → List Name → Prop
  | one : SpellsQuantifier [] .one []
  | sign {t often cs} (hsign : t.kind.quantifier? = some often) (hcs : AreCaptures cs) :
    SpellsQuantifier (t :: cs) often (cs.map captureOf)

mutual

/-- Whether tokens spell a pattern with its captures. -/
inductive SpellsPattern : List Token → PatternSyntax → Prop
  | mk {t ts cs form} (hform : SpellsForm (t :: ts) form) (hcs : AreCaptures cs) :
    SpellsPattern (t :: (ts ++ cs))
      (.mk form (cs.map captureOf) (t.span.cover (spanBehind (ts ++ cs) t.span)))

/-- Whether tokens spell what a pattern asks for. -/
inductive SpellsForm : List Token → FormSyntax → Prop
  | node {opening k ts closing kind children negated} (hopening : opening.kind = .parenOpen)
    (hkind : SpellsKind k kind) (hmembers : SpellsMembers ts children negated)
    (hclosing : closing.kind = .parenClose) :
    SpellsForm (opening :: k :: (ts ++ [closing])) (.node kind children negated)
  | wildcard {t} (h : t.kind = .underscore) : SpellsForm [t] .wildcard
  | text {t value} (h : t.kind = .stringLiteral) (hvalue : unescape (inside t.text) = (value, [])) :
    SpellsForm [t] (.text ⟨String.ofList value, t.span⟩)
  | choice {opening ts closing alternatives} (hopening : opening.kind = .bracketOpen)
    (hall : SpellsAll ts alternatives) (hsome : alternatives ≠ [])
    (hclosing : closing.kind = .bracketClose) :
    SpellsForm (opening :: (ts ++ [closing])) (.choice alternatives)

/-- Whether tokens spell several patterns, one after the other. -/
inductive SpellsAll : List Token → List PatternSyntax → Prop
  | nil : SpellsAll [] []
  | cons {ts p ts' ps} (hfirst : SpellsPattern ts p) (hrest : SpellsAll ts' ps) :
    SpellsAll (ts ++ ts') (p :: ps)

/-- Whether tokens spell the members of a node: its children, and the fields it does not have. -/
inductive SpellsMembers : List Token → List ChildSyntax → List Name → Prop
  | nil : SpellsMembers [] [] []
  | child {ts c ts' children negated} (hfirst : SpellsChild ts c)
    (hrest : SpellsMembers ts' children negated) : SpellsMembers (ts ++ ts') (c :: children) negated
  | absent {bang n ts children negated} (hbang : bang.kind = .bang) (hname : n.kind = .ident)
    (hrest : SpellsMembers ts children negated) :
    SpellsMembers (bang :: n :: ts) children (nameOf n :: negated)

/-- Whether tokens spell a pattern for a child. -/
inductive SpellsChild : List Token → ChildSyntax → Prop
  | mk {fs field ts p qs often more} (hfield : SpellsField fs field) (hpattern : SpellsPattern ts p)
    (hoften : SpellsQuantifier qs often more) :
    SpellsChild (fs ++ (ts ++ qs)) (.mk field (p.addCaptures more) often)

end

theorem SpellsForm.starts {t : Token} {ts : List Token} {form : FormSyntax}
    (h : SpellsForm (t :: ts) form) : t.kind.starts = true := by
  cases h with
  | node hopening => rw [hopening]; rfl
  | wildcard h => rw [h]; rfl
  | text h => rw [h]; rfl
  | choice hopening => rw [hopening]; rfl

/-- Every pattern has a first token. -/
theorem SpellsPattern.starts {ts : List Token} {p : PatternSyntax} (h : SpellsPattern ts p) :
    ∃ t ts', ts = t :: ts' ∧ t.kind.starts = true := by
  cases h with
  | mk hform => exact ⟨_, _, rfl, hform.starts⟩

theorem SpellsPattern.ne_nil {ts : List Token} {p : PatternSyntax} (h : SpellsPattern ts p) : ts ≠ [] := by
  obtain ⟨t, ts, rfl, -⟩ := h.starts
  exact List.cons_ne_nil t ts

/-! ### Lexemes -/

/-- A token by its kind and its text, wherever it stands. -/
abbrev Lexeme := TokenKind × List Char

def Token.lexeme (t : Token) : Lexeme := (t.kind, t.text)

/-- Some tokens, wherever they stand. -/
def lexemes (ts : List Token) : List Lexeme := ts.map Token.lexeme

/-- Whether a text is a name in queries. -/
def isName (text : String) : Bool :=
  match text.toList with
  | [] => false
  | c :: cs => isLetter c && cs.all isNameChar

/-- Whether a text is a name for one thing. An underscore alone stands for anything. -/
def isIdent (text : String) : Bool := isName text && text ≠ "_"

/-- Whether a text is a name for captures. -/
def isCaptureName (text : String) : Bool :=
  match text.toList with
  | [] => false
  | c :: cs => isLetter c && cs.all isCaptureChar

/-- A character as it is written between quotes. -/
def quotedChar (c : Char) : List Char :=
  if c = '\n' then ['\\', 'n'] else if c = '"' ∨ c = '\\' then ['\\', c] else [c]

/-- A text between quotes. -/
def quotation (text : String) : List Char := '"' :: (text.toList.flatMap quotedChar ++ ['"'])

namespace Lexeme

def parenOpen : Lexeme := (.parenOpen, ['('])
def parenClose : Lexeme := (.parenClose, [')'])
def bracketOpen : Lexeme := (.bracketOpen, ['['])
def bracketClose : Lexeme := (.bracketClose, [']'])
def colon : Lexeme := (.colon, [':'])
def bang : Lexeme := (.bang, ['!'])
def underscore : Lexeme := (.underscore, ['_'])

def name (n : Name) : Lexeme := (.ident, n.text.toList)

def capture (n : Name) : Lexeme := (.capture, '@' :: n.text.toList)

def string (text : Name) : Lexeme := (.stringLiteral, quotation text.text)

/-- A lexeme in a query. -/
def written (l : Lexeme) : List Char := l.2 ++ [' ']

end Lexeme

/-! ### Writing patterns -/

def Quantifier.lexemes : Quantifier → List Lexeme
  | .one => []
  | .optional => [(.question, ['?'])]
  | .zeroOrMore => [(.star, ['*'])]
  | .oneOrMore => [(.plus, ['+'])]

/-- The kind of a node, or an underscore for any kind. -/
def kindLexeme : Option Name → Lexeme
  | none => .underscore
  | some n => .name n

def fieldLexemes : Option Name → List Lexeme
  | none => []
  | some n => [.name n, .colon]

/-- A field that a node does not have. -/
def absentLexemes (n : Name) : List Lexeme := [.bang, .name n]

mutual

def PatternSyntax.lexemes : PatternSyntax → List Lexeme
  | .mk form captures _ => form.lexemes ++ captures.map .capture

def FormSyntax.lexemes : FormSyntax → List Lexeme
  | .node kind children negated => .parenOpen :: kindLexeme kind ::
    (childrenLexemes children ++ negated.flatMap absentLexemes ++ [.parenClose])
  | .wildcard => [.underscore]
  | .text text => [.string text]
  | .choice alternatives => .bracketOpen :: (allLexemes alternatives ++ [.bracketClose])

/-- Some patterns, one after the other. -/
def allLexemes : List PatternSyntax → List Lexeme
  | [] => []
  | p :: ps => p.lexemes ++ allLexemes ps

def ChildSyntax.lexemes : ChildSyntax → List Lexeme
  | .mk field p often => fieldLexemes field ++ (p.lexemes ++ often.lexemes)

/-- Some patterns for children, one after the other. -/
def childrenLexemes : List ChildSyntax → List Lexeme
  | [] => []
  | c :: cs => c.lexemes ++ childrenLexemes cs

end

mutual

/-- Whether a pattern can be written. -/
def PatternSyntax.isWritable : PatternSyntax → Bool
  | .mk form captures _ => form.isWritable && captures.all (isCaptureName ·.text)

def FormSyntax.isWritable : FormSyntax → Bool
  | .node kind children negated => kind.all (isIdent ·.text) && areWritableChildren children &&
    negated.all (isIdent ·.text)
  | .wildcard | .text _ => true
  | .choice alternatives => !alternatives.isEmpty && areWritable alternatives

/-- Whether some patterns can be written. -/
def areWritable : List PatternSyntax → Bool
  | [] => true
  | p :: ps => p.isWritable && areWritable ps

def ChildSyntax.isWritable : ChildSyntax → Bool
  | .mk field p _ => field.all (isIdent ·.text) && p.isWritable

def areWritableChildren : List ChildSyntax → Bool
  | [] => true
  | c :: cs => c.isWritable && areWritableChildren cs

end

/-! ### Without spans -/

def Name.bare (n : Name) : Name := ⟨n.text, ⟨0, 0⟩⟩

mutual

/-- A pattern without its spans. -/
def PatternSyntax.bare : PatternSyntax → PatternSyntax
  | .mk form captures _ => .mk form.bare (captures.map Name.bare) ⟨0, 0⟩

def FormSyntax.bare : FormSyntax → FormSyntax
  | .node kind children negated =>
    .node (kind.map Name.bare) (childrenBare children) (negated.map Name.bare)
  | .wildcard => .wildcard
  | .text text => .text text.bare
  | .choice alternatives => .choice (allBare alternatives)

/-- Some patterns without their spans. -/
def allBare : List PatternSyntax → List PatternSyntax
  | [] => []
  | p :: ps => p.bare :: allBare ps

def ChildSyntax.bare : ChildSyntax → ChildSyntax
  | .mk field p often => .mk (field.map Name.bare) p.bare often

def childrenBare : List ChildSyntax → List ChildSyntax
  | [] => []
  | c :: cs => c.bare :: childrenBare cs

end

end LRWorkbench.Query
