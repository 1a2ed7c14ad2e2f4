import LRWorkbench.Text.Bytes
import LRWorkbench.Text.Quoted

/-!
# Tokens of grammar texts

The lexer cuts a text into tokens, blanks and comments included, so that the texts of the tokens
in a row are the text again. At each place the longest token wins, and a keyword wins over an
identifier of its length. Characters that start no token are collected into `garbage`.

Tokens stand at offsets of 32 bits. Where a text goes on behind the last offset, tokens keep their
kinds, but what they cut out of the text ends there (`Token.clipped`).
-/

namespace LRWorkbench.GrammarText

/-- The kinds of tokens. -/
inductive TokenKind where
  | parenOpen
  | parenClose
  | bracketOpen
  | bracketClose
  | comma
  | colon
  | semicolon
  | equals
  | pipe
  | star
  | plus
  | question
  | kwPrec
  | kwPrecLeft
  | kwPrecRight
  | kwToken
  | directive
  | stringLiteral
  /-- A string that the end of its line cuts off. -/
  | unterminatedString
  | regexLiteral
  /-- A pattern that the end of its line cuts off. -/
  | unterminatedRegex
  | integer
  | ident
  | whitespace
  | newline
  | lineComment
  | garbage
  deriving DecidableEq, Repr, Inhabited

namespace TokenKind

/-- Blanks and comments, which mean nothing. -/
def isTrivia : TokenKind → Bool
  | whitespace | newline | lineComment => true
  | _ => false

/-- The name of a kind. -/
def name : TokenKind → String
  | parenOpen => "ParenOpen"
  | parenClose => "ParenClose"
  | bracketOpen => "BracketOpen"
  | bracketClose => "BracketClose"
  | comma => "Comma"
  | colon => "Colon"
  | semicolon => "Semicolon"
  | equals => "Equals"
  | pipe => "Pipe"
  | star => "Star"
  | plus => "Plus"
  | question => "Question"
  | kwPrec => "KwPrec"
  | kwPrecLeft => "KwPrecLeft"
  | kwPrecRight => "KwPrecRight"
  | kwToken => "KwToken"
  | directive => "Directive"
  | stringLiteral => "StringLiteral"
  | unterminatedString => "UnterminatedString"
  | regexLiteral => "RegexLiteral"
  | unterminatedRegex => "UnterminatedRegex"
  | integer => "Integer"
  | ident => "Id"
  | whitespace => "Whitespace"
  | newline => "Newline"
  | lineComment => "LineComment"
  | garbage => "Garbage"

/-- Tokens that can begin a term. -/
def startsTerm : TokenKind → Bool
  | parenOpen | ident | stringLiteral | unterminatedString | regexLiteral | unterminatedRegex
  | kwPrec | kwPrecLeft | kwPrecRight | kwToken => true
  | _ => false

/-- The signs that repeat what stands before them. -/
def isQuantifier : TokenKind → Bool
  | star | plus | question => true
  | _ => false

end TokenKind

/-- A token and where it starts. -/
structure Token where
  kind : TokenKind
  start : Nat
  text : List Char
  deriving DecidableEq, Repr, Inhabited

/-- Where a token stands. -/
def Token.span (t : Token) : Span := ⟨t.start, t.start + Text.byteLength t.text⟩

/-- The last offset that 32 bits have room for. -/
def maxOffset : Nat := 4294967295

/-- An offset as spans have it. -/
def offset (n : Nat) : Nat := min n maxOffset

/-- A token with the span that there is for it, and the text in this span. -/
def Token.clipped (t : Token) : Token :=
  ⟨t.kind, offset t.start, Text.fitting (maxOffset - t.start) t.text⟩

/-! ### The lexer -/

def isLetter (c : Char) : Bool := ('a' ≤ c ∧ c ≤ 'z') ∨ ('A' ≤ c ∧ c ≤ 'Z') ∨ c = '_'

def isDigit (c : Char) : Bool := '0' ≤ c ∧ c ≤ '9'

def isNameChar (c : Char) : Bool := isLetter c ∨ isDigit c

/-- The kind of a token of one sign. -/
def sign? (c : Char) : Option TokenKind :=
  if c = '(' then some .parenOpen
  else if c = ')' then some .parenClose
  else if c = '[' then some .bracketOpen
  else if c = ']' then some .bracketClose
  else if c = ',' then some .comma
  else if c = ':' then some .colon
  else if c = ';' then some .semicolon
  else if c = '=' then some .equals
  else if c = '|' then some .pipe
  else if c = '*' then some .star
  else if c = '+' then some .plus
  else if c = '?' then some .question
  else if c = '\n' then some .newline
  else none

/-- A word and what follows it. After `prec` the side it nests on belongs to the keyword. -/
def lexWord (cs : List Char) : TokenKind × List Char × List Char :=
  let (word, rest) := Text.spanChars isNameChar cs
  if word = "prec".toList then
    match Text.dropPrefix? ".left".toList rest with
    | some after => (.kwPrecLeft, "prec.left".toList, after)
    | none =>
      match Text.dropPrefix? ".right".toList rest with
      | some after => (.kwPrecRight, "prec.right".toList, after)
      | none => (.kwPrec, word, rest)
  else if word = "token".toList then (.kwToken, word, rest)
  else (.ident, word, rest)

/-- A string from its opening quote on. -/
def lexString (cs : List Char) : TokenKind × List Char × List Char :=
  let (body, rest) := Text.literalBody '"' cs
  match rest with
  | '"' :: after => (.stringLiteral, '"' :: (body ++ ['"']), after)
  | _ => (.unterminatedString, '"' :: body, rest)

/-- A pattern from its opening slash on; its body is not empty. -/
def lexRegex? (cs : List Char) : Option (TokenKind × List Char × List Char) :=
  let (body, rest) := Text.literalBody '/' cs
  if body.isEmpty then none
  else
    match rest with
    | '/' :: after =>
      let (flags, after) := Text.spanChars (fun c => 'a' ≤ c ∧ c ≤ 'z') after
      some (.regexLiteral, '/' :: (body ++ '/' :: flags), after)
    | _ => some (.unterminatedRegex, '/' :: body, rest)

/-- The longest token at the front of a text: its kind, its text and what follows. -/
def lexeme? : List Char → Option (TokenKind × List Char × List Char)
  | [] => none
  | c :: cs =>
    match sign? c with
    | some kind => some (kind, [c], cs)
    | none =>
      if isLetter c then some (lexWord (c :: cs))
      else if c = ' ' ∨ c = '\t' then
        let (blanks, rest) := Text.spanChars (fun c => c = ' ' ∨ c = '\t') cs
        some (.whitespace, c :: blanks, rest)
      else if isDigit c then
        let (digits, rest) := Text.spanChars isDigit cs
        some (.integer, c :: digits, rest)
      else if c = '"' then some (lexString cs)
      else
        match c, cs with
        | '\r', '\n' :: rest => some (.newline, ['\r', '\n'], rest)
        | '-', d :: rest =>
          if isDigit d then
            let (digits, rest) := Text.spanChars isDigit rest
            some (.integer, '-' :: d :: digits, rest)
          else none
        | '@', d :: rest =>
          if isLetter d then
            let (name, rest) := Text.spanChars isNameChar rest
            some (.directive, '@' :: d :: name, rest)
          else none
        | '/', '/' :: rest =>
          let (comment, rest) := Text.spanChars (fun c => c ≠ '\n') rest
          some (.lineComment, '/' :: '/' :: comment, rest)
        | '/', rest => lexRegex? rest
        | _, _ => none

/-- Puts a character that starts no token in front of some tokens, joining garbage. -/
def consGarbage (start : Nat) (c : Char) : List Token → List Token
  | [] => [⟨.garbage, start, [c]⟩]
  | t :: ts =>
    if t.kind = .garbage then ⟨.garbage, start, c :: t.text⟩ :: ts
    else ⟨.garbage, start, [c]⟩ :: t :: ts

/-- The tokens that a text is cut into that starts at an offset, in at most `fuel` steps. -/
def lexFrom : Nat → Nat → List Char → List Token
  | 0, _, _ => []
  | _ + 1, _, [] => []
  | fuel + 1, start, c :: cs =>
    match lexeme? (c :: cs) with
    | some (kind, text, rest) => ⟨kind, start, text⟩ :: lexFrom fuel (start + Text.byteLength text) rest
    | none => consGarbage start c (lexFrom fuel (start + c.utf8Size) cs)

/-- The tokens that a text is cut into. Every token takes a character, so there are no more steps than
characters. -/
def cut (source : List Char) : List Token := lexFrom source.length 0 source

/-- The tokens of a text. -/
def lex (source : List Char) : List Token := (cut source).map Token.clipped

/-- Whether the last offset lies inside a character, so that no token's text can end there. -/
def splitsCharacter (source : List Char) : Bool :=
  maxOffset < Text.byteLength source && !Text.isBoundary maxOffset source

end LRWorkbench.GrammarText
