import LRWorkbench.Text.Bytes
import LRWorkbench.Text.Quoted

/-!
# Tokens of queries

The lexer cuts a query into tokens and leaves out blanks and comments. At each place the longest
token wins. Characters that start no token are collected into `garbage`.
-/

namespace LRWorkbench.Query

/-- The kinds of tokens. -/
inductive TokenKind where
  | parenOpen
  | parenClose
  | bracketOpen
  | bracketClose
  | colon
  | bang
  | question
  | star
  | plus
  | underscore
  /-- An at sign with a name. -/
  | capture
  /-- An at sign alone. -/
  | atSign
  | ident
  | stringLiteral
  /-- A string that the end of its line cuts off. -/
  | unterminatedString
  | trivia
  | garbage
  deriving DecidableEq, Repr, Inhabited

/-- A token and where it starts. Queries are taken to be shorter than 4 GiB, as the numbers of 32 bits
are in which the program keeps where its tokens stand: behind that it would begin to count anew. -/
structure Token where
  kind : TokenKind
  start : Nat
  text : List Char
  deriving DecidableEq, Repr, Inhabited

/-- Where a token stands. -/
def Token.span (t : Token) : Span := ⟨t.start, t.start + Text.byteLength t.text⟩

def isLetter (c : Char) : Bool := ('a' ≤ c ∧ c ≤ 'z') ∨ ('A' ≤ c ∧ c ≤ 'Z') ∨ c = '_'

def isNameChar (c : Char) : Bool := isLetter c ∨ ('0' ≤ c ∧ c ≤ '9')

/-- Names of captures may have dots and dashes too. -/
def isCaptureChar (c : Char) : Bool := isNameChar c ∨ c = '.' ∨ c = '-'

def isBlank (c : Char) : Bool := c = ' ' ∨ c = '\t' ∨ c = '\r' ∨ c = '\n' ∨ c = '\x0c'

/-- The kind of a token of one sign. -/
def sign? (c : Char) : Option TokenKind :=
  if c = '(' then some .parenOpen
  else if c = ')' then some .parenClose
  else if c = '[' then some .bracketOpen
  else if c = ']' then some .bracketClose
  else if c = ':' then some .colon
  else if c = '!' then some .bang
  else if c = '?' then some .question
  else if c = '*' then some .star
  else if c = '+' then some .plus
  else none

/-- A string from its opening quote on. -/
def lexString (cs : List Char) : TokenKind × List Char × List Char :=
  let (body, rest) := Text.literalBody '"' cs
  match rest with
  | '"' :: after => (.stringLiteral, '"' :: (body ++ ['"']), after)
  | _ => (.unterminatedString, '"' :: body, rest)

/-- The longest token at the front of a text: its kind, its text and what follows. -/
def lexeme? : List Char → Option (TokenKind × List Char × List Char)
  | [] => none
  | c :: cs =>
    match sign? c with
    | some kind => some (kind, [c], cs)
    | none =>
      if isLetter c then
        let (word, rest) := Text.spanChars isNameChar cs
        some (if c = '_' && word.isEmpty then .underscore else .ident, c :: word, rest)
      else if isBlank c then
        let (blanks, rest) := Text.spanChars isBlank cs
        some (.trivia, c :: blanks, rest)
      else if c = ';' then
        let (comment, rest) := Text.spanChars (fun c => c ≠ '\n') cs
        some (.trivia, c :: comment, rest)
      else if c = '"' then some (lexString cs)
      else if c = '@' then
        match cs with
        | [] => some (.atSign, ['@'], [])
        | d :: rest =>
          if isLetter d then
            let (name, rest) := Text.spanChars isCaptureChar rest
            some (.capture, '@' :: d :: name, rest)
          else some (.atSign, ['@'], d :: rest)
      else none

/-- Puts a character that starts no token in front of some tokens, joining garbage. -/
def consGarbage (start : Nat) (c : Char) : List Token → List Token
  | [] => [⟨.garbage, start, [c]⟩]
  | t :: ts =>
    if t.kind = .garbage then ⟨.garbage, start, c :: t.text⟩ :: ts
    else ⟨.garbage, start, [c]⟩ :: t :: ts

/-- The tokens of a text that starts at an offset, blanks and comments included, in at most `fuel`
steps. -/
def lexFrom : Nat → Nat → List Char → List Token
  | 0, _, _ => []
  | _ + 1, _, [] => []
  | fuel + 1, start, c :: cs =>
    match lexeme? (c :: cs) with
    | some (kind, text, rest) => ⟨kind, start, text⟩ :: lexFrom fuel (start + Text.byteLength text) rest
    | none => consGarbage start c (lexFrom fuel (start + c.utf8Size) cs)

/-- The tokens of a query that mean something. Every token takes a character, so there are no more
steps than characters. -/
def lex (source : List Char) : List Token :=
  (lexFrom source.length 0 source).filter fun t => t.kind ≠ .trivia

end LRWorkbench.Query
