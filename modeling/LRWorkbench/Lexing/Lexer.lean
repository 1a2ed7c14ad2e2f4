import LRWorkbench.Lexing.Language

/-!
# The lexer

At each place the lexer is told which terminals the parser could use there.

- The external scanner is asked first, if one of its tokens is of use.
- Then the patterns are tried. Of all matches that stand for a terminal of use, or for an extra,
  the **longest** wins, then the higher precedence, then the terminal declared first. Keywords are
  found as words first: a word whose text is a keyword of use becomes that keyword.
- If there is none, every terminal is allowed (**error mode**), and if that does not help either,
  characters are skipped up to the next place where some pattern matches.

A token remembers how far the lexer had to look to find it.
-/

namespace LRWorkbench

/-- A piece of a text that the lexer found. -/
structure Token where
  symbol : Symbol
  start : Nat
  stop : Nat
  /-- The end of the bytes looked at, the end of the text counting as one. -/
  lookaheadEnd : Nat
  isExtra : Bool
  isError : Bool
  /-- Whether every terminal was allowed. -/
  errorMode : Bool
  /-- The state of the scanner it was found with. -/
  scannerBefore : ScannerState
  scannerAfter : ScannerState
  deriving DecidableEq, Repr

namespace Token

def length (t : Token) : Nat := t.stop - t.start

def isEmpty (t : Token) : Bool := t.start = t.stop

def isEnd (t : Token) : Bool := t.symbol = .endOfInput

end Token

namespace Lexer

variable {A : Type} [ByteAutomaton A]

/-- A terminal that may be meant by a match. -/
structure Candidate where
  symbol : Symbol
  length : Nat
  precedence : Int
  deriving DecidableEq, Repr

namespace Candidate

/-- Whether `a` is better than `b`: longer, then of higher precedence, then declared earlier. -/
def beats (a b : Candidate) : Bool :=
  b.length < a.length ||
    (a.length = b.length && (b.precedence < a.precedence ||
      (a.precedence = b.precedence && a.symbol.index < b.symbol.index)))

/-- The better one of a candidate and the best one before. -/
def better (best : Option Candidate) (c : Candidate) : Option Candidate :=
  match best with
  | none => some c
  | some b => if c.beats b then some c else some b

/-- The best of some candidates, the first one of equals. -/
def best (candidates : List Candidate) : Option Candidate := candidates.foldl better none

end Candidate

/-- The terminal that a match of a pattern with a text stands for, if it may be used. -/
def symbolOf? (lex : LexSpec) (valid : TerminalSet) (pattern : Nat) (text : List Char) :
    Option Symbol :=
  match lex.patternSymbols[pattern]? with
  | none => none
  | some s =>
    if lex.isKeyword s then none
    else if lex.word = some s then
      match (lex.keyword? (String.ofList text)).filter fun k => valid.contains k with
      | some keyword => some keyword
      | none => if valid.contains s then some s else none
    else if valid.contains s || lex.isExtra s then some s
    else none

/-- The candidate of a match at the start of a text. -/
def candidate? (lex : LexSpec) (valid : TerminalSet) (text : List Char) (found : Nat × Nat) :
    Option Candidate :=
  let (pattern, length) := found
  if length = 0 then none
  else
    match Text.takeBytes length text with
    | none => none
    | some front =>
      (symbolOf? lex valid pattern front).map fun s => ⟨s, length, lex.precedenceOf s⟩

/-- The best candidate at the start of a text, given the character before it, and the number of
bytes looked at. -/
def scanPatterns (t : ParseTable A) (valid : TerminalSet) (before : Option Char) (text : List Char) :
    Option Candidate × Nat :=
  let scan := ByteAutomaton.scan t.patterns before text
  (Candidate.best (scan.found.filterMap (candidate? t.parts.lex valid text)), scan.examined)

/-- Whether a token of a kind stands outside of phrases: it is an extra and either every terminal
is allowed or the parser has no use for it. -/
def isExtraHere (t : ParseTable A) (valid : TerminalSet) (errorMode : Bool) (s : Symbol) : Bool :=
  t.parts.lex.isExtra s && (errorMode || !valid.contains s)

/-- Asks the scanner for a token at a place. Also tells up to where the text was looked at. -/
def scanExternal (l : Language A) (text : List Char) (position : Nat) (state : ScannerState)
    (valid : TerminalSet) (errorMode : Bool) : Option Token × Nat :=
  let flags := l.table.externalTokens.map valid.contains
  match l.scanner with
  | none => (none, position)
  | some scanner =>
    if !flags.any id then (none, position)
    else
      let rest := (Text.seek position text).2
      let result := scanner.scan rest state flags
      let length := Text.byteLength text
      let examined :=
        match result.examined with
        | some examined => position + max 1 (min examined (length - position + 1))
        | none => length + 1
      match result.token.bind l.table.externalSymbol? with
      | none => (none, examined)
      | some s =>
        let stop := position + result.consumed
        if result.consumed = 0 || length < stop || !Text.isBoundary stop text ||
            !valid.contains s then
          (none, examined)
        else
          (some {
            symbol := s
            start := position
            stop := stop
            lookaheadEnd := max examined (stop + 1)
            isExtra := isExtraHere l.table valid errorMode s
            isError := false
            errorMode := errorMode
            scannerBefore := state
            scannerAfter := result.state }, examined)

/-- Looks for a token among the terminals of use. -/
def lex (l : Language A) (text : List Char) (position : Nat) (state : ScannerState)
    (valid : TerminalSet) (errorMode : Bool) : Option Token :=
  match scanExternal l text position state valid errorMode with
  | (some token, _) => some token
  | (none, examined) =>
    let (before, rest) := Text.seek position text
    let (best, count) := scanPatterns l.table valid before rest
    best.map fun c => {
      symbol := c.symbol
      start := position
      stop := position + c.length
      lookaheadEnd := max examined (position + count)
      isExtra := isExtraHere l.table valid errorMode c.symbol
      isError := false
      errorMode := errorMode
      scannerBefore := state
      scannerAfter := state }

/-- The end of the input. -/
def endToken (length : Nat) (state : ScannerState) : Token where
  symbol := .endOfInput
  start := length
  stop := length
  lookaheadEnd := length + 1
  isExtra := false
  isError := false
  errorMode := false
  scannerBefore := state
  scannerAfter := state

/-- The set of all terminals of a table. -/
def allTerminals (t : ParseTable A) : TerminalSet := .full t.terminalCount

/-- How many bytes to skip until some pattern matches, and how far that was looked at, both from
the same place. The place is given with the character before it. -/
def skipFrom (t : ParseTable A) (before : Option Char) (place lookahead : Nat) :
    List Char → Nat × Nat
  | [] => (place, lookahead)
  | c :: cs =>
    let (found, count) := scanPatterns t (allTerminals t) before (c :: cs)
    let lookahead := max lookahead (place + count)
    if found.isSome then (place, lookahead)
    else skipFrom t (some c) (place + c.utf8Size) lookahead cs

/-- A token of what no pattern matches: at least one character, and all that follow up to the next
match. -/
def errorToken (t : ParseTable A) (text : List Char) (position : Nat) (state : ScannerState) :
    Token :=
  let (stop, lookahead) :=
    match (Text.seek position text).2 with
    | [] => (position, position)
    | c :: cs => skipFrom t (some c) (position + c.utf8Size) position cs
  { symbol := .error
    start := position
    stop := stop
    lookaheadEnd := max lookahead (stop + 1)
    isExtra := false
    isError := true
    errorMode := true
    scannerBefore := state
    scannerAfter := state }

/-- The token at a place when every terminal is allowed. -/
def nextTokenInErrorMode (l : Language A) (text : List Char) (position : Nat)
    (state : ScannerState) : Token :=
  if Text.byteLength text ≤ position then endToken (Text.byteLength text) state
  else
    (lex l text position state (allTerminals l.table) true).getD
      (errorToken l.table text position state)

/-- The token at a place, given the terminals of use. -/
def nextToken (l : Language A) (text : List Char) (position : Nat) (state : ScannerState)
    (valid : TerminalSet) : Token :=
  if Text.byteLength text ≤ position then endToken (Text.byteLength text) state
  else
    (lex l text position state valid false).getD (nextTokenInErrorMode l text position state)

end Lexer

end LRWorkbench
