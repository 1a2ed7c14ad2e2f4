import LRWorkbench.Parsing.Moves

/-!
# The parser

`parse?` gives the tree of a text, and `reparse?` that of a text which the text of a tree was edited into.
`Lexer.nextToken?` gives the token at a place of a text.

The moves of the parser look up rows and productions of the table by their numbers and cut pieces out of
the text at places, and a number or a place that is not there ends the run without a tree. So does a place
that is no number of 64 bits, which the end of an external token is found to be before it is compared with
the length of the text. `Parser.accesses` lists all that a move **accesses** in this way. Actions and gotos
are not among it: they are looked up with an answer for any number.
-/

namespace LRWorkbench

variable {A : Type} [ByteAutomaton A]

/-- Something that has to be in range. -/
inductive Access where
  /-- The terminals of use in a state. -/
  | row (state : Nat)
  | production (index : Nat)
  /-- A piece of the text. -/
  | piece (start stop : Nat)
  /-- The place that is some bytes behind another one. -/
  | place (position consumed : Nat)
  deriving DecidableEq, Repr

namespace Access

/-- Places are numbers below this one. -/
def placeCount : Nat := 0x10000000000000000

/-- Whether there is what is accessed: pieces of the text begin and end between two characters. -/
def isInRange (t : ParseTable A) (text : List Char) : Access → Bool
  | row state => state < t.parts.stateCount
  | production index => index < t.parts.productions.size
  | piece start stop => start ≤ stop && Text.isBoundary start text && Text.isBoundary stop text
  | place position consumed => position + consumed < placeCount

end Access

/-! ### The lexer -/

namespace Lexer

/-- The rest of a text. -/
def restAccess (text : List Char) (position : Nat) : Access :=
  .piece position (Text.byteLength text)

/-- What asking the scanner for a token accesses: the rest of the text, which the scanner is
given, and the end of the token that it reports. -/
def scannerAccesses (l : Language A) (text : List Char) (position : Nat) (state : ScannerState)
    (valid : TerminalSet) : List Access :=
  let flags := l.table.externalTokens.map valid.contains
  match l.scanner with
  | none => []
  | some scanner =>
    if !flags.any id then []
    else
      let result := scanner.scan (Text.seek position text).2 state flags
      restAccess text position ::
        match result.token.bind l.table.externalSymbol? with
        | none => []
        | some _ => [.place position result.consumed]

/-- What trying the patterns at a place accesses: the rest of the text, and the matches that are not empty
and end between two characters, since each might be a keyword. -/
def patternAccesses (t : ParseTable A) (text : List Char) (position : Nat) (before : Option Char)
    (rest : List Char) : List Access :=
  restAccess text position ::
    (ByteAutomaton.scan t.patterns before rest).found.filterMap fun (_, length) =>
      if length = 0 || !Text.isBoundary (position + length) text then none
      else some (.piece position (position + length))

/-- What looking for a token among the terminals of use accesses. -/
def lexAccesses (l : Language A) (text : List Char) (position : Nat) (state : ScannerState)
    (valid : TerminalSet) (errorMode : Bool) : List Access :=
  scannerAccesses l text position state valid ++
    match scanExternal l text position state valid errorMode with
    | (some _, _) => []
    | (none, _) =>
      let (before, rest) := Text.seek position text
      patternAccesses l.table text position before rest

/-- What looking for the next place where some pattern matches accesses. -/
def skipAccesses (t : ParseTable A) (text : List Char) (before : Option Char) (place : Nat) :
    List Char → List Access
  | [] => []
  | c :: cs =>
    patternAccesses t text place before (c :: cs) ++
      if (scanPatterns t (allTerminals t) before (c :: cs)).1.isSome then []
      else skipAccesses t text (some c) (place + c.utf8Size) cs

/-- What a token of what no pattern matches accesses. -/
def errorAccesses (t : ParseTable A) (text : List Char) (position : Nat) : List Access :=
  restAccess text position ::
    match (Text.seek position text).2 with
    | [] => []
    | c :: cs => skipAccesses t text (some c) (position + c.utf8Size) cs

/-- What the token at a place accesses when every terminal is allowed. -/
def accessesInErrorMode (l : Language A) (text : List Char) (position : Nat) (state : ScannerState) :
    List Access :=
  if Text.byteLength text ≤ position then []
  else
    lexAccesses l text position state (allTerminals l.table) true ++
      if (lex l text position state (allTerminals l.table) true).isSome then []
      else errorAccesses l.table text position

/-- What the token at a place accesses, given the terminals of use. -/
def accesses (l : Language A) (text : List Char) (position : Nat) (state : ScannerState)
    (valid : TerminalSet) : List Access :=
  if Text.byteLength text ≤ position then []
  else
    lexAccesses l text position state valid false ++
      if (lex l text position state valid false).isSome then []
      else accessesInErrorMode l text position state

/-- The token at a place when every terminal is allowed, unless looking for it leaves what is in range. -/
def nextTokenInErrorMode? (l : Language A) (text : List Char) (position : Nat) (state : ScannerState) :
    Option Token :=
  if (accessesInErrorMode l text position state).all (·.isInRange l.table text) then
    some (nextTokenInErrorMode l text position state)
  else none

/-- The token at a place, given the terminals of use, unless looking for it leaves what is in range. -/
def nextToken? (l : Language A) (text : List Char) (position : Nat) (state : ScannerState)
    (valid : TerminalSet) : Option Token :=
  if (accesses l text position state valid).all (·.isInRange l.table text) then
    some (nextToken l text position state valid)
  else none

end Lexer

namespace Parsing

namespace Parser

/-! ### The parser -/

/-- The piece of the text that the leaf of a token stands for. -/
def leafAccess (token : Token) : Access := .piece token.start token.stop

/-- What reading up to the next token that is no extra accesses. -/
def readOnAccesses (s : Setting A) (lexState : Nat) : Nat → Parser → List Access
  | 0, _ => []
  | fuel + 1, p =>
    let token := Lexer.nextToken s.language s.text p.position p.scanner
      (s.table.validTerminals lexState)
    Lexer.accesses s.language s.text p.position p.scanner (s.table.validTerminals lexState) ++
      if token.isExtra then leafAccess token :: readOnAccesses s lexState fuel (p.behind token)
      else []

/-- What reading the next token accesses: the terminals of use, then what the lexer does. -/
def readAccesses (s : Setting A) (p : Parser) : List Access :=
  let lexState := p.lexState.getD p.state
  .row lexState :: readOnAccesses s lexState (s.length + 1) p

/-- What reading up to the next token accesses while every terminal is allowed. -/
def readAheadOnAccesses (s : Setting A) : Nat → Parser → List Access
  | 0, _ => []
  | fuel + 1, p =>
    let token := Lexer.nextTokenInErrorMode s.language s.text p.position p.scanner
    Lexer.accessesInErrorMode s.language s.text p.position p.scanner ++
      if token.isExtra then leafAccess token :: readAheadOnAccesses s fuel (p.behind token) else []

/-- What reading ahead accesses. -/
def readAheadAccesses (s : Setting A) (p : Parser) : List Access :=
  readAheadOnAccesses s (s.length + 1) p

/-- The productions that are tried to find out whether a terminal can follow. -/
def resumeAccesses (t : ParseTable A) (s : Symbol) : Nat → List Nat → List Access
  | 0, _ => []
  | _ + 1, [] => []
  | fuel + 1, top :: below =>
    match t.action top s with
    | .shift _ | .accept | .error => []
    | .reduce production =>
      .production production ::
        match t.production? production with
        | none => []
        | some rule =>
          match (top :: below).drop rule.length with
          | [] => []
          | state :: rest =>
            match t.goto? state rule.lhs with
            | some next => resumeAccesses t s fuel (next :: state :: rest)
            | none => []

/-- What is tried to find out how many entries to take off the stack. -/
def popAccesses (t : ParseTable A) (stack : Stack) (skipped : Nat) (s : Symbol) : List Access :=
  (List.range ((popsFor? t stack skipped s).getD stack.length + 1)).flatMap fun popped =>
    resumeAccesses t s maxReductions (Stack.grammarStates (stack.drop popped))

/-- What looking for a way to get over an error accesses. -/
def recoveryAccesses (s : Setting A) (skipped : List Ahead) (current : Ahead) :
    Nat → Parser → List Access
  | window, p =>
    popAccesses s.table p.stack skipped.length current.token.symbol ++
      match popsFor? s.table p.stack skipped.length current.token.symbol, window with
      | some _, _ | none, 0 => []
      | none, window + 1 =>
        if current.token.isEnd then []
        else
          let (next, p') := readAhead s p
          readAheadAccesses s p ++ recoveryAccesses s (skipped ++ [current]) next window p'

/-- What the move after an error accesses. -/
def recoverAccesses (s : Setting A) (p : Parser) (token : Token) : List Access :=
  recoveryAccesses s [] ⟨[], token⟩ s.window p ++
    match findRecovery s [] ⟨[], token⟩ s.window p with
    | some (r, _) => r.skipped.map (leafAccess ·.token)
    | none =>
      if token.isEnd then [] else leafAccess token :: readAccesses s (giveUpToken s p token)

/-- What a move accesses, given the next token and what is taken over in its place. -/
def accesses (s : Setting A) (taken : Option (Subtree × Nat)) (p : Parser) (token : Token) :
    List Access :=
  match s.table.action p.state token.symbol with
  | .shift next =>
    match taken with
    | some (t, after) => readAccesses s (p.takeOver token t after)
    | none => leafAccess token :: readAccesses s (p.shift s next token)
  | .reduce production => [.production production]
  | .accept => []
  | .error => recoverAccesses s p token

/-! ### Running -/

/-- Whether all that is accessed is in range. -/
def inRange (s : Setting A) (accesses : List Access) : Bool := accesses.all (·.isInRange s.table s.text)

/-- Moves on along the old tree until the tree is complete, if that takes no more than a number of moves
and they stay in range. -/
def runInRange (s : Setting A) : Nat → Trail → Token → Parser → Option (SyntaxTree A)
  | 0, _, _, _ => none
  | fuel + 1, trail, token, p =>
    if inRange s (accesses s (toReuseAlong? s trail p token).1 p token) then
      match stepAlong s trail p token with
      | (.done tree, _) => some tree
      | (.more token p, trail) => runInRange s fuel trail token p
    else none

/-- Runs from the start, as long as moves stay in range. -/
def runInRangeFromStart (s : Setting A) (fuel : Nat) : Option (SyntaxTree A) :=
  if inRange s (readAccesses s start) then
    let (token, p) := read s start
    runInRange s fuel [] token p
  else none

end Parser

/-- The tree of a text, unless the run does not come to an end or leaves what is in range. -/
def parse? (l : Language A) (text : List Char) (window : Nat) : Option (SyntaxTree A) :=
  Parser.runInRangeFromStart (.fresh l text window) maxMoves

/-- The tree of a text that a tree's text was edited into, unless the run does not come to an end or
leaves what is in range. -/
def reparse? (old : SyntaxTree A) (edits : List Edit) (text : List Char) (window : Nat) :
    Except EditError (Option (SyntaxTree A)) :=
  match EditSet.of edits (Text.byteLength old.text) (Text.byteLength text) with
  | .error e => .error e
  | .ok set => .ok (Parser.runInRangeFromStart (.edited old set text window) maxMoves)

end Parsing

end LRWorkbench
