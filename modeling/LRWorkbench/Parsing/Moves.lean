import LRWorkbench.Lexing.Lexer
import LRWorkbench.Parsing.Reuse
import LRWorkbench.Parsing.Stack
import LRWorkbench.Tree.Node

/-!
# The moves of the parser

The parser reads a text from left to right and builds its tree on a stack, as the actions of the
table say. It never fails.

- **Extras** wait until the next token is shifted, so that they never end a phrase.
- **Errors.** When there is no action for the next token, the parser looks for the cheapest way to
  go on: skip tokens, as few as possible, and take entries off the stack, again as few as possible,
  until the next token can be shifted or ends the input. What is given up becomes an error node.
  If nothing helps, the token alone does; at the end of the input all does.
- **Reuse.** When the text is an edited one, whole subtrees of the old tree are taken over where
  the parser is about to shift the token they begin with.

`Parser.step` does one move, and `Parser.run` moves on until the tree is complete. `Parser.stepAlong` does
one move too, but remembers between the moves where in the old tree it looked last.
-/

namespace LRWorkbench.Parsing

variable {A : Type} [ByteAutomaton A]

/-- What a run of the parser is given. -/
structure Setting (A : Type := PatternSet) [ByteAutomaton A] where
  language : Language A
  text : List Char
  /-- How many tokens may be skipped to get over an error. -/
  window : Nat
  /-- The tree before some edits. -/
  reuse : Option Reuse
  /-- How many runs came before. -/
  generation : Nat

/-- How far a run has come. -/
structure Parser where
  stack : Stack
  /-- The extras since the last token that was shifted, with their starts. -/
  pending : List (Subtree × Nat)
  /-- The place of the next token. -/
  position : Nat
  scanner : ScannerState
  /-- The state to look for the next token in, if it is not the one on top of the stack. -/
  lexState : Option Nat
  deriving Repr

namespace Setting

variable (s : Setting A)

def table : ParseTable A := s.language.table

/-- The number of bytes of the text. -/
def length : Nat := Text.byteLength s.text

/-- The leaf of a token. -/
def leaf (token : Token) (parseState lexState : Nat) (isFragile : Bool) : Subtree :=
  .leaf {
      symbol := token.symbol
      size := Extent.of (Text.slice token.start token.stop s.text)
      parseState := parseState
      lexState := some lexState
      lookaheadBytes := token.lookaheadEnd - token.stop
      hasError := token.isError
      isFragile := isFragile
      scannerBefore := token.scannerBefore
      scannerAfter := token.scannerAfter
      generation := s.generation }
    token.isExtra

/-- The tree of a root. -/
def tree (root : Subtree) : SyntaxTree A := ⟨root, s.text, s.language, s.generation⟩

end Setting

namespace Parser

/-- Before anything is read. -/
def start : Parser := ⟨[], [], 0, [], none⟩

/-- The current state. -/
def state (p : Parser) : Nat := Stack.state p.stack

/-- Moves the extras that wait onto the stack. -/
def flush (p : Parser) : Parser :=
  { p with stack := Stack.pushAllIgnored p.stack p.pending, pending := [] }

/-- Goes on behind a token. -/
def behind (p : Parser) (token : Token) : Parser :=
  { p with position := token.stop, scanner := token.scannerAfter }

/-! ### Reading tokens -/

/-- Reads up to the next token that is no extra; extras wait. Every token takes a byte, so there
are no more than bytes. -/
def readOn (s : Setting A) (lexState : Nat) : Nat → Parser → Token × Parser
  | 0, p => (Lexer.endToken s.length p.scanner, p)
  | fuel + 1, p =>
    let token := Lexer.nextToken s.language s.text p.position p.scanner
      (s.table.validTerminals lexState)
    let p' := p.behind token
    if token.isExtra then
      let leaf := s.leaf token p.state lexState token.errorMode
      readOn s lexState fuel { p' with pending := p'.pending ++ [(leaf, token.start)] }
    else (token, { p' with lexState := none })

/-- The next token that is no extra. -/
def read (s : Setting A) (p : Parser) : Token × Parser :=
  readOn s (p.lexState.getD p.state) (s.length + 1) p

/-- A token found while every terminal is allowed, with the extras before it. -/
structure Ahead where
  extras : List (Subtree × Nat)
  token : Token
  deriving Repr

/-- Reads up to the next token that is no extra while every terminal is allowed. -/
def readAheadOn (s : Setting A) (extras : List (Subtree × Nat)) : Nat → Parser → Ahead × Parser
  | 0, p => (⟨extras, Lexer.endToken s.length p.scanner⟩, p)
  | fuel + 1, p =>
    let token := Lexer.nextTokenInErrorMode s.language s.text p.position p.scanner
    let p' := p.behind token
    if token.isExtra then
      readAheadOn s (extras ++ [(s.leaf token p.state p.state true, token.start)]) fuel p'
    else (⟨extras, token⟩, p')

/-- The next token that is no extra, found while every terminal is allowed. -/
def readAhead (s : Setting A) (p : Parser) : Ahead × Parser :=
  readAheadOn s [] (s.length + 1) p

/-! ### Shifting, reducing and accepting -/

/-- Moves a token onto the stack. -/
def shift (s : Setting A) (p : Parser) (next : Nat) (token : Token) : Parser :=
  let leaf := s.leaf token p.state next token.errorMode
  let p := p.flush
  { p with stack := ⟨next, leaf, token.start⟩ :: p.stack }

/-- The state of the scanner at the end of the stack. -/
def stackScanner (stack : Stack) : ScannerState :=
  match stack with
  | [] => []
  | e :: _ => e.subtree.info.scannerAfter

/-- Puts the steps of a production together. Extras and errors between them come along; those
behind the last one stay behind the node. -/
def reduce (s : Setting A) (p : Parser) (production : Nat) (token : Token) : Parser :=
  match s.table.production? production with
  | none => p
  | some rule =>
    let (trailing, stack) := Stack.splitIgnored [] p.stack
    let (steps, stack) := Stack.splitSteps [] rule.length stack
    let start := (steps.head?.map (·.start)).getD (Stack.stop stack)
    let parseState := Stack.state stack
    let scanner := stackScanner stack
    let node := Subtree.build s.generation rule.lhs (some production) (steps.map (·.subtree))
      parseState (token.lookaheadEnd - start) token.errorMode scanner
    let stack :=
      match s.table.goto? parseState rule.lhs with
      | some next => ⟨next, node, start⟩ :: stack
      | none =>
        Stack.pushIgnored stack (Subtree.buildError s.generation [node] parseState scanner) start
    { p with stack := Stack.pushAllIgnored stack (trailing.map fun e => (e.subtree, e.start)) }

/-- The production of the first node for the start symbol among some subtrees, and the subtrees
with that node replaced by its children. -/
def unwrapStart (startSymbol : Symbol) : List Subtree → Option Nat × List Subtree
  | [] => (none, [])
  | t :: rest =>
    if !t.isIgnored && t.symbol = startSymbol then
      match t.production? with
      | some production => (some production, t.children ++ rest)
      | none =>
        let (production, more) := unwrapStart startSymbol rest
        (production, t.children ++ more)
    else
      let (production, more) := unwrapStart startSymbol rest
      (production, t :: more)

/-- The complete tree: the node for the start symbol takes in all extras and errors around it. -/
def accept (s : Setting A) (p : Parser) : SyntaxTree A :=
  let (production, children) :=
    unwrapStart s.table.startSymbol (Stack.subtrees p.flush.stack)
  s.tree (Subtree.build s.generation s.table.startSymbol production children 0 (s.length + 1) false
    [])

/-- The tree of a text that cannot be parsed. -/
def abandon (s : Setting A) (p : Parser) : SyntaxTree A :=
  s.tree (Subtree.buildError s.generation (Stack.subtrees p.flush.stack) 0 [])

/-! ### Taking over subtrees -/

/-- The state after a subtree of the old tree if it can be taken over for a token. It starts at a
place of the old text. -/
def reusable? (s : Setting A) (r : Reuse) (state : Nat) (token : Token) (oldStart : Nat)
    (t : Subtree) : Option Nat :=
  if t.isLeaf || t.isError || t.hasError || t.isFragile || t.length = 0 ||
      t.info.lexState.isNone || t.info.parseState ≠ state || !r.isUntouched t oldStart then
    none
  else
    match t.firstLeaf? with
    | none => none
    | some first =>
      if first.symbol ≠ token.symbol || first.length ≠ token.length ||
          t.info.scannerBefore ≠ token.scannerBefore then
        none
      else s.table.goto? state t.symbol

/-- A subtree of the old tree to take over in place of a token, and the state after it. -/
def toReuse? (s : Setting A) (p : Parser) (token : Token) : Option (Subtree × Nat) :=
  if token.errorMode || token.isEnd then none
  else
    match s.reuse with
    | none => none
    | some r =>
      match r.edits.toOld? token.start with
      | none => none
      | some oldStart =>
        (r.candidates oldStart).findSome? fun t =>
          (reusable? s r p.state token oldStart t).map fun next => (t, next)

/-- The same, found along the trail that the search before left behind, and the trail of this search. -/
def toReuseAlong? (s : Setting A) (trail : Trail) (p : Parser) (token : Token) :
    Option (Subtree × Nat) × Trail :=
  if token.errorMode || token.isEnd then (none, trail)
  else
    match s.reuse with
    | none => (none, trail)
    | some r =>
      match r.edits.toOld? token.start with
      | none => (none, trail)
      | some oldStart =>
        let (found, trail) := r.lookUp trail oldStart
        (found.findSome? fun (t, start) =>
          (reusable? s r p.state token start t).map fun next => (t, next), trail)

/-- Moves a subtree of the old tree onto the stack in place of a token. -/
def takeOver (p : Parser) (token : Token) (t : Subtree) (next : Nat) : Parser :=
  let p := p.flush
  { p with
    stack := ⟨next, t, token.start⟩ :: p.stack
    position := token.start + t.length
    scanner := t.info.scannerAfter
    lexState := t.info.lexState }

/-! ### Errors -/

/-- Whether a terminal can be shifted or accepted after the reductions it causes, given the states
on the stack, the top first. Only so many reductions are tried. -/
def canResume (t : ParseTable A) (s : Symbol) : Nat → List Nat → Bool
  | 0, _ => false
  | _ + 1, [] => false
  | fuel + 1, top :: below =>
    match t.action top s with
    | .shift _ | .accept => true
    | .error => false
    | .reduce production =>
      match t.production? production with
      | none => false
      | some rule =>
        match (top :: below).drop rule.length with
        | [] => false
        | state :: rest =>
          match t.goto? state rule.lhs with
          | some next => canResume t s fuel (next :: state :: rest)
          | none => false

/-- How many reductions are tried. -/
def maxReductions : Nat := 4096

/-- The least number of entries to take off the stack so that a terminal can follow. When no token
is skipped, at least one has to go. -/
def popsFor? (t : ParseTable A) (stack : Stack) (skipped : Nat) (s : Symbol) : Option Nat :=
  (List.range (stack.length + 1)).find? fun popped =>
    !(skipped = 0 && popped = 0) &&
      canResume t s maxReductions (Stack.grammarStates (stack.drop popped))

/-- A way to get over an error. -/
structure Recovery where
  /-- The tokens to skip. -/
  skipped : List Ahead
  /-- The token to go on with. -/
  resume : Ahead
  /-- How many entries to take off the stack. -/
  popped : Nat
  deriving Repr

/-- Looks for the cheapest way to get over an error, skipping a number of further tokens at
most. -/
def findRecovery (s : Setting A) (skipped : List Ahead) (current : Ahead) :
    Nat → Parser → Option (Recovery × Parser)
  | window, p =>
    match popsFor? s.table p.stack skipped.length current.token.symbol with
    | some popped => some (⟨skipped, current, popped⟩, p)
    | none =>
      match window with
      | 0 => none
      | window + 1 =>
        if current.token.isEnd then none
        else
          let (next, p) := readAhead s p
          findRecovery s (skipped ++ [current]) next window p

/-- What recovery gives up on the side of the text: the extras that wait and the skipped tokens,
with the extras between them, each with its start. -/
def givenUp (s : Setting A) (state : Nat) (pending : List (Subtree × Nat)) (skipped : List Ahead) :
    List (Subtree × Nat) :=
  match skipped with
  | [] => []
  | first :: rest =>
    let leafOf (a : Ahead) : Subtree × Nat := (s.leaf a.token state state true, a.token.start)
    pending ++ leafOf first :: rest.flatMap fun a => a.extras ++ [leafOf a]

/-- Gets over an error: what is given up becomes an error node. -/
def resume (s : Setting A) (r : Recovery) (p : Parser) : Token × Parser :=
  let popped := (p.stack.take r.popped).reverse.map fun e => (e.subtree, e.start)
  let stack := p.stack.drop r.popped
  let state := Stack.state stack
  let lost := popped ++ givenUp s state p.pending r.skipped
  let stack :=
    match lost with
    | [] => stack
    | (_, start) :: _ =>
      Stack.pushIgnored stack
        (Subtree.buildError s.generation (lost.map (·.1)) state r.resume.token.scannerBefore) start
  ({ r.resume.token with errorMode := true },
    { p with
      stack := stack
      pending := if r.skipped.isEmpty then p.pending else r.resume.extras })

/-- Makes a token an error node of its own. -/
def giveUpToken (s : Setting A) (p : Parser) (token : Token) : Parser :=
  let p := p.flush
  let leaf := s.leaf token p.state p.state true
  { p with
    stack := Stack.pushIgnored p.stack
      (Subtree.buildError s.generation [leaf] p.state token.scannerAfter) token.start }

/-! ### Running -/

/-- What a move leads to. -/
inductive Outcome (A : Type := PatternSet) [ByteAutomaton A] where
  | more (token : Token) (p : Parser)
  | done (tree : SyntaxTree A)

/-- The next move after an error. -/
def recover (s : Setting A) (p : Parser) (token : Token) : Outcome A :=
  match findRecovery s [] ⟨[], token⟩ s.window p with
  | some (r, p) =>
    let (token, p) := resume s r p
    .more token p
  | none =>
    if token.isEnd then .done (abandon s p)
    else
      let (token, p) := read s (giveUpToken s p token)
      .more token p

/-- One move, given the next token. -/
def step (s : Setting A) (p : Parser) (token : Token) : Outcome A :=
  match s.table.action p.state token.symbol with
  | .shift next =>
    let p :=
      match toReuse? s p token with
      | some (t, after) => p.takeOver token t after
      | none => p.shift s next token
    let (token, p) := read s p
    .more token p
  | .reduce production => .more token (p.reduce s production token)
  | .accept => .done (p.accept s)
  | .error => recover s p token

/-- Moves on until the tree is complete, if that takes no more than a number of moves. -/
def run (s : Setting A) : Nat → Token → Parser → Option (SyntaxTree A)
  | 0, _, _ => none
  | fuel + 1, token, p =>
    match step s p token with
    | .done tree => some tree
    | .more token p => run s fuel token p

/-- Runs from the start. -/
def runFromStart (s : Setting A) (fuel : Nat) : Option (SyntaxTree A) :=
  let (token, p) := read s start
  run s fuel token p

/-! ### Moving along the old tree -/

/-- One move, given the next token, with the trail left behind by the moves before. -/
def stepAlong (s : Setting A) (trail : Trail) (p : Parser) (token : Token) : Outcome A × Trail :=
  match s.table.action p.state token.symbol with
  | .shift next =>
    let (found, trail) := toReuseAlong? s trail p token
    let p :=
      match found with
      | some (t, after) => p.takeOver token t after
      | none => p.shift s next token
    let (token, p) := read s p
    (.more token p, trail)
  | _ => (step s p token, trail)

end Parser

/-- How many tokens may be skipped to get over an error, if nothing else is said. -/
def defaultWindow : Nat := 16

/-- The setting of a text that is parsed for the first time. -/
def Setting.fresh (l : Language A) (text : List Char) (window : Nat) : Setting A :=
  ⟨l, text, window, none, 0⟩

/-- The setting of a text that a tree's text was edited into. -/
def Setting.edited (old : SyntaxTree A) (edits : EditSet) (text : List Char) (window : Nat) :
    Setting A :=
  ⟨old.language, text, window, some ⟨old.root, edits⟩, old.generation + 1⟩

/-- More moves than any run makes that a computer will finish. -/
def maxMoves : Nat := 0x4000000000000000

end LRWorkbench.Parsing
