import LRWorkbench.Grammar.Symbol
import LRWorkbench.Lexing.Language
import LRWorkbench.Text.Extent

/-!
# Subtrees

A subtree is a leaf, that is a token, or a node over other subtrees. It knows its size but not
where it stands, so that one subtree can stand at different places of successive trees. Besides
it remembers what the parser has to know to take it over into another tree: the states it was
built in, how far the lexer looked past its end, and the states of the scanner.

- `Subtree.same` compares symbols, sizes, productions, flags and shape, and nothing else;
- `Subtree.generation` counts the runs of the parser that came before the one that built a
  subtree: what an earlier run built is shared with an earlier tree.
-/

namespace LRWorkbench

/-- What leaves and nodes have in common. -/
structure SubtreeInfo where
  symbol : Symbol
  size : Extent
  /-- The state below the subtree on the stack of the parser. -/
  parseState : Nat
  /-- The state that the token after the subtree was looked for in. -/
  lexState : Option Nat
  /-- How many bytes past the end were looked at to build the subtree. -/
  lookaheadBytes : Nat
  hasError : Bool
  /-- Built from tokens found while every terminal was allowed. -/
  isFragile : Bool
  scannerBefore : ScannerState
  scannerAfter : ScannerState
  generation : Nat
  deriving DecidableEq, Repr, Inhabited

/-- A piece of a syntax tree. -/
inductive Subtree where
  /-- A token, which may be an extra. -/
  | leaf (info : SubtreeInfo) (isExtra : Bool)
  /-- A phrase, or a piece that is none and has no production. -/
  | node (info : SubtreeInfo) (production : Option Nat) (children : List Subtree)
  deriving Repr, Inhabited

namespace Subtree

def info : Subtree → SubtreeInfo
  | leaf info _ | node info _ _ => info

def symbol (t : Subtree) : Symbol := t.info.symbol

def size (t : Subtree) : Extent := t.info.size

/-- The number of bytes. -/
def length (t : Subtree) : Nat := t.size.bytes

def children : Subtree → List Subtree
  | leaf _ _ => []
  | node _ _ children => children

def production? : Subtree → Option Nat
  | leaf _ _ => none
  | node _ production _ => production

def isLeaf : Subtree → Bool
  | leaf _ _ => true
  | node _ _ _ => false

def isExtra : Subtree → Bool
  | leaf _ isExtra => isExtra
  | node _ _ _ => false

/-- Whether the subtree is itself a piece that could not be parsed. -/
def isError (t : Subtree) : Bool := t.symbol.isError

def hasError (t : Subtree) : Bool := t.info.hasError

def isFragile (t : Subtree) : Bool := t.info.isFragile

/-- Whether the parser passes over the subtree when it counts the steps of a production. -/
def isIgnored (t : Subtree) : Bool := t.isExtra || t.symbol.isError

def generation (t : Subtree) : Nat := t.info.generation

/-! ### Building nodes -/

/-- What is gathered from the children of a node. -/
structure Gathered where
  size : Extent
  /-- How far, from the start of the node, the lexer looked. -/
  lookahead : Nat
  hasError : Bool
  isFragile : Bool
  lexState : Option Nat
  deriving DecidableEq, Repr

/-- Takes one more child into account. The token after the last child with bytes that is no extra
is the token after the node. -/
def Gathered.add (g : Gathered) (child : Subtree) : Gathered :=
  let size := g.size + child.size
  { size := size
    lookahead := max g.lookahead (size.bytes + child.info.lookaheadBytes)
    hasError := g.hasError || child.hasError
    isFragile := g.isFragile || child.isFragile
    lexState := if child.length > 0 && !child.isExtra then child.info.lexState else g.lexState }

/-- A node over some children. `lookahead` is how far, from the start of the node, the lexer had
looked when it was built; `scanner` is the state of the scanner, which counts if there are no
children. -/
def build (generation : Nat) (symbol : Symbol) (production : Option Nat) (children : List Subtree)
    (parseState lookahead : Nat) (isFragile : Bool) (scanner : ScannerState) : Subtree :=
  let g := children.foldl Gathered.add ⟨Extent.zero, lookahead, symbol.isError, isFragile, none⟩
  node {
      symbol := symbol
      size := g.size
      parseState := parseState
      lexState := g.lexState
      lookaheadBytes := g.lookahead - g.size.bytes
      hasError := g.hasError
      isFragile := g.isFragile
      scannerBefore := (children.head?.map (·.info.scannerBefore)).getD scanner
      scannerAfter := (children.getLast?.map (·.info.scannerAfter)).getD scanner
      generation := generation }
    production children

/-- A node over what could not be parsed. -/
def buildError (generation : Nat) (children : List Subtree) (parseState : Nat)
    (scanner : ScannerState) : Subtree :=
  build generation .error none children parseState 0 true scanner

/-! ### Comparing -/

/-- Whether two subtrees have the same symbol, size, production and flags, apart from their
children. -/
def sameTop (a b : Subtree) : Bool :=
  a.symbol = b.symbol && a.size = b.size && a.production? = b.production? &&
    a.isLeaf == b.isLeaf && a.isExtra == b.isExtra && a.hasError == b.hasError

mutual

/-- Whether two subtrees look the same. -/
def same : Subtree → Subtree → Bool
  | leaf i x, b => sameTop (leaf i x) b
  | node i p children, b => sameTop (node i p children) b && sameAll children b.children

/-- Whether the members of two lists look the same, one by one. -/
def sameAll : List Subtree → List Subtree → Bool
  | [], [] => true
  | a :: as, b :: bs => same a b && sameAll as bs
  | _, _ => false

end

/-! ### Leaves and other parts -/

mutual

/-- The leaves from left to right. -/
def leaves : Subtree → List Subtree
  | leaf i x => [leaf i x]
  | node _ _ children => leavesOf children

/-- The leaves of several subtrees. -/
def leavesOf : List Subtree → List Subtree
  | [] => []
  | t :: ts => leaves t ++ leavesOf ts

end

mutual

/-- The first leaf, if there is one. -/
def firstLeaf? : Subtree → Option Subtree
  | leaf i x => some (leaf i x)
  | node _ _ children => firstLeafOf? children

/-- The first leaf of several subtrees. -/
def firstLeafOf? : List Subtree → Option Subtree
  | [] => none
  | t :: ts => (firstLeaf? t).or (firstLeafOf? ts)

end

mutual

/-- The form `#3[7][#1[4], #2[3]]`: symbols, sizes and children. -/
def text : Subtree → String
  | leaf i _ => i.symbol.text ++ "[" ++ toString i.size.bytes ++ "]"
  | node i _ children =>
    i.symbol.text ++ "[" ++ toString i.size.bytes ++ "]" ++
      match children with
      | [] => ""
      | first :: rest => "[" ++ text first ++ textsAfter rest ++ "]"

/-- Several subtrees, each after a comma. -/
def textsAfter : List Subtree → String
  | [] => ""
  | t :: ts => ", " ++ text t ++ textsAfter ts

end

end Subtree

end LRWorkbench
