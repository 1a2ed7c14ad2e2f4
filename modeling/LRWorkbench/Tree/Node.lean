import LRWorkbench.Lexing.Language
import LRWorkbench.Tree.Subtree

/-!
# Syntax trees and their nodes

A syntax tree is a subtree that covers a whole text. A `Node` is a subtree at its place. Only
visible symbols have nodes of their own: a hidden subtree is replaced by what it consists of, and
a field of it goes over to the nodes that take its place.

- `Node.shown` is the tree of visible nodes below a node, with it on top; children, printed forms
  and walks are read off it;
- `Node.path` tells nodes apart: it leads to the subtree from the root.
-/

namespace LRWorkbench

variable {A : Type} [ByteAutomaton A]

/-- A subtree that covers a text, with the language it was parsed in. -/
structure SyntaxTree (A : Type := PatternSet) [ByteAutomaton A] where
  root : Subtree
  text : List Char
  language : Language A
  /-- How many runs of the parser came before the one that built the root. -/
  generation : Nat

/-- A subtree at its place in a tree. -/
structure Node where
  subtree : Subtree
  /-- Where the subtree starts. -/
  start : Extent
  /-- The field that the node fills in its parent. -/
  field : Option FieldId
  /-- The places to take among the children, from the root down to the subtree. -/
  path : List Nat
  deriving Repr, Inhabited

namespace SyntaxTree

variable (t : SyntaxTree A)

def table : ParseTable A := t.language.table

def rootNode : Node := ⟨t.root, Extent.zero, none, []⟩

def hasError : Bool := t.root.hasError

/-- Whether two trees have the same text and structure. -/
def same (t u : SyntaxTree A) : Bool := t.text == u.text && t.root.same u.root

end SyntaxTree

namespace Node

def symbol (n : Node) : Symbol := n.subtree.symbol

def startByte (n : Node) : Nat := n.start.bytes

def endByte (n : Node) : Nat := n.start.bytes + n.subtree.length

def startPoint (n : Node) : Point := n.start.point

def endPoint (n : Node) : Point := (n.start + n.subtree.size).point

def isExtra (n : Node) : Bool := n.subtree.isExtra

def isError (n : Node) : Bool := n.subtree.isError

def hasError (n : Node) : Bool := n.subtree.hasError

/-- Whether two nodes are the same one of a tree. -/
def isSame (n m : Node) : Bool := n.path = m.path

/-- The piece of a text that a node covers. -/
def textIn (n : Node) (text : List Char) : List Char := Text.slice n.startByte n.endByte text

/-- The piece that a node covers of some bytes, if it is well-formed. -/
def utf8TextIn? (n : Node) (bytes : List UInt8) : Option String :=
  Text.ofUtf8? ((bytes.drop n.startByte).take (n.endByte - n.startByte))

/-- The name of a node's kind. -/
def kind (t : ParseTable A) (n : Node) : String := t.symbolName n.symbol

/-- Whether a node's kind has a name. Characters that no token begins with have none. -/
def isNamed (t : ParseTable A) (n : Node) : Bool :=
  !(n.subtree.isLeaf && n.isError) && t.isNamed n.symbol

def isVisible (t : ParseTable A) (n : Node) : Bool := t.isVisible n.symbol

def fieldName? (t : ParseTable A) (n : Node) : Option String := n.field.map t.fieldName

end Node

/-! ### The visible tree -/

/-- A node and the visible nodes below it. -/
inductive Shown where
  | mk (node : Node) (children : List Shown)
  deriving Inhabited

namespace Shown

def node : Shown → Node
  | mk node _ => node

def children : Shown → List Shown
  | mk _ children => children

/-- The fields of the steps of a subtree's production. -/
def fieldsOf (t : ParseTable A) (production : Option Nat) : List (Option FieldId) :=
  ((production.bind t.production?).map (·.fields)).getD []

mutual

/-- The visible nodes that stand for a subtree: its own, or those of its children if its kind is
hidden. -/
def ofSubtree (t : ParseTable A) (start : Extent) (field : Option FieldId) (path : List Nat) :
    Subtree → List Shown
  | .leaf i x =>
    if t.isVisible i.symbol then [mk ⟨.leaf i x, start, field, path⟩ []] else []
  | .node i p children =>
    if t.isVisible i.symbol then
      [mk ⟨.node i p children, start, field, path⟩
        (ofChildren t start none path 0 (fieldsOf t p) children)]
    else ofChildren t start field path 0 (fieldsOf t p) children

/-- The visible nodes that stand for some children, from a place among them on. Extras and errors
take no step of the production. -/
def ofChildren (t : ParseTable A) (start : Extent) (inherited : Option FieldId) (path : List Nat)
    (place : Nat) (fields : List (Option FieldId)) : List Subtree → List Shown
  | [] => []
  | child :: rest =>
    let own := if child.isIgnored then none else fields.head?.join
    let fields := if child.isIgnored then fields else fields.tail
    ofSubtree t start (own.or inherited) (path ++ [place]) child ++
      ofChildren t (start + child.size) inherited path (place + 1) fields rest

end

mutual

/-- A node and all visible nodes below it, parents before children. -/
def preorder : Shown → List Node
  | mk node children => node :: preorders children

/-- The nodes of several visible trees. -/
def preorders : List Shown → List Node
  | [] => []
  | s :: rest => preorder s ++ preorders rest

end

mutual

/-- The named nodes in brackets, with their fields. -/
def sexp (t : ParseTable A) : Shown → String
  | mk node children => "(" ++ node.kind t ++ sexps t children ++ ")"

/-- The named ones of several nodes, each after a blank. -/
def sexps (t : ParseTable A) : List Shown → String
  | [] => ""
  | s :: rest =>
    (if s.node.isNamed t then
      " " ++ (match s.node.fieldName? t with | some name => name ++ ": " | none => "") ++ sexp t s
    else "") ++ sexps t rest

end

/-- A node on a line: its field, kind and range, and its text if it is named and has no visible
parts. -/
def line (t : SyntaxTree A) (node : Node) (isBottom : Bool) : String :=
  let kind := node.kind t.table
  (match node.fieldName? t.table with | some name => name ++ ": " | none => "") ++
    (if node.isNamed t.table then kind else Text.quoted kind.toList) ++ " " ++
    toString node.startByte ++ ".." ++ toString node.endByte ++
    (if isBottom && node.isNamed t.table then " " ++ Text.quoted (node.textIn t.text) else "") ++
    "\n"

mutual

/-- All visible nodes, a line each, children indented below their parents. -/
def dump (t : SyntaxTree A) (depth : Nat) : Shown → String
  | mk node children =>
    String.join (List.replicate depth "  ") ++ line t node children.isEmpty ++
      dumps t (depth + 1) children

/-- The lines of several nodes. -/
def dumps (t : SyntaxTree A) (depth : Nat) : List Shown → String
  | [] => ""
  | s :: rest => dump t depth s ++ dumps t depth rest

end

mutual

/-- The visible tree whose top is a given node. -/
def find? (target : Node) : Shown → Option Shown
  | mk node children => if node.isSame target then some (mk node children) else findAmong? target children

/-- The visible tree, among or below several, whose top is a given node. -/
def findAmong? (target : Node) : List Shown → Option Shown
  | [] => none
  | s :: rest => (find? target s).or (findAmong? target rest)

end

mutual

/-- The visible tree that has a given node right below its top. -/
def parentOf? (target : Node) : Shown → Option Shown
  | mk node children =>
    if children.any fun s => s.node.isSame target then some (mk node children)
    else parentAmong? target children

/-- The visible tree, among or below several, that has a given node right below its top. -/
def parentAmong? (target : Node) : List Shown → Option Shown
  | [] => none
  | s :: rest => (parentOf? target s).or (parentAmong? target rest)

end

/-- The visible tree that some places lead to, each taken among the children. -/
def atPath? (s : Shown) : List Nat → Option Shown
  | [] => some s
  | place :: rest =>
    match s.children[place]? with
    | some child => child.atPath? rest
    | none => none

/-- The children that fill a field. -/
def childrenByField (t : ParseTable A) (s : Shown) (name : String) : List Node :=
  match t.fieldFor? name with
  | some field => (s.children.map node).filter fun n => n.field = some field
  | none => []

/-- The children whose kinds have names. -/
def namedChildren (t : ParseTable A) (s : Shown) : List Node :=
  (s.children.map node).filter (·.isNamed t)

end Shown

namespace Node

/-- The visible tree below a node, with the node on top even if its kind is hidden. -/
def shown (t : ParseTable A) (n : Node) : Shown :=
  .mk n (Shown.ofChildren t n.start none n.path 0
    (Shown.fieldsOf t n.subtree.production?) n.subtree.children)

/-- The form `{Node kind 3..7}`. -/
def summary (t : ParseTable A) (n : Node) : String :=
  "\x7bNode " ++ n.kind t ++ " " ++ toString n.startByte ++ ".." ++ toString n.endByte ++ "\x7d"

end Node

namespace SyntaxTree

variable (t : SyntaxTree A)

/-- The visible tree of the root. -/
def shown : Shown := t.rootNode.shown t.table

/-- The node that a node stands right below of. -/
def parent? (n : Node) : Option Shown :=
  if n.isSame t.rootNode then none else t.shown.parentOf? n

/-- The node a number of places after a node among the children of its parent. -/
def nextSibling? (n : Node) : Option Node := do
  let parent ← t.parent? n
  let place ← parent.children.findIdx? fun s => s.node.isSame n
  (parent.children[place + 1]?).map Shown.node

/-- The node before a node among the children of its parent. -/
def previousSibling? (n : Node) : Option Node := do
  let parent ← t.parent? n
  let place ← parent.children.findIdx? fun s => s.node.isSame n
  if place = 0 then none else (parent.children[place - 1]?).map Shown.node

mutual

/-- The leaves of a subtree at a place, as nodes. -/
def leafNodes (start : Extent) (path : List Nat) : Subtree → List Node
  | .leaf i x => [⟨.leaf i x, start, none, path⟩]
  | .node _ _ children => leafNodesOf start path 0 children

/-- The leaves of some children, from a place among them on, as nodes. -/
def leafNodesOf (start : Extent) (path : List Nat) (place : Nat) : List Subtree → List Node
  | [] => []
  | child :: rest =>
    leafNodes start (path ++ [place]) child ++
      leafNodesOf (start + child.size) path (place + 1) rest

end

/-- All tokens in order, extras and hidden ones included. -/
def leaves : List Node := leafNodes Extent.zero [] t.root

/-- The state of the scanner after the last external token that ends at or before a place. -/
def scannerStateAt (byte : Nat) : ScannerState :=
  match ((t.leaves.takeWhile fun n => n.endByte ≤ byte).filter fun n =>
      t.table.isExternal n.symbol).getLast? with
  | some leaf => leaf.subtree.info.scannerAfter
  | none => []

/-- The named nodes in brackets, with their fields. -/
def sexp : String := t.shown.sexp t.table

/-- All visible nodes, a line each. -/
def dump : String := t.shown.dump t 0

/-- The form `SyntaxTree { language: "x", root: "(a)" }`. -/
def summary : String :=
  "SyntaxTree \x7b language: " ++ Text.quoted t.language.name.toList ++ ", root: " ++
    Text.quoted t.sexp.toList ++ " \x7d"

end SyntaxTree

end LRWorkbench
