import LRWorkbench.Tree.Subtree

/-!
# The stack of the parser

The stack holds subtrees in the order of the text, each with the state that follows it. Extras and
pieces that could not be parsed are **ignored**: they repeat the state below and take no step of a
production. The list of entries begins with the top.
-/

namespace LRWorkbench.Parsing

/-- A subtree on the stack. -/
structure Entry where
  /-- The state after the subtree. -/
  state : Nat
  subtree : Subtree
  /-- The byte at which the subtree starts. -/
  start : Nat
  deriving Repr, Inhabited

/-- The entries, the top first. -/
abbrev Stack := List Entry

namespace Stack

/-- The current state. -/
def state : Stack → Nat
  | [] => 0
  | e :: _ => e.state

/-- The end of the text that the stack covers. -/
def stop : Stack → Nat
  | [] => 0
  | e :: _ => e.start + e.subtree.length

/-- Puts a subtree on the stack that takes no step. -/
def pushIgnored (stack : Stack) (subtree : Subtree) (start : Nat) : Stack :=
  ⟨state stack, subtree, start⟩ :: stack

/-- Puts several such subtrees on the stack, one after the other. -/
def pushAllIgnored (stack : Stack) (entries : List (Subtree × Nat)) : Stack :=
  entries.foldl (fun s e => pushIgnored s e.1 e.2) stack

/-- Splits off entries until a number of them that are not ignored is found; those split off come
in the order of the text. -/
def splitSteps (found : List Entry) : Nat → Stack → List Entry × Stack
  | 0, stack => (found, stack)
  | _ + 1, [] => (found, [])
  | count + 1, e :: rest =>
    splitSteps (e :: found) (if e.subtree.isIgnored then count + 1 else count) rest

/-- Splits the ignored entries off the top; they come in the order of the text. -/
def splitIgnored (found : List Entry) : Stack → List Entry × Stack
  | [] => (found, [])
  | e :: rest => if e.subtree.isIgnored then splitIgnored (e :: found) rest else (found, e :: rest)

/-- The states of the entries that are not ignored, the top first, down to the initial state. -/
def grammarStates (stack : Stack) : List Nat :=
  (stack.filter fun e => !e.subtree.isIgnored).map (·.state) ++ [0]

/-- The subtrees of the entries in the order of the text. -/
def subtrees (stack : Stack) : List Subtree := (stack.map (·.subtree)).reverse

end Stack

end LRWorkbench.Parsing
