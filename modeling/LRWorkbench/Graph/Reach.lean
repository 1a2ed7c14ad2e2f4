/-!
# What can be reached

Places are numbers, and `next` tells where one can go from a place in one step.
`Graph.reachFrom next bound roots` lists all that can be reached from some places, breadth first:
the roots, then what is one step away, and so on. `bound` is the number of places there are.
-/

namespace LRWorkbench.Graph

/-- Adds to `seen`, in rounds, all that its latest members lead to. Each round but the last adds a
member. -/
def closeUnder (next : Nat → List Nat) : Nat → List Nat → List Nat → List Nat
  | 0, _, seen => seen
  | rounds + 1, latest, seen =>
    match (latest.flatMap next).eraseDups.filter fun i => !seen.contains i with
    | [] => seen
    | fresh => closeUnder next rounds fresh (seen ++ fresh)

/-- All that can be reached from some places, the nearest first. -/
def reachFrom (next : Nat → List Nat) (bound : Nat) (roots : List Nat) : List Nat :=
  closeUnder next bound roots.eraseDups roots.eraseDups

end LRWorkbench.Graph
