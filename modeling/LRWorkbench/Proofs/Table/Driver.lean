import LRWorkbench.Table.Basic
import Mathlib.Logic.Relation

/-!
# Driving a table

A table by itself makes trees of terminals: a driver shifts terminals onto a stack of states and
trees, and puts the trees of the steps of a production together when it is reduced. It has one move
at most in each configuration (`ParseTable.step?`), so that terminals make up one tree at most
(`ParseTable.Builds.unique`).
-/

namespace LRWorkbench

/-- What is made of terminals: the productions that were reduced, each over its steps. -/
inductive ParseTree where
  | leaf (s : Symbol)
  | node (production : Nat) (children : List ParseTree)
  deriving Repr, Inhabited

/-- The trees made so far, the last one first, each with the state it led to, and the terminals to
come. -/
structure Driver where
  stack : List (Nat × ParseTree)
  input : List Symbol

namespace Driver

/-- The state that a stack has led to. -/
def stateOf (stack : List (Nat × ParseTree)) : Nat := (stack.head?.map (·.1)).getD 0

@[simp] theorem stateOf_nil : stateOf [] = 0 := rfl

@[simp] theorem stateOf_cons (q : Nat) (tree : ParseTree) (below : List (Nat × ParseTree)) :
    stateOf ((q, tree) :: below) = q := rfl

end Driver

namespace ParseTable

open Driver

variable (t : ParseTable)

/-- The stack after a reduction. -/
def reduced? (stack : List (Nat × ParseTree)) (p : Nat) : Option (List (Nat × ParseTree)) := do
  let rule ← t.production? p
  let below := stack.drop rule.length
  if stack.length < rule.length then none
  let r ← t.goto? (stateOf below) rule.lhs
  return (r, .node p ((stack.take rule.length).map (·.2)).reverse) :: below

/-- One move of the driver. -/
def step? (d : Driver) : Option Driver :=
  match d.input with
  | [] => none
  | s :: rest =>
    match t.action (stateOf d.stack) s with
    | .shift r => some ⟨(r, .leaf s) :: d.stack, rest⟩
    | .reduce p => (t.reduced? d.stack p).map fun stack => ⟨stack, s :: rest⟩
    | .accept | .error => none

/-- Whether some moves lead from here to there. -/
def Drives : Driver → Driver → Prop := Relation.ReflTransGen fun d d' => t.step? d = some d'

/-- Whether terminals are accepted with a tree: it is all that was made of them when the end of the
input is accepted. -/
def Builds (sentence : List Symbol) (tree : ParseTree) : Prop :=
  ∃ q, t.Drives ⟨[], sentence ++ [.endOfInput]⟩ ⟨[(q, tree)], [.endOfInput]⟩ ∧
    t.action q .endOfInput = .accept

variable {t}

theorem step?_of_shift {stack : List (Nat × ParseTree)} {s : Symbol} {rest : List Symbol} {r : Nat}
    (h : t.action (stateOf stack) s = .shift r) :
    t.step? ⟨stack, s :: rest⟩ = some ⟨(r, .leaf s) :: stack, rest⟩ := by
  rw [step?]
  dsimp only
  rw [h]

theorem step?_of_reduce (steps : List (Nat × ParseTree)) {below : List (Nat × ParseTree)}
    {s : Symbol} {rest : List Symbol} {p r : Nat} {rule : TableProduction}
    (h : t.action (stateOf (steps ++ below)) s = .reduce p)
    (hrule : t.production? p = some rule) (hlength : rule.length = steps.length)
    (hgoto : t.goto? (stateOf below) rule.lhs = some r) :
    t.step? ⟨steps ++ below, s :: rest⟩ =
      some ⟨(r, .node p (steps.map (·.2)).reverse) :: below, s :: rest⟩ := by
  have hreduced : t.reduced? (steps ++ below) p =
      some ((r, .node p (steps.map (·.2)).reverse) :: below) := by
    rw [reduced?, hrule]
    dsimp only [bind, Option.bind]
    rw [if_neg (by rw [List.length_append]; omega), hlength, List.drop_left, List.take_left,
      hgoto]
    rfl
  rw [step?]
  dsimp only
  rw [h]
  dsimp only
  rw [hreduced]
  rfl

theorem step?_of_accept {stack : List (Nat × ParseTree)} {s : Symbol} {rest : List Symbol}
    (h : t.action (stateOf stack) s = .accept) : t.step? ⟨stack, s :: rest⟩ = none := by
  rw [step?]
  dsimp only
  rw [h]

/-- There is one move at most, so that one end is on the way to the other. -/
theorem Drives.comparable {d e e' : Driver} (h : t.Drives d e) (h' : t.Drives d e') :
    t.Drives e e' ∨ t.Drives e' e := by
  induction h with
  | refl => exact .inl h'
  | tail _ hstep ih =>
    rcases ih with hon | hback
    · rcases Relation.ReflTransGen.cases_head hon with rfl | ⟨next, hnext, hrest⟩
      · exact .inr (.single hstep)
      · obtain rfl := Option.some.inj (hstep.symm.trans hnext)
        exact .inl hrest
    · exact .inr (hback.tail hstep)

/-- Terminals make up one tree at most. -/
theorem Builds.unique {sentence : List Symbol} {tree tree' : ParseTree}
    (h : t.Builds sentence tree) (h' : t.Builds sentence tree') : tree = tree' := by
  obtain ⟨q, hdrives, haccept⟩ := h
  obtain ⟨q', hdrives', haccept'⟩ := h'
  -- an accepting driver is at its end
  have hend : ∀ {q tree d}, t.action q .endOfInput = .accept →
      t.Drives ⟨[(q, tree)], [.endOfInput]⟩ d → d = ⟨[(q, tree)], [.endOfInput]⟩ := by
    intro q tree d haccept hdrives
    rcases Relation.ReflTransGen.cases_head hdrives with heq | ⟨next, hnext, -⟩
    · exact heq.symm
    · rw [step?_of_accept haccept] at hnext
      cases hnext
  rcases hdrives.comparable hdrives' with hon | hon
  · cases hend haccept hon
    rfl
  · cases hend haccept' hon
    rfl

end ParseTable

end LRWorkbench
