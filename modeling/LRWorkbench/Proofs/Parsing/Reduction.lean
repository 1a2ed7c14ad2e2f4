import LRWorkbench.Proofs.Parsing.Run

/-!
# What a reduction puts on the stack

A reduction puts one entry in place of the steps of a production (`Parser.entryOver`) and the
ignored entries above them back on top (`Parser.reduce_eq`). If all steps lie above some point of
the stack, what happens above it depends on nothing below but the state there
(`Parser.reduce_append`).
-/

namespace LRWorkbench.Parsing

open Subtree

namespace Stack

/-- The entries that are put on top repeat the state. -/
theorem pushAllIgnored_eq (stack : Stack) (entries : List (Subtree × Nat)) :
    pushAllIgnored stack entries =
      (entries.map fun e => ⟨state stack, e.1, e.2⟩).reverse ++ stack := by
  induction entries generalizing stack with
  | nil => rfl
  | cons entry entries ih =>
    rw [pushAllIgnored, List.foldl_cons, ← pushAllIgnored, ih, List.map_cons, List.reverse_cons,
      List.append_assoc]
    rfl

/-- What is put on top of a stack that is not empty leaves what is below alone. -/
theorem pushAllIgnored_append (e : Entry) (front base : Stack) (entries : List (Subtree × Nat)) :
    pushAllIgnored (e :: (front ++ base)) entries =
      pushAllIgnored (e :: front) entries ++ base := by
  rw [pushAllIgnored_eq, pushAllIgnored_eq, List.append_assoc]
  rfl

theorem splitIgnored_append {found : List Entry} {front base : Stack} (h : steps front ≠ []) :
    splitIgnored found (front ++ base) =
      ((splitIgnored found front).1, (splitIgnored found front).2 ++ base) := by
  induction front generalizing found with
  | nil => exact absurd rfl h
  | cons e front ih =>
    rw [List.cons_append, splitIgnored, splitIgnored]
    split
    · rename_i he
      exact ih (by rwa [steps_cons_of_ignored he] at h)
    · rfl

theorem splitSteps_append {found : List Entry} {count : Nat} {front base : Stack}
    (h : count ≤ (steps front).length) :
    splitSteps found count (front ++ base) =
      ((splitSteps found count front).1, (splitSteps found count front).2 ++ base) := by
  induction front generalizing found count with
  | nil =>
    obtain rfl := Nat.le_zero.mp h
    cases base <;> rfl
  | cons e front ih =>
    cases count with
    | zero => rfl
    | succ count =>
      rw [List.cons_append, splitSteps, splitSteps]
      refine ih ?_
      cases he : e.subtree.isIgnored with
      | true =>
        rw [steps_cons_of_ignored he] at h
        exact h
      | false =>
        rw [steps_cons_of_not_ignored he, List.length_cons] at h
        exact Nat.le_of_succ_le_succ h

theorem steps_splitIgnored (found : List Entry) (stack : Stack) :
    steps (splitIgnored found stack).2 = steps stack := by
  induction stack generalizing found with
  | nil => rfl
  | cons e stack ih =>
    rw [splitIgnored]
    split
    · rename_i he
      rw [steps_cons_of_ignored he]
      exact ih _
    · rfl

/-- The state on top of a piece of a stack that stands above a state. -/
def stateAbove (q : Nat) : Stack → Nat
  | [] => q
  | e :: _ => e.state

theorem state_append (front base : Stack) : state (front ++ base) = stateAbove (state base) front := by
  cases front <;> rfl

end Stack

namespace Parser

variable (s : Setting) (production : Nat) (rule : TableProduction) (token : Token)

/-- The entry that takes the place of the steps of a production. They stand above a state; if there
are none, `stop` and `scanner` are those of the stack below. -/
def entryOver (steps : List Entry) (state stop : Nat) (scanner : ScannerState) : Entry :=
  let start := (steps.head?.map (·.start)).getD stop
  let node := Subtree.build s.generation rule.lhs (some production) (steps.map (·.subtree)) state
    (token.lookaheadEnd - start) token.errorMode scanner
  match s.table.goto? state rule.lhs with
  | some next => ⟨next, node, start⟩
  | none => ⟨state, Subtree.buildError s.generation [node] state scanner, start⟩

/-- The piece of a stack above a state after a reduction within it. -/
def reduceAbove (q : Nat) (front : Stack) : Stack :=
  let (trailing, stack) := Stack.splitIgnored [] front
  let (steps, rest) := Stack.splitSteps [] rule.length stack
  Stack.pushAllIgnored
    (entryOver s production rule token steps (Stack.stateAbove q rest) (Stack.stop rest)
      (stackScanner rest) :: rest)
    (trailing.map fun e => (e.subtree, e.start))

variable {s production rule token} {p : Parser}

theorem reduce_eq (hrule : s.table.production? production = some rule) :
    p.reduce s production token =
      { p with stack := reduceAbove s production rule token 0 p.stack } := by
  rw [reduce, hrule, reduceAbove]
  generalize Stack.splitIgnored [] p.stack = split
  obtain ⟨trailing, stack⟩ := split
  dsimp only
  generalize Stack.splitSteps [] rule.length stack = split
  obtain ⟨steps, rest⟩ := split
  have hstate : Stack.stateAbove 0 rest = Stack.state rest := by cases rest <;> rfl
  dsimp only [entryOver]
  rw [hstate]
  cases s.table.goto? (Stack.state rest) rule.lhs <;> rfl

/-- The state of the scanner below counts only if there are no children. -/
theorem build_of_ne_nil {children : List Subtree} (h : children ≠ []) (generation : Nat)
    (symbol : Symbol) (production : Option Nat) (parseState lookahead : Nat) (isFragile : Bool)
    (scanner scanner' : ScannerState) :
    build generation symbol production children parseState lookahead isFragile scanner =
      build generation symbol production children parseState lookahead isFragile scanner' := by
  obtain ⟨first, rest, rfl⟩ := List.exists_cons_of_ne_nil h
  simp only [build, List.head?_cons, Option.map_some, Option.getD_some, List.getLast?_cons]

/-- What is below counts only if there are no steps. -/
theorem entryOver_of_ne_nil {steps : List Entry} (h : steps ≠ []) (state stop stop' : Nat)
    (scanner scanner' : ScannerState) :
    entryOver s production rule token steps state stop scanner =
      entryOver s production rule token steps state stop' scanner' := by
  obtain ⟨first, rest, rfl⟩ := List.exists_cons_of_ne_nil h
  simp only [entryOver, List.head?_cons, Option.map_some, Option.getD_some]
  rw [build_of_ne_nil (by simp) _ _ _ _ _ _ scanner scanner']
  split
  · rfl
  · rw [buildError, buildError, build_of_ne_nil (by simp) _ _ _ _ _ _ scanner scanner']

/-- What a reduction does to a piece of a stack: the entries that the steps of the production are
among give way to one, and the ignored ones above repeat its state. -/
theorem reduceAbove_spec {q : Nat} {front : Stack} (hle : rule.length ≤ (Stack.steps front).length) :
    ∃ trailing steps rest entry,
      front = trailing ++ (steps ++ rest) ∧ (∀ e ∈ trailing, e.subtree.isIgnored = true) ∧
      (Stack.steps steps).length = rule.length ∧
      (∀ e, steps.getLast? = some e → e.subtree.isIgnored = false) ∧
      entry = entryOver s production rule token steps.reverse (Stack.stateAbove q rest)
        (Stack.stop rest) (stackScanner rest) ∧
      reduceAbove s production rule token q front =
        trailing.map (fun e => ⟨entry.state, e.subtree, e.start⟩) ++ entry :: rest := by
  obtain ⟨⟨ignored, stack⟩, hignored⟩ : ∃ split, Stack.splitIgnored [] front = split := ⟨_, rfl⟩
  obtain ⟨⟨found, rest⟩, hsteps⟩ : ∃ split, Stack.splitSteps [] rule.length stack = split :=
    ⟨_, rfl⟩
  obtain ⟨trailing, rfl, rfl, htrailing⟩ := Stack.splitIgnored_spec hignored
  obtain ⟨steps, rfl, rfl, hcount⟩ := Stack.splitSteps_spec hsteps
  rw [Stack.steps_append, Stack.steps_eq_nil htrailing, List.nil_append] at hle
  obtain ⟨hlength, hlast⟩ := hcount hle
  refine ⟨trailing, steps, rest, _, rfl, htrailing, hlength, hlast, rfl, ?_⟩
  rw [List.append_nil] at hignored hsteps
  rw [reduceAbove, hignored]
  dsimp only
  rw [hsteps]
  dsimp only
  rw [Stack.pushAllIgnored_eq, List.map_map, List.map_reverse, List.reverse_reverse]
  rfl

/-- If all of a piece with a step is split off, there are steps. -/
theorem splitSteps_ne_nil {front : Stack} (count : Nat) (hstep : Stack.steps front ≠ [])
    (hrest : (Stack.splitSteps [] count front).2 = []) :
    (Stack.splitSteps [] count front).1 ≠ [] := by
  obtain ⟨taken, hfront, hsteps, -⟩ :=
    Stack.splitSteps_spec (Eq.refl (Stack.splitSteps [] count front))
  rw [hrest, List.append_nil] at hfront
  rw [hsteps, ← hfront, List.append_nil]
  intro hnil
  rw [List.reverse_eq_nil_iff.mp hnil] at hstep
  exact hstep rfl

/-- A reduction of steps that lie above some point of the stack. -/
theorem reduce_append {front base : Stack} (hrule : s.table.production? production = some rule)
    (hstack : p.stack = front ++ base) (hstep : Stack.steps front ≠ [])
    (hle : rule.length ≤ (Stack.steps front).length) :
    p.reduce s production token =
      { p with stack := reduceAbove s production rule token (Stack.state base) front ++ base } := by
  have hkept := Stack.steps_splitIgnored [] front
  rw [reduce_eq hrule, hstack, reduceAbove, reduceAbove, Stack.splitIgnored_append hstep]
  generalize Stack.splitIgnored [] front = split at hkept ⊢
  obtain ⟨trailing, stack⟩ := split
  dsimp only at hkept ⊢
  rw [← hkept] at hstep hle
  rw [Stack.splitSteps_append hle]
  have hnonempty := splitSteps_ne_nil rule.length hstep
  generalize Stack.splitSteps [] rule.length stack = split at hnonempty ⊢
  obtain ⟨steps, rest⟩ := split
  dsimp only at hnonempty ⊢
  rw [← Stack.pushAllIgnored_append]
  have hstate : Stack.stateAbove 0 (rest ++ base) = Stack.stateAbove (Stack.state base) rest := by
    cases rest with
    | nil => cases base <;> rfl
    | cons e rest => rfl
  rw [hstate]
  cases rest with
  | nil => rw [entryOver_of_ne_nil (hnonempty rfl)]
  | cons e rest => rfl

end Parser

end LRWorkbench.Parsing
