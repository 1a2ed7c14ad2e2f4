import LRWorkbench.Proofs.Grammar.Compile
import LRWorkbench.Proofs.Parsing.Run
import LRWorkbench.Proofs.Parsing.Trail
import LRWorkbench.Proofs.Tree.Derivation

/-!
# The stack is a path through the states

The steps on the stack are a path from the start, and ignored entries repeat the state below
(`Stack.Viable`). Shifting, reducing, recovering and taking over old subtrees keep it so, whatever
conflicts were decided in the table. In particular the phrase that a reduction makes always has a
goto (`Stack.Viable.exists_goto`).
-/

namespace LRWorkbench.Parsing

open Lalr Augmented PreparedGrammar

namespace Stack

/-- The symbols of the steps on a stack with the states they lead to. -/
def path (stack : Stack) : List (Symbol × Nat) :=
  (steps stack).map fun e => (e.subtree.symbol, e.state)

/-- Whether the steps on a stack lead from state to state and ignored entries nowhere. -/
inductive Viable (g : PreparedGrammar) : Stack → Prop where
  | nil : Viable g []
  | ignored {e : Entry} {stack : Stack} (below : Viable g stack)
      (ignored : e.subtree.isIgnored = true) (stays : e.state = state stack) :
      Viable g (e :: stack)
  | step {e : Entry} {stack : Stack} (below : Viable g stack)
      (step : e.subtree.isIgnored = false)
      (leads : g.Leads (state stack) e.subtree.symbol e.state) : Viable g (e :: stack)

variable {g : PreparedGrammar} {t : ParseTable} {stack front rest : Stack}

theorem path_append (front rest : Stack) : path (front ++ rest) = path front ++ path rest := by
  rw [path, steps_append, List.map_append]
  rfl

/-- The current state is the one that the steps lead to. -/
theorem Viable.state_eq (h : Viable g stack) : state stack = endOf (path stack) := by
  induction h with
  | nil => rfl
  | ignored below ignored stays ih =>
    rw [path, steps_cons_of_ignored ignored]
    exact stays.trans ih
  | step below step leads ih =>
    rw [path, steps_cons_of_not_ignored step]
    rfl

theorem Viable.path (h : Viable g stack) : g.Path (path stack) := by
  induction h with
  | nil => exact .nil
  | ignored below ignored stays ih =>
    rw [Stack.path, steps_cons_of_ignored ignored]
    exact ih
  | step below step leads ih =>
    rw [Stack.path, steps_cons_of_not_ignored step]
    rw [below.state_eq] at leads
    exact .cons ih leads

theorem Viable.of_append (h : Viable g (front ++ rest)) : Viable g rest := by
  induction front with
  | nil => exact h
  | cons e front ih =>
    cases h with
    | ignored below _ _ => exact ih below
    | step below _ _ => exact ih below

/-- Ignored entries may be put on top if they repeat the state. -/
theorem Viable.append (h : Viable g rest) (hignored : ∀ e ∈ front, e.subtree.isIgnored = true)
    (hstate : ∀ e ∈ front, e.state = state rest) :
    Viable g (front ++ rest) ∧ state (front ++ rest) = state rest := by
  induction front with
  | nil => exact ⟨h, rfl⟩
  | cons e front ih =>
    obtain ⟨hviable, hsame⟩ := ih (fun e' he' => hignored e' (List.mem_cons_of_mem _ he'))
      (fun e' he' => hstate e' (List.mem_cons_of_mem _ he'))
    have he := hstate e (List.mem_cons_self ..)
    exact ⟨.ignored hviable (hignored e (List.mem_cons_self ..)) (he.trans hsame.symm), he⟩

theorem Viable.pushIgnored (h : Viable g stack) {subtree : Subtree} {start : Nat}
    (hignored : subtree.isIgnored = true) : Viable g (pushIgnored stack subtree start) :=
  .ignored h hignored rfl

theorem Viable.pushAllIgnored (h : Viable g stack) {entries : List (Subtree × Nat)}
    (hignored : ∀ entry ∈ entries, entry.1.isIgnored = true) :
    Viable g (pushAllIgnored stack entries) ∧
      state (Stack.pushAllIgnored stack entries) = state stack := by
  induction entries generalizing stack with
  | nil => exact ⟨h, rfl⟩
  | cons entry entries ih =>
    exact ih (h.pushIgnored (hignored entry (List.mem_cons_self ..)))
      fun entry' hentry => hignored entry' (List.mem_cons_of_mem _ hentry)

/-- A production that is complete in the current state has its steps on top of the stack, and
below them its phrase leads on. -/
theorem Viable.exists_goto (ht : g.Compiles t) (h : Viable g (front ++ rest)) {p : Nat}
    {rule : Production} (hrule : g.productions[p]? = some rule)
    (hitem : ⟨p, rule.symbols.length⟩ ∈ g.itemsAt (state (front ++ rest)))
    (hcount : rule.symbols.length ≤ (steps (front ++ rest)).length →
      (steps front).length = rule.symbols.length) :
    ((steps front).map (·.subtree.symbol)).reverse = rule.symbols ∧
      ∃ next, t.goto? (state rest) (g.nonTerminalSymbol rule.lhs) = some next ∧
        g.Leads (state rest) (g.nonTerminalSymbol rule.lhs) next := by
  rw [h.state_eq] at hitem
  obtain ⟨top, below, hpath, hsymbols, hbegin⟩ := h.path.exists_steps hitem
  rw [symbolsOf_augment hrule, List.take_length] at hsymbols
  have hlength : top.length = rule.symbols.length := by
    rw [← hsymbols, List.length_reverse, List.length_map]
  -- the steps that are split off are those of the production
  have htop : (Stack.path front).length = top.length := by
    have htotal : rule.symbols.length ≤ (steps (front ++ rest)).length := by
      have := congrArg List.length hpath
      rw [Stack.path, List.length_map, List.length_append] at this
      omega
    rw [Stack.path, List.length_map, hcount htotal, hlength]
  rw [path_append] at hpath
  obtain ⟨hfront, hrest⟩ := List.append_inj hpath htop
  have hviable := h.of_append
  have hgoto := ht.exists_goto_lhs hrule (q := state rest) (by
    rw [hviable.state_eq, hrest]
    exact hbegin)
  obtain ⟨next, hnext⟩ := hgoto
  refine ⟨?_, next, hnext, ht.leads_of_goto (ht.lhs_lt hrule) hnext⟩
  rw [← hsymbols, ← hfront, Stack.path, List.map_map]
  rfl

end Stack

end LRWorkbench.Parsing
