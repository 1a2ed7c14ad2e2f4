import LRWorkbench.Proofs.Parsing.Likeness

/-!
# Skipping one token

When nothing matches at a place, no entry that is taken off the stack helps, so the token is skipped.
If the token behind it can follow, that is all: the extras that wait and the skipped token become an
error node (`Parser.step_of_skip`), and the parser looks as it did before (`sketch_skip`), with this
error node more (`faults_skip`).
-/

namespace LRWorkbench.Parsing

open Lalr PreparedGrammar Subtree Text

namespace Parser

variable {g : PreparedGrammar} {s : Setting} {p q : Parser} {token next : Token}

/-! ### Finding the way -/

theorem canResume_error (hg : g.Compiles s.table) (fuel : Nat) (states : List Nat) :
    canResume s.table .error fuel states = false := by
  cases fuel with
  | zero => rfl
  | succ fuel =>
    cases states with
    | nil => rfl
    | cons top below => rw [canResume, hg.action_error]

theorem popsFor?_error (hg : g.Compiles s.table) (stack : Stack) (skipped : Nat) :
    popsFor? s.table stack skipped .error = none := by
  refine List.find?_eq_none.mpr fun popped _ => ?_
  rw [canResume_error hg, Bool.and_false]
  exact Bool.false_ne_true

/-- Once a token is skipped nothing has to be taken off the stack if the next one can follow. -/
theorem popsFor?_of_canResume {stack : Stack} {skipped : Nat} {symbol : Symbol}
    (hskipped : skipped ≠ 0)
    (hfollows : canResume s.table symbol maxReductions (Stack.grammarStates stack) = true) :
    popsFor? s.table stack skipped symbol = some 0 := by
  rw [popsFor?, List.range_succ_eq_map, List.find?_cons_of_pos]
  rw [List.drop_zero, hfollows, decide_eq_false hskipped]
  rfl

theorem findRecovery_of_popsFor? {skipped : List Ahead} {current : Ahead} {popped : Nat}
    (hpops : popsFor? s.table p.stack skipped.length current.token.symbol = some popped)
    (window : Nat) : findRecovery s skipped current window p = some (⟨skipped, current, popped⟩, p) := by
  cases window <;> rw [findRecovery, hpops]

/-- The token behind another one, found while every terminal is allowed. -/
def foundBehind (s : Setting) (p : Parser) : Token :=
  Lexer.nextTokenInErrorMode s.language s.text p.position p.scanner

theorem readAhead_of_not_extra (hextra : (p.foundBehind s).isExtra = false) :
    readAhead s p = (⟨[], p.foundBehind s⟩, p.behind (p.foundBehind s)) := by
  rw [readAhead, readAheadOn]
  exact if_neg (by simpa [foundBehind] using hextra)

theorem findRecovery_of_skip (hg : g.Compiles s.table) (hsymbol : token.symbol = .error)
    (hwindow : 1 ≤ s.window) (hextra : (p.foundBehind s).isExtra = false)
    (hfollows : canResume s.table (p.foundBehind s).symbol maxReductions
      (Stack.grammarStates p.stack) = true) :
    findRecovery s [] ⟨[], token⟩ s.window p =
      some (⟨[⟨[], token⟩], ⟨[], p.foundBehind s⟩, 0⟩, p.behind (p.foundBehind s)) := by
  obtain ⟨window, hwindow⟩ := Nat.exists_eq_add_of_le' hwindow
  have hend : token.isEnd = false := by
    rw [Token.isEnd, hsymbol]
    rfl
  rw [hwindow, findRecovery, hsymbol, popsFor?_error hg]
  dsimp only
  rw [hend, readAhead_of_not_extra hextra]
  exact findRecovery_of_popsFor? (popsFor?_of_canResume (by simp) hfollows) window

/-- No way is found if one token may be skipped and the next one cannot follow. -/
theorem findRecovery_eq_none (hg : g.Compiles s.table) (hsymbol : token.symbol = .error)
    (hwindow : s.window = 1) (hextra : (p.foundBehind s).isExtra = false)
    (hpops : popsFor? s.table p.stack 1 (p.foundBehind s).symbol = none) :
    findRecovery s [] ⟨[], token⟩ s.window p = none := by
  have hend : token.isEnd = false := by
    rw [Token.isEnd, hsymbol]
    rfl
  rw [hwindow, findRecovery, hsymbol, popsFor?_error hg]
  dsimp only
  rw [hend, readAhead_of_not_extra hextra]
  simp only [Bool.false_eq_true, if_false]
  rw [findRecovery]
  split
  case h_1 hfound => cases hpops.symm.trans hfound
  case h_2 => rfl

/-! ### Going it -/

/-- The error node of the extras that wait and a token. -/
def errorAround (s : Setting) (p : Parser) (token next : Token) : Subtree :=
  buildError s.generation (p.pending.map (·.1) ++ [s.leaf token p.state p.state true]) p.state
    next.scannerBefore

/-- The parser behind a token that was skipped and the next one; the place is where the error node
starts. -/
def skip (s : Setting) (p : Parser) (token next : Token) (place : Nat) : Parser :=
  { p.behind next with
    stack := Stack.pushIgnored p.stack (errorAround s p token next) place
    pending := [] }

/-- **Where the next token can follow only the one token is skipped.** -/
theorem step_of_skip (hg : g.Compiles s.table) (hsymbol : token.symbol = .error)
    (hwindow : 1 ≤ s.window) (hextra : (p.foundBehind s).isExtra = false)
    (hfollows : canResume s.table (p.foundBehind s).symbol maxReductions
      (Stack.grammarStates p.stack) = true) :
    ∃ place, step s p token = .more { p.foundBehind s with errorMode := true }
      (p.skip s token (p.foundBehind s) place) := by
  rw [step, hsymbol, hg.action_error]
  dsimp only
  rw [recover, findRecovery_of_skip hg hsymbol hwindow hextra hfollows]
  dsimp only
  cases hpending : p.pending with
  | nil =>
    refine ⟨token.start, ?_⟩
    simp [resume, givenUp, skip, errorAround, behind, hpending, state]
  | cons entry pending =>
    refine ⟨entry.2, ?_⟩
    simp [resume, givenUp, skip, errorAround, behind, hpending, state]

/-! ### What is seen afterwards -/

theorem filterMap_extraOutline {ts : List Subtree}
    (h : ∀ t ∈ ts, t.isLeaf = true ∧ t.isExtra = true) :
    ts.filterMap extraOutline? = ts.flatMap outline := by
  induction ts with
  | nil => rfl
  | cons t ts ih =>
    obtain ⟨hleaf, hextra⟩ := h t (List.mem_cons_self ..)
    rw [List.flatMap_cons, ← ih fun t ht => h t (List.mem_cons_of_mem _ ht)]
    cases t with
    | node => cases hleaf
    | leaf i x =>
      obtain rfl : x = true := hextra
      rfl

/-- Of the error node the extras are seen. -/
theorem outline_errorAround (hpending : ∀ t ∈ p.pending.map (·.1), t.isLeaf = true ∧ t.isExtra = true)
    (hextra : token.isExtra = false) :
    (errorAround s p token next).outline = (p.pending.map (·.1)).flatMap outline := by
  rw [errorAround, outline_buildError, List.filterMap_append, filterMap_extraOutline hpending,
    Setting.leaf, hextra]
  exact List.append_nil _

theorem sketch_skip (hpending : ∀ t ∈ p.pending.map (·.1), t.isLeaf = true ∧ t.isExtra = true)
    (hextra : token.isExtra = false) (place : Nat) :
    (p.skip s token next place).sketch = p.sketch := by
  have hignored : (errorAround s p token next).isIgnored = true :=
    Bool.or_eq_true_iff.mpr (.inr rfl)
  change Stack.sketch (⟨_, errorAround s p token next, place⟩ :: p.stack) = _
  rw [Stack.sketch_cons, Stack.strokes_of_ignored hignored, outline_errorAround hpending hextra, sketch,
    List.flatMap_map, List.reverse_flatMap, List.map_flatMap]
  rfl

theorem faults_skip (hfaults : p.faults = [])
    (hpending : ∀ t ∈ p.pending.map (·.1), t.isLeaf = true ∧ t.isExtra = true) (place : Nat) :
    (p.skip s token next place).faults =
      [(errorAround s p token next, stopOf Extent.zero (Stack.subtrees p.stack))] := by
  rw [faults, content, faultsOf_append, List.append_eq_nil_iff] at hfaults
  rw [faults_of_error (p := p.skip s token next place) rfl, hfaults.1, List.nil_append,
    faultsOf_of_leaves]
  · rfl
  · intro t ht
    rw [skip, List.map_nil, List.append_nil] at ht
    rcases List.mem_append.mp ht with ht | ht
    · exact (hpending t ht).1
    · rw [List.mem_singleton.mp ht]
      rfl

end Parser

end LRWorkbench.Parsing
