import LRWorkbench.Proofs.Parsing.Ending

/-!
# Finding out what can follow

To get over an error the parser asks of a terminal whether it could follow if some entries were
taken off the stack (`Parser.canResume`). It tries the reductions on the states of the steps alone,
though the stack holds extras and error nodes as well. The answer is yes exactly if the parser
itself would get to shift or accept the terminal, with as many reductions as are tried at most
(`Parser.canResume_iff`).
-/

namespace LRWorkbench

namespace ParseTable

variable {t : ParseTable} {symbol : Symbol} {states after : List Nat}

/-- The states on a stack, the top first, after a number of reductions that a terminal causes. -/
def afterReductions? (t : ParseTable) (symbol : Symbol) : Nat → List Nat → Option (List Nat)
  | 0, states => some states
  | count + 1, states => (t.afterReduction? symbol states).bind (t.afterReductions? symbol count)

theorem afterReductions?_add (m n : Nat) (states : List Nat) :
    t.afterReductions? symbol (m + n) states =
      (t.afterReductions? symbol m states).bind (t.afterReductions? symbol n) := by
  induction m generalizing states with
  | zero => rw [Nat.zero_add]; rfl
  | succ m ih =>
    rw [Nat.succ_add, afterReductions?, afterReductions?, Option.bind_assoc]
    exact congrArg _ (funext ih)

/-- A reduction leaves alone what is below the states that it needs. -/
theorem afterReduction?_append (h : t.afterReduction? symbol states = some after)
    (below : List Nat) : t.afterReduction? symbol (states ++ below) = some (after ++ below) := by
  cases states with
  | nil => cases h
  | cons top states =>
    rw [afterReduction?] at h
    rw [List.cons_append, afterReduction?]
    split at h
    · rename_i production haction
      obtain ⟨rule, hrule, h⟩ := Option.bind_eq_some_iff.mp h
      rw [hrule, Option.bind_some]
      split at h
      · cases h
      · rename_i state rest hdrop
        obtain ⟨next, hnext, rfl⟩ := Option.map_eq_some_iff.mp h
        have hle : rule.length ≤ (top :: states).length := by
          refine Nat.le_of_lt (Nat.lt_of_sub_pos ?_)
          rw [← List.length_drop, hdrop]
          exact Nat.succ_pos _
        rw [← List.cons_append, List.drop_append_of_le_length hle, hdrop]
        exact congrArg (Option.map _) hnext
    · cases h

theorem afterReductions?_append {count : Nat}
    (h : t.afterReductions? symbol count states = some after) (below : List Nat) :
    t.afterReductions? symbol count (states ++ below) = some (after ++ below) := by
  induction count generalizing states with
  | zero =>
    obtain rfl := Option.some.inj h
    rfl
  | succ count ih =>
    obtain ⟨next, hnext, h⟩ := Option.bind_eq_some_iff.mp h
    rw [afterReductions?, afterReduction?_append hnext, Option.bind_some, ih h]

end ParseTable

namespace Parsing

open Lalr PreparedGrammar

namespace Parser

variable {g : PreparedGrammar} {s : Setting} {token : Token} {p : Parser}

/-! ### Trying reductions -/

/-- If there are more reductions than are tried, a terminal is not found to follow. -/
theorem canResume_eq_false {t : ParseTable} {symbol : Symbol} {states after : List Nat} {count : Nat}
    (h : t.afterReductions? symbol count states = some after) {fuel : Nat} (hle : fuel ≤ count) :
    canResume t symbol fuel states = false := by
  induction fuel generalizing count states with
  | zero => rfl
  | succ fuel ih =>
    obtain ⟨count, rfl⟩ := Nat.exists_eq_add_of_le' (Nat.le_trans (Nat.le_add_left 1 fuel) hle)
    obtain ⟨next, hnext, hrest⟩ := Option.bind_eq_some_iff.mp h
    cases states with
    | nil => cases hnext
    | cons top below =>
      rw [canResume_of_afterReduction? hnext]
      exact ih hrest (Nat.le_of_succ_le_succ hle)

/-- Whether a move reduces, and there is a goto for the phrase that it makes. -/
structure ReducesTo (s : Setting) (token : Token) (p p' : Parser) : Prop where
  move : step s p token = .more token p'
  action : ∃ production, s.table.action p.state token.symbol = .reduce production ∧
    ∃ rule, s.table.production? production = some rule ∧
      (s.table.goto? (Stack.state (Stack.splitSteps [] rule.length
        (Stack.splitIgnored [] p.stack).2).2) rule.lhs).isSome

/-- Whether a number of reductions, one after the other, lead from a parser to another. -/
inductive Reduces (s : Setting) (token : Token) : Nat → Parser → Parser → Prop where
  | none (p : Parser) : Reduces s token 0 p p
  | more {count : Nat} {p p' p'' : Parser} (first : ReducesTo s token p p')
      (rest : Reduces s token count p' p'') : Reduces s token (count + 1) p p''

/-- Whether a token is shifted or accepted. -/
def TakesUp (s : Setting) (p : Parser) (token : Token) : Prop :=
  (∃ next, s.table.action p.state token.symbol = .shift next) ∨
    s.table.action p.state token.symbol = .accept

/-- Where the action is to reduce, that is the only move. -/
theorem ReducesTo.eq {p' : Parser} (h : ReducesTo s token p p') {production : Nat}
    (haction : s.table.action p.state token.symbol = .reduce production) :
    p' = p.reduce s production token := by
  have hmove := h.move
  rw [step, haction] at hmove
  injection hmove with _ heq
  exact heq.symm

theorem reducesTo_of_action (h : Stack.Viable g p.stack) (hg : g.Compiles s.table)
    {production : Nat} (haction : s.table.action p.state token.symbol = .reduce production) :
    ReducesTo s token p (p.reduce s production token) where
  move := by rw [step, haction]
  action := ⟨production, haction, exists_goto_of_action h hg haction⟩

/-- The number of reductions that are tried is one more than may be made. -/
theorem canResume_iff_reduces (hg : g.Compiles s.table) (fuel : Nat)
    (h : Stack.Viable g p.stack) :
    canResume s.table token.symbol fuel (Stack.grammarStates p.stack) = true ↔
      ∃ count < fuel, ∃ p', Reduces s token count p p' ∧ TakesUp s p' token := by
  induction fuel generalizing p with
  | zero => exact ⟨fun h => (nomatch h), fun ⟨_, hlt, _⟩ => absurd hlt (Nat.not_lt_zero _)⟩
  | succ fuel ih =>
    obtain ⟨below, hbelow⟩ := h.exists_grammarStates
    cases haction : s.table.action p.state token.symbol with
    | reduce production =>
      -- both make the same reduction
      have hafter := afterReduction?_of_reduce h hg haction
      rw [hbelow] at hafter ⊢
      rw [canResume_of_afterReduction? hafter, ih (viable_reduce h hg haction)]
      constructor
      · rintro ⟨count, hlt, p', hreduces, htakes⟩
        exact ⟨count + 1, Nat.succ_lt_succ hlt, p',
          .more (reducesTo_of_action h hg haction) hreduces, htakes⟩
      · rintro ⟨count, hlt, p', hreduces, htakes⟩
        cases hreduces with
        | none =>
          obtain ⟨next, hnext⟩ | hnext := htakes <;> rw [haction] at hnext <;> cases hnext
        | more first rest =>
          obtain rfl := first.eq haction
          exact ⟨_, Nat.lt_of_succ_lt_succ hlt, p', rest, htakes⟩
    | error =>
      have hrefused : canResume s.table token.symbol (fuel + 1) (Stack.grammarStates p.stack) =
          false := by
        refine Bool.eq_false_iff.mpr fun hfollows => ?_
        rw [hbelow] at hfollows
        exact action_ne_error_of_canResume hfollows haction
      rw [hrefused]
      refine ⟨fun h => (nomatch h), ?_⟩
      rintro ⟨count, -, p', hreduces, htakes⟩
      cases hreduces with
      | none =>
        obtain ⟨next, hnext⟩ | hnext := htakes <;> rw [haction] at hnext <;> cases hnext
      | more first rest =>
        obtain ⟨production, hreduce, -⟩ := first.action
        rw [haction] at hreduce
        cases hreduce
    | shift next =>
      refine ⟨fun _ => ⟨0, Nat.succ_pos fuel, p, .none p, .inl ⟨next, haction⟩⟩, fun _ => ?_⟩
      rw [hbelow, canResume, show s.table.action (Stack.state p.stack) token.symbol = _ from haction]
    | accept =>
      refine ⟨fun _ => ⟨0, Nat.succ_pos fuel, p, .none p, .inr haction⟩, fun _ => ?_⟩
      rw [hbelow, canResume, show s.table.action (Stack.state p.stack) token.symbol = _ from haction]

theorem Sound.state_eq_of_grammarStates (h : p.Sound g) {state : Nat} {below : List Nat}
    (hstates : Stack.grammarStates p.stack = state :: below) : p.state = state := by
  obtain ⟨rest, hrest⟩ := h.viable.exists_grammarStates
  exact (List.cons.inj (hrest.symm.trans hstates)).1

/-- What a terminal causes on the states a parser does on its stack. -/
theorem exists_reduces (hg : g.Compiles s.table) (h : p.Sound g) {count : Nat} {after : List Nat}
    (hafter : s.table.afterReductions? token.symbol count (Stack.grammarStates p.stack) = some after) :
    ∃ r, Reduces s token count p r ∧ Stack.grammarStates r.stack = after := by
  induction count generalizing p with
  | zero => exact ⟨p, .none p, Option.some.inj hafter⟩
  | succ count ih =>
    obtain ⟨next, hnext, hafter⟩ := Option.bind_eq_some_iff.mp hafter
    by_cases hreduces : ∃ production, s.table.action p.state token.symbol = .reduce production
    · obtain ⟨production, haction⟩ := hreduces
      rw [afterReduction?_of_reduce h.viable hg haction] at hnext
      obtain rfl := Option.some.inj hnext
      obtain ⟨r, hr, hstates⟩ := ih (h.reduce hg haction) hafter
      exact ⟨r, .more (reducesTo_of_action h.viable hg haction) hr, hstates⟩
    · rw [afterReduction?_of_ne h.viable (not_exists.mp hreduces)] at hnext
      cases hnext

/-- What is left of a stack when entries are taken off, with an error node on top, has the states
of its steps. -/
theorem grammarStates_pushIgnored (stack : Stack) {error : Subtree} (herror : error.isError = true)
    (start : Nat) :
    Stack.grammarStates (Stack.pushIgnored stack error start) = Stack.grammarStates stack := by
  have hignored : ∀ e ∈ [Entry.mk (Stack.state stack) error start], e.subtree.isIgnored = true := by
    intro e he
    obtain rfl := List.mem_singleton.mp he
    exact Bool.or_eq_true_iff.mpr (.inr herror)
  exact Stack.grammarStates_append_of_ignored hignored

/-- **Trying a terminal tells what the parser would do.** Wherever a run gets to, and however many
entries are taken off the stack there: a terminal is found to follow exactly if the parser, with an
error node put on top, shifts or accepts it after less than 4096 reductions, none of which lacks a
goto. -/
theorem canResume_iff {grammar : Grammar} {l : Language} (hcompile : grammar.compile = .ok l.table)
    (hs : s.Genuine l) (hreaches : Reaches s token p) {popped : Nat} (next : Token)
    {error : Subtree} (herror : error.isError = true) {start : Nat} {p₀ : Parser}
    (hp₀ : p₀.stack = Stack.pushIgnored (p.stack.drop popped) error start) :
    canResume l.table next.symbol maxReductions (Stack.grammarStates (p.stack.drop popped)) = true ↔
      ∃ count < 4096, ∃ p', Reduces s next count p₀ p' ∧ TakesUp s p' next := by
  obtain ⟨g, -, hg⟩ := Grammar.exists_prepared hcompile
  obtain ⟨rfl, hderived⟩ := hs.spec hg
  have hviable := (hreaches.sound hg hderived).1.viable
  rw [← List.take_append_drop popped p.stack] at hviable
  have hignored : error.isIgnored = true := Bool.or_eq_true_iff.mpr (.inr herror)
  have hpushed : Stack.Viable g p₀.stack := by
    rw [hp₀]
    exact hviable.of_append.pushIgnored hignored
  rw [← grammarStates_pushIgnored _ herror start, ← hp₀]
  exact canResume_iff_reduces hg maxReductions hpushed

/-- The next token and the parser after a number of moves, unless the run has come to its end. -/
def afterMoves? (s : Setting) : Nat → Option (Token × Parser)
  | 0 => some (read s start)
  | moves + 1 =>
    (afterMoves? s moves).bind fun (token, p) =>
      match step s p token with
      | .more token p => some (token, p)
      | .done _ => none

theorem reaches_of_afterMoves? {moves : Nat} (h : afterMoves? s moves = some (token, p)) :
    Reaches s token p := by
  induction moves generalizing token p with
  | zero =>
    rw [afterMoves?, Option.some.injEq] at h
    have hstart : Reaches s (read s start).1 (read s start).2 := .start
    rwa [h] at hstart
  | succ moves ih =>
    obtain ⟨⟨token', p'⟩, hbefore, h⟩ := Option.bind_eq_some_iff.mp h
    dsimp only at h
    split at h
    · rename_i hmove
      cases h
      exact .step (ih hbefore) hmove
    · cases h

/-- When the sum `1 +1` is on the stack, with the blank in it, the end of the input can follow, also
behind an error node. -/
theorem canResume_sum : ∃ l token p, sums.compile = .ok (Language.table l) ∧
    Reaches (.fresh l "1 +1".toList defaultWindow) token p ∧ p.stack.length = 4 ∧
    canResume l.table token.symbol maxReductions (Stack.grammarStates (p.stack.drop 0)) = true ∧
    ∃ count < 4096, ∃ p', Reduces (.fresh l "1 +1".toList defaultWindow) token count
      { p with stack := Stack.pushIgnored (p.stack.drop 0) (Subtree.buildError 0 [] 0 []) 4 } p' ∧
      TakesUp (.fresh l "1 +1".toList defaultWindow) p' token := by
  have hrun : (sums.compile.toOption).any (fun t =>
      (afterMoves? (.fresh ⟨t, none⟩ "1 +1".toList defaultWindow) 4).any fun (token, p) =>
        decide (p.stack.length = 4) &&
          canResume t token.symbol maxReductions (Stack.grammarStates (p.stack.drop 0))) = true := by
    decide +kernel
  obtain ⟨t, ht, hrun⟩ := (Option.any_eq_true ..).mp hrun
  obtain ⟨⟨token, p⟩, hmoves, hcheck⟩ := (Option.any_eq_true ..).mp hrun
  obtain ⟨hlength, hfollows⟩ := Bool.and_eq_true_iff.mp hcheck
  have hcompile : sums.compile = .ok t := eq_ok_of_toOption ht
  have hreaches := reaches_of_afterMoves? hmoves
  exact ⟨⟨t, none⟩, token, p, hcompile, hreaches, of_decide_eq_true hlength, hfollows,
    (canResume_iff (l := ⟨t, none⟩) hcompile (.fresh _ _) hreaches token rfl rfl).mp hfollows⟩

end Parser

end Parsing

end LRWorkbench
