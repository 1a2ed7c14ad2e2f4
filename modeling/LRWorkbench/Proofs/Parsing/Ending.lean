import LRWorkbench.Proofs.Parsing.Coverage

/-!
# When parsing ends

Shifting a token, taking over a subtree, skipping and giving up get a run on in the text. Getting
over an error by taking entries off the stack does not, but it is only done where the next token can
be shifted after a bounded number of reductions. So nothing but **reductions** can keep a run from
its end, and what they do is seen from the states on the stack alone
(`ParseTable.afterReduction?`).

A run ends exactly if, wherever it gets to, the reductions that the next token causes come to an end
(`exists_yields_iff`). No bound sees to that: with rules that derive themselves or nothing, and a
precedence that prefers them, a table may reduce forever (`not_yields_endless`).
-/

namespace LRWorkbench

namespace ParseTable

/-- The states on a stack, the top first, after the reduction that a terminal causes. -/
def afterReduction? (t : ParseTable) (s : Symbol) : List Nat → Option (List Nat)
  | [] => none
  | top :: below =>
    match t.action top s with
    | .reduce production =>
      (t.production? production).bind fun rule =>
        match (top :: below).drop rule.length with
        | [] => none
        | state :: rest => (t.goto? state rule.lhs).map fun next => next :: state :: rest
    | _ => none

/-- Whether the reductions that a terminal causes come to an end. -/
inductive Settles (t : ParseTable) (s : Symbol) : List Nat → Prop where
  | intro {states : List Nat}
      (rest : ∀ after, t.afterReduction? s states = some after → Settles t s after) :
      Settles t s states

/-- Reductions that lead from states of a kind to states of that kind never come to an end. -/
theorem not_settles {t : ParseTable} {s : Symbol} {kind : List Nat → Prop}
    (hkind : ∀ states, kind states → ∃ after, t.afterReduction? s states = some after ∧ kind after)
    {states : List Nat} (h : kind states) : ¬ t.Settles s states := by
  intro hsettles
  induction hsettles with
  | @intro states rest ih =>
    obtain ⟨after, hafter, hnext⟩ := hkind states h
    exact ih after hafter hnext

end ParseTable

namespace Parsing

open Lalr PreparedGrammar Subtree Text

variable {g : PreparedGrammar} {s : Setting}

namespace Stack

/-- The states that steps lead to begin with the current one. -/
theorem Viable.exists_grammarStates {stack : Stack} (h : Viable g stack) :
    ∃ below, grammarStates stack = state stack :: below := by
  induction h with
  | nil => exact ⟨[], rfl⟩
  | ignored below ignored stays ih =>
    rw [grammarStates_eq, steps_cons_of_ignored ignored, ← grammarStates_eq]
    obtain ⟨rest, hrest⟩ := ih
    exact ⟨rest, by rw [hrest, ← stays]; rfl⟩
  | step below step leads ih =>
    rw [grammarStates_eq, steps_cons_of_not_ignored step]
    exact ⟨_, rfl⟩

theorem grammarStates_append_of_ignored {front stack : Stack}
    (h : ∀ e ∈ front, e.subtree.isIgnored = true) :
    grammarStates (front ++ stack) = grammarStates stack := by
  rw [grammarStates_eq, steps_append, steps_eq_nil h, List.nil_append, grammarStates_eq]

end Stack

namespace Parser

variable {p : Parser} {token : Token}

/-! ### Reductions -/

/-- A reduction does to the states what it does to the stack. -/
theorem afterReduction?_of_reduce (h : Stack.Viable g p.stack) (hg : g.Compiles s.table)
    {production : Nat} (haction : s.table.action p.state token.symbol = .reduce production) :
    s.table.afterReduction? token.symbol (Stack.grammarStates p.stack) =
      some (Stack.grammarStates (p.reduce s production token).stack) := by
  obtain ⟨trailing, front, rest, made, next, start, node, hreduced⟩ := exists_reduced h hg haction
  have hviable := h
  rw [hreduced.stack_eq] at hviable
  -- the states below the steps of the production
  obtain ⟨below, hbelow⟩ := hviable.of_append.of_append.exists_grammarStates
  have hlength : (Stack.steps front).length = (g.tableProduction made).length := by
    rw [← List.length_map, ← List.length_reverse, hreduced.symbols]
    simp [tableProduction, Production.symbols]
  have hdrop : (Stack.grammarStates p.stack).drop (g.tableProduction made).length =
      Stack.state rest :: below := by
    rw [hreduced.stack_eq, Stack.grammarStates_append_of_ignored hreduced.ignored,
      Stack.grammarStates_eq, Stack.steps_append, List.map_append, List.append_assoc, ← hlength,
      ← List.length_map, List.drop_left, ← Stack.grammarStates_eq, hbelow]
  obtain ⟨others, hhead⟩ := h.exists_grammarStates
  have hhead' : Stack.grammarStates p.stack = p.state :: others := hhead
  have hafter : s.table.afterReduction? token.symbol (Stack.grammarStates p.stack) =
      some (next :: Stack.state rest :: below) := by
    rw [hhead'] at hdrop ⊢
    have hgoto : s.table.goto? (Stack.state rest) (g.tableProduction made).lhs = some next :=
      hreduced.goto
    simp only [ParseTable.afterReduction?, haction, hreduced.rule_eq, Option.bind_some, hdrop,
      hgoto, Option.map_some]
  -- the node is a step, and the ignored entries are put back above it
  obtain ⟨ignored, hpush, hentries, -⟩ := Stack.pushAllIgnored_spec (⟨next, node, start⟩ :: rest)
    (trailing.reverse.map fun e => (e.subtree, e.start))
  have hignored : ∀ e ∈ ignored, e.subtree.isIgnored = true := by
    intro e he
    have hmem : (e.subtree, e.start) ∈ (trailing.reverse.map fun e => (e.subtree, e.start)) := by
      rw [← List.mem_reverse, ← hentries]
      exact List.mem_map.mpr ⟨e, he, rfl⟩
    exact hreduced.isIgnored_of_mem hmem
  rw [hafter, hreduced.reduce_eq]
  dsimp only
  rw [hpush, Stack.grammarStates_append_of_ignored hignored, Stack.grammarStates_eq,
    Stack.steps_cons_of_not_ignored hreduced.isIgnored, List.map_cons, List.cons_append,
    ← Stack.grammarStates_eq, hbelow]

/-- A token that can follow is not refused. -/
theorem action_ne_error_of_canResume {t : ParseTable} {symbol : Symbol} {fuel top : Nat}
    {below : List Nat} (h : canResume t symbol fuel (top :: below) = true) :
    t.action top symbol ≠ .error := by
  intro haction
  cases fuel with
  | zero => cases h
  | succ fuel =>
    rw [canResume, haction] at h
    cases h

/-- A token can follow if it can do so after a reduction that it causes. -/
theorem canResume_of_afterReduction? {t : ParseTable} {symbol : Symbol} {top : Nat}
    {below after : List Nat} (hafter : t.afterReduction? symbol (top :: below) = some after)
    (fuel : Nat) :
    canResume t symbol (fuel + 1) (top :: below) = canResume t symbol fuel after := by
  rw [canResume]
  rw [ParseTable.afterReduction?] at hafter
  split at hafter
  · rename_i production haction
    obtain ⟨rule, hrule, hafter⟩ := Option.bind_eq_some_iff.mp hafter
    rw [haction]
    dsimp only
    rw [hrule]
    dsimp only
    cases hdrop : (top :: below).drop rule.length with
    | nil =>
      rw [hdrop] at hafter
      cases hafter
    | cons state rest =>
      rw [hdrop] at hafter
      obtain ⟨next, hnext, rfl⟩ := Option.map_eq_some_iff.mp hafter
      dsimp only
      rw [hnext]
  · cases hafter

/-- Where the table does not reduce the states stay. -/
theorem afterReduction?_of_ne (h : Stack.Viable g p.stack) {t : ParseTable} {symbol : Symbol}
    (hne : ∀ production, t.action p.state symbol ≠ .reduce production) :
    t.afterReduction? symbol (Stack.grammarStates p.stack) = none := by
  obtain ⟨below, hbelow⟩ := h.exists_grammarStates
  rw [hbelow, ParseTable.afterReduction?]
  split
  · rename_i production haction
    exact absurd haction (hne production)
  · rfl

/-! ### What a move gets done -/

/-- Whether one parser is further on in the text than another. -/
structure Advances (s : Setting) (token token' : Token) : Prop where
  inText : token.start < s.length
  start_lt : token.start < token'.start

theorem Covers.lt_stop (h : Covers s token p) (hend : token.isEnd = false) :
    token.start < s.length ∧ token.start < p.position := by
  obtain ⟨front, piece, rest, htakes, -, hposition⟩ := h
  have hpiece := byteLength_pos.mpr (piece_ne_nil htakes hend)
  have hstart := htakes.start_eq
  have hstop := htakes.stop_eq
  rw [Setting.length, htakes.text_eq]
  simp only [byteLength_append]
  omega

/-- Skipping a token gets on in the text. -/
theorem CoversAhead.advances {front piece rest : List Char} {skipped : List Ahead}
    {current : Ahead} (h : CoversAhead s front skipped current p)
    (htoken : token.Takes s.text front piece rest) (hskipped : skipped ≠ []) :
    Advances s token current.token := by
  obtain ⟨u, v, piece', rest', hspells, -, htakes, -⟩ := h
  obtain ⟨a, ha⟩ := List.exists_mem_of_ne_nil skipped hskipped
  -- what is skipped has a leaf, and a leaf stands for some text
  have hleaf : s.leaf a.token 0 0 true ∈ skipped.flatMap (skippedSubtrees s 0) :=
    List.mem_flatMap.mpr ⟨a, ha, List.mem_append_right _ (List.mem_singleton_self _)⟩
  obtain ⟨x, y, z, rfl, hy⟩ := (hspells 0).exists_of_mem hleaf
  have hne : 0 < byteLength y := by
    cases hy with
    | leaf _ ne => exact byteLength_pos.mpr ne
  have hstart := htoken.start_eq
  have hstart' := htakes.start_eq
  have hlength : s.length = byteLength (front ++ (x ++ y ++ z) ++ v ++ piece' ++ rest') := by
    rw [Setting.length, ← htakes.text_eq]
  simp only [byteLength_append] at hstart' hlength
  exact ⟨by omega, by omega⟩

/-- What a move gets done: it gets on in the text, it reduces, or it takes entries off the stack
such that the token can follow. -/
inductive Progress (s : Setting) (token : Token) (p : Parser) : Token → Parser → Prop where
  | advances {token' : Token} {p' : Parser} (further : Advances s token token') :
      Progress s token p token' p'
  | reduces {production : Nat} (action : s.table.action p.state token.symbol = .reduce production) :
      Progress s token p token (p.reduce s production token)
  | resumes {token' : Token} {p' : Parser}
      (action : s.table.action p.state token.symbol = .error) (start : token'.start = token.start)
      (symbol : token'.symbol = token.symbol)
      (follows : canResume s.table token.symbol maxReductions (Stack.grammarStates p'.stack)) :
      Progress s token p token' p'

/-- Looking for a recovery skips ever more tokens. -/
theorem Finds.length_le {skipped : List Ahead} {current : Ahead} {p p' : Parser} {r : Recovery}
    (h : Finds s skipped current p r p') :
    skipped.length ≤ r.skipped.length := by
  induction h with
  | here => exact Nat.le_refl _
  | behind _ _ ih =>
    rw [List.length_append, List.length_singleton] at ih
    omega

/-- The way that is found to get over an error without skipping takes off entries such that the
token can follow. -/
theorem exists_of_findRecovery {skipped : List Ahead} {current : Ahead} {window : Nat}
    {p p' : Parser} {r : Recovery} (h : findRecovery s skipped current window p = some (r, p'))
    (hnone : r.skipped = []) :
    r.resume = current ∧ canResume s.table current.token.symbol maxReductions
      (Stack.grammarStates (p.stack.drop r.popped)) := by
  cases finds_of_findRecovery h with
  | here pops =>
    have hfound := List.find?_some pops
    exact ⟨rfl, (Bool.and_eq_true_iff.mp hfound).2⟩
  | behind _ further =>
    have hle := further.length_le
    rw [hnone, List.length_append, List.length_singleton] at hle
    exact absurd hle (Nat.not_succ_le_zero _)

/-- An error node on top of a stack hides no state. -/
theorem grammarStates_resume (s : Setting) (r : Recovery) (p : Parser) :
    Stack.grammarStates (resume s r p).2.stack = Stack.grammarStates (p.stack.drop r.popped) := by
  rw [resume]
  dsimp only
  split
  · rfl
  · rw [Stack.pushIgnored, Stack.grammarStates_eq, Stack.steps_cons_of_ignored (by rfl),
      ← Stack.grammarStates_eq]

/-- Every move gets something done. -/
theorem Covers.progress_of_step (h : Covers s token p) (hg : g.Compiles s.table)
    (hreuse : ∀ r, s.reuse = some r → Reuse.Truthful s.text r) {token' : Token} {p' : Parser}
    (hstep : Parser.step s p token = .more token' p') : Progress s token p token' p' := by
  have hl := hg.sparesEnd
  have hmove := move_step s p token
  rw [hstep] at hmove
  cases hmove with
  | @shift next action fresh =>
    have hend := hg.isEnd_of_shift action
    obtain ⟨htext, hlt⟩ := h.lt_stop hend
    obtain ⟨front, back, hnext⟩ := h.shift hend next
    exact .advances ⟨htext, Nat.lt_of_lt_of_le hlt (hnext.read hl).2⟩
  | takeOver action reuse =>
    obtain ⟨r, oldStart, hreused⟩ := exists_of_toReuse reuse
    obtain ⟨htext, -⟩ := h.lt_stop hreused.isEnd
    obtain ⟨front, back, hnext⟩ := h.takeOver hreuse reuse
    have hlt := Nat.lt_add_of_pos_right (n := token.start) (Nat.pos_of_ne_zero hreused.length)
    exact .advances ⟨htext, Nat.lt_of_lt_of_le hlt (hnext.read hl).2⟩
  | reduce action => exact .reduces action
  | @resume r found action hfound =>
    obtain ⟨front, piece, rest, htakes, -, hposition⟩ := h
    by_cases hskipped : r.skipped = []
    · obtain ⟨hresume, hfollows⟩ := exists_of_findRecovery hfound hskipped
      rw [← (stack_findRecovery hfound).1, ← grammarStates_resume s] at hfollows
      exact .resumes action (congrArg (·.token.start) hresume) (congrArg (·.token.symbol) hresume) hfollows
    · have hahead : CoversAhead s front [] ⟨[], token⟩ p :=
        ⟨[], [], piece, rest, fun _ => .nil, .nil, by simpa using htakes, hposition⟩
      obtain ⟨hinText, hlt⟩ :=
        (hahead.findRecovery hl rfl hfound).1.advances htakes hskipped
      exact .advances ⟨hinText, hlt⟩
  | giveUp action none isEnd =>
    obtain ⟨htext, hlt⟩ := h.lt_stop isEnd
    obtain ⟨front, back, hnext⟩ := h.giveUpToken isEnd
    exact .advances ⟨htext, Nat.lt_of_lt_of_le hlt (hnext.read hl).2⟩

/-! ### Runs that end -/

/-- Whether a run goes on to its end. -/
def Ends (s : Setting) (token : Token) (p : Parser) : Prop :=
  ∃ fuel tree, run s fuel token p = some tree

theorem Ends.of_done {tree : SyntaxTree} (h : step s p token = .done tree) : Ends s token p :=
  ⟨1, tree, by rw [run, h]⟩

theorem Ends.of_more {token' : Token} {p' : Parser} (h : Ends s token' p')
    (hstep : step s p token = .more token' p') : Ends s token p := by
  obtain ⟨fuel, tree, hrun⟩ := h
  exact ⟨fuel + 1, tree, by rw [run, hstep]; exact hrun⟩

/-- Where a run goes on to its end the reductions come to an end. -/
theorem Sound.settles_of_run (h : p.Sound g) (hg : g.Compiles s.table) {fuel : Nat}
    {tree : SyntaxTree} (hrun : run s fuel token p = some tree) :
    s.table.Settles token.symbol (Stack.grammarStates p.stack) := by
  induction fuel generalizing p with
  | zero => cases hrun
  | succ fuel ih =>
    refine .intro fun after hafter => ?_
    cases haction : s.table.action p.state token.symbol with
    | reduce production =>
      rw [afterReduction?_of_reduce h.viable hg haction] at hafter
      obtain rfl := Option.some.inj hafter
      rw [run, Parser.step, haction] at hrun
      exact ih (h.reduce hg haction) hrun
    | shift next =>
      rw [afterReduction?_of_ne h.viable fun _ => by simp [haction]] at hafter
      cases hafter
    | accept =>
      rw [afterReduction?_of_ne h.viable fun _ => by simp [haction]] at hafter
      cases hafter
    | error =>
      rw [afterReduction?_of_ne h.viable fun _ => by simp [haction]] at hafter
      cases hafter

variable (hg : g.Compiles s.table) (hderived : ∀ r, s.reuse = some r → Derived g r.root)
  (hreuse : ∀ r, s.reuse = some r → Reuse.Truthful s.text r)

include hg hderived hreuse

/-- A token that can follow is shifted or accepted after some reductions, so a run goes on to its
end if it does so wherever it is further on in the text. -/
theorem Reaches.ends_of_canResume (h : Reaches s token p)
    (hlater : ∀ token' p', Reaches s token' p' → Advances s token token' → Ends s token' p')
    {fuel : Nat}
    (hfollows : canResume s.table token.symbol fuel (Stack.grammarStates p.stack) = true) :
    Ends s token p := by
  induction fuel generalizing p with
  | zero => cases hfollows
  | succ fuel ih =>
    obtain ⟨hsound, -⟩ := h.sound hg hderived
    obtain ⟨below, hbelow⟩ := hsound.viable.exists_grammarStates
    rw [hbelow] at hfollows
    cases hstep : Parser.step s p token with
    | done tree => exact .of_done hstep
    | more token' p' =>
      have hnext := h.step hstep
      refine Ends.of_more ?_ hstep
      cases (h.covers hg hreuse).progress_of_step hg hreuse hstep with
      | advances further => exact hlater _ _ hnext further
      | @reduces production action =>
        have hafter := afterReduction?_of_reduce hsound.viable hg action
        rw [hbelow] at hafter
        rw [canResume_of_afterReduction? hafter] at hfollows
        exact ih hnext hfollows
      | resumes action => exact absurd action (action_ne_error_of_canResume hfollows)

/-- If all reductions come to an end so does the run: it gets on in the text, up to the end of
it. -/
theorem Reaches.ends_of_settles
    (hsettles : ∀ token p, Reaches s token p →
      s.table.Settles token.symbol (Stack.grammarStates p.stack))
    (h : Reaches s token p) : Ends s token p := by
  -- the outer induction is on the text behind the start of the token
  induction hleft : s.length - token.start using Nat.strongRecOn generalizing token p with
  | ind left ihText =>
    have hlater : ∀ from' token' p', from'.start = token.start → Reaches s token' p' →
        Advances s from' token' → Ends s token' p' := by
      intro from' token' p' hstart hreaches hadvances
      have hin := hadvances.inText
      have hlt := hadvances.start_lt
      exact ihText (s.length - token'.start) (by omega) hreaches rfl
    -- and the inner one on the reductions that the token causes
    have hhere := hsettles token p h
    generalize hstates : Stack.grammarStates p.stack = states at hhere
    induction hhere generalizing p with
    | intro rest ihStates =>
      obtain ⟨hsound, -⟩ := h.sound hg hderived
      cases hstep : Parser.step s p token with
      | done tree => exact .of_done hstep
      | more token' p' =>
        have hnext := h.step hstep
        refine Ends.of_more ?_ hstep
        cases (h.covers hg hreuse).progress_of_step hg hreuse hstep with
        | advances further => exact hlater _ _ _ rfl hnext further
        | reduces action =>
          have hafter := afterReduction?_of_reduce hsound.viable hg action
          rw [hstates] at hafter
          exact ihStates _ hafter hnext rfl
        | resumes action start symbol follows =>
          rw [← symbol] at follows
          exact hnext.ends_of_canResume hg hderived hreuse (fun _ _ => hlater _ _ _ start) follows

end Parser

/-- Where the run of a text ends all reductions come to an end. -/
theorem Setting.Genuine.settles_of_yields {l : Language} (hg : g.Compiles l.table)
    (hs : s.Genuine l) {tree : SyntaxTree} (hyields : s.Yields tree) {token : Token} {p : Parser}
    (hreaches : Parser.Reaches s token p) :
    l.table.Settles token.symbol (Stack.grammarStates p.stack) := by
  obtain ⟨rfl, hderived⟩ := hs.spec hg
  obtain ⟨fuel, hrun⟩ := hreaches.exists_run hyields
  exact (hreaches.sound hg hderived).1.settles_of_run hg hrun

/-- A text in a language is parsed to its end, also after edits, exactly if the reductions that a
token causes always come to an end, wherever the run gets to. -/
theorem exists_yields_iff {grammar : Grammar} {l : Language}
    (hcompile : grammar.compile = .ok l.table) (hs : s.Genuine l) :
    (∃ tree, s.Yields tree) ↔ ∀ token p, Parser.Reaches s token p →
      l.table.Settles token.symbol (Stack.grammarStates p.stack) := by
  obtain ⟨g, -, hg⟩ := Grammar.exists_prepared hcompile
  constructor
  · rintro ⟨tree, hyields⟩ token p hreaches
    exact hs.settles_of_yields hg hyields hreaches
  · intro hsettles
    obtain ⟨rfl, hderived⟩ := hs.spec hg
    obtain ⟨fuel, tree, hrun⟩ :=
      Parser.Reaches.ends_of_settles hg hderived (hs.truthful hg) hsettles .start
    exact ⟨tree, fuel, hrun⟩

/-- The sum `1 +1` is parsed to its end, so its reductions come to one. -/
theorem settles_sum : ∃ l tree, sums.compile = .ok (Language.table l) ∧
    (Setting.fresh l "1 +1".toList defaultWindow).Yields tree ∧
    ∀ token p, Parser.Reaches (Setting.fresh l "1 +1".toList defaultWindow) token p →
      l.table.Settles token.symbol (Stack.grammarStates p.stack) := by
  have hrun : (sumTree? "1 +1".toList).isSome = true := by decide +kernel
  obtain ⟨tree, htree⟩ := Option.isSome_iff_exists.mp hrun
  obtain ⟨l, hcompile, hyields⟩ := yields_of_sumTree htree
  exact ⟨l, tree, hcompile, hyields,
    (exists_yields_iff hcompile (.fresh "1 +1".toList defaultWindow)).mp ⟨tree, hyields⟩⟩

/-! ### A language that is not parsed to its end -/

/-- `phrase → nothing phrase "b" | "a"`, where `nothing` is preferred to `"a"`. -/
def endless : Grammar where
  name := "endless"
  rules := [
    ("phrase", .choice [.seq [.reference "nothing", .reference "phrase", .literal "b"],
      .literal "a"]),
    ("nothing", .prec none 1 .blank)]
  extras := []
  conflicts := []
  externals := []
  word := none

/-- Whether a table finds nothing before a terminal, in the initial state as in the state behind
it. -/
def findsNothing (t : ParseTable) (s : Symbol) : Bool :=
  match t.action 0 s with
  | .reduce production =>
    match t.production? production with
    | none => false
    | some rule =>
      rule.length = 0 &&
        match t.goto? 0 rule.lhs with
        | none => false
        | some next => t.action next s = .reduce production && t.goto? next rule.lhs = some next
  | _ => false

theorem not_settles_of_findsNothing {t : ParseTable} {terminal : Symbol}
    (h : findsNothing t terminal = true) : ¬ t.Settles terminal [0] := by
  rw [findsNothing] at h
  split at h
  · rename_i production haction
    split at h
    · cases h
    rename_i rule hrule
    obtain ⟨hlength, h⟩ := Bool.and_eq_true_iff.mp h
    replace hlength : rule.length = 0 := of_decide_eq_true hlength
    split at h
    · cases h
    rename_i next hnext
    simp only [Bool.and_eq_true, decide_eq_true_eq] at h
    obtain ⟨hagain, hloop⟩ := h
    -- the state on top is the initial one or the one behind nothing
    let kind (states : List Nat) : Prop := ∃ below, states = 0 :: below ∨ states = next :: below
    refine ParseTable.not_settles (show ∀ states, kind states → _ from ?_) ⟨[], .inl rfl⟩
    rintro states ⟨below, rfl | rfl⟩
    · refine ⟨next :: 0 :: below, ?_, 0 :: below, .inr rfl⟩
      simp only [ParseTable.afterReduction?, haction, hrule, Option.bind_some, hlength,
        List.drop_zero, hnext, Option.map_some]
    · refine ⟨next :: next :: below, ?_, next :: below, .inr rfl⟩
      simp only [ParseTable.afterReduction?, hagain, hrule, Option.bind_some, hlength,
        List.drop_zero, hloop, Option.map_some]
  · cases h

/-- The table finds nothing before the `"a"`, again and again. -/
theorem not_yields_endless : ∃ l, endless.compile = .ok (Language.table l) ∧
    ¬ ∃ tree, (Setting.fresh l "a".toList defaultWindow).Yields tree := by
  have hrun : (endless.compile.toOption).any (fun t =>
      let first := Parser.read (.fresh ⟨t, none⟩ "a".toList defaultWindow) Parser.start
      findsNothing t first.1.symbol && first.2.stack.isEmpty) = true := by
    decide +kernel
  obtain ⟨t, ht, hcheck⟩ := (Option.any_eq_true ..).mp hrun
  obtain ⟨hnothing, hempty⟩ := Bool.and_eq_true_iff.mp hcheck
  have hcompile : endless.compile = .ok t := eq_ok_of_toOption ht
  refine ⟨⟨t, none⟩, hcompile, ?_⟩
  rintro ⟨tree, hyields⟩
  obtain ⟨g, -, hg⟩ := Grammar.exists_prepared hcompile
  have hsettles := Setting.Genuine.settles_of_yields (l := ⟨t, none⟩) hg (.fresh _ _) hyields .start
  rw [List.isEmpty_iff.mp hempty] at hsettles
  exact not_settles_of_findsNothing hnothing hsettles

end Parsing

end LRWorkbench
