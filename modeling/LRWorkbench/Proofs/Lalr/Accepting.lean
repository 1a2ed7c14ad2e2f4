import LRWorkbench.Proofs.Grammar.Compile
import LRWorkbench.Proofs.Lalr.Cells
import LRWorkbench.Proofs.Lalr.Exact

/-!
# Where the input is accepted

In each state there is something to do: an item goes on with a terminal, or with a phrase, all of
which derive something, or it is complete and followed by something
(`exists_action_of_state`). The input is accepted nowhere but at its end and in the one state that
the start symbol leads to from the start (`Grammar.accepts_once`).

There it is accepted unless a production of a positive level is complete as well, since the
production for the whole input has level zero and takes part in conflicts between reductions like
any other. Such a table accepts nothing at all (`Grammar.not_accepts_rounds`).
-/

namespace LRWorkbench

open Lalr PreparedGrammar Augmented

variable {g : PreparedGrammar} {q r : Nat} {s t : Symbol} {state : State} {item : Item}

/-! ### The state that the start symbol leads to -/

/-- A state that a symbol leads to is the target of its transition. -/
theorem PreparedGrammar.Leads.mem_transitions (hstate : g.automaton.states[q]? = some state)
    (h : g.Leads q s r) : (s, r) ∈ state.transitions := by
  obtain ⟨kernel, next, hkernel, hnext, hr⟩ := h
  obtain ⟨hkernel', hlinked⟩ := linked_states hstate
  obtain rfl := Option.some.inj (hkernel.symm.trans hkernel')
  obtain ⟨r', hmem, hr'⟩ := hlinked.complete _ hnext
  -- states have different kernels
  have hlt := (List.getElem?_eq_some_iff.mp hr).choose
  have hsame := (List.getElem?_inj hlt (explored_collection g).distinct).mp (hr.trans hr'.symm)
  rwa [hsame]

/-- Where the whole input is complete, the start symbol leads from the start. -/
theorem leads_of_complete (h : ⟨(augment g).whole, 1⟩ ∈ g.itemsAt q) :
    g.Leads 0 (g.nonTerminalSymbol 0) q := by
  obtain ⟨q', s, hleads⟩ := exists_leads_of_dot_ne_zero h Nat.one_ne_zero
  obtain ⟨other, hother, hnext, heq⟩ := hleads.retreat h Nat.one_ne_zero
  obtain rfl : other = (augment g).startItem := by
    obtain ⟨p, dot⟩ := other
    obtain ⟨rfl, hdot⟩ := Item.mk.inj heq
    obtain rfl := Nat.succ.inj hdot
    rfl
  rw [next?, startItem, symbolsOf_whole] at hnext
  obtain rfl : g.nonTerminalSymbol 0 = s := Option.some.inj hnext
  have hzero : q' = 0 := by
    by_contra hne
    obtain ⟨state, hstate⟩ := exists_kernelAt hother
    obtain ⟨q'', s', hbefore⟩ := exists_leads (linked_states hstate).1 hne
    exact hbefore.startItem_not_mem hother
  rwa [hzero] at hleads

/-! ### Something to do -/

/-- Whether the items of a state call for an action on some terminal. -/
def CallsForAction (g : PreparedGrammar) (q : Nat) : Prop :=
  ∃ t, g.isTerminal t = true ∧ (ShiftsOn g q t ∨ ∃ p, CompletesOn g q t p)

/-- A state has an item that was read up to its dot. -/
theorem exists_mem_kernel (hstate : g.automaton.states[q]? = some state) :
    ∃ item, item ∈ state.kernel := by
  have hkernel := List.mem_of_getElem? (linked_states hstate).1
  rcases (explored_collection g).reached _ hkernel with hstart | ⟨before, -, s, hs⟩
  · exact ⟨_, hstart ▸ List.mem_singleton_self _⟩
  · exact List.exists_mem_of_ne_nil _ (spec_of_mem_gather hs).2.1

section

variable (hlhs : ∀ p ∈ g.productions, p.lhs < g.nonTerminals.size) (hpos : 0 < g.terminalCount)
  (hproductive : g.Productive)
include hlhs hpos hproductive

omit hproductive in
/-- The lookaheads of a state have terminals only. -/
theorem isTerminal_of_mem_closureOf {e : Item × TerminalSet} (he : e ∈ g.automaton.closureOf q)
    (ht : e.2.contains t = true) : g.isTerminal t = true := by
  obtain ⟨entry, hentry, rfl⟩ := List.mem_map.mp he
  refine decide_eq_true (below_of_mem_closureWith hlhs (fun e he => ?_) hentry t ht)
  obtain ⟨own, hown, rfl⟩ := List.mem_map.mp he
  exact below_of_mem_kernelOf (propagated_automaton hlhs hpos) hown

/-- Each item of a state is followed by some terminal. -/
theorem exists_lookahead (hitem : item ∈ g.itemsAt q) :
    ∃ set t, (item, set) ∈ g.automaton.closureOf q ∧ set.contains t = true := by
  obtain ⟨state, hstate⟩ := exists_kernelAt hitem
  obtain ⟨items, hitems, hcore⟩ :=
    (reachable_of_mem hlhs (Array.mem_of_getElem? hstate)).exists_canonical hproductive
  rw [itemsAt_eq hstate, mem_closure_iff hlhs] at hitem
  obtain ⟨t, hfollowed⟩ : item ∈ core items := hcore ▸ hitem
  -- what follows the item in a canonical set is expected in the state
  obtain ⟨q', state', hstate', hcore', hexpects⟩ := hitems.exists_state hlhs hpos hproductive
  obtain rfl := eq_of_closureSet_eq hstate' hstate (hcore'.symm.trans hcore)
  obtain ⟨set, hset, ht⟩ := (hexpects _ hfollowed).exists_mem_closureOf hlhs hpos
  exact ⟨set, t, hset, ht⟩

/-- A complete item calls for an action. -/
theorem callsForAction_of_isComplete (hitem : item ∈ g.itemsAt q)
    (hcomplete : (augment g).isComplete item = true) : CallsForAction g q := by
  obtain ⟨set, t, hset, ht⟩ := exists_lookahead hlhs hpos hproductive hitem
  exact ⟨t, isTerminal_of_mem_closureOf hlhs hpos hset ht,
    .inr ⟨item.production, _, hset, rfl, hcomplete, ht⟩⟩

/-- An item that goes on with what derives something calls for an action: what it goes on with is a
terminal, or the first symbol of a phrase is looked at in turn. -/
theorem callsForAction_of_derives {sentence : List Symbol} (h : g.Derives s sentence) :
    ∀ item ∈ g.itemsAt q, (augment g).next? item = some s → CallsForAction g q := by
  refine (Derives.induct (P := fun s _ => ∀ item ∈ g.itemsAt q, (augment g).next? item = some s →
      CallsForAction g q)
    (Q := fun symbols _ => ∀ p rule, g.productions[p]? = some rule → rule.symbols = symbols →
      ⟨p, 0⟩ ∈ g.itemsAt q → CallsForAction g q) ?_ ?_ ?_ ?_).1 _ _ h
  · intro s hs item hitem hnext
    obtain ⟨state, hstate⟩ := exists_kernelAt hitem
    rw [← map_fst_closureOf hstate] at hitem
    obtain ⟨entry, hentry, rfl⟩ := List.mem_map.mp hitem
    exact ⟨s, hs, .inl ⟨entry, hentry, hnext⟩⟩
  · intro p rule sentence hrule _ ih item hitem hnext
    obtain ⟨state, hstate⟩ := exists_kernelAt hitem
    rw [itemsAt_eq hstate, mem_closure_iff hlhs] at hitem
    refine ih p rule hrule rfl ?_
    rw [itemsAt_eq hstate, mem_closure_iff hlhs]
    exact hitem.begins hrule hnext
  · intro p rule hrule hsymbols hitem
    refine callsForAction_of_isComplete hlhs hpos hproductive hitem ?_
    rw [isComplete, next?, symbolsOf_augment hrule, hsymbols]
    rfl
  · intro s rest front back _ _ ih _ p rule hrule hsymbols hitem
    refine ih _ hitem ?_
    rw [next?, symbolsOf_augment hrule, hsymbols]
    rfl

/-- **In each state there is something to do.** -/
theorem callsForAction (hstart : ∃ sentence, g.Derives (g.nonTerminalSymbol 0) sentence)
    (hstate : g.automaton.states[q]? = some state) : CallsForAction g q := by
  obtain ⟨item, hkernel⟩ := exists_mem_kernel hstate
  have hitem : item ∈ g.itemsAt q := by
    rw [itemsAt_eq hstate]
    exact mem_closure_of_mem hkernel
  cases hnext : (augment g).next? item with
  | none =>
    refine callsForAction_of_isComplete hlhs hpos hproductive hitem ?_
    rw [isComplete, hnext]
    rfl
  | some s =>
    have hderives : ∃ sentence, g.Derives s sentence := by
      by_cases hwhole : item.production = (augment g).whole
      · rw [next?, hwhole, symbolsOf_whole] at hnext
        rwa [← List.mem_singleton.mp (List.mem_of_getElem? hnext)] at hstart
      · exact derives_of_mem_symbolsOf hproductive hwhole s (List.mem_of_getElem? hnext)
    obtain ⟨sentence, hsentence⟩ := hderives
    exact callsForAction_of_derives hlhs hpos hproductive hsentence item hitem hnext

end

/-! ### Whether the input is accepted -/

/-- The production for the whole input has level zero. -/
theorem levelOf_whole (g : PreparedGrammar) : g.automaton.levelOf (augment g).whole = 0 := by
  change ((g.productions[g.productions.size]?).map (·.precedence)).getD 0 = 0
  rw [Array.getElem?_eq_none (Nat.le_refl _)]
  rfl

/-- Among the productions that are complete the one for the whole input wins if none has a positive
level: one of level zero would be a conflict that no group settles. -/
theorem eq_whole_iff_of_reduceReduce {productions : List Nat} {p : Nat}
    (h : g.automaton.reduceReduce q t productions = .ok p)
    (hwhole : (augment g).whole ∈ productions) :
    p = (augment g).whole ↔ ∀ other ∈ productions, g.automaton.levelOf other ≤ 0 := by
  have hle := Automaton.levelOf_le_of_reduceReduce h
  constructor
  · rintro rfl other hother
    exact (levelOf_whole g) ▸ hle other hother
  · intro hlevels
    have hptop := Automaton.mem_top_of_reduceReduce h
    have hzero : g.automaton.levelOf p = 0 := by
      refine Int.le_antisymm (hlevels p (List.mem_filter.mp hptop).1) ?_
      exact (levelOf_whole g) ▸ hle _ hwhole
    have hhighest : highest (productions.map g.automaton.levelOf) = 0 :=
      (of_decide_eq_true (List.mem_filter.mp hptop).2).symm.trans hzero
    have htop : (augment g).whole ∈ productions.filter fun p =>
        g.automaton.levelOf p = highest (productions.map g.automaton.levelOf) :=
      List.mem_filter.mpr ⟨hwhole, decide_eq_true ((levelOf_whole g).trans hhighest.symm)⟩
    rw [Automaton.reduceReduce] at h
    split at h
    · rename_i single hsingle
      obtain rfl := Except.ok.inj h
      exact (List.mem_singleton.mp (hsingle ▸ htop)).symm
    · rw [show List.contains _ g.automaton.augmented.whole = true from
        List.contains_iff_mem.mpr htop] at h
      cases h

/-- Where the whole input is complete at its end, it is accepted unless a production of a positive
level is complete as well. -/
theorem action_eq_accept_iff {rows : Rows} (hrows : g.automaton.rows = .ok rows)
    (hlhs : ∀ p ∈ g.productions, p.lhs < g.nonTerminals.size) (hpos : 0 < g.terminalCount)
    (hwhole : g.Expects r (augment g).startItem.advance .endOfInput) :
    rows.action g r .endOfInput = .accept ↔
      ∀ p, CompletesOn g r .endOfInput p → g.automaton.levelOf p ≤ 0 := by
  obtain ⟨state, hstate⟩ := exists_kernelAt (hwhole.mem_itemsAt hlhs hpos)
  obtain ⟨set, hset, hend⟩ := hwhole.exists_mem_closureOf hlhs hpos
  have hterminal : g.isTerminal .endOfInput = true := decide_eq_true hpos
  have hcompletes : CompletesOn g r .endOfInput (augment g).whole := by
    refine ⟨_, hset, rfl, ?_, hend⟩
    rw [isComplete, next?, Item.advance_production, startItem, symbolsOf_whole]
    rfl
  have hmem := Rows.mem_completedOn_iff.mpr hcompletes
  rcases Rows.action_spec hrows hstate hterminal with ⟨hempty, -⟩ | ⟨p, hp, hagainst⟩
  · rw [hempty] at hmem
    cases hmem
  · have hiff := eq_whole_iff_of_reduceReduce hp hmem
    simp only [Rows.mem_completedOn_iff] at hiff
    rw [← hiff]
    rcases Automaton.cases_of_against hagainst with
      ⟨hwins, haction⟩ | ⟨hloses, haction | ⟨target, -, haction⟩⟩
    · exact iff_of_true haction hwins
    · refine iff_of_false ?_ hloses
      rw [haction]
      rintro ⟨⟩
    · refine iff_of_false ?_ hloses
      rw [haction]
      rintro ⟨⟩

/-- **The input is accepted once.** In the table of a grammar each state has an action on some
terminal. There is a state that the start symbol leads to from the start, and the input is accepted
only there and at its end. It is accepted there unless a production of a positive level is complete
at the end as well. -/
theorem Grammar.accepts_once {grammar : Grammar} {t : ParseTable}
    (hprepare : grammar.prepare = .ok g) (hcompile : grammar.compile = .ok t) :
    (∀ q < t.parts.stateCount, ∃ s, t.isTerminal s = true ∧ t.action q s ≠ .error) ∧
      ∃ r, t.goto? 0 t.startSymbol = some r ∧
        (∀ q s, t.action q s = .accept → q = r ∧ s = .endOfInput) ∧
        (t.action r .endOfInput = .accept ↔
          ∀ p, CompletesOn g r .endOfInput p → g.automaton.levelOf p ≤ 0) := by
  have hcompiles := compiles hprepare hcompile
  have hlhs := lhs_lt_of_prepare hprepare
  have hpos := (wellFormed_of_prepare hprepare).terminalCount_pos
  have hproductive := productive_of_prepare hprepare
  have hkinds : 0 < g.nonTerminals.size := by
    have hlt := t.isConsistent.terminalCount_lt
    rw [hcompiles.terminalCount_eq, hcompiles.size_symbols, symbolCount, terminalCount] at hlt
    exact Nat.pos_of_lt_add_right hlt
  obtain ⟨rows, hrows, hactions, hgotos⟩ := hcompiles.exists_rows
  refine ⟨?_, ?_⟩
  · intro q hq
    rw [hcompiles.stateCount_eq] at hq
    have hstate := Array.getElem?_eq_getElem hq
    -- every state has an item that calls for a move
    obtain ⟨s, hs, hcalled⟩ := callsForAction hlhs hpos hproductive
      (derives_of_prepare hprepare hkinds) hstate
    refine ⟨s, ?_, ?_⟩
    · rw [ParseTable.isTerminal, hcompiles.terminalCount_eq]
      exact hs
    · rw [hactions]
      intro herror
      obtain ⟨hshift, hreduce⟩ := (Rows.action_eq_error_iff hrows hstate hs).mp herror
      rcases hcalled with hshifts | ⟨p, hcompletes⟩
      · exact hshift hshifts
      · exact hreduce p hcompletes
  · -- the whole input is complete behind the start symbol
    have hnext : (augment g).next? (augment g).startItem = some (g.nonTerminalSymbol 0) := by
      rw [next?, startItem, symbolsOf_whole]
      rfl
    obtain ⟨start, r, hstart, hr, hexpects⟩ := (expects_start hlhs hpos).advance hlhs hpos hnext
    refine ⟨r, ?_, ?_, ?_⟩
    · rw [hcompiles.startSymbol_eq, hgotos]
      exact Rows.goto?_eq_some hrows hkinds hstart hr
    · intro q s haccept
      obtain ⟨hitem, hs⟩ := hcompiles.complete_of_accept haccept
      -- The item for the whole input is complete in one state only, that behind the start symbol.
      have hq := (leads_of_complete hitem).mem_transitions hstart
      refine ⟨?_, hs⟩
      exact Option.some.inj (((transition?_eq_some hstart).mpr hq).symm.trans
        ((transition?_eq_some hstart).mpr hr))
    · rw [hactions]
      exact action_eq_accept_iff hrows hlhs hpos hexpects

/-- One `x` or more. -/
def series : Grammar where
  name := "series"
  rules := [("phrase", .choice [.seq [.reference "phrase", .literal "x"], .literal "x"])]
  extras := []
  conflicts := []
  externals := []
  word := none

/-- Behind a series there is the end of the input or more of it. -/
theorem Grammar.accepts_once_series : ∃ g t, series.prepare = .ok g ∧ series.compile = .ok t ∧
    ∃ r, t.goto? 0 t.startSymbol = some r ∧ t.action r .endOfInput = .accept ∧
      ∀ q s, t.action q s = .accept → q = r ∧ s = .endOfInput := by
  have hrun : (series.prepare.toOption).any (fun _ => (series.compile.toOption).any fun t =>
      decide (t.goto? 0 t.startSymbol = some 2) && decide (t.action 2 .endOfInput = .accept)) =
      true := by
    decide +kernel
  obtain ⟨g, hg, hrun⟩ := (Option.any_eq_true ..).mp hrun
  obtain ⟨t, ht, hcheck⟩ := (Option.any_eq_true ..).mp hrun
  obtain ⟨hgoto, haccept⟩ := Bool.and_eq_true_iff.mp hcheck
  have hprepare := eq_ok_of_toOption hg
  have hcompile := eq_ok_of_toOption ht
  obtain ⟨-, r, hr, hunique, -⟩ := accepts_once hprepare hcompile
  obtain rfl := Option.some.inj (hr.symm.trans (of_decide_eq_true hgoto))
  exact ⟨g, t, hprepare, hcompile, 2, hr, of_decide_eq_true haccept, hunique⟩

/-- A phrase that may be put into another one round and round, at a level of its own. -/
def rounds : Grammar where
  name := "rounds"
  rules := [
    ("phrase", .choice [.reference "again", .literal "x"]),
    ("again", .prec none 1 (.reference "phrase"))]
  extras := []
  conflicts := []
  externals := []
  word := none

/-- Behind a phrase the higher level has it put into another one, so that nothing is accepted. -/
theorem Grammar.not_accepts_rounds : ∃ t, rounds.compile = .ok t ∧
    ∀ q s, t.action q s ≠ .accept := by
  have hrun : (rounds.compile.toOption).any (fun t =>
      t.parts.actions.all fun action => decide (action ≠ .accept)) = true := by
    decide +kernel
  obtain ⟨t, ht, hcheck⟩ := (Option.any_eq_true ..).mp hrun
  refine ⟨t, eq_ok_of_toOption ht, ?_⟩
  intro q s haccept
  rw [ParseTable.action] at haccept
  split at haccept
  · cases hcell : t.parts.actions[q * t.parts.terminalCount + s.index]? with
    | none =>
      rw [hcell] at haccept
      cases haccept
    | some action =>
      rw [hcell] at haccept
      obtain rfl : action = .accept := haccept
      exact of_decide_eq_true (Array.all_eq_true_iff_forall_mem.mp hcheck _
        (Array.mem_of_getElem? hcell)) rfl
  · cases haccept

end LRWorkbench
