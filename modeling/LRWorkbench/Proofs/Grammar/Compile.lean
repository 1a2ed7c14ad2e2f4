import LRWorkbench.Proofs.Lalr.Rows
import LRWorkbench.Proofs.Lexing.Progress

/-!
# Compiled tables follow the items of their states

What the table of a grammar tells the parser to do is justified by the items of the state:

* a shift and a goto lead where the symbol leads (`Compiles.leads_of_shift`, `leads_of_goto`);
* a production is reduced, or the input accepted, where it is complete
  (`Compiles.complete_of_reduce`, `complete_of_accept`);
* a production that may begin in a state has a goto there (`Compiles.exists_goto_lhs`).
-/

namespace LRWorkbench

open Lalr Augmented

/-- Whether a table is the one of a prepared grammar. -/
structure PreparedGrammar.Compiles (g : PreparedGrammar) (t : ParseTable) : Prop where
  wellFormed : g.WellFormed
  emitted : ∃ rows, g.automaton.rows = .ok rows ∧ g.emit rows = .ok t

/-- A table is made of the parts and patterns that it is put together from. -/
theorem PreparedGrammar.exists_of_emit {g : PreparedGrammar} {rows : Rows} {t : ParseTable}
    (h : g.emit rows = .ok t) : ∃ lex patterns, g.lexSpec = .ok (lex, patterns) ∧
      t.parts = g.tableParts rows lex ∧ t.patterns = patterns := by
  rw [emit] at h
  obtain ⟨⟨lex, patterns⟩, hlex, h⟩ := bind_eq_ok.mp h
  obtain ⟨_, -, h⟩ := bind_eq_ok.mp h
  refine ⟨lex, patterns, hlex, ?_⟩
  split at h
  · rename_i made hmade
    cases h
    rw [ParseTable.ofParts] at hmade
    split at hmade
    · cases hmade
    · cases hmade
      exact ⟨rfl, rfl⟩
  · cases h

/-- A grammar that compiles has been prepared, and its table is the one of the prepared grammar. -/
theorem Grammar.exists_prepared {g : Grammar} {t : ParseTable} (h : g.compile = .ok t) :
    ∃ prepared, g.prepare = .ok prepared ∧ prepared.Compiles t := by
  rw [Grammar.compile] at h
  obtain ⟨prepared, hprepare, h⟩ := bind_eq_ok.mp h
  obtain ⟨rows, hrows, h⟩ := bind_eq_ok.mp h
  exact ⟨prepared, hprepare, wellFormed_of_prepare hprepare, rows, hrows, h⟩

theorem Grammar.compiles {g : Grammar} {prepared : PreparedGrammar} {t : ParseTable}
    (hprepare : g.prepare = .ok prepared) (h : g.compile = .ok t) : prepared.Compiles t := by
  obtain ⟨prepared', hprepare', hcompiles⟩ := exists_prepared h
  obtain rfl := Except.ok.inj (hprepare.symm.trans hprepare')
  exact hcompiles

/-- A grammar is compiled by way of lists, too. -/
theorem Grammar.compile_eq_listed (g : Grammar) : g.compile =
    g.prepare >>= fun prepared => prepared.automaton.listedRows >>= prepared.emit := by
  simp only [compile, Automaton.rows_eq_listedRows]

namespace PreparedGrammar.Compiles

variable {g : PreparedGrammar} {t : ParseTable} {q r p : Nat} {s : Symbol}

/-- The parts of the table. -/
theorem parts_eq (h : g.Compiles t) :
    ∃ rows lex patterns, g.automaton.rows = .ok rows ∧ g.lexSpec = .ok (lex, patterns) ∧
      t.parts = g.tableParts rows lex := by
  obtain ⟨rows, hrows, hemit⟩ := h.emitted
  obtain ⟨lex, patterns, hlex, hparts, -⟩ := exists_of_emit hemit
  exact ⟨rows, lex, patterns, hrows, hlex, hparts⟩

theorem terminalCount_eq (h : g.Compiles t) : t.parts.terminalCount = g.terminalCount := by
  obtain ⟨rows, lex, patterns, -, -, hparts⟩ := h.parts_eq
  rw [hparts]
  rfl

theorem size_symbols (h : g.Compiles t) : t.parts.symbols.size = g.symbolCount := by
  obtain ⟨rows, lex, patterns, -, -, hparts⟩ := h.parts_eq
  rw [hparts]
  simp [tableParts, symbolCount]

theorem nonTerminalCount_eq (h : g.Compiles t) :
    t.parts.nonTerminalCount = g.nonTerminals.size := by
  rw [TableParts.nonTerminalCount, h.size_symbols, h.terminalCount_eq, symbolCount, terminalCount,
    Nat.add_sub_cancel_left]

theorem startSymbol_eq (h : g.Compiles t) : t.startSymbol = g.nonTerminalSymbol 0 := by
  rw [ParseTable.startSymbol, h.terminalCount_eq]
  rfl

theorem stateCount_eq (h : g.Compiles t) : t.parts.stateCount = g.automaton.states.size := by
  obtain ⟨rows, lex, patterns, hrows, -, hparts⟩ := h.parts_eq
  rw [hparts]
  exact (Automaton.addRows_spec hrows).1

/-- The productions of the table are those of the grammar. -/
theorem production?_eq (h : g.Compiles t) :
    t.production? p = (g.productions[p]?).map g.tableProduction := by
  obtain ⟨rows, lex, patterns, -, -, hparts⟩ := h.parts_eq
  rw [ParseTable.production?, hparts, tableParts, Array.getElem?_map]

/-- A production is one of a phrase kind. -/
theorem lhs_lt (h : g.Compiles t) {rule : Production} (hrule : g.productions[p]? = some rule) :
    rule.lhs < g.nonTerminals.size := by
  have hp : t.production? p = some (g.tableProduction rule) := by
    rw [h.production?_eq, hrule, Option.map_some]
  have hfault := t.isConsistent.productions _ (Array.mem_of_getElem? hp)
  have hsize := h.size_symbols
  simp only [TableParts.productionFault?] at hfault
  split at hfault
  · cases hfault
  · rename_i hrange
    simp only [Bool.or_eq_true, decide_eq_true_eq, not_or, Nat.not_le, tableProduction,
      nonTerminalSymbol, hsize, symbolCount] at hrange
    omega

/-- The table does what the rows say. -/
theorem exists_rows (h : g.Compiles t) : ∃ rows, g.automaton.rows = .ok rows ∧
    (∀ q s, t.action q s = rows.action g q s) ∧
    ∀ q kind, t.goto? q (g.nonTerminalSymbol kind) = rows.goto? g q kind := by
  obtain ⟨rows, lex, patterns, hrows, -, hparts⟩ := h.parts_eq
  refine ⟨rows, hrows, fun q s => ?_, fun q kind => ?_⟩
  · rw [ParseTable.action, ParseTable.isTerminal, h.terminalCount_eq, hparts]
    rfl
  · rw [ParseTable.goto?, h.terminalCount_eq, h.nonTerminalCount_eq, nonTerminalSymbol,
      terminalCount, if_neg (Nat.not_lt.mpr (Nat.le_add_right ..)), Nat.add_sub_cancel_left, hparts]
    rfl

/-- A terminal that is shifted leads to the state that the parser goes to. -/
theorem leads_of_shift (h : g.Compiles t) (haction : t.action q s = .shift r) :
    g.isTerminal s ∧ g.Leads q s r := by
  obtain ⟨rows, hrows, hactions, -⟩ := h.exists_rows
  exact Rows.leads_of_shift hrows ((hactions q s).symm.trans haction)

/-- A production that is reduced is complete in the state. -/
theorem complete_of_reduce (h : g.Compiles t) (haction : t.action q s = .reduce p) :
    ∃ rule, g.productions[p]? = some rule ∧ ⟨p, rule.symbols.length⟩ ∈ g.itemsAt q := by
  obtain ⟨rows, hrows, hactions, -⟩ := h.exists_rows
  exact Rows.complete_of_reduce hrows ((hactions q s).symm.trans haction)

/-- The input is accepted where it is complete, and at its end only. -/
theorem complete_of_accept (h : g.Compiles t) (haction : t.action q s = .accept) :
    ⟨(augment g).whole, 1⟩ ∈ g.itemsAt q ∧ s = .endOfInput := by
  obtain ⟨rows, hrows, hactions, -⟩ := h.exists_rows
  exact Rows.complete_of_accept hrows ((hactions q s).symm.trans haction)

/-- A phrase leads to the state that the parser goes to. -/
theorem leads_of_goto (h : g.Compiles t) {kind : Nat} (hkind : kind < g.nonTerminals.size)
    (hgoto : t.goto? q (g.nonTerminalSymbol kind) = some r) :
    g.Leads q (g.nonTerminalSymbol kind) r := by
  obtain ⟨rows, hrows, -, hgotos⟩ := h.exists_rows
  exact Rows.leads_of_goto hrows hkind ((hgotos q kind).symm.trans hgoto)

/-- A production that begins in a state has a goto there. -/
theorem exists_goto_lhs (h : g.Compiles t) {rule : Production}
    (hrule : g.productions[p]? = some rule) (hitem : ⟨p, 0⟩ ∈ g.itemsAt q) :
    ∃ r, t.goto? q (g.nonTerminalSymbol rule.lhs) = some r := by
  obtain ⟨rows, hrows, -, hgotos⟩ := h.exists_rows
  have hne : p ≠ (augment g).whole :=
    Nat.ne_of_lt (Array.getElem?_eq_some_iff.mp hrule).choose
  obtain ⟨rule', hrule', other, hother, hnext⟩ := exists_nextKind hitem hne
  obtain rfl := Option.some.inj (hrule.symm.trans hrule')
  rw [hgotos]
  exact Rows.exists_goto hrows hother hnext (h.lhs_lt hrule)

/-! ### Symbols -/

/-- The kinds of nodes are not the one of error nodes. -/
theorem nonTerminalSymbol_ne_error (h : g.Compiles t) {kind : Nat}
    (hkind : kind < g.nonTerminals.size) : g.nonTerminalSymbol kind ≠ .error := by
  intro heq
  have hindex : g.terminals.size + kind = 65535 := congrArg Symbol.index heq
  have hcount := h.wellFormed.count
  rw [symbolCount] at hcount
  omega

theorem ne_error_of_isTerminal (h : g.Compiles t) (hs : g.isTerminal s) : s ≠ .error := by
  rintro rfl
  have hlt : 65535 < g.terminals.size := of_decide_eq_true hs
  have hcount := h.wellFormed.count
  rw [symbolCount] at hcount
  omega

/-- The numbers of the terminals have 16 bits. -/
theorem terminalCount_lt (h : g.Compiles t) : t.terminalCount < 65536 := by
  have hcount := h.wellFormed.count
  rw [symbolCount] at hcount
  rw [ParseTable.terminalCount, h.terminalCount_eq, terminalCount]
  omega

/-- Nothing is done with what is no terminal. -/
theorem action_error (h : g.Compiles t) (q : Nat) : t.action q .error = .error := by
  rw [ParseTable.action, if_neg]
  intro hterminal
  rw [ParseTable.isTerminal, h.terminalCount_eq] at hterminal
  exact h.ne_error_of_isTerminal hterminal rfl

/-- What is shifted is not the error symbol. -/
theorem isError_of_shift (h : g.Compiles t) (haction : t.action q s = .shift r) :
    s.isError = false :=
  decide_eq_false (h.ne_error_of_isTerminal (h.leads_of_shift haction).1)

/-- The end of the input is not shifted. -/
theorem isEnd_of_shift (h : g.Compiles t) {token : Token}
    (haction : t.action q token.symbol = .shift r) : token.isEnd = false :=
  decide_eq_false (h.wellFormed.ne_end_of_leads (h.leads_of_shift haction).2)

/-- No keyword is the end of the input. -/
theorem sparesEnd (h : g.Compiles t) : t.SparesEnd := by
  obtain ⟨rows, lex, patterns, -, hlex, hparts⟩ := h.parts_eq
  intro text s hs
  rw [hparts] at hs
  exact h.wellFormed.keyword_ne_end hlex hs

end PreparedGrammar.Compiles

end LRWorkbench
