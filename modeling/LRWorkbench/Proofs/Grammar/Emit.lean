import LRWorkbench.Proofs.Lalr.Propagation
import LRWorkbench.Proofs.Lalr.Rows

/-!
# Tables fit together

A table is checked before it is handed out. The table of a grammar whose terminals stand in order,
the end of the input first, then the external tokens (`PreparedGrammar.Ordered`), passes the check:
once its rows are made and its patterns are read, there is a table (`PreparedGrammar.exists_emit`).
-/

namespace LRWorkbench

open Lalr Augmented

/-- Whether the symbols of a grammar stand in order and its productions keep to them. -/
structure PreparedGrammar.Ordered (g : PreparedGrammar) : Prop where
  first : g.terminals[0]?.map (·.kind) = some .endOfInput
  external : ∀ place t, g.terminals[place]? = some t →
    (t.kind = .external ↔ 1 ≤ place ∧ place ≤ g.externalCount)
  externals : g.externalCount < g.terminals.size
  phrases : 0 < g.nonTerminals.size
  lhs : ∀ p ∈ g.productions, p.lhs < g.nonTerminals.size
  fields : ∀ p ∈ g.productions, ∀ step ∈ p.steps, ∀ f, step.field = some f →
    f.index < g.fieldNames.length

theorem Regex.length_of_compileAll? {sources : List String} {patterns : List Regex}
    (h : compileAll? sources = some patterns) : patterns.length = sources.length := by
  induction sources generalizing patterns with
  | nil =>
    obtain rfl : [] = patterns := Option.some.inj h
    rfl
  | cons s sources ih =>
    rw [compileAll?, List.mapM_cons] at h
    obtain ⟨r, -, h⟩ := Option.bind_eq_some_iff.mp h
    obtain ⟨rest, hrest, h⟩ := Option.bind_eq_some_iff.mp h
    obtain rfl := Option.some.inj h
    rw [List.length_cons, List.length_cons, ih hrest]

namespace PreparedGrammar

variable {g : PreparedGrammar} {rows : Rows} {lex : LexSpec} {patterns : PatternSet}

/-! ### Symbols -/

namespace Ordered

variable (h : g.Ordered)
include h

theorem symbolFault?_eq {info : SymbolInfo} {place : Nat} (rows : Rows) (lex : LexSpec)
    (hinfo : (g.tableParts rows lex).symbols[place]? = some info) :
    (g.tableParts rows lex).symbolFault? place info = none := by
  have hinfo : (g.terminals.map terminalInfo ++ g.nonTerminals.map nonTerminalInfo)[place]? =
      some info := hinfo
  have hexternals := h.externals
  rw [TableParts.symbolFault?, TableParts.isExternalPlace]
  change (if (decide (info.kind ≠ .nonTerminal) != decide (place < g.terminals.size)) = true then _
    else if (decide (info.kind = .external) !=
      (decide (1 ≤ place) && decide (place ≤ g.externalCount))) = true then _ else none) = none
  rcases Nat.lt_or_ge place g.terminals.size with hlt | hge
  · rw [Array.getElem?_append_left (by rwa [Array.size_map]), Array.getElem?_map,
      Array.getElem?_eq_getElem hlt] at hinfo
    obtain rfl := Option.some.inj hinfo
    have hexternal := h.external place _ (Array.getElem?_eq_getElem hlt)
    by_cases hkind : g.terminals[place].kind = .external
    · obtain ⟨hpos, hle⟩ := hexternal.mp hkind
      simp [terminalInfo, hkind, hlt, hpos, hle]
    · have hnot := mt hexternal.mpr hkind
      simp only [terminalInfo, if_neg hkind]
      simpa [hlt] using hnot
  · rw [Array.getElem?_append_right (by rwa [Array.size_map]), Array.getElem?_map] at hinfo
    obtain ⟨n, -, rfl⟩ := Option.map_eq_some_iff.mp hinfo
    simp [nonTerminalInfo, Nat.not_lt.mpr hge]
    omega

/-! ### Rows -/

theorem terminalCount_pos : 0 < g.terminalCount := Nat.zero_lt_of_lt h.externals

end Ordered

theorem lt_of_leads {q r : Nat} {s : Symbol} (hleads : g.Leads q s r) :
    r < g.automaton.states.size := by
  obtain ⟨_, _, -, -, hr⟩ := hleads
  rw [kernelAt?, kernels_getElem?] at hr
  obtain ⟨state, hstate, -⟩ := Option.map_eq_some_iff.mp hr
  exact (Array.getElem?_eq_some_iff.mp hstate).choose

section

variable (h : g.Ordered) (hrows : g.automaton.rows = .ok rows)
include h hrows

omit h in
theorem stateCount_eq : rows.stateCount = g.automaton.states.size :=
  (Automaton.addRows_spec hrows).1

theorem actionFault?_eq (lex : LexSpec) {a : Action} (ha : a ∈ rows.actions) :
    (g.tableParts rows lex).actionFault? a = none := by
  obtain ⟨j, hj, rfl⟩ := Array.mem_iff_getElem.mp ha
  -- the place is that of a terminal in the row of a state
  have hdiv := Nat.div_add_mod' j g.terminalCount
  have hterminal : g.isTerminal ⟨j % g.terminalCount⟩ = true :=
    decide_eq_true (Nat.mod_lt j h.terminalCount_pos)
  have haction : rows.action g (j / g.terminalCount) ⟨j % g.terminalCount⟩ = rows.actions[j] := by
    rw [Rows.action, if_pos hterminal]
    dsimp only
    rw [hdiv, Array.getElem?_eq_getElem hj]
    rfl
  generalize rows.actions[j] = a at haction
  cases a with
  | error | accept => rfl
  | shift r =>
    have hlt := lt_of_leads (Rows.leads_of_shift hrows haction).2
    rw [← stateCount_eq hrows] at hlt
    exact if_pos hlt
  | reduce p =>
    obtain ⟨rule, hrule, -⟩ := Rows.complete_of_reduce hrows haction
    have hlt : p < (g.productions.map g.tableProduction).size := by
      rw [Array.size_map]
      exact (Array.getElem?_eq_some_iff.mp hrule).choose
    exact if_pos hlt

theorem gotoFault?_eq (lex : LexSpec) {target? : Option Nat} (ht : target? ∈ rows.gotos) :
    (g.tableParts rows lex).gotoFault? target? = none := by
  obtain ⟨j, hj, rfl⟩ := Array.mem_iff_getElem.mp ht
  have hdiv := Nat.div_add_mod' j g.nonTerminals.size
  have hgoto : rows.goto? g (j / g.nonTerminals.size) (j % g.nonTerminals.size) =
      rows.gotos[j] := by
    rw [Rows.goto?, hdiv, Array.getElem?_eq_getElem hj]
    rfl
  generalize rows.gotos[j] = target? at hgoto
  cases target? with
  | none => rfl
  | some r =>
    have hlt := lt_of_leads (Rows.leads_of_goto hrows (Nat.mod_lt j h.phrases) hgoto)
    rw [← stateCount_eq hrows] at hlt
    exact if_pos hlt

end

/-! ### Productions and patterns -/

theorem Ordered.productionFault?_eq (h : g.Ordered) (rows : Rows) (lex : LexSpec) {rule : Production}
    (hrule : rule ∈ g.productions) :
    (g.tableParts rows lex).productionFault? (g.tableProduction rule) = none := by
  have hlhs := h.lhs rule hrule
  rw [TableParts.productionFault?, if_neg, if_neg]
  · simp only [List.any_eq_true, not_exists, not_and]
    intro f hf
    rw [tableProduction] at hf
    dsimp only at hf
    split at hf
    · obtain ⟨step, hstep, rfl⟩ := List.mem_map.mp hf
      cases hfield : step.field with
      | none => simp
      | some f =>
        have hlt := h.fields rule hrule step hstep f hfield
        exact fun hle => Nat.not_le.mpr hlt (of_decide_eq_true hle)
    · cases hf
  · simp [tableProduction, tableParts, nonTerminalSymbol, terminalCount]
    omega

theorem Ordered.patternFault?_eq (h : g.Ordered) (rows : Rows) (lex : LexSpec)
    {entry : Symbol × String × Int} (hentry : entry ∈ g.lexicalTerminals) :
    (g.tableParts rows lex).patternFault? entry.1 = none := by
  obtain ⟨⟨terminal, place⟩, hmem, hsome⟩ := List.mem_filterMap.mp hentry
  obtain ⟨definition, hdefinition, rfl⟩ := Option.map_eq_some_iff.mp hsome
  have hterminal := List.mem_zipIdx_iff_getElem?.mp hmem
  rw [Array.getElem?_toList] at hterminal
  have hlt := (Array.getElem?_eq_some_iff.mp hterminal).choose
  -- what has a pattern is neither external nor the end of the input
  have hexternal : terminal.kind ≠ .external := by
    intro hkind
    rw [Terminal.definition?, hkind] at hdefinition
    cases hdefinition
  have hzero : place ≠ 0 := by
    rintro rfl
    have hfirst := h.first
    rw [hterminal] at hfirst
    have hkind : terminal.kind = .endOfInput := Option.some.inj hfirst
    rw [Terminal.definition?, hkind] at hdefinition
    cases hdefinition
  have hnot := mt (h.external place terminal hterminal).mpr hexternal
  refine if_neg fun hbad => ?_
  have hbad : g.terminals.size ≤ place ∨ place ≤ g.externalCount :=
    (Bool.or_eq_true_iff.mp hbad).imp of_decide_eq_true of_decide_eq_true
  dsimp only at hlt
  omega

/-- There is a pattern for each terminal that has one. -/
theorem spec_of_lexSpec (hlex : g.lexSpec = .ok (lex, patterns)) :
    patterns.patterns.length = lex.patternSymbols.length ∧
      lex.patternSymbols = g.lexicalTerminals.map (·.1) := by
  obtain ⟨hmade, keywords, -, rfl⟩ := lexSpec_eq_ok.mp hlex
  rw [PatternSet.ofSources?] at hmade
  split at hmade
  · rename_i compiled hcompiled
    obtain rfl := Option.some.inj hmade
    dsimp only
    rw [Regex.length_of_compileAll? hcompiled, List.length_map, List.length_map]
    exact ⟨rfl, rfl⟩
  · cases hmade

/-! ### The check -/

theorem Ordered.fault?_eq (h : g.Ordered) (hrows : g.automaton.rows = .ok rows)
    (hlex : g.lexSpec = .ok (lex, patterns)) :
    (g.tableParts rows lex).fault? (ByteAutomaton.patternCount patterns) = none := by
  obtain ⟨hactions, hgotos⟩ := Automaton.size_of_rows hrows
  have hstates := stateCount_eq hrows
  have hsymbols : (g.tableParts rows lex).symbols.size = g.terminalCount + g.nonTerminals.size := by
    simp [tableParts, terminalCount]
  have hphrases := h.phrases
  have hpos := h.terminalCount_pos
  obtain ⟨start, hstart, -⟩ := exists_start g
  have hsome := (Array.getElem?_eq_some_iff.mp hstart).choose
  have hcount : ¬(decide (g.terminalCount = 0) || decide
      ((g.tableParts rows lex).symbols.size ≤ g.terminalCount)) = true := by
    rw [hsymbols, Bool.or_eq_true_iff, decide_eq_true_eq, decide_eq_true_eq]
    omega
  have hexternals : ¬g.terminalCount ≤ g.externalCount := Nat.not_le.mpr h.externals
  have hstateCount : ¬rows.stateCount = 0 := by
    rw [stateCount_eq hrows]
    exact Nat.ne_of_gt hsome
  have hkinds : (g.tableParts rows lex).nonTerminalCount = g.nonTerminals.size := by
    rw [TableParts.nonTerminalCount, hsymbols]
    exact Nat.add_sub_cancel_left ..
  have hactionCount : ¬rows.actions.size ≠ rows.stateCount * g.terminalCount := by
    rw [hactions, stateCount_eq hrows]
    exact not_not_intro rfl
  have hgotoCount : ¬rows.gotos.size ≠
      rows.stateCount * (g.tableParts rows lex).nonTerminalCount := by
    rw [hgotos, stateCount_eq hrows, hkinds]
    exact not_not_intro rfl
  -- The checks in their order, the ones on sizes and the ones on indices.
  rw [TableParts.fault?]
  refine (if_neg hcount).trans <| (if_neg hexternals).trans <| (if_neg hstateCount).trans <|
    Option.or_eq_none_iff.mpr ⟨?_, (if_neg hactionCount).trans <| (if_neg hgotoCount).trans <|
      Option.or_eq_none_iff.mpr ⟨?_, Option.or_eq_none_iff.mpr ⟨?_,
        Option.or_eq_none_iff.mpr ⟨?_, (if_neg ?_).trans ?_⟩⟩⟩⟩
  · refine List.findSome?_eq_none_iff.mpr fun entry hentry => h.symbolFault?_eq rows lex ?_
    simpa using List.mem_zipIdx_iff_getElem?.mp hentry
  · exact List.findSome?_eq_none_iff.mpr fun a ha =>
      actionFault?_eq h hrows lex (Array.mem_toList_iff.mp ha)
  · exact List.findSome?_eq_none_iff.mpr fun a ha =>
      gotoFault?_eq h hrows lex (Array.mem_toList_iff.mp ha)
  · refine List.findSome?_eq_none_iff.mpr fun p hp => ?_
    obtain ⟨rule, hrule, rfl⟩ := Array.mem_map.mp (Array.mem_toList_iff.mp hp)
    exact h.productionFault?_eq rows lex hrule
  · exact not_not_intro (spec_of_lexSpec hlex).1
  · refine List.findSome?_eq_none_iff.mpr fun s hs => ?_
    have hsymbols : s ∈ g.lexicalTerminals.map (·.1) := (spec_of_lexSpec hlex).2 ▸ hs
    obtain ⟨entry, hentry, rfl⟩ := List.mem_map.mp hsymbols
    exact h.patternFault?_eq rows lex hentry

/-- **A grammar whose rows are made and whose patterns are read has a table.** -/
theorem Ordered.exists_emit (h : g.Ordered) (hrows : g.automaton.rows = .ok rows)
    (hlex : g.lexSpec = .ok (lex, patterns)) (hlengths : g.checkLengths = .ok ()) :
    ∃ t, g.emit rows = .ok t := by
  rw [emit, hlex]
  change ∃ t, (g.checkLengths >>= _) = Except.ok t
  rw [hlengths]
  have hfault := h.fault?_eq hrows hlex
  have hparts : ∃ t, ParseTable.ofParts (g.tableParts rows lex) patterns = .ok t := by
    rw [ParseTable.ofParts]
    split
    · rename_i fault heq
      rw [hfault] at heq
      cases heq
    · exact ⟨_, rfl⟩
  obtain ⟨t, ht⟩ := hparts
  refine ⟨t, ?_⟩
  dsimp only [bind, Except.bind]
  rw [ht]

end PreparedGrammar

end LRWorkbench
