import LRWorkbench.Prepared.Productions
import LRWorkbench.Proofs.Operators.Terminals

/-!
# The productions of grammars of operators

The prepared grammar has a production for each operator, all of whose steps are at the level of the
operator, and one for atoms (`Operators.prepare_ofOperators`). There are three symbols more than
operators, which must not be too many.
-/

namespace LRWorkbench.Operators

open Flatten Vocabulary

variable {name : String} {ops : List Operator} {atom : AtomRule}

/-! ### Symbols and productions -/

/-- The terminal of the operator at a place. -/
def operatorSymbol (place : Nat) : Symbol := ⟨place + 1⟩

/-- The terminal of atoms. -/
def atomSymbol (ops : List Operator) : Symbol := ⟨ops.length + 1⟩

/-- The symbol of expressions. -/
def exprSymbol (ops : List Operator) : Symbol := ⟨ops.length + 2⟩

/-- A step of the production of an operator. -/
def stepOf (op : Operator) (s : Symbol) : Step := ⟨s, none, op.level, some op.side⟩

/-- The production of the operator at a place. -/
def operatorProduction (ops : List Operator) (op : Operator) (place : Nat) : Production :=
  ⟨0, [stepOf op (exprSymbol ops), stepOf op (operatorSymbol place), stepOf op (exprSymbol ops)], 0,
    none⟩

/-- The production of atoms. -/
def atomProduction (ops : List Operator) : Production := ⟨0, [⟨atomSymbol ops, none, 0, none⟩], 0, none⟩

/-- The productions of some operators, from a place on. -/
def operatorProductions (ops : List Operator) (more : List Operator) (place : Nat) : List Production :=
  (more.zipIdx place).map fun entry => operatorProduction ops entry.1 entry.2

/-- The prepared grammar of operators. -/
def prepared (name : String) (ops : List Operator) (atom : AtomRule) : PreparedGrammar where
  name := name
  terminals :=
    (⟨"end", .endOfInput, false⟩ :: ops.map Operator.terminal ++ [atom.terminal]).toArray
  externalCount := 0
  nonTerminals := #[⟨"expr", true, none⟩]
  productions := (operatorProductions ops ops 0 ++ [atomProduction ops]).toArray
  fieldNames := []
  extras := []
  word := none
  conflictGroups := []

/-! ### Alternatives -/

/-- What flattening starts from. -/
def source (name : String) (ops : List Operator) (atom : AtomRule) (v : Vocabulary) : Source :=
  ⟨Grammar.ofOperators name ops atom.rule, ⟨v, definitions atom, [], none⟩, [0]⟩

section

variable {v : Vocabulary} (hv : Complete ops atom v)
include hv

theorem size_terminals : v.terminals.size = ops.length + 2 := by
  have hsize := congrArg List.length hv.terminals
  rwa [Array.length_toList, List.length_append, List.length_cons, List.length_map,
    List.length_singleton] at hsize

theorem symbolOf?_expr : (source name ops atom v).symbolOf? "expr" = some (exprSymbol ops) := by
  have hexternal : (source name ops atom v).grammar.externalIndex? "expr" = none := rfl
  have hrule : (source name ops atom v).grammar.ruleIndex? "expr" = some 0 := rfl
  have hterminal : (source name ops atom v).terminals.vocabulary.terminalOf? 0 = none := by
    rw [terminalOf?, source, hv.named]
    rfl
  have hcount : (source name ops atom v).terminalCount = ops.length + 2 := size_terminals hv
  rw [Source.symbolOf?, hexternal]
  dsimp only
  rw [hrule]
  dsimp only
  rw [hterminal, Source.phraseKind?, source]
  change some (Symbol.mk ((source name ops atom v).terminalCount + 0)) = _
  rw [hcount]
  rfl

theorem symbolOf?_atom : (source name ops atom v).symbolOf? "atom" = some (atomSymbol ops) := by
  have hexternal : (source name ops atom v).grammar.externalIndex? "atom" = none := rfl
  have hrule : (source name ops atom v).grammar.ruleIndex? "atom" = some 1 := rfl
  have hterminal : (source name ops atom v).terminals.vocabulary.terminalOf? 1 =
      some (atomSymbol ops) := by
    rw [terminalOf?, source, hv.named]
    rfl
  rw [Source.symbolOf?, hexternal]
  dsimp only
  rw [hrule]
  dsimp only
  rw [hterminal]

/-- The token of an operator in the rule is the one it has. -/
theorem inlineTerminal?_literal (hdistinct : Distinct ops atom) {place : Nat} {op : Operator}
    (hop : ops[place]? = some op) :
    inlineTerminal? (Grammar.ofOperators name ops atom.rule) (definitions atom) v
      (.literal op.text) = some (operatorSymbol place) := by
  have hmem := List.mem_of_getElem? hop
  rw [inlineTerminal?, tokenPattern_literal (hdistinct.nonempty op hmem), Vocabulary.textRule?,
    textRule?_ofOperators (hdistinct.unmatched op hmem), Option.filter_none]
  exact hv.found place op hop

/-- An operator is flattened into its production. -/
theorem alternatives_rule (hdistinct : Distinct ops atom) {place : Nat} {op : Operator}
    (hop : ops[place]? = some op) (d : Draft) :
    alternatives (source name ops atom v) .outermost 0 d op.rule =
      .ok ([⟨(operatorProduction ops op place).steps, 0, none⟩], d) := by
  have hreference : ∀ ctx, alternatives (source name ops atom v) ctx 0 d (.reference "expr") =
      .ok ([.single (ctx.step (exprSymbol ops))], d) := by
    intro ctx
    rw [alternatives, symbolOf?_expr hv]
  have hliteral : ∀ ctx, alternatives (source name ops atom v) ctx 0 d (.literal op.text) =
      .ok ([.single (ctx.step (operatorSymbol place))], d) := by
    intro ctx
    rw [alternatives, inlineToken, source, inlineTerminal?_literal hv hdistinct hop]
  rw [Operator.rule, alternatives, alternatives, sequences, hreference]
  change (sequences _ _ 0 d _ [.literal op.text, .reference "expr"]) = _
  rw [sequences, hliteral]
  change (sequences _ _ 0 d _ [.reference "expr"]) = _
  rw [sequences, hreference]
  rfl

theorem alternatives_atom (d : Draft) :
    alternatives (source name ops atom v) .outermost 0 d (.reference "atom") =
      .ok ([⟨(atomProduction ops).steps, 0, none⟩], d) := by
  rw [alternatives, symbolOf?_atom hv]
  rfl

/-- The alternative of a production. -/
def alternativeOf (p : Production) : Alternative := ⟨p.steps, 0, none⟩

/-- All rules are flattened into their productions. -/
theorem choices_rules (hdistinct : Distinct ops atom) (d : Draft) (done : List Operator)
    {more : List Operator} (hops : ops = done ++ more) :
    choices (source name ops atom v) .outermost 0 d
        (more.map Operator.rule ++ [.reference "atom"]) =
      .ok ((operatorProductions ops more done.length ++ [atomProduction ops]).map alternativeOf, d) := by
  induction more generalizing done with
  | nil =>
    rw [List.map_nil, List.nil_append, choices, alternatives_atom hv]
    rfl
  | cons op more ih =>
    have hop : ops[done.length]? = some op := by
      rw [hops, List.getElem?_append_right (Nat.le_refl _), Nat.sub_self]
      rfl
    have hrest := ih (done ++ [op]) (by rw [hops, List.append_assoc]; rfl)
    rw [List.length_append, List.length_singleton] at hrest
    rw [List.map_cons, List.cons_append, choices, alternatives_rule hv hdistinct hop]
    dsimp only [bind, Except.bind]
    rw [hrest]
    rfl

end

/-! ### Drafts -/

/-- Productions that are not there yet are added. -/
theorem foldl_addProduction {ps : List Production}
    (hps : ∀ p ∈ ps, p = ⟨0, p.steps, 0, none⟩) (d : Draft)
    (hnodup : (d.productions.toList ++ ps).Nodup) :
    (ps.map alternativeOf).foldl (fun d a => d.addProduction 0 a) d =
      { d with productions := d.productions ++ ps.toArray } := by
  induction ps generalizing d with
  | nil => simp
  | cons p ps ih =>
    have hp : (⟨0, (alternativeOf p).steps, (alternativeOf p).precedence, (alternativeOf p).assoc⟩ :
        Production) = p := (hps p (List.mem_cons_self ..)).symm
    have hnew : d.productions.contains p = false := by
      rw [← Array.contains_toList]
      refine Bool.eq_false_iff.mpr fun hmem => ?_
      exact (List.nodup_append.mp hnodup).2.2 p (List.contains_iff_mem.mp hmem) p
        (List.mem_cons_self ..) rfl
    have hadd : d.addProduction 0 (alternativeOf p) = { d with productions := d.productions.push p } := by
      rw [Draft.addProduction, hp, hnew]
      rfl
    rw [List.map_cons, List.foldl_cons, hadd, ih (fun q hq => hps q (List.mem_cons_of_mem _ hq))]
    · simp
    · simpa using hnodup

theorem nodup_productions (ops : List Operator) :
    (operatorProductions ops ops 0 ++ [atomProduction ops]).Nodup := by
  -- the second steps tell the productions apart
  refine List.Nodup.of_map (fun p => p.steps[1]?.map (·.symbol)) ?_
  have hsymbols : (operatorProductions ops ops 0 ++ [atomProduction ops]).map
      (fun p => p.steps[1]?.map (·.symbol)) =
        ((List.range ops.length).map fun place => some (operatorSymbol place)) ++ [none] := by
    rw [List.map_append, operatorProductions, List.map_map, List.range_eq_range', ← List.zipIdx_map_snd 0 ops,
      List.map_map]
    rfl
  rw [hsymbols]
  refine List.nodup_append.mpr ⟨List.Nodup.map ?_ List.nodup_range, List.nodup_singleton _, ?_⟩
  · intro i j hij
    exact Nat.succ.inj (congrArg Symbol.index (Option.some.inj hij))
  · intro a ha b hb
    obtain ⟨_, -, rfl⟩ := List.mem_map.mp ha
    rw [List.mem_singleton.mp hb]
    exact fun h => by cases h

/-- What is flattened. -/
def draft (ops : List Operator) : Draft :=
  ⟨#[⟨"expr", true, none⟩], (operatorProductions ops ops 0 ++ [atomProduction ops]).toArray, .empty, []⟩

theorem addRules_ofOperators {v : Vocabulary} (hv : Complete ops atom v)
    (hdistinct : Distinct ops atom) :
    addRules (source name ops atom v) ⟨#[⟨"expr", true, none⟩], #[], .empty, []⟩
      [(0, .choice (ops.map Operator.rule ++ [.reference "atom"]))] = .ok (draft ops) := by
  have hps : ∀ p ∈ operatorProductions ops ops 0 ++ [atomProduction ops], p = ⟨0, p.steps, 0, none⟩ := by
    intro p hp
    rcases List.mem_append.mp hp with hp | hp
    · obtain ⟨_, -, rfl⟩ := List.mem_map.mp hp
      rfl
    · rw [List.mem_singleton.mp hp]
      rfl
  rw [addRules, alternatives, choices_rules hv hdistinct _ [] (List.nil_append ops).symm]
  dsimp only [bind, Except.bind]
  rw [List.length_nil, foldl_addProduction hps _ (nodup_productions ops), addRules, draft]
  simp

/-- Atoms are expressions, so that there are finite ones. -/
theorem checkProductive_draft (ops : List Operator) :
    checkProductive (ops.length + 2) (draft ops) = .ok () := by
  have hatom : atomProduction ops ∈ (draft ops).productions.toList :=
    List.mem_append_right _ (List.mem_singleton_self _)
  have hderives : derives (ops.length + 2) [] (atomProduction ops) = true := by
    simp [derives, atomProduction, atomSymbol]
  have hfresh : 0 ∈ (((draft ops).productions.toList.filter fun p =>
      !([] : List Nat).contains p.lhs && derives (ops.length + 2) [] p).map (·.lhs)).eraseDups :=
    List.mem_eraseDups.mpr (List.mem_map.mpr ⟨_, List.mem_filter.mpr ⟨hatom, hderives⟩, rfl⟩)
  have hknown : (productive (ops.length + 2) (draft ops).productions.toList
      (draft ops).nonTerminals.size []).contains 0 = true := by
    change (productive (ops.length + 2) (draft ops).productions.toList 1 []).contains 0 = true
    rw [productive]
    split
    · rename_i hnil
      rw [hnil] at hfresh
      cases hfresh
    · rename_i hne
      rw [productive, List.append_nil]
      exact List.contains_iff_mem.mpr hfresh
  rw [checkProductive]
  generalize productive (ops.length + 2) (draft ops).productions.toList
    (draft ops).nonTerminals.size [] = known at hknown ⊢
  have hfind : (List.range (draft ops).nonTerminals.size).find? (fun i => !known.contains i) =
      none := by
    change [0].find? _ = none
    rw [List.find?_cons, hknown]
    rfl
  rw [hfind]

theorem checkCount_eq {v : Vocabulary} (hv : Complete ops atom v) :
    checkCount (source name ops atom v) ⟨#[⟨"expr", true, none⟩], #[], .empty, []⟩ =
      if 65535 ≤ ops.length + 3 then .error (.tooManySymbols (ops.length + 3)) else .ok () := by
  have hcount : (source name ops atom v).terminalCount = ops.length + 2 := size_terminals hv
  rw [checkCount, hcount]
  rfl

section

variable (name) (hdistinct : Distinct ops atom)
include hdistinct

/-- **The prepared grammar of operators.** It has a production for each operator and one for
atoms. -/
theorem prepare_ofOperators (hcount : ops.length + 3 < 65535) :
    (Grammar.ofOperators name ops atom.rule).prepare = .ok (prepared name ops atom) := by
  obtain ⟨v, hv, hterminals⟩ := terminals_ofOperators name hdistinct
  rw [if_neg (by omega)] at hterminals
  rw [Grammar.prepare, checkNames_ofOperators]
  change ((Grammar.ofOperators name ops atom.rule).terminals _ >>= _) = _
  rw [hterminals, phraseRules_ofOperators]
  change (checkCount (source name ops atom v) ⟨#[⟨"expr", true, none⟩], #[], .empty, []⟩ >>= _) = _
  rw [checkCount_eq hv, if_neg (by omega)]
  change (addRules (source name ops atom v) ⟨#[⟨"expr", true, none⟩], #[], .empty, []⟩
      [(0, .choice (ops.map Operator.rule ++ [.reference "atom"]))] >>= _) = _
  rw [addRules_ofOperators hv hdistinct]
  change (checkProductive v.terminals.size (draft ops) >>= _) = _
  rw [size_terminals hv, checkProductive_draft, prepared, ← hv.terminals]
  rfl

/-- Too many operators are refused. -/
theorem prepare_eq_error (hcount : 65535 ≤ ops.length + 3) :
    ∃ count, (Grammar.ofOperators name ops atom.rule).prepare = .error (.tooManySymbols count) := by
  obtain ⟨v, hv, hterminals⟩ := terminals_ofOperators name hdistinct
  rw [Grammar.prepare, checkNames_ofOperators]
  change ∃ count, ((Grammar.ofOperators name ops atom.rule).terminals _ >>= _) = _
  rw [hterminals]
  split
  · exact ⟨_, rfl⟩
  · refine ⟨ops.length + 3, ?_⟩
    rw [phraseRules_ofOperators]
    change (checkCount (source name ops atom v) ⟨#[⟨"expr", true, none⟩], #[], .empty, []⟩ >>= _) = _
    rw [checkCount_eq hv, if_pos hcount]
    rfl

end

end LRWorkbench.Operators
