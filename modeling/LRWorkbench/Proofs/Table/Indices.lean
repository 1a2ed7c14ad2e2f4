import LRWorkbench.Proofs.Grammar.Compile
import LRWorkbench.Proofs.Prepared.WellFormed
import LRWorkbench.Proofs.Table.File

/-!
# Which indices of a table lead somewhere

Parts are made into a table just if their sizes fit (`TableParts.LaidOut`) and the indices in actions,
gotos, productions and patterns lead somewhere (`TableParts.InRange`): `ParseTable.exists_ofParts_iff`.
The other symbols that the lexer has, in its keywords, as its word and as its extras, are not looked at:
there is a table in which none of them is a terminal (`ParseTable.ofParts_loose`). Tables of grammars are
not like that (`Grammar.inRange_of_compile`).
-/

namespace LRWorkbench

namespace TableParts

variable {t : TableParts}

/-! ### What the check means -/

/-- The kind of the symbols at a place. -/
def kindAt (t : TableParts) (place : Nat) : SymbolKind :=
  if t.terminalCount ≤ place then .nonTerminal
  else if t.isExternalPlace place then .external
  else .terminal

/-- Whether a symbol is one of the phrase kinds. -/
def IsPhrase (t : TableParts) (s : Symbol) : Prop :=
  t.terminalCount ≤ s.index ∧ s.index < t.symbols.size

/-- Whether patterns can be there for a symbol: it is a terminal, but neither the end of the input nor
external. -/
def IsLexical (t : TableParts) (s : Symbol) : Prop :=
  t.externalCount < s.index ∧ s.index < t.terminalCount

/-- Whether there is something of everything, each symbol has the kind of its place, and the rows have as
many columns as there are symbols for them. -/
structure LaidOut (t : TableParts) : Prop where
  terminalCount_pos : 0 < t.terminalCount
  terminalCount_lt : t.terminalCount < t.symbols.size
  externalCount_lt : t.externalCount < t.terminalCount
  stateCount_pos : 0 < t.stateCount
  kind : ∀ place info, t.symbols[place]? = some info → info.kind = t.kindAt place
  size_actions : t.actions.size = t.stateCount * t.terminalCount
  size_gotos : t.gotos.size = t.stateCount * t.nonTerminalCount

/-- Whether the indices in actions, gotos, productions and patterns lead somewhere. -/
structure InRange (t : TableParts) : Prop where
  shift : ∀ state, .shift state ∈ t.actions → state < t.stateCount
  reduce : ∀ production, .reduce production ∈ t.actions → production < t.productions.size
  goto : ∀ state, some state ∈ t.gotos → state < t.stateCount
  lhs : ∀ p ∈ t.productions, t.IsPhrase p.lhs
  field : ∀ p ∈ t.productions, ∀ f, some f ∈ p.fields → f.index < t.fieldNames.length
  pattern : ∀ s ∈ t.lex.patternSymbols, t.IsLexical s

/-- Whether the other symbols that the lexer has are terminals. -/
structure NamesTerminals (t : TableParts) : Prop where
  keyword : ∀ k ∈ t.lex.keywords, k.2.index < t.terminalCount
  keywordSet : t.lex.keywordSet.Below t.terminalCount
  word : ∀ s, t.lex.word = some s → s.index < t.terminalCount
  extras : t.lex.extras.Below t.terminalCount

theorem symbolFault?_eq_none (h : t.externalCount < t.terminalCount) {place : Nat} {info : SymbolInfo} :
    t.symbolFault? place info = none ↔ info.kind = t.kindAt place := by
  have hexternal : t.isExternalPlace place = true → place < t.terminalCount := by
    rw [isExternalPlace, Bool.and_eq_true, decide_eq_true_eq, decide_eq_true_eq]
    omega
  rw [symbolFault?, kindAt]
  rcases Nat.lt_or_ge place t.terminalCount with hterminal | hphrase
  · rw [if_neg (Nat.not_le.mpr hterminal)]
    cases hkind : info.kind <;> cases hplace : t.isExternalPlace place <;> simp [hterminal]
  · have hplace : t.isExternalPlace place = false :=
      Bool.eq_false_iff.mpr fun hplace => Nat.not_lt.mpr hphrase (hexternal hplace)
    rw [if_pos hphrase]
    cases hkind : info.kind <;> simp [hplace, Nat.not_lt.mpr hphrase]

theorem actionFault?_eq_none {a : Action} : t.actionFault? a = none ↔
    (∀ state, a = .shift state → state < t.stateCount) ∧
      ∀ production, a = .reduce production → production < t.productions.size := by
  cases a <;> simp [actionFault?]

theorem gotoFault?_eq_none {target? : Option Nat} : t.gotoFault? target? = none ↔
    ∀ state, target? = some state → state < t.stateCount := by
  cases target? <;> simp [gotoFault?]

theorem productionFault?_eq_none {p : TableProduction} : t.productionFault? p = none ↔
    t.IsPhrase p.lhs ∧ ∀ f, some f ∈ p.fields → f.index < t.fieldNames.length := by
  rw [productionFault?, IsPhrase]
  split
  case isTrue hlhs =>
    simp only [Bool.or_eq_true, decide_eq_true_eq] at hlhs
    refine iff_of_false (Option.some_ne_none _) fun hgood => ?_
    omega
  case isFalse hlhs =>
    simp only [Bool.or_eq_true, decide_eq_true_eq, not_or, Nat.not_lt, Nat.not_le] at hlhs
    rw [and_iff_right hlhs]
    split
    case isTrue hfield =>
      obtain ⟨_ | f, hf, hlength⟩ := List.any_eq_true.mp hfield
      · cases hlength
      · exact iff_of_false (Option.some_ne_none _) fun hgood =>
          Nat.not_lt.mpr (of_decide_eq_true hlength) (hgood f hf)
    case isFalse hfield =>
      refine iff_of_true rfl fun f hf => Nat.not_le.mp fun hlength => ?_
      exact hfield (List.any_eq_true.mpr ⟨some f, hf, decide_eq_true hlength⟩)

theorem patternFault?_eq_none {s : Symbol} : t.patternFault? s = none ↔ t.IsLexical s := by
  rw [patternFault?, IsLexical]
  split
  case isTrue hs =>
    rw [Bool.or_eq_true, decide_eq_true_eq, decide_eq_true_eq] at hs
    exact iff_of_false (Option.some_ne_none _) (by omega)
  case isFalse hs =>
    rw [Bool.or_eq_true, decide_eq_true_eq, decide_eq_true_eq] at hs
    exact iff_of_true rfl (by omega)

/-- A check that is passed leaves the others. -/
theorem ite_fault_eq_none {c : Prop} [Decidable c] {fault : Inconsistency}
    {rest : Option Inconsistency} : (if c then some fault else rest) = none ↔ ¬ c ∧ rest = none := by
  split <;> simp [*]

theorem fault?_eq_none {patternCount : Nat} : t.fault? patternCount = none ↔
    t.LaidOut ∧ t.InRange ∧ patternCount = t.lex.patternSymbols.length := by
  have hmem {place : Nat} {info : SymbolInfo} :
      (info, place) ∈ t.symbols.toList.zipIdx ↔ t.symbols[place]? = some info := by
    rw [List.mem_zipIdx_iff_getElem?, Array.getElem?_toList]
  simp only [fault?, ite_fault_eq_none, Option.or_eq_none_iff, List.findSome?_eq_none_iff,
    Array.mem_toList_iff, actionFault?_eq_none, gotoFault?_eq_none, productionFault?_eq_none,
    patternFault?_eq_none, Bool.or_eq_true, decide_eq_true_eq, not_or, Nat.not_le, ne_eq, not_not]
  constructor
  · rintro ⟨⟨hterminals, hsymbols⟩, hexternals, hstates, hkinds, hactions, hgotos, haction, hgoto,
      hproduction, hcount, hpattern⟩
    refine ⟨⟨Nat.pos_of_ne_zero hterminals, hsymbols, hexternals, Nat.pos_of_ne_zero hstates, ?_,
      hactions, hgotos⟩, ⟨?_, ?_, ?_, ?_, ?_, hpattern⟩, hcount⟩
    · exact fun place info hinfo =>
        (symbolFault?_eq_none hexternals).mp (hkinds (info, place) (hmem.mpr hinfo))
    · exact fun state hstate => (haction _ hstate).1 state rfl
    · exact fun production hproduction => (haction _ hproduction).2 production rfl
    · exact fun state hstate => hgoto _ hstate state rfl
    · exact fun p hp => (hproduction p hp).1
    · exact fun p hp => (hproduction p hp).2
  · rintro ⟨hlaid, hrange, hcount⟩
    refine ⟨⟨Nat.ne_of_gt hlaid.terminalCount_pos, hlaid.terminalCount_lt⟩, hlaid.externalCount_lt,
      Nat.ne_of_gt hlaid.stateCount_pos, ?_, hlaid.size_actions, hlaid.size_gotos, ?_, ?_, ?_, hcount,
      hrange.pattern⟩
    · exact fun entry hentry => (symbolFault?_eq_none hlaid.externalCount_lt).mpr
        (hlaid.kind entry.2 entry.1 (hmem.mp hentry))
    · exact fun a ha => ⟨fun state heq => hrange.shift state (heq ▸ ha),
        fun production heq => hrange.reduce production (heq ▸ ha)⟩
    · exact fun target? htarget state heq => hrange.goto state (heq ▸ htarget)
    · exact fun p hp => ⟨hrange.lhs p hp, hrange.field p hp⟩

end TableParts

namespace ParseTable

/-- **Which parts make a table.** Sizes, kinds and indices are checked, but of the lexer's part only the
patterns are. -/
theorem exists_ofParts_iff {A : Type} [ByteAutomaton A] (parts : TableParts) (patterns : A) :
    (∃ t, ofParts parts patterns = .ok t) ↔ parts.LaidOut ∧ parts.InRange ∧
      ByteAutomaton.patternCount patterns = parts.lex.patternSymbols.length := by
  rw [← TableParts.fault?_eq_none, ofParts]
  split
  case h_1 fault hfault =>
    refine iff_of_false ?_ (hfault ▸ Option.some_ne_none _)
    rintro ⟨t, ⟨⟩⟩
  case h_2 hnone => exact iff_of_true ⟨_, rfl⟩ hnone

/-- Parts whose keyword, keyword set, word and extras are symbols that are not there. -/
def looseParts : TableParts :=
  { linesParts with
    lex := ⟨[⟨2⟩, ⟨3⟩], #[0, 0, -300, 2], [("if", ⟨9⟩)], ⟨[128]⟩, some ⟨8⟩, ⟨[64]⟩⟩ }

/-- They make a table all the same. -/
theorem ofParts_loose :
    (∃ patterns t, PatternSet.ofSources? ["[a-z]+", "if"] = some patterns ∧
      ofParts looseParts patterns = .ok t) ∧
    (∃ k ∈ looseParts.lex.keywords, looseParts.symbols.size ≤ k.2.index) ∧
    (∃ s, looseParts.lex.isKeyword s = true ∧ looseParts.symbols.size ≤ s.index) ∧
    (∃ s, looseParts.lex.word = some s ∧ looseParts.symbols.size ≤ s.index) ∧
    ∃ s, looseParts.lex.isExtra s = true ∧ looseParts.symbols.size ≤ s.index := by
  refine ⟨?_, ⟨("if", ⟨9⟩), by decide⟩, ⟨⟨7⟩, by decide⟩, ⟨⟨8⟩, by decide⟩, ⟨6⟩, by decide⟩
  have hmade : ((PatternSet.ofSources? ["[a-z]+", "if"]).bind fun patterns =>
      (ofParts looseParts patterns).toOption).isSome = true := by decide +kernel
  obtain ⟨t, ht⟩ := Option.isSome_iff_exists.mp hmade
  obtain ⟨patterns, hpatterns, ht⟩ := Option.bind_eq_some_iff.mp ht
  exact ⟨patterns, t, hpatterns, eq_ok_of_toOption ht⟩

end ParseTable

/-! ### Tables of grammars -/

namespace PreparedGrammar

variable {g : PreparedGrammar}

/-- Sets of terminals of a grammar have nothing else in them. -/
theorem below_terminalSet {symbols : List Symbol} (h : ∀ s ∈ symbols, s.index < g.terminalCount) :
    (g.terminalSet symbols).Below g.terminalCount :=
  fun s hs => h s (contains_terminalSet.mp hs)

/-- Keywords are terminals. -/
theorem lt_of_keywordList {keywords : List (String × Symbol)} (h : g.keywordList = .ok keywords) :
    ∀ k ∈ keywords, k.2.index < g.terminalCount := by
  intro k hk
  obtain ⟨word, -, hliteral⟩ := mem_literals_of_keywordList h hk
  obtain ⟨-, terminal, hterminal, -⟩ := mem_literals_iff.mp hliteral
  exact (Array.getElem?_eq_some_iff.mp hterminal).choose

/-- What the lexer gets of a grammar are terminals. -/
theorem namesTerminals_of_lexSpec {lex : LexSpec} {patterns : PatternSet} (rows : Lalr.Rows)
    (hextras : ∀ s ∈ g.extras, s.index < g.terminalCount)
    (hword : ∀ s, g.word = some s → s.index < g.terminalCount)
    (hlex : g.lexSpec = .ok (lex, patterns)) : (g.tableParts rows lex).NamesTerminals := by
  obtain ⟨-, keywords, hkeywords, rfl⟩ := lexSpec_eq_ok.mp hlex
  have hkeyword := lt_of_keywordList hkeywords
  refine ⟨fun k hk => hkeyword k (Keywords.mem_of_mem_ofList hk), below_terminalSet fun s hs => ?_,
    hword, below_terminalSet hextras⟩
  obtain ⟨k, hk, rfl⟩ := List.mem_map.mp hs
  exact hkeyword k hk

end PreparedGrammar

/-- **All indices in the table of a grammar lead somewhere**, those that are not checked too. -/
theorem Grammar.inRange_of_compile {g : Grammar} {t : ParseTable} (h : g.compile = .ok t) :
    t.parts.InRange ∧ t.parts.NamesTerminals := by
  obtain ⟨prepared, hprepare, hcompiles⟩ := exists_prepared h
  obtain ⟨rows, lex, patterns, -, hlex, hparts⟩ := hcompiles.parts_eq
  obtain ⟨hextras, hword⟩ := terminals_of_prepare hprepare
  refine ⟨(TableParts.fault?_eq_none.mp t.consistent).2.1, ?_⟩
  rw [hparts]
  exact prepared.namesTerminals_of_lexSpec rows hextras hword hlex

end LRWorkbench
