import LRWorkbench.Proofs.Grammar.Emit
import LRWorkbench.Proofs.Prepared.Reached
import LRWorkbench.Proofs.Table.Indices

/-!
# Prepared grammars make tables that pass the check

The symbols of a prepared grammar stand in the order that tables are checked for
(`Grammar.ordered_of_prepare`): terminals are numbered in sections, which every way to add a terminal
keeps (`Vocabulary.keeps_sectioned`), and flattening keeps to the phrase kinds and fields that there
are. So once its rows are made and its patterns are read, nothing but a production that is too long
stands in the way of a table (`Grammar.emits_of_prepare`). What the lexer finds by other means than
patterns are tokens of the table, external or not, and never the end of the input.
-/

namespace LRWorkbench

/-! ### Sections -/

namespace Vocabulary

variable {g : Grammar} {defined : TokenDefinitions} {v v' : Vocabulary} {n : Nat}

/-- Whether the external tokens are the `n` terminals behind the first one. -/
structure Sectioned (v : Vocabulary) (n : Nat) : Prop where
  external : ∀ place t, v.terminals[place]? = some t →
    (t.kind = .external ↔ 1 ≤ place ∧ place ≤ n)
  lt_size : n < v.terminals.size

theorem sectioned_initial (externals : List String) :
    (initial externals).Sectioned externals.length where
  external := by
    intro place t ht
    rw [initial, List.getElem?_toArray] at ht
    cases place with
    | zero =>
      obtain rfl := Option.some.inj ht
      simp
    | succ place =>
      rw [List.getElem?_cons_succ, List.getElem?_map] at ht
      obtain ⟨name, hname, rfl⟩ := Option.map_eq_some_iff.mp ht
      have hlt := (List.getElem?_eq_some_iff.mp hname).choose
      exact iff_of_true rfl ⟨Nat.succ_pos place, hlt⟩
  lt_size := by simp [initial]

/-- Terminals of a pattern are added behind the external ones. -/
theorem Sectioned.push (h : v.Sectioned n) (name : String) (regex : String) (precedence : Int)
    (literal : Option String) (isNamed : Bool) :
    (v.push ⟨name, .lexical regex precedence literal, isNamed⟩).Sectioned n where
  external := by
    have hsize := h.lt_size
    intro place t ht
    rw [Vocabulary.push, Array.getElem?_push] at ht
    split at ht
    case isTrue heq =>
      obtain rfl := Option.some.inj ht
      exact iff_of_false (fun hkind => by cases hkind) (by omega)
    case isFalse => exact h.external place t ht
  lt_size := by
    rw [Vocabulary.push, Array.size_push]
    exact Nat.lt_succ_of_lt h.lt_size

theorem keeps_sectioned : Keeps g defined (·.Sectioned n) := by
  intro v v' m hv hadds
  cases hadds with
  | known | undefined | found => exact hv
  | rule | text | pattern => exact ⟨(hv.push ..).external, (hv.push ..).lt_size⟩

end Vocabulary

namespace Grammar

variable {g : Grammar} {prepared : PreparedGrammar}

/-- **The symbols of a prepared grammar stand in order.** -/
theorem ordered_of_prepare (h : g.prepare = .ok prepared) : prepared.Ordered := by
  have hwell := wellFormed_of_prepare h
  have hlhs := lhs_lt_of_prepare h
  have hfits := (fits_of_prepare h).2
  obtain ⟨terminals, d, groups, hmade⟩ := prepare_eq_ok.mp h
  obtain ⟨-, -, hkeeps⟩ := keeps_terminals hmade.numbered
  have hsections := hkeeps _ Vocabulary.keeps_sectioned (Vocabulary.sectioned_initial g.externals)
  have hgrows := (grows_of_kindedRules hmade.flattened).size_le
  rw [size_phraseKinds] at hgrows
  have hstart := (List.getElem?_eq_some_iff.mp (getElem?_phraseRules_zero hmade.named)).choose
  obtain rfl := hmade.eq
  exact {
    first := hwell.first
    external := hsections.external
    externals := hsections.lt_size
    phrases := Nat.lt_of_lt_of_le hstart hgrows
    lhs := hlhs
    fields := fun p hp step hstep => (hfits p hp step hstep).2.2 }

end Grammar

/-! ### Tokens of the lexer -/

namespace TableParts

/-- Whether a symbol is a token that a text may hold: one found by a pattern or by the scanner, but not
the end of the input. -/
def IsToken (t : TableParts) (s : Symbol) : Prop :=
  s ≠ .endOfInput ∧
    ∃ info, t.symbols[s.index]? = some info ∧ (info.kind = .terminal ∨ info.kind = .external)

/-- Whether all symbols that the lexer has besides those of its patterns are such tokens. -/
structure NamesTokens (t : TableParts) : Prop where
  keyword : ∀ k ∈ t.lex.keywords, t.IsToken k.2
  keywordSet : ∀ s, t.lex.isKeyword s = true → t.IsToken s
  word : ∀ s, t.lex.word = some s → t.IsToken s
  extras : ∀ s, t.lex.isExtra s = true → t.IsToken s

end TableParts

namespace PreparedGrammar

variable {g : PreparedGrammar} {lex : LexSpec} {patterns : PatternSet} {s : Symbol}

/-- The terminals of a grammar, apart from the end of the input, are tokens of its table. -/
theorem isToken_tableParts (rows : Lalr.Rows) (lex : LexSpec) (hne : s ≠ .endOfInput)
    (hlt : s.index < g.terminalCount) : (g.tableParts rows lex).IsToken s := by
  refine ⟨hne, terminalInfo g.terminals[s.index], ?_, ?_⟩
  · have hsize : s.index < (g.terminals.map terminalInfo).size := by rwa [Array.size_map]
    rw [tableParts, Array.getElem?_append_left hsize, Array.getElem?_map,
      Array.getElem?_eq_getElem hlt, Option.map_some]
  · rw [terminalInfo]
    dsimp only
    split
    · exact .inr rfl
    · exact .inl rfl

/-- What the lexer gets of a grammar are tokens. -/
theorem WellFormed.namesTokens (h : g.WellFormed) (rows : Lalr.Rows)
    (hlex : g.lexSpec = .ok (lex, patterns))
    (hextras : ∀ s ∈ g.extras, (g.tableParts rows lex).IsToken s)
    (hword : ∀ s, g.word = some s → (g.tableParts rows lex).IsToken s) :
    (g.tableParts rows lex).NamesTokens := by
  obtain ⟨-, keywords, hkeywords, rfl⟩ := lexSpec_eq_ok.mp hlex
  have hkeyword : ∀ lex, ∀ k ∈ keywords, (g.tableParts rows lex).IsToken k.2 := by
    intro lex k hk
    obtain ⟨word, -, hliteral⟩ := mem_literals_of_keywordList hkeywords hk
    exact isToken_tableParts rows lex (h.literal_ne_end hliteral) (lt_of_keywordList hkeywords k hk)
  exact {
    keyword := fun k hk => hkeyword _ k (Keywords.mem_of_mem_ofList hk)
    keywordSet := by
      intro s hs
      obtain ⟨k, hk, rfl⟩ := List.mem_map.mp (contains_terminalSet.mp hs)
      exact hkeyword _ k hk
    word := hword
    extras := fun s hs => hextras s (contains_terminalSet.mp hs) }

/-- Productions that are all short enough pass the check of their lengths. -/
theorem checkLengths_eq_ok (h : ∀ p ∈ g.productions, p.steps.length ≤ 65535) :
    g.checkLengths = .ok () := by
  rw [checkLengths, Array.findIdx?_eq_none_iff.mpr fun p hp =>
    decide_eq_false (Nat.not_lt.mpr (h p hp))]

end PreparedGrammar

/-- **Prepared grammars have tables**: once the rows are made and the patterns read, no check refuses
them, unless a production is too long. All that the lexer has besides patterns are tokens. -/
theorem Grammar.emits_of_prepare {g : Grammar} {prepared : PreparedGrammar} {rows : Lalr.Rows}
    {lex : LexSpec} {patterns : PatternSet} (hprepare : g.prepare = .ok prepared)
    (hrows : prepared.automaton.rows = .ok rows) (hlex : prepared.lexSpec = .ok (lex, patterns))
    (hlengths : ∀ p ∈ prepared.productions, p.steps.length ≤ 65535) :
    ∃ t, prepared.emit rows = .ok t ∧ t.parts = prepared.tableParts rows lex ∧
      t.patterns = patterns ∧ t.parts.NamesTokens := by
  have hchecked := PreparedGrammar.checkLengths_eq_ok hlengths
  obtain ⟨t, ht⟩ := (ordered_of_prepare hprepare).exists_emit hrows hlex hchecked
  obtain ⟨lex', patterns', hlex', hparts, hpatterns⟩ := PreparedGrammar.exists_of_emit ht
  obtain ⟨rfl, rfl⟩ := Prod.mk.inj (Except.ok.inj (hlex.symm.trans hlex'))
  refine ⟨t, ht, hparts, hpatterns, hparts ▸ ?_⟩
  obtain ⟨terminals, d, groups, hmade⟩ := prepare_eq_ok.mp hprepare
  obtain ⟨hextras, hword⟩ := hasToken_of_terminals hmade.numbered
  have hwell := wellFormed_of_prepare hprepare
  obtain rfl := hmade.eq
  exact hwell.namesTokens rows hlex
    (fun s hs => PreparedGrammar.isToken_tableParts rows lex (hextras s hs).1 (hextras s hs).2)
    fun s hs => PreparedGrammar.isToken_tableParts rows lex (hword s hs).1 (hword s hs).2

/-- Settings with values that a scanner finds, as it does the remarks between them. -/
def settings : Grammar where
  name := "settings"
  rules := [
    ("file", .zeroOrMore (.reference "setting")),
    ("setting", .seq [.literal "let", .field "key" (.reference "name"), .reference "value"]),
    ("name", .pattern "[a-z]+" none)]
  extras := [.literal " ", .reference "remark"]
  conflicts := []
  externals := ["value", "remark"]
  word := some "name"

/-- The table of settings has a keyword, a word and an extra that the scanner finds. -/
theorem Grammar.emits_settings : ∃ prepared rows lex patterns, settings.prepare = .ok prepared ∧
    prepared.automaton.rows = .ok rows ∧ prepared.lexSpec = .ok (lex, patterns) ∧
    (∀ p ∈ prepared.productions, p.steps.length ≤ 65535) ∧
    lex.keywords = [("let", ⟨3⟩)] ∧ lex.word = some ⟨4⟩ ∧ lex.isExtra ⟨2⟩ = true ∧
    ∃ t, prepared.emit rows = .ok t ∧ t.parts = prepared.tableParts rows lex ∧
      t.patterns = patterns ∧ t.parts.NamesTokens := by
  have hrun : settings.prepare.toOption.any (fun prepared =>
      prepared.automaton.rows.toOption.any fun _ => prepared.lexSpec.toOption.any fun spec =>
        prepared.productions.all (fun p => decide (p.steps.length ≤ 65535)) &&
          decide (spec.1.keywords = [("let", ⟨3⟩)] ∧ spec.1.word = some ⟨4⟩ ∧
            spec.1.isExtra ⟨2⟩ = true)) = true := by
    decide +kernel
  obtain ⟨prepared, hprepare, hrun⟩ := (Option.any_eq_true ..).mp hrun
  obtain ⟨rows, hrows, hrun⟩ := (Option.any_eq_true ..).mp hrun
  obtain ⟨⟨lex, patterns⟩, hlex, hrun⟩ := (Option.any_eq_true ..).mp hrun
  obtain ⟨hlengths, hspec⟩ := Bool.and_eq_true_iff.mp hrun
  obtain ⟨hkeywords, hword, hextra⟩ := of_decide_eq_true hspec
  have hlengths : ∀ p ∈ prepared.productions, p.steps.length ≤ 65535 := fun p hp =>
    of_decide_eq_true (Array.all_eq_true_iff_forall_mem.mp hlengths p hp)
  have hprepare := eq_ok_of_toOption hprepare
  have hrows := eq_ok_of_toOption hrows
  have hlex := eq_ok_of_toOption hlex
  exact ⟨prepared, rows, lex, patterns, hprepare, hrows, hlex, hlengths, hkeywords, hword, hextra,
    emits_of_prepare hprepare hrows hlex hlengths⟩

end LRWorkbench
