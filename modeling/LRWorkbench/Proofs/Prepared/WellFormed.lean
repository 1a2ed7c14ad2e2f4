import LRWorkbench.Grammar.Compile
import LRWorkbench.Proofs.Prepared.Draft
import LRWorkbench.Proofs.Prepared.Vocabulary
import LRWorkbench.Proofs.Table.TerminalSet

/-!
# Prepared grammars are well-formed

The end of the input is the first terminal of a prepared grammar and no step of a production, and
there are few enough symbols that none of them is the one of error nodes
(`Grammar.wellFormed_of_prepare`). Every way to add a terminal or to flatten a rule keeps it so.

The extras of a grammar and its word are looked up while its terminals are numbered. Terminals stay
once they are there, so extras and word are terminals of the prepared grammar
(`Grammar.terminals_of_prepare`).
-/

namespace LRWorkbench

/-! ### Terminals -/

namespace Vocabulary

/-- Whether a symbol is a terminal that tokens can have. -/
def HasToken (v : Vocabulary) (s : Symbol) : Prop := s ≠ .endOfInput ∧ s.index < v.terminals.size

/-- Whether terminals are numbered as they should be: the end of the input comes first, `n`
external tokens have terminals, and so have the token rules that were given one. -/
structure Numbered (v : Vocabulary) (n : Nat) : Prop where
  first : v.terminals[0]?.map (·.kind) = some .endOfInput
  external : n < v.terminals.size
  indexed : ∀ definition s, v.index.find? definition = some s → v.HasToken s
  named : ∀ entry ∈ v.named, v.HasToken entry.2

variable {g : Grammar} {defined : TokenDefinitions} {v v' : Vocabulary} {n : Nat} {owner : String}

/-- There is the end of the input at least. -/
theorem Numbered.size_pos (h : v.Numbered n) : 0 < v.terminals.size := Nat.zero_lt_of_lt h.external

/-- At first there are the end of the input and the external tokens. -/
theorem numbered_initial (externals : List String) :
    (initial externals).Numbered externals.length where
  first := by simp [initial]
  external := by simp [initial]
  indexed := fun _ _ h => by cases h
  named := fun _ h => absurd h List.not_mem_nil

/-- Terminals stay when one is added. -/
theorem HasToken.push {s : Symbol} (h : v.HasToken s) (t : Terminal) : (v.push t).HasToken s := by
  refine ⟨h.1, ?_⟩
  rw [Vocabulary.push, Array.size_push]
  exact Nat.lt_succ_of_lt h.2

/-- What is added is a terminal that tokens can have. -/
theorem Numbered.hasToken_nextSymbol (h : v.Numbered n) (t : Terminal) :
    (v.push t).HasToken v.nextSymbol := by
  refine ⟨fun heq => Nat.ne_of_gt h.size_pos (congrArg Symbol.index heq), ?_⟩
  simp [nextSymbol, Vocabulary.push]

/-- A terminal may be added, and be given to a token rule. -/
theorem Numbered.push (h : v.Numbered n) (t : Terminal) {named : List (Nat × Symbol)}
    {counters : List (String × Nat)}
    (hnamed : ∀ entry ∈ named, entry ∈ v.named ∨ entry.2 = v.nextSymbol) :
    Numbered { v.push t with named := named, counters := counters } n where
  first := by
    dsimp only [Vocabulary.push]
    rw [Array.getElem?_push_lt h.size_pos, ← Array.getElem?_eq_getElem]
    exact h.first
  external := by
    dsimp only [Vocabulary.push]
    rw [Array.size_push]
    exact Nat.lt_succ_of_lt h.external
  indexed := by
    intro other s hs
    dsimp only [Vocabulary.push] at hs
    split at hs
    · rename_i definition _
      by_cases heq : other = definition
      · rw [heq, TerminalIndex.find?_insert_self] at hs
        rcases Option.or_eq_some_iff.mp hs with hs | ⟨-, hs⟩
        · exact (h.indexed _ _ hs).push t
        · rw [← Option.some.inj hs]
          exact h.hasToken_nextSymbol t
      · rw [TerminalIndex.find?_insert_of_ne heq] at hs
        exact (h.indexed _ _ hs).push t
    · exact (h.indexed _ _ hs).push t
  named := by
    intro entry hentry
    rcases hnamed entry hentry with hentry | hentry
    · exact (h.named entry hentry).push t
    · rw [hentry]
      exact h.hasToken_nextSymbol t

/-- Whatever is mentioned, terminals stay numbered as they should be. -/
theorem keeps_numbered : Keeps g defined (·.Numbered n) := by
  intro v v' m hv hadds
  cases hadds with
  | known | undefined | found => exact hv
  | text | pattern => exact hv.push _ fun _ hentry => .inl hentry
  | rule =>
    refine hv.push _ fun entry hentry => ?_
    refine (List.mem_append.mp hentry).imp_right fun hlast => ?_
    rw [List.mem_singleton.mp hlast]

/-- What a definition is found as is a terminal of tokens. -/
theorem Numbered.hasToken_of_definedAs? (h : v.Numbered n) {definition : String × Int} {s : Symbol}
    (hs : v.definedAs? definition = some s) : v.HasToken s := h.indexed definition s hs

/-- So is the terminal of a token rule. -/
theorem Numbered.hasToken_of_terminalOf? (h : v.Numbered n) {index : Nat} {s : Symbol}
    (hs : v.terminalOf? index = some s) : v.HasToken s := by
  obtain ⟨front, back, hnamed, -⟩ := List.lookup_eq_some_iff.mp hs
  exact h.named (index, s) (hnamed ▸ List.mem_append_right _ (List.mem_cons_self ..))

/-- So is that of a token in a phrase. -/
theorem Numbered.hasToken_of_inlineTerminal? (h : v.Numbered n) {r : Rule} {s : Symbol}
    (hs : inlineTerminal? g defined v r = some s) : v.HasToken s := by
  have hdefined : ∀ {s : Symbol}, (r.tokenPattern "").toOption.bind v.definedAs? = some s →
      v.HasToken s := by
    intro s hs
    obtain ⟨definition, -, hs⟩ := Option.bind_eq_some_iff.mp hs
    exact h.hasToken_of_definedAs? hs
  unfold inlineTerminal? at hs
  split at hs
  · split at hs
    · exact h.hasToken_of_terminalOf? hs
    · exact hdefined hs
  · exact hdefined hs

end Vocabulary

namespace Grammar

/-- The terminals of a grammar begin with the end of the input, and there are not too many. -/
theorem numbered_of_terminals {g : Grammar} {used : List Nat} {t : Terminals}
    (h : g.terminals used = .ok t) :
    t.vocabulary.Numbered g.externals.length ∧ t.vocabulary.terminals.size < 65535 := by
  obtain ⟨-, hcount, hkeeps⟩ := keeps_terminals h
  exact ⟨hkeeps _ Vocabulary.keeps_numbered (Vocabulary.numbered_initial _), hcount⟩

end Grammar

/-! ### Productions -/

namespace Flatten

open Draft

variable {s : Source} {kinds fields owner : Nat} {ctx : Context} {d d' : Draft}

/-- Whether a step is a terminal other than the end of the input or one of the first phrase kinds,
and its field one of the first fields. -/
structure StepFits (s : Source) (kinds fields : Nat) (step : Step) : Prop where
  ne_end : step.symbol ≠ .endOfInput
  symbol_lt : step.symbol.index < s.terminalCount + kinds
  field_lt : ∀ f, step.field = some f → f.index < fields

/-- Whether the steps of an alternative are such. -/
def Alternative.Fits (s : Source) (kinds fields : Nat) (a : Alternative) : Prop :=
  ∀ step ∈ a.steps, StepFits s kinds fields step

/-- Whether the field that is written around a part of a rule is one of the first fields. -/
def Context.Fits (fields : Nat) (ctx : Context) : Prop := ∀ f, ctx.field = some f → f.index < fields

/-- Whether a draft has few enough symbols and productions of such steps. -/
structure Draft.Fits (s : Source) (kinds fields : Nat) (d : Draft) : Prop where
  count : s.terminalCount + d.nonTerminals.size < 65535
  steps : ∀ p ∈ d.productions, ∀ step ∈ p.steps, StepFits s kinds fields step

theorem Alternative.fits_nothing (ctx : Context) : (Alternative.nothing ctx).Fits s kinds fields :=
  fun _ h => absurd h List.not_mem_nil

theorem Alternative.fits_single {step : Step} (h : StepFits s kinds fields step) :
    (Alternative.single step).Fits s kinds fields := by
  intro other hother
  rw [List.mem_singleton.mp hother]
  exact h

/-- Alternatives put together have the steps of both. -/
theorem Alternative.Fits.append {a b : Alternative} (ha : a.Fits s kinds fields)
    (hb : b.Fits s kinds fields) : (a.append b).Fits s kinds fields := by
  intro step hstep
  have hmem : step ∈ a.steps ++ b.steps := by
    rw [Alternative.append] at hstep
    split at hstep <;> exact hstep
  rcases List.mem_append.mp hmem with h | h
  · exact ha step h
  · exact hb step h

/-- The productions of a rule have the steps of its alternatives. -/
theorem Draft.Fits.foldl_addProduction (h : d.Fits s kinds fields) (lhs : Nat)
    {members : List Alternative} (hmembers : ∀ a ∈ members, a.Fits s kinds fields) :
    (members.foldl (fun d a => d.addProduction lhs a) d).Fits s kinds fields where
  count := by
    rw [(foldl_addProduction_eq d lhs members).1]
    exact h.count
  steps := by
    intro p hp
    rcases mem_foldl_addProduction.mp hp with hp | ⟨a, ha, rfl⟩
    · exact h.steps p hp
    · exact hmembers a ha

/-- Those of a helper have the step of the helper too. -/
theorem Draft.Fits.addRepetitions (h : d.Fits s kinds fields) (helper : Nat) {again : Alternative}
    (hagain : again.Fits s kinds fields) {members : List Alternative}
    (hmembers : ∀ a ∈ members, a.Fits s kinds fields) :
    (d.addRepetitions helper again members).Fits s kinds fields where
  count := by
    rw [(addRepetitions_eq d helper again members).1]
    exact h.count
  steps := by
    intro p hp
    rcases mem_addRepetitions.mp hp with hp | ⟨a, ha, rfl | ⟨-, rfl⟩⟩
    · exact h.steps p hp
    · exact hmembers a ha
    · exact hagain.append (hmembers a ha)

theorem Draft.Fits.addField (h : d.Fits s kinds fields) (name : String) :
    (d.addField name).1.Fits s kinds fields where
  count := nonTerminals_addField d name ▸ h.count
  steps := productions_addField d name ▸ h.steps

theorem count_of_checkCount {u : Unit} (h : checkCount s d = .ok u) :
    s.terminalCount + d.nonTerminals.size < 65535 := by
  simp only [checkCount] at h
  split at h
  · cases h
  · rename_i hcount
    exact Nat.not_le.mp hcount

/-- A helper is made only if the symbols are few enough. -/
theorem Draft.Fits.addHelper (h : d.Fits s kinds fields)
    (hcount : checkCount s (d.addHelper owner) = .ok ()) : (d.addHelper owner).Fits s kinds fields :=
  ⟨count_of_checkCount hcount, h.steps⟩

/-- The field of a name is one of the fields that there are in the end. -/
theorem Context.fits_addField (ctx : Context) (name : String)
    (hfields : (d.addField name).1.fieldNames.length ≤ fields) :
    Context.Fits fields { ctx with field := some (d.addField name).2 } := by
  intro f hf
  obtain rfl := Option.some.inj hf
  obtain ⟨hnames, hfield⟩ := addField_spec d name
  rw [hnames] at hfields
  have hlt := List.idxOf_lt_length_of_mem (mem_addName d.fieldNames name)
  rw [hfield, FieldId.index, FieldId.ofIndex]
  dsimp only at hfields ⊢
  omega

theorem Draft.Grows.length_fieldNames {names : List String} {owners : List Nat}
    (h : d.Grows names owners d') : d.fieldNames.length ≤ d'.fieldNames.length := by
  rw [h.fields]
  exact (prefix_foldl_addName names d.fieldNames).length_le

section

variable (hs : s.terminals.vocabulary.Numbered s.grammar.externals.length)
include hs

/-- The symbols of phrase kinds come after those of terminals. -/
theorem fits_nonTerminalSymbol (hctx : ctx.Fits fields) {kind : Nat} (hkind : kind < kinds) :
    StepFits s kinds fields (ctx.step (s.nonTerminalSymbol kind)) where
  ne_end := by
    have hpos : 0 < s.terminalCount := hs.size_pos
    exact fun heq => Nat.ne_of_gt (Nat.add_pos_left hpos kind) (congrArg Symbol.index heq)
  symbol_lt := Nat.add_lt_add_left hkind _
  field_lt := hctx

/-- A helper is one of the phrase kinds that there are in the end. -/
theorem fits_again {names : List String} (hgrows : Grows names [] (d.addHelper owner) d')
    (hkinds : d'.nonTerminals.size ≤ kinds) :
    (again s ctx d.nonTerminals.size).Fits s kinds fields := by
  have hsize := hgrows.size_le
  rw [size_addHelper] at hsize
  have hctx : Context.Fits fields { ctx with field := none } := by
    intro f hf
    cases hf
  exact Alternative.fits_single (fits_nonTerminalSymbol hs hctx (Nat.lt_of_lt_of_le hsize hkinds))

/-- What a name stands for is a terminal or the phrase kind of a rule. -/
theorem fits_of_symbolOf? (hrules : s.phraseRules.length ≤ kinds) (hctx : ctx.Fits fields)
    {name : String} {found : Symbol} (h : s.symbolOf? name = some found) :
    StepFits s kinds fields (ctx.step found) := by
  rw [Source.symbolOf?] at h
  split at h
  · rename_i external hexternal
    obtain rfl := Option.some.inj h
    have hlt : external < s.grammar.externals.length :=
      (List.findIdx?_eq_some_iff_getElem.mp hexternal).choose
    have hexternals : s.grammar.externals.length < s.terminalCount := hs.external
    refine ⟨fun heq => Nat.succ_ne_zero _ (congrArg Symbol.index heq), ?_, hctx⟩
    change external + 1 < _
    omega
  split at h
  · cases h
  split at h
  · rename_i terminal hterminal
    obtain rfl := Option.some.inj h
    obtain ⟨hne, hlt⟩ := hs.hasToken_of_terminalOf? hterminal
    exact ⟨hne, Nat.lt_add_right kinds hlt, hctx⟩
  · obtain ⟨kind, hkind, rfl⟩ := Option.map_eq_some_iff.mp h
    have hlt : kind < s.phraseRules.length := (List.findIdx?_eq_some_iff_getElem.mp hkind).choose
    exact fits_nonTerminalSymbol hs hctx (Nat.lt_of_lt_of_le hlt hrules)

/-- What stands for a token is a terminal. -/
theorem fits_of_standsFor (hctx : ctx.Fits fields) {r : Rule} {symbol : Symbol}
    (h : StandsFor s r symbol) : StepFits s kinds fields (ctx.step symbol) := by
  obtain ⟨hne, hlt⟩ := hs.hasToken_of_inlineTerminal? h
  exact ⟨hne, Nat.lt_add_right kinds hlt, hctx⟩

end

/-- Flattening makes steps of terminals, of phrase kinds and with fields that there are in the end. -/
theorem Flattens.fits (hs : s.terminals.vocabulary.Numbered s.grammar.externals.length)
    (hrules : s.phraseRules.length ≤ kinds) {piece : Piece} {made : List Alternative}
    (hmade : Flattens s ctx owner d piece made d') (hctx : ctx.Fits fields)
    (howner : owner < d.nonTerminals.size) (h : d.Fits s kinds fields)
    (hfront : ∀ a ∈ piece.front, a.Fits s kinds fields) (hkinds : d'.nonTerminals.size ≤ kinds)
    (hfields : d'.fieldNames.length ≤ fields) :
    (∀ a ∈ made, a.Fits s kinds fields) ∧ d'.Fits s kinds fields := by
  induction hmade with
  | blank => exact ⟨List.forall_mem_singleton.mpr (Alternative.fits_nothing _), h⟩
  | literal hsymbol | pattern hsymbol | token hsymbol =>
    refine ⟨List.forall_mem_singleton.mpr ?_, h⟩
    exact Alternative.fits_single (fits_of_standsFor hs hctx hsymbol)
  | reference hsymbol =>
    refine ⟨List.forall_mem_singleton.mpr ?_, h⟩
    exact Alternative.fits_single (fits_of_symbolOf? hs hrules hctx hsymbol)
  | seq _ ih =>
    exact ih hctx howner h (List.forall_mem_singleton.mpr (Alternative.fits_nothing _)) hkinds hfields
  | choice _ ih => exact ih hctx howner h hfront hkinds hfields
  | zeroOrMore hcount hcontent ih | oneOrMore hcount hcontent ih =>
    rw [(addRepetitions_eq ..).1] at hkinds
    rw [(addRepetitions_eq ..).2] at hfields
    -- The repetitions of the helper are added at the end, and they change neither count.
    have hgrows := hcontent.grows (lt_size_addHelper ..)
    obtain ⟨hall, h'⟩ :=
      ih hctx (lt_size_addHelper ..) (h.addHelper hcount) hfront hkinds hfields
    refine ⟨?_, h'.addRepetitions _ (fits_again hs hgrows hkinds) hall⟩
    simp [fits_again hs hgrows hkinds, Alternative.fits_nothing]
  | field hcontent ih =>
    have hlength := (hcontent.grows (lt_size_addField howner)).length_fieldNames
    exact ih (Context.fits_addField _ _ (Nat.le_trans hlength hfields)) (lt_size_addField howner)
      (h.addField _) hfront hkinds hfields
  | prec _ ih => exact ih hctx howner h hfront hkinds hfields
  | done => exact ⟨hfront, h⟩
  | next hfirst _ hrest ihfirst ihrest =>
    have howner' := Nat.lt_of_lt_of_le howner (hfirst.grows howner).size_le
    have hgrows := hrest.grows howner'
    -- The bounds are those of the last draft, which is no smaller than the one in between.
    obtain ⟨hall, h'⟩ := ihfirst hctx howner h (fun _ ha => absurd ha List.not_mem_nil)
      (Nat.le_trans hgrows.size_le hkinds) (Nat.le_trans hgrows.length_fieldNames hfields)
    refine ihrest hctx howner' h' (fun a ha => ?_) hkinds hfields
    obtain ⟨b, hb, ha⟩ := List.mem_flatMap.mp ha
    obtain ⟨c, hc, rfl⟩ := List.mem_map.mp ha
    exact (hfront b hb).append (hall c hc)
  | never => exact ⟨hfront, h⟩
  | either hfirst hrest ihfirst ihrest =>
    have howner' := Nat.lt_of_lt_of_le howner (hfirst.grows howner).size_le
    have hgrows := hrest.grows howner'
    obtain ⟨hall, h'⟩ := ihfirst hctx howner h hfront (Nat.le_trans hgrows.size_le hkinds)
      (Nat.le_trans hgrows.length_fieldNames hfields)
    obtain ⟨hall', h''⟩ := ihrest hctx howner' h' hfront hkinds hfields
    exact ⟨List.forall_mem_append.mpr ⟨hall, hall'⟩, h''⟩

/-- All productions have such steps. -/
theorem fits_of_addRules (hs : s.terminals.vocabulary.Numbered s.grammar.externals.length)
    (hrules : s.phraseRules.length ≤ kinds) {rules : List (Nat × Rule)}
    (howners : ∀ e ∈ rules, e.1 < d.nonTerminals.size) (h : d.Fits s kinds fields)
    (hadd : addRules s d rules = .ok d') (hkinds : d'.nonTerminals.size ≤ kinds)
    (hfields : d'.fieldNames.length ≤ fields) : d'.Fits s kinds fields := by
  induction rules generalizing d with
  | nil =>
    cases hadd
    exact h
  | cons entry rest ih =>
    obtain ⟨kind, r⟩ := entry
    rw [addRules] at hadd
    obtain ⟨⟨members, d₁⟩, hmembers, hadd⟩ := bind_eq_ok.mp hadd
    have howner := howners _ (List.mem_cons_self ..)
    have hrule := flattens_of_alternatives r hmembers
    have hadded := grows_foldl_addProduction d₁ kind members
    have howners' := fun e he => Nat.lt_of_lt_of_le (howners e (List.mem_cons_of_mem _ he))
      (Nat.le_trans (hrule.grows howner).size_le hadded.size_le)
    have hrest := hadded.trans (grows_of_addRules howners' hadd)
    obtain ⟨hall, h₁⟩ := hrule.fits hs hrules (fun f hf => by cases hf) howner h
      (fun _ ha => absurd ha List.not_mem_nil) (Nat.le_trans hrest.size_le hkinds)
      (Nat.le_trans hrest.length_fieldNames hfields)
    exact ih howners' (h₁.foldl_addProduction kind hall) hadd

end Flatten

/-- Whether the end of the input is the first terminal and no step, and no symbol is that of error
nodes. -/
structure PreparedGrammar.WellFormed (g : PreparedGrammar) : Prop where
  first : g.terminals[0]?.map (·.kind) = some .endOfInput
  count : g.symbolCount < 65535
  steps : ∀ p ∈ g.productions, ∀ step ∈ p.steps, step.symbol ≠ .endOfInput

/-- **What the steps of a prepared grammar are**: symbols that it has, except for the end of the
input, with fields that have names. -/
theorem Grammar.fits_of_prepare {g : Grammar} {prepared : PreparedGrammar}
    (h : g.prepare = .ok prepared) : prepared.symbolCount < 65535 ∧
      ∀ p ∈ prepared.productions, ∀ step ∈ p.steps, step.symbol ≠ .endOfInput ∧
        step.symbol.index < prepared.symbolCount ∧
          ∀ f, step.field = some f → f.index < prepared.fieldNames.length := by
  obtain ⟨terminals, d, groups, hmade⟩ := prepare_eq_ok.mp h
  obtain rfl := hmade.eq
  obtain ⟨hnumbered, -⟩ := numbered_of_terminals hmade.numbered
  have hgrows := grows_of_kindedRules hmade.flattened
  have hrules := hgrows.size_le
  rw [Grammar.size_phraseKinds] at hrules
  have hfits := Flatten.fits_of_addRules hnumbered hrules
    (fun e he => by
      rw [Grammar.size_phraseKinds]
      exact fst_lt_of_mem_kindedRules he)
    ⟨Flatten.count_of_checkCount hmade.counted, by simp⟩ hmade.flattened (Nat.le_refl _) (Nat.le_refl _)
  refine ⟨hfits.count, fun p hp step hstep => ?_⟩
  obtain ⟨hne, hlt, hfield⟩ := hfits.steps p hp step hstep
  exact ⟨hne, hlt, hfield⟩

/-- Preparing a grammar makes it well-formed. -/
theorem Grammar.wellFormed_of_prepare {g : Grammar} {prepared : PreparedGrammar}
    (h : g.prepare = .ok prepared) : prepared.WellFormed := by
  obtain ⟨hcount, hsteps⟩ := fits_of_prepare h
  obtain ⟨terminals, d, groups, hmade⟩ := prepare_eq_ok.mp h
  obtain rfl := hmade.eq
  exact ⟨(numbered_of_terminals hmade.numbered).1.first, hcount,
    fun p hp step hstep => (hsteps p hp step hstep).1⟩

/-! ### Keywords -/

/-- A keyword is put into the map, or was there. -/
theorem Keywords.mem_insert {text : String} {s : Symbol} {entry : String × Symbol}
    {keywords : Keywords} (h : entry ∈ Keywords.insert text s keywords) :
    entry = (text, s) ∨ entry ∈ keywords := by
  induction keywords with
  | nil => exact .inl (List.mem_singleton.mp h)
  | cons first rest ih =>
    obtain ⟨t, old⟩ := first
    rw [Keywords.insert] at h
    split at h
    · exact List.mem_cons.mp h
    split at h
    · rcases List.mem_cons.mp h with h | h
      · exact .inl h
      · exact .inr (List.mem_cons_of_mem _ h)
    · rcases List.mem_cons.mp h with h | h
      · exact .inr (h ▸ List.mem_cons_self ..)
      · rcases ih h with h | h
        · exact .inl h
        · exact .inr (List.mem_cons_of_mem _ h)

/-- Keywords that are in the map were put into it. -/
theorem Keywords.mem_of_mem_ofList {entries : List (String × Symbol)} {entry : String × Symbol}
    (h : entry ∈ Keywords.ofList entries) : entry ∈ entries := by
  have hfold : ∀ (rest : List (String × Symbol)) (found : Keywords),
      entry ∈ rest.foldl (fun found entry => Keywords.insert entry.1 entry.2 found) found →
        entry ∈ rest ∨ entry ∈ found := by
    intro rest
    induction rest with
    | nil => exact fun _ h => .inr h
    | cons first rest ih =>
      intro found h
      rcases ih _ h with h | h
      · exact .inl (List.mem_cons_of_mem _ h)
      · rcases mem_insert h with h | h
        · exact .inl (h ▸ List.mem_cons_self ..)
        · exact .inr h
  exact (hfold entries [] h).resolve_right List.not_mem_nil

namespace PreparedGrammar

variable {g : PreparedGrammar}

/-- The literal texts are those of the terminals that have one, apart from the word. -/
theorem mem_literals_iff {word s : Symbol} {text : String} : (text, s) ∈ g.literals word ↔
    s.index ≠ word.index ∧
      ∃ terminal, g.terminals[s.index]? = some terminal ∧ terminal.literal? = some text := by
  rw [literals, List.mem_filterMap]
  constructor
  · rintro ⟨⟨terminal, index⟩, hmem, hsome⟩
    have hterminal := List.mem_zipIdx_iff_getElem?.mp hmem
    rw [Array.getElem?_toList] at hterminal
    dsimp only at hsome
    split at hsome
    · cases hsome
    · rename_i hne
      obtain ⟨text', htext, heq⟩ := Option.map_eq_some_iff.mp hsome
      obtain ⟨rfl, rfl⟩ := Prod.mk.inj heq
      exact ⟨hne, terminal, hterminal, htext⟩
  · rintro ⟨hne, terminal, hterminal, htext⟩
    refine ⟨(terminal, s.index), List.mem_zipIdx_iff_getElem?.mpr ?_, ?_⟩
    · rwa [Array.getElem?_toList]
    · dsimp only
      rw [if_neg hne, htext, Option.map_some]

/-- No keyword stands for the end of the input. -/
theorem WellFormed.literal_ne_end (h : g.WellFormed) {word s : Symbol} {text : String}
    (hliteral : (text, s) ∈ g.literals word) : s ≠ .endOfInput := by
  rintro rfl
  obtain ⟨-, terminal, hterminal, htext⟩ := mem_literals_iff.mp hliteral
  have hfirst := h.first
  rw [show g.terminals[0]? = some terminal from hterminal, Option.map_some] at hfirst
  rw [Terminal.literal?, Option.some.inj hfirst] at htext
  cases htext

/-- Keywords are literal texts. -/
theorem mem_literals_of_keywordList {keywords : List (String × Symbol)} {entry : String × Symbol}
    (h : g.keywordList = .ok keywords) (hentry : entry ∈ keywords) :
    ∃ word, g.word = some word ∧ entry ∈ g.literals word := by
  rw [keywordList] at h
  split at h
  · cases h
    cases hentry
  rename_i word hword
  split at h
  · cases h
    cases hentry
  split at h
  · cases h
  · cases h
    exact ⟨word, hword, (List.mem_filter.mp hentry).1⟩

/-- A set of terminals has just those that it is made of. -/
theorem contains_terminalSet {symbols : List Symbol} {s : Symbol} :
    (g.terminalSet symbols).contains s = true ↔ s ∈ symbols := by
  have h := TerminalSet.contains_foldl_insert (s := s) id symbols (.withCapacity g.terminalCount)
  rw [TerminalSet.contains_withCapacity] at h
  simpa [terminalSet] using h

/-- What the lexer needs is put together once the patterns are read and the keywords found. -/
theorem lexSpec_eq_ok {lex : LexSpec} {patterns : PatternSet} : g.lexSpec = .ok (lex, patterns) ↔
    PatternSet.ofSources? (g.lexicalTerminals.map (·.2.1)) = some patterns ∧
      ∃ keywords, g.keywordList = .ok keywords ∧ lex = {
        patternSymbols := g.lexicalTerminals.map (·.1)
        precedence := g.precedences
        keywords := Keywords.ofList keywords
        keywordSet := g.terminalSet (keywords.map (·.2))
        word := g.word
        extras := g.terminalSet g.extras } := by
  rw [lexSpec]
  split
  case h_1 made hmade =>
    rw [hmade, Option.some.injEq]
    constructor
    · intro h
      obtain ⟨keywords, hkeywords, h⟩ := bind_eq_ok.mp h
      cases h
      exact ⟨rfl, keywords, hkeywords, rfl⟩
    · rintro ⟨rfl, keywords, hkeywords, rfl⟩
      exact bind_eq_ok.mpr ⟨keywords, hkeywords, rfl⟩
  case h_2 hnone => exact iff_of_false nofun fun h => hnone _ h.1

/-- What the lexer knows of keywords. -/
theorem exists_of_lexSpec {lex : LexSpec} {patterns : PatternSet}
    (hlex : g.lexSpec = .ok (lex, patterns)) : lex.word = g.word ∧ ∃ keywords,
      g.keywordList = .ok keywords ∧ lex.keywords = Keywords.ofList keywords ∧
        lex.keywordSet = g.terminalSet (keywords.map (·.2)) := by
  obtain ⟨-, keywords, hkeywords, rfl⟩ := lexSpec_eq_ok.mp hlex
  exact ⟨rfl, keywords, hkeywords, rfl, rfl⟩

/-- No keyword is the end of the input. -/
theorem WellFormed.keyword_ne_end (h : g.WellFormed) {lex : LexSpec} {patterns : PatternSet}
    (hlex : g.lexSpec = .ok (lex, patterns)) {text : String} {s : Symbol}
    (hs : lex.keyword? text = some s) : s ≠ .endOfInput := by
  obtain ⟨-, keywords, hkeywords, heq, -⟩ := exists_of_lexSpec hlex
  obtain ⟨front, back, hfound, -⟩ := List.lookup_eq_some_iff.mp hs
  have hmem : (text, s) ∈ Keywords.ofList keywords := by
    rw [← heq, hfound]
    exact List.mem_append_right _ (List.mem_cons_self ..)
  obtain ⟨word, -, hliteral⟩ :=
    mem_literals_of_keywordList hkeywords (Keywords.mem_of_mem_ofList hmem)
  exact h.literal_ne_end hliteral

end PreparedGrammar

/-! ### Extras and words -/

namespace Vocabulary

variable {g : Grammar} {defined : TokenDefinitions} {v v' : Vocabulary}

/-- Terminals stay. -/
theorem keeps_hasToken (s : Symbol) : Keeps g defined (·.HasToken s) := by
  intro v v' m hv hadds
  cases hadds with
  | known | undefined | found => exact hv
  | rule | text | pattern => exact hv.push _

/-- An external token is a terminal. -/
theorem Numbered.hasToken_externalSymbol (h : v.Numbered g.externals.length) {name : String}
    {external : Nat} (hexternal : g.externalIndex? name = some external) :
    v.HasToken (externalSymbol external) := by
  have hlt : external < g.externals.length := by
    rw [Grammar.externalIndex?] at hexternal
    exact (List.findIdx?_eq_some_iff_getElem.mp hexternal).choose
  refine ⟨fun heq => Nat.succ_ne_zero external (congrArg Symbol.index heq), ?_⟩
  exact Nat.lt_of_le_of_lt hlt h.external

/-- The symbol of an extra is a terminal. -/
theorem hasToken_of_addExtra (hv : v.Numbered g.externals.length) {extra : Rule} {s : Symbol}
    (hadd : addExtra g defined v extra = .ok (v', some s)) : v'.HasToken s := by
  have hv' := keeps_numbered.addExtra hv hadd
  unfold addExtra at hadd
  split at hadd
  · split at hadd
    case h_1 hexternal =>
      cases hadd
      exact hv.hasToken_externalSymbol hexternal
    · split at hadd
      · obtain ⟨rfl, hs⟩ := Prod.mk.inj (Except.ok.inj hadd)
        exact hv'.hasToken_of_terminalOf? hs
      · cases hadd
    · cases hadd
  · split at hadd
    · cases hadd
    · obtain ⟨rfl, hs⟩ := Prod.mk.inj (Except.ok.inj hadd)
      exact hv'.hasToken_of_inlineTerminal? hs

/-- Extras are terminals of tokens. -/
theorem hasToken_of_addExtras (hv : v.Numbered g.externals.length) {extras : List Rule}
    {found found' : List Symbol} (hfound : ∀ s ∈ found, v.HasToken s)
    (hadd : addExtras g defined v found extras = .ok (v', found')) : ∀ s ∈ found', v'.HasToken s := by
  induction extras generalizing v found with
  | nil =>
    cases hadd
    exact hfound
  | cons extra rest ih =>
    rw [addExtras] at hadd
    split at hadd
    · cases hadd
    case h_2 next new hnext =>
      refine ih (keeps_numbered.addExtra hv hnext) (fun s hs => ?_) hadd
      rcases List.mem_append.mp hs with hs | hs
      · exact (keeps_hasToken s).addExtra (hfound s hs) hnext
      · obtain rfl := Option.mem_toList.mp (List.mem_filter.mp hs).1
        exact hasToken_of_addExtra hv hnext

end Vocabulary

namespace Grammar

variable {g : Grammar}

/-- So are the extras and the word of a grammar once its terminals are numbered. -/
theorem hasToken_of_terminals {used : List Nat} {t : Terminals} (h : g.terminals used = .ok t) :
    (∀ s ∈ t.extras, t.vocabulary.HasToken s) ∧ ∀ s, t.word = some s → t.vocabulary.HasToken s := by
  have hnumbered := (numbered_of_terminals h).1
  rw [Grammar.terminals] at h
  obtain ⟨defined, -, h⟩ := bind_eq_ok.mp h
  obtain ⟨v, hv, h⟩ := bind_eq_ok.mp h
  obtain ⟨⟨v', extras⟩, hv', h⟩ := bind_eq_ok.mp h
  have hfirst := Vocabulary.keeps_numbered.addPhraseRules (Vocabulary.numbered_initial g.externals) hv
  have hextras := Vocabulary.hasToken_of_addExtras hfirst (fun s hs => absurd hs List.not_mem_nil) hv'
  dsimp only at h
  split at h
  · cases h
  · cases h
    refine ⟨fun s hs => (Vocabulary.keeps_hasToken s).foldl_addNamed (hextras s hs) _, fun s hs => ?_⟩
    obtain ⟨index, -, hs⟩ := Option.bind_eq_some_iff.mp hs
    exact hnumbered.hasToken_of_terminalOf? hs

/-- The extras and the word of a prepared grammar are among its terminals. -/
theorem terminals_of_prepare {prepared : PreparedGrammar} (h : g.prepare = .ok prepared) :
    (∀ s ∈ prepared.extras, s.index < prepared.terminalCount) ∧
      ∀ s, prepared.word = some s → s.index < prepared.terminalCount := by
  obtain ⟨terminals, d, groups, hmade⟩ := prepare_eq_ok.mp h
  obtain rfl := hmade.eq
  obtain ⟨hextras, hword⟩ := hasToken_of_terminals hmade.numbered
  exact ⟨fun s hs => (hextras s hs).2, fun s hs => (hword s hs).2⟩

end Grammar

end LRWorkbench
