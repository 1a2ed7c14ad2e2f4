import LRWorkbench.Proofs.Grammar.Assembly
import LRWorkbench.Proofs.Operators.Terminals

/-!
# Field names and their numbers

Fields are numbered in the order their names are met, from 1 up, in 16 bits: the last number there is
goes to every name from the 65535th on (`FieldId.index_ofIndex`). So the field of a name leads back to
the name just for the first 65535 of them (`ParseTable.fieldName_ofIndex_iff`), and no two names of a
table share a field just if there are no more than these (`ParseTable.keepsLabels_iff`).

Nothing counts the names while a grammar is compiled. One more name than there are numbers, and a
table has two names with one field (`Grammar.not_keepsLabels_labels`).
-/

namespace LRWorkbench

/-! ### Numbers -/

namespace FieldId

/-- The number that leads back to a place, or to the last place that has one. -/
theorem index_ofIndex (place : Nat) : (ofIndex place).index = min place 65534 := by
  simp only [index, ofIndex]
  omega

end FieldId

/-! ### Lookups -/

namespace ParseTable

variable {t : ParseTable} {name : String} {place : Nat}

/-- Whether no two field names of a table share a field, and each is the name of its field. -/
structure KeepsLabels (t : ParseTable) : Prop where
  apart : ∀ name ∈ t.parts.fieldNames, ∀ other ∈ t.parts.fieldNames,
    t.fieldFor? name = t.fieldFor? other → name = other
  found : ∀ name ∈ t.parts.fieldNames, ∃ f, t.fieldFor? name = some f ∧ t.fieldName f = name

/-- A name that is listed once has the number of its place. -/
theorem fieldFor?_of_getElem? (hdistinct : t.parts.fieldNames.Nodup)
    (hname : t.parts.fieldNames[place]? = some name) :
    t.fieldFor? name = some (.ofIndex place) := by
  obtain ⟨hlt, hname⟩ := List.getElem?_eq_some_iff.mp hname
  have hfirst : t.parts.fieldNames.findIdx? (· = name) = some place := by
    refine List.findIdx?_eq_some_iff_getElem.mpr ⟨hlt, decide_eq_true hname, fun j hj heq => ?_⟩
    have hsame := (hdistinct.getElem_inj_iff).mp ((of_decide_eq_true heq).trans hname.symm)
    omega
  rw [fieldFor?, hfirst, Option.map_some]

/-- The first 65535 names are those that their numbers lead back to. -/
theorem fieldName_ofIndex_iff (hdistinct : t.parts.fieldNames.Nodup)
    (hname : t.parts.fieldNames[place]? = some name) :
    t.fieldName (.ofIndex place) = name ↔ place < 65535 := by
  obtain ⟨hlt, hname⟩ := List.getElem?_eq_some_iff.mp hname
  have hmin : min place 65534 < t.parts.fieldNames.length := by omega
  rw [fieldName, FieldId.index_ofIndex, List.getElem?_eq_getElem hmin, Option.getD_some, ← hname,
    hdistinct.getElem_inj_iff]
  omega

/-- **Names are told apart just if there are numbers for all.** -/
theorem keepsLabels_iff (hdistinct : t.parts.fieldNames.Nodup) :
    t.KeepsLabels ↔ t.parts.fieldNames.length ≤ 65535 := by
  constructor
  · intro h
    by_contra! hmany
    -- the name behind the last number
    have hname := List.getElem?_eq_getElem hmany
    obtain ⟨f, hf, hback⟩ := h.found _ (List.mem_of_getElem? hname)
    obtain rfl := Option.some.inj ((fieldFor?_of_getElem? hdistinct hname).symm.trans hf)
    have hlt := (fieldName_ofIndex_iff hdistinct hname).mp hback
    omega
  · intro hfew
    have hfound : ∀ name ∈ t.parts.fieldNames, ∃ f, t.fieldFor? name = some f ∧
        t.fieldName f = name := by
      intro name hmem
      obtain ⟨place, hname⟩ := List.getElem?_of_mem hmem
      have hlt := (List.getElem?_eq_some_iff.mp hname).choose
      exact ⟨_, fieldFor?_of_getElem? hdistinct hname,
        (fieldName_ofIndex_iff hdistinct hname).mpr (by omega)⟩
    refine ⟨fun name hname other hother heq => ?_, hfound⟩
    obtain ⟨f, hf, hback⟩ := hfound name hname
    obtain ⟨f', hf', hback'⟩ := hfound other hother
    obtain rfl := Option.some.inj (hf.symm.trans (heq.trans hf'))
    exact hback.symm.trans hback'

end ParseTable

/-! ### Names of a grammar -/

namespace Grammar

open Flatten

variable {g : Grammar} {prepared : PreparedGrammar} {t : ParseTable}

theorem nodup_fieldNames (g : Grammar) : g.fieldNames.Nodup := Graph.nodup_eraseDups _

/-- A prepared grammar has the names of the fields of the phrases that are used. -/
theorem fieldNames_of_prepare (h : g.prepare = .ok prepared) : prepared.fieldNames = g.fieldNames := by
  obtain ⟨terminals, d, -, hadd, -, -, -, hfields⟩ := exists_of_prepare h
  rw [hfields, (grows_of_kindedRules hadd).fields]
  exact fieldNames_kindedRules g

/-- The names in a table are those in the phrases that it was made of. -/
theorem fieldNames_of_compile (h : g.compile = .ok t) : t.parts.fieldNames = g.fieldNames := by
  obtain ⟨prepared, hprepare, hcompiles⟩ := exists_prepared h
  obtain ⟨rows, -, hemit⟩ := hcompiles.emitted
  obtain ⟨lex, patterns, -, hparts, -⟩ := PreparedGrammar.exists_of_emit hemit
  rw [hparts]
  exact fieldNames_of_prepare hprepare

/-- Two tokens, each with a field, behind fields of nothing. -/
def labelsRule (names : List String) : Rule :=
  .seq (names.map (fun name => .field name .blank) ++
    [.field "left" (.literal "a"), .field "right" (.literal "b")])

def labels (names : List String) : Grammar where
  name := "labels"
  rules := [("pair", labelsRule names)]
  extras := []
  conflicts := []
  externals := []
  word := none

/-- **Field names are told apart just if there are numbers for all.** A table has the names that its
grammar uses; the field that a name gets while the rules are flattened is the one that it is looked up
with; and each name is the one of its own field, and of none else, just if there are no more than
65535. -/
theorem keepsLabels_of_compile (h : g.compile = .ok t) :
    t.parts.fieldNames = g.fieldNames ∧
      (∀ (d : Draft) (name : String), (d.addField name).1.fieldNames <+: g.fieldNames →
        t.fieldFor? name = some (d.addField name).2) ∧
      (t.KeepsLabels ↔ g.fieldNames.length ≤ 65535) := by
  have hnames := fieldNames_of_compile h
  have hdistinct : t.parts.fieldNames.Nodup := hnames ▸ nodup_fieldNames g
  refine ⟨hnames, fun d name hbefore => ?_, hnames ▸ t.keepsLabels_iff hdistinct⟩
  obtain ⟨hadded, hfield⟩ := Draft.addField_spec d name
  rw [hadded, ← hnames] at hbefore
  have hmem := mem_addName d.fieldNames name
  rw [hfield, hbefore.idxOf_eq_of_mem hmem]
  exact ParseTable.fieldFor?_of_getElem? hdistinct (List.getElem?_idxOf (hbefore.subset hmem))

/-- A rule with a field that no step has, and two that steps have. -/
theorem keepsLabels_labels : ∃ t, (labels ["none"]).compile = .ok t ∧
    t.parts.fieldNames = ["none", "left", "right"] ∧ t.KeepsLabels := by
  have hrun : ((labels ["none"]).compile.toOption.any fun t =>
      decide (t.parts.fieldNames = ["none", "left", "right"])) = true := by
    decide +kernel
  obtain ⟨t, ht, hnames⟩ := (Option.any_eq_true ..).mp hrun
  have ht := eq_ok_of_toOption ht
  have hnames := of_decide_eq_true hnames
  obtain ⟨hsame, -, hkeeps⟩ := keepsLabels_of_compile ht
  refine ⟨t, ht, hnames, hkeeps.mpr ?_⟩
  rw [← hsame, hnames]
  decide

/-! ### More names than numbers -/

section

variable (names : List String)

theorem references_labelsRule : (labelsRule names).references = [] := by
  rw [labelsRule, Rule.references]
  induction names with
  | nil => rfl
  | cons name names ih => simpa [Rule.referencesOf, Rule.references] using ih

theorem inlineTexts_labelsRule : (labelsRule names).inlineTexts = ["a", "b"] := by
  rw [labelsRule, Rule.inlineTexts]
  induction names with
  | nil => rfl
  | cons name names ih => simpa [Rule.inlineTextsOf, Rule.inlineTexts] using ih

theorem fieldNames_labelsRule : (labelsRule names).fieldNames = names ++ ["left", "right"] := by
  rw [labelsRule, Rule.fieldNames]
  induction names with
  | nil => rfl
  | cons name names ih => simpa [Rule.fieldNamesOf, Rule.fieldNames] using ih

/-- The grammar of labels is prepared whatever its labels are, since its names are those of one rule. -/
theorem checkNames_labels : (labels names).checkNames = .ok () := by
  change ((labels names).checkReferences [("pair", labelsRule names)] >>= fun _ => Except.ok ()) = _
  rw [checkReferences, undefinedIn?, references_labelsRule]
  rfl

/-- Its only rule is used. -/
theorem usedRules_labels : (labels names).usedRules = [0] := by
  have huses : (labels names).uses 0 = [] := by
    change (labelsRule names).references.filterMap _ ++
      (labelsRule names).inlineTexts.filterMap (labels names).textRule? = []
    rw [references_labelsRule, inlineTexts_labelsRule]
    rfl
  change Graph.closeUnder _ 1 [0] [0] = [0]
  rw [Graph.closeUnder, List.flatMap_cons, huses]
  rfl

/-- The terminals are the end of the input and the two tokens. -/
def labelsVocabulary : Vocabulary :=
  ((Vocabulary.initial []).push ⟨"a", .lexical "a" 0 (some "a"), false⟩).push
    ⟨"b", .lexical "b" 0 (some "b"), false⟩

/-- Its tokens are letters. -/
theorem tokenPattern_a (owner : String) : (Rule.literal "a").tokenPattern owner = .ok ("a", 0) :=
  Operators.tokenPattern_literal (by decide) owner

theorem tokenPattern_b (owner : String) : (Rule.literal "b").tokenPattern owner = .ok ("b", 0) :=
  Operators.tokenPattern_literal (by decide) owner

/-- Fields of nothing have no terminals. -/
theorem addPhrases_labels (v : Vocabulary) (more : List Rule) :
    Vocabulary.addPhrases (labels names) [] "pair" v
      (names.map (fun name => .field name .blank) ++ more) =
        Vocabulary.addPhrases (labels names) [] "pair" v more := by
  generalize labels names = g
  induction names with
  | nil => rfl
  | cons name names ih => exact ih

/-- Texts get terminals of their own. -/
theorem addInline_labels (v : Vocabulary) (text : String) :
    Vocabulary.addInline (labels names) [] v (.literal text) "pair" =
      v.addAnonymous (.literal text) "pair" := rfl

theorem addPhrase_labels :
    Vocabulary.addPhrase (labels names) [] "pair" (.initial []) (labelsRule names) =
      .ok labelsVocabulary := by
  have ha : (Vocabulary.initial []).addAnonymous (.literal "a") "pair" =
      .ok ((Vocabulary.initial []).push ⟨"a", .lexical "a" 0 (some "a"), false⟩) := by
    rw [Vocabulary.addAnonymous, tokenPattern_a]
    rfl
  have hb : ((Vocabulary.initial []).push ⟨"a", .lexical "a" 0 (some "a"), false⟩).addAnonymous
      (.literal "b") "pair" = .ok labelsVocabulary := by
    rw [Vocabulary.addAnonymous, tokenPattern_b]
    rfl
  rw [labelsRule, Vocabulary.addPhrase, addPhrases_labels]
  simp only [Vocabulary.addPhrases, Vocabulary.addPhrase, addInline_labels, ha, hb]

/-- The letters are its terminals. -/
theorem terminals_labels :
    (labels names).terminals [0] = .ok ⟨labelsVocabulary, [], [], none⟩ := by
  have hrules : (Vocabulary.initial []).addPhraseRules (labels names) [] [0] =
      .ok labelsVocabulary := by
    have hrule : (labels names).rules[0]? = some ("pair", labelsRule names) := rfl
    simp only [Vocabulary.addPhraseRules, hrule, addPhrase_labels]
  change ((Vocabulary.initial []).addPhraseRules (labels names) [] [0] >>= _) = _
  rw [hrules]
  rfl

/-- What is known before the rule is flattened. -/
def labelsSource : Source := ⟨labels names, ⟨labelsVocabulary, [], [], none⟩, [0]⟩

/-- What the flattening begins with. -/
def labelsDraft : Draft := ⟨#[⟨"pair", true, none⟩], #[], .empty, []⟩

/-- The alternatives of a letter do not depend on its labels. -/
theorem inlineToken_a (ctx : Context) (d : Draft) :
    inlineToken (labelsSource names) ctx 0 d (.literal "a") = .ok ([.single (ctx.step ⟨1⟩)], d) := by
  have hterminal : Vocabulary.inlineTerminal? (labels names) [] labelsVocabulary (.literal "a") =
      some ⟨1⟩ := by
    rw [Vocabulary.inlineTerminal?, tokenPattern_a]
    rfl
  rw [inlineToken, labelsSource, hterminal]

theorem inlineToken_b (ctx : Context) (d : Draft) :
    inlineToken (labelsSource names) ctx 0 d (.literal "b") = .ok ([.single (ctx.step ⟨2⟩)], d) := by
  have hterminal : Vocabulary.inlineTerminal? (labels names) [] labelsVocabulary (.literal "b") =
      some ⟨2⟩ := by
    rw [Vocabulary.inlineTerminal?, tokenPattern_b]
    rfl
  rw [inlineToken, labelsSource, hterminal]

/-- A name that is new gets the next place. -/
theorem addField_of_not_mem {d : Draft} {name : String} (hnew : name ∉ d.fieldNames) :
    (d.addField name).1.fieldNames = d.fieldNames ++ [name] ∧
      (d.addField name).2 = .ofIndex d.fieldNames.length := by
  obtain ⟨hadded, hfield⟩ := Draft.addField_spec d name
  rw [hadded, hfield, addName, if_neg hnew, List.idxOf_append_of_notMem hnew]
  simp

/-- A draft with the fields of some names. -/
def addFields (d : Draft) (names : List String) : Draft :=
  names.foldl (fun d name => (d.addField name).1) d

/-- Labels around a letter add fields and nothing else. -/
theorem addFields_spec (d : Draft) :
    (addFields d names).nonTerminals = d.nonTerminals ∧
      (addFields d names).productions = d.productions ∧
      (addFields d names).fieldNames = names.foldl addName d.fieldNames := by
  induction names generalizing d with
  | nil => exact ⟨rfl, rfl, rfl⟩
  | cons name names ih =>
    obtain ⟨hkinds, hproductions, hfields⟩ := ih (d.addField name).1
    refine ⟨hkinds.trans (Draft.nonTerminals_addField d name),
      hproductions.trans (Draft.productions_addField d name), hfields.trans ?_⟩
    rw [(Draft.addField_spec d name).1, List.foldl_cons]

/-- A member with one alternative makes the only front longer. -/
theorem sequences_of_single {s : Source} {ctx : Context} {owner : Nat} {d d' : Draft} {r : Rule}
    {b : Alternative} (hr : alternatives s ctx owner d r = .ok ([b], d')) (a : Alternative)
    (more : List Rule) :
    sequences s ctx owner d [a] (r :: more) = sequences s ctx owner d' [a.append b] more := by
  rw [sequences, hr]
  rfl

/-- Fields of nothing only add their names. -/
theorem sequences_labels (s : Source) (d : Draft) (more : List Rule) :
    sequences s .outermost 0 d [.nothing .outermost]
      (names.map (fun name => .field name .blank) ++ more) =
        sequences s .outermost 0 (addFields d names) [.nothing .outermost] more := by
  induction names generalizing d with
  | nil => rfl
  | cons name names ih =>
    have hblank : alternatives s .outermost 0 d (.field name .blank) =
        .ok ([.nothing .outermost], (d.addField name).1) := by
      simp only [alternatives]
      rfl
    rw [List.map_cons, List.cons_append, sequences_of_single hblank]
    exact ih (d.addField name).1

/-- Names that are new and come once are added as they are. -/
theorem foldl_addName_of_nodup {found : List String} (h : (found ++ names).Nodup) :
    names.foldl addName found = found ++ names := by
  induction names generalizing found with
  | nil => simp
  | cons name names ih =>
    have hnew : name ∉ found := fun hmem => List.disjoint_of_nodup_append h hmem List.mem_cons_self
    rw [List.foldl_cons, addName, if_neg hnew, ih (by simpa using h)]
    simp

/-- The production of the two tokens, whose fields have some place and the next one. -/
def labelsProduction (place : Nat) : Production :=
  ⟨0, [⟨⟨1⟩, some (.ofIndex place), 0, none⟩, ⟨⟨2⟩, some (.ofIndex (place + 1)), 0, none⟩], 0, none⟩

/-- What the grammar of labels is prepared as. -/
def labelsPrepared : PreparedGrammar where
  name := "labels"
  terminals := labelsVocabulary.terminals
  externalCount := 0
  nonTerminals := #[⟨"pair", true, none⟩]
  productions := #[labelsProduction names.length]
  fieldNames := names ++ ["left", "right"]
  extras := []
  word := none
  conflictGroups := []

variable {names} (hdistinct : (names ++ ["left", "right"]).Nodup)
include hdistinct

/-- The names of its fields are the labels and those of the two sides. -/
theorem fieldNames_labels : (labels names).fieldNames = names ++ ["left", "right"] := by
  have hrules : ((labels names).phraseRules [0]).filterMap (fun i => (labels names).rules[i]?) =
      [("pair", labelsRule names)] := rfl
  have hfold : (names ++ ["left", "right"]).foldl addName [] = [] ++ (names ++ ["left", "right"]) :=
    foldl_addName_of_nodup _ hdistinct
  rw [foldl_addName, List.nil_append, List.filter_eq_self.mpr (by simp)] at hfold
  rw [fieldNames, usedRules_labels, hrules, List.flatMap_singleton, fieldNames_labelsRule]
  exact hfold

/-- The rule is one alternative, and its names are those of the draft behind it. -/
theorem alternatives_labelsRule :
    ∃ d, alternatives (labelsSource names) .outermost 0 labelsDraft (labelsRule names) =
        .ok ([⟨(labelsProduction names.length).steps, 0, none⟩], d) ∧
      d.nonTerminals = labelsDraft.nonTerminals ∧ d.productions = #[] ∧
      d.fieldNames = names ++ ["left", "right"] := by
  obtain ⟨hkinds, hproductions, hfields⟩ := addFields_spec names labelsDraft
  have hskip := sequences_labels names (labelsSource names) labelsDraft
    [.field "left" (.literal "a"), .field "right" (.literal "b")]
  generalize addFields labelsDraft names = d at *
  have hfields : d.fieldNames = names :=
    hfields.trans (foldl_addName_of_nodup names (List.nodup_append.mp hdistinct).1)
  -- the two fields of tokens are new
  have hleft : "left" ∉ d.fieldNames := fun hmem =>
    List.disjoint_of_nodup_append hdistinct (hfields ▸ hmem) (by simp)
  obtain ⟨hnames₁, hfield₁⟩ := addField_of_not_mem hleft
  have hright : "right" ∉ (d.addField "left").1.fieldNames := by
    intro hmem
    rw [hnames₁, hfields, List.mem_append] at hmem
    rcases hmem with hmem | hmem
    · exact List.disjoint_of_nodup_append hdistinct hmem (by simp)
    · simp at hmem
  obtain ⟨hnames₂, hfield₂⟩ := addField_of_not_mem hright
  rw [hnames₁, hfields] at hnames₂ hfield₂
  rw [hfields] at hfield₁
  rw [List.length_append, List.length_singleton] at hfield₂
  have ha : alternatives (labelsSource names) .outermost 0 d (.field "left" (.literal "a")) =
      .ok ([.single ⟨⟨1⟩, some (.ofIndex names.length), 0, none⟩], (d.addField "left").1) := by
    simp only [alternatives, inlineToken_a, hfield₁]
    rfl
  have hb : alternatives (labelsSource names) .outermost 0 (d.addField "left").1
      (.field "right" (.literal "b")) =
        .ok ([.single ⟨⟨2⟩, some (.ofIndex (names.length + 1)), 0, none⟩],
          ((d.addField "left").1.addField "right").1) := by
    simp only [alternatives, inlineToken_b, hfield₂]
    rfl
  refine ⟨((d.addField "left").1.addField "right").1, ?_, ?_, ?_, ?_⟩
  · rw [labelsRule, alternatives, hskip, sequences_of_single ha, sequences_of_single hb, sequences]
    rfl
  · rw [Draft.nonTerminals_addField, Draft.nonTerminals_addField, hkinds]
  · rw [Draft.productions_addField, Draft.productions_addField, hproductions]
    rfl
  · rw [hnames₂]
    simp

/-- So flattening it gives one production. -/
theorem addRules_labels :
    ∃ d, addRules (labelsSource names) labelsDraft [(0, labelsRule names)] = .ok d ∧
      d.nonTerminals = labelsDraft.nonTerminals ∧
      d.productions = #[labelsProduction names.length] ∧
      d.fieldNames = names ++ ["left", "right"] := by
  obtain ⟨d, hrule, hkinds, hnone, hfields⟩ := alternatives_labelsRule hdistinct
  refine ⟨d.addProduction 0 ⟨(labelsProduction names.length).steps, 0, none⟩, ?_, ?_, ?_, ?_⟩
  · rw [addRules, hrule]
    rfl
  · rw [Draft.nonTerminals_addProduction, hkinds]
  · rw [Draft.addProduction, hnone, if_neg (by simp)]
    rfl
  · rw [Draft.fieldNames_addProduction, hfields]

/-- The prepared grammar has a field for each label. -/
theorem prepare_labels : (labels names).prepare = .ok (labelsPrepared names) := by
  obtain ⟨d, hadd, hkinds, hproductions, hfields⟩ := addRules_labels hdistinct
  rw [prepare, checkNames_labels]
  change ((labels names).terminals _ >>= _) = _
  rw [usedRules_labels, terminals_labels]
  change (addRules (labelsSource names) labelsDraft [(0, labelsRule names)] >>= _) = _
  rw [hadd]
  have hproductive : checkProductive 3 d = .ok () := by
    rw [checkProductive, hkinds, hproductions]
    rfl
  change (checkProductive 3 d >>= _) = _
  rw [hproductive, labelsPrepared, ← hproductions, ← hfields]
  change Except.ok _ = Except.ok _
  rw [hkinds]
  rfl

end

/-- All names but two, if there is one more than there are numbers. -/
def manyNames : List String := (List.range 65534).map fun i => "f" ++ toString i

/-- There are too many names for a field each, with two more. -/
theorem length_manyNames : manyNames.length = 65534 := by
  rw [manyNames, List.length_map, List.length_range]

/-- No two of them are the same. -/
theorem nodup_manyNames : (manyNames ++ ["left", "right"]).Nodup := by
  have hnumbered : ∀ name ∈ manyNames, name.toList.head? = some 'f' := by
    intro name hname
    obtain ⟨i, -, rfl⟩ := List.mem_map.mp hname
    rw [String.toList_append]
    rfl
  refine List.nodup_append.mpr ⟨?_, by decide, ?_⟩
  · refine List.nodup_range.map fun i j heq => ?_
    have hdigits : Nat.toDigits 10 i = Nat.toDigits 10 j :=
      String.ofList_inj.mp ((String.append_right_inj _).mp heq)
    have hread := congrArg (Nat.ofDigitChars 10 · 0) hdigits
    rwa [Nat.ofDigitChars_ten_toDigits, Nat.ofDigitChars_ten_toDigits] at hread
  · rintro name hname other hother rfl
    have hf := hnumbered name hname
    simp only [List.mem_cons, List.not_mem_nil, or_false] at hother
    rcases hother with rfl | rfl <;> exact absurd hf (by decide)

/-- The grammar with so many labels compiles all the same. -/
theorem exists_compile_manyNames : ∃ t, (labels manyNames).compile = .ok t := by
  have hprepare := prepare_labels nodup_manyNames
  have hrun : ((labelsPrepared manyNames).automaton.rows.toOption.any fun _ =>
      (labelsPrepared manyNames).lexSpec.toOption.any fun _ =>
        (labelsPrepared manyNames).checkLengths.toOption.any fun _ => true) = true := by
    decide +kernel
  obtain ⟨rows, hrows, hrun⟩ := (Option.any_eq_true ..).mp hrun
  obtain ⟨⟨lex, patterns⟩, hlex, hrun⟩ := (Option.any_eq_true ..).mp hrun
  obtain ⟨_, hlengths, -⟩ := (Option.any_eq_true ..).mp hrun
  have hrows := eq_ok_of_toOption hrows
  obtain ⟨t, ht⟩ := (ordered_of_prepare hprepare).exists_emit hrows
    (eq_ok_of_toOption hlex) (eq_ok_of_toOption hlengths)
  exact ⟨t, bind_eq_ok.mpr ⟨_, hprepare, bind_eq_ok.mpr ⟨rows, hrows, ht⟩⟩⟩

/-- **There may be more names than numbers**: a grammar with one field too many compiles, and its last
two fields are one. -/
theorem not_keepsLabels_labels :
    ∃ t, (labels manyNames).compile = .ok t ∧ "left" ∈ t.parts.fieldNames ∧
      "right" ∈ t.parts.fieldNames ∧ t.fieldFor? "left" = some ⟨65535⟩ ∧
      t.fieldFor? "right" = some ⟨65535⟩ ∧ t.fieldName ⟨65535⟩ = "left" := by
  obtain ⟨t, ht⟩ := exists_compile_manyNames
  have hnames := (fieldNames_of_compile ht).trans (fieldNames_labels nodup_manyNames)
  have hdistinct : t.parts.fieldNames.Nodup := hnames ▸ nodup_manyNames
  have hleft : t.parts.fieldNames[65534]? = some "left" := by
    rw [hnames, List.getElem?_append_right (by rw [length_manyNames]), length_manyNames]
    rfl
  have hright : t.parts.fieldNames[65535]? = some "right" := by
    rw [hnames, List.getElem?_append_right (by rw [length_manyNames]; decide), length_manyNames]
    rfl
  exact ⟨t, ht, List.mem_of_getElem? hleft, List.mem_of_getElem? hright,
    ParseTable.fieldFor?_of_getElem? hdistinct hleft,
    ParseTable.fieldFor?_of_getElem? hdistinct hright,
    (ParseTable.fieldName_ofIndex_iff hdistinct hleft).mpr (by decide)⟩

end Grammar

end LRWorkbench
