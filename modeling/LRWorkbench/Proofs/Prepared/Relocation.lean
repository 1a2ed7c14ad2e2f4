import LRWorkbench.Proofs.Prepared.Reached

/-!
# Rules at other places

While a grammar is prepared its rules are told apart by their places. A **relocation** leads from the
places of one grammar to those of the same rules in another, which may have more of them. Nothing that
is made of phrases whose names and texts stand for relocated rules (`Relocation.Keeps`) depends on the
places: terminals are numbered alike, apart from the places that are noted for token rules, and rules
are flattened alike. So if all rules that one grammar uses are relocated ones, in the same order, both
are prepared alike.
-/

namespace LRWorkbench

/-- Whether the rules of a grammar are those of another one, which stand at other places there. -/
structure Relocation (g other : Grammar) (place : Nat → Nat) : Prop where
  injective : Function.Injective place
  start : place 0 = 0
  rules : ∀ i, other.rules[place i]? = g.rules[i]?
  externals : other.externals = g.externals

namespace Relocation

variable {g other : Grammar} {place : Nat → Nat}

/-- Whether the names and texts of a phrase stand for the same rules in both grammars. -/
structure Keeps (g other : Grammar) (place : Nat → Nat) (r : Rule) : Prop where
  references : ∀ name ∈ r.references, other.ruleIndex? name = (g.ruleIndex? name).map place
  texts : ∀ text ∈ r.inlineTexts, other.textRule? text = (g.textRule? text).map place

/-- Whether a rule is a token rule does not depend on its place. -/
theorem isLexicalAt (h : Relocation g other place) (i : Nat) :
    other.isLexicalAt (place i) = g.isLexicalAt i := by
  rw [Grammar.isLexicalAt, h.rules, Grammar.isLexicalAt]

/-- A rule keeps its name. -/
theorem nameAt (h : Relocation g other place) (i : Nat) :
    other.nameAt (place i) = g.nameAt i := by
  rw [Grammar.nameAt, h.rules, Grammar.nameAt]

/-- External tokens are the same in both grammars. -/
theorem externalIndex? (h : Relocation g other place) (name : String) :
    other.externalIndex? name = g.externalIndex? name := by
  rw [Grammar.externalIndex?, h.externals, Grammar.externalIndex?]

/-- What is noted for places, noted for those they are relocated to. -/
def relocated {α : Type} (place : Nat → Nat) (noted : List (Nat × α)) : List (Nat × α) :=
  noted.map fun entry => (place entry.1, entry.2)

/-- What is noted for a place is found for the place it is relocated to. -/
theorem lookup_relocated {α : Type} (h : Relocation g other place) (noted : List (Nat × α)) (i : Nat) :
    (relocated place noted).lookup (place i) = noted.lookup i := by
  induction noted with
  | nil => rfl
  | cons entry rest ih =>
    obtain ⟨j, a⟩ := entry
    simp only [relocated, List.map_cons, List.lookup_cons] at ih ⊢
    rw [ih]
    by_cases heq : i = j
    · subst heq
      simp
    · have hne : (place i == place j) = false := by simpa using h.injective.ne heq
      rw [hne, beq_false_of_ne heq]

end Relocation

open Relocation

/-- A vocabulary with its token rules at other places. -/
def Vocabulary.relocate (place : Nat → Nat) (v : Vocabulary) : Vocabulary :=
  { v with named := relocated place v.named }

/-- Terminals with their token rules at other places. -/
def Terminals.relocate (place : Nat → Nat) (t : Terminals) : Terminals :=
  { t with
    vocabulary := t.vocabulary.relocate place
    definitions := relocated place t.definitions }

/-! ### Terminals are numbered alike -/

namespace Relocation

variable {g other : Grammar} {place : Nat → Nat} {defined : TokenDefinitions} {owner : String}

/-- So a token rule has the same terminal at both places. -/
theorem terminalOf? (h : Relocation g other place) (v : Vocabulary) (i : Nat) :
    (v.relocate place).terminalOf? (place i) = v.terminalOf? i :=
  h.lookup_relocated v.named i

/-- Each step of numbering terminals does the same at other places. A token rule gets the next terminal. -/
theorem addNamed (h : Relocation g other place) (v : Vocabulary) (i : Nat) :
    Vocabulary.addNamed other (relocated place defined) (v.relocate place) (place i) =
      (Vocabulary.addNamed g defined v i).relocate place := by
  rw [Vocabulary.addNamed, Vocabulary.addNamed, h.terminalOf?, h.rules, h.lookup_relocated]
  split
  · rfl
  split
  · simp only [Vocabulary.relocate, relocated, List.map_append, List.map_cons, List.map_nil]
    rfl
  · rfl

/-- Tokens without a rule are added without looking at places. -/
theorem addAnonymous (v : Vocabulary) (r : Rule) (owner : String) :
    (v.relocate place).addAnonymous r owner = (v.addAnonymous r owner).map (·.relocate place) := by
  have hcount : (v.relocate place).count owner = v.count owner := rfl
  have hfound : ∀ definition, (v.relocate place).definedAs? definition = v.definedAs? definition :=
    fun _ => rfl
  simp only [Vocabulary.addAnonymous, hcount, hfound]
  split
  · rfl
  split
  · rfl
  · simp only [Except.map]
    split <;> rfl

/-- The rule that a text stands for is the relocated one. -/
theorem textRule? (h : Relocation g other place) {text : String}
    (htext : other.textRule? text = (g.textRule? text).map place) :
    Vocabulary.textRule? other (relocated place defined) text =
      (Vocabulary.textRule? g defined text).map place := by
  rw [Vocabulary.textRule?, htext, Option.filter_map, Vocabulary.textRule?]
  congr 2
  funext i
  exact congrArg Option.isSome (h.lookup_relocated defined i)

/-- So tokens in phrases are added alike. -/
theorem addInline (h : Relocation g other place) (v : Vocabulary) {r : Rule}
    (htext : ∀ text, r = .literal text → other.textRule? text = (g.textRule? text).map place) :
    Vocabulary.addInline other (relocated place defined) (v.relocate place) r owner =
      (Vocabulary.addInline g defined v r owner).map (·.relocate place) := by
  cases r with
  | literal text =>
    simp only [Vocabulary.addInline, h.textRule? (htext text rfl)]
    cases Vocabulary.textRule? g defined text with
    | none => exact addAnonymous v _ owner
    | some i => exact congrArg Except.ok (h.addNamed v i)
  | _ =>
    simp only [Vocabulary.addInline]
    exact addAnonymous v _ owner

/-- They are found alike when the phrases are flattened. -/
theorem inlineTerminal? (h : Relocation g other place) (v : Vocabulary) {r : Rule}
    (htext : ∀ text, r = .literal text → other.textRule? text = (g.textRule? text).map place) :
    Vocabulary.inlineTerminal? other (relocated place defined) (v.relocate place) r =
      Vocabulary.inlineTerminal? g defined v r := by
  cases r with
  | literal text =>
    simp only [Vocabulary.inlineTerminal?, h.textRule? (htext text rfl)]
    cases Vocabulary.textRule? g defined text with
    | none => rfl
    | some i => exact h.terminalOf? v i
  | _ => rfl

/-- The part of a phrase is kept. -/
theorem Keeps.of_subset {r part : Rule} (h : Keeps g other place r)
    (hreferences : part.references ⊆ r.references) (htexts : part.inlineTexts ⊆ r.inlineTexts) :
    Keeps g other place part where
  references := fun name hname => h.references name (hreferences hname)
  texts := fun text htext => h.texts text (htexts htext)

/-- What a member of a sequence or choice names, the sequence or choice names. -/
theorem subset_of_mem_members {r : Rule} {rs : List Rule} (hr : r ∈ rs) :
    r.references ⊆ Rule.referencesOf rs ∧ r.inlineTexts ⊆ Rule.inlineTextsOf rs := by
  induction rs with
  | nil => cases hr
  | cons first rest ih =>
    rw [Rule.referencesOf, Rule.inlineTextsOf]
    rcases List.mem_cons.mp hr with rfl | hr
    · exact ⟨List.subset_append_left .., List.subset_append_left ..⟩
    · obtain ⟨hreferences, htexts⟩ := ih hr
      exact ⟨List.subset_append_of_subset_right _ hreferences,
        List.subset_append_of_subset_right _ htexts⟩

/-- What a phrase refers to is kept for its parts. -/
theorem Keeps.ofSeq {rs : List Rule} (h : Keeps g other place (.seq rs)) :
    ∀ r ∈ rs, Keeps g other place r := by
  intro r hr
  obtain ⟨hreferences, htexts⟩ := subset_of_mem_members hr
  refine h.of_subset ?_ ?_
  · rwa [Rule.references]
  · rwa [Rule.inlineTexts]

theorem Keeps.ofChoice {rs : List Rule} (h : Keeps g other place (.choice rs)) :
    ∀ r ∈ rs, Keeps g other place r := by
  intro r hr
  obtain ⟨hreferences, htexts⟩ := subset_of_mem_members hr
  refine h.of_subset ?_ ?_
  · rwa [Rule.references]
  · rwa [Rule.inlineTexts]

/-- A phrase that only encloses another one keeps what that keeps. -/
theorem Keeps.content {r content : Rule} (h : Keeps g other place r)
    (hreferences : r.references = content.references)
    (htexts : r.inlineTexts = content.inlineTexts) : Keeps g other place content where
  references := hreferences ▸ h.references
  texts := htexts ▸ h.texts

mutual

/-- The tokens in a phrase are added in the order they are written, by induction on the phrase. -/
theorem addPhrase (h : Relocation g other place) (v : Vocabulary) (r : Rule)
    (hkeeps : Keeps g other place r) :
    Vocabulary.addPhrase other (relocated place defined) owner (v.relocate place) r =
      (Vocabulary.addPhrase g defined owner v r).map (·.relocate place) := by
  cases r with
  | blank =>
    rw [Vocabulary.addPhrase, Vocabulary.addPhrase]
    rfl
  | literal text =>
    rw [Vocabulary.addPhrase, Vocabulary.addPhrase]
    refine h.addInline v fun written hwritten => ?_
    exact hkeeps.texts written (by rw [hwritten, Rule.inlineTexts]; exact List.mem_singleton_self _)
  | pattern | token =>
    rw [Vocabulary.addPhrase, Vocabulary.addPhrase]
    exact h.addInline v fun _ hwritten => nomatch hwritten
  | reference name =>
    rw [Vocabulary.addPhrase, Vocabulary.addPhrase,
      hkeeps.references name (by rw [Rule.references]; exact List.mem_singleton_self _)]
    cases g.ruleIndex? name with
    | none => rfl
    | some i =>
      simp only [Option.map_some, h.isLexicalAt, h.addNamed]
      split <;> rfl
  | seq members =>
    rw [Vocabulary.addPhrase, Vocabulary.addPhrase]
    exact addPhrases h v members hkeeps.ofSeq
  | choice members =>
    rw [Vocabulary.addPhrase, Vocabulary.addPhrase]
    exact addPhrases h v members hkeeps.ofChoice
  | zeroOrMore content | oneOrMore content | field _ content | prec _ _ content =>
    rw [Vocabulary.addPhrase, Vocabulary.addPhrase]
    exact addPhrase h v content (hkeeps.content (by rw [Rule.references]) (by rw [Rule.inlineTexts]))

theorem addPhrases (h : Relocation g other place) (v : Vocabulary) (rs : List Rule)
    (hkeeps : ∀ r ∈ rs, Keeps g other place r) :
    Vocabulary.addPhrases other (relocated place defined) owner (v.relocate place) rs =
      (Vocabulary.addPhrases g defined owner v rs).map (·.relocate place) := by
  cases rs with
  | nil =>
    rw [Vocabulary.addPhrases, Vocabulary.addPhrases]
    rfl
  | cons r rs =>
    obtain ⟨hfirst, hrest⟩ := List.forall_mem_cons.mp hkeeps
    rw [Vocabulary.addPhrases_cons, Vocabulary.addPhrases_cons, addPhrase h v r hfirst]
    cases Vocabulary.addPhrase g defined owner v r with
    | error e => rfl
    | ok v => exact addPhrases h v rs hrest

end

/-- The tokens of all phrase rules are added alike. -/
theorem addPhraseRules (h : Relocation g other place) {places : List Nat} (v : Vocabulary)
    (hkeeps : ∀ i ∈ places, ∀ name r, g.rules[i]? = some (name, r) → Keeps g other place r) :
    Vocabulary.addPhraseRules other (relocated place defined) (v.relocate place) (places.map place) =
      (Vocabulary.addPhraseRules g defined v places).map (·.relocate place) := by
  induction places generalizing v with
  | nil => rfl
  | cons i rest ih =>
    obtain ⟨hfirst, hrest⟩ := List.forall_mem_cons.mp hkeeps
    cases hrule : g.rules[i]? with
    | none =>
      rw [List.map_cons, Vocabulary.addPhraseRules, h.rules, Vocabulary.addPhraseRules, hrule]
      exact ih v hrest
    | some entry =>
      obtain ⟨name, r⟩ := entry
      rw [List.map_cons, Vocabulary.addPhraseRules_cons hrule,
        Vocabulary.addPhraseRules_cons ((h.rules i).trans hrule), h.addPhrase v r (hfirst name r hrule)]
      cases Vocabulary.addPhrase g defined name v r with
      | error e => rfl
      | ok v => exact ih v hrest

/-- Whether the names and the text of an extra stand for the same rules in both grammars. -/
structure KeepsExtra (g other : Grammar) (place : Nat → Nat) (extra : Rule) : Prop where
  references : ∀ name ∈ extra.references, other.ruleIndex? name = (g.ruleIndex? name).map place
  text : ∀ text, extra = .literal text → other.textRule? text = (g.textRule? text).map place

/-- An extra is looked up, or added, alike. -/
theorem addExtra (h : Relocation g other place) (v : Vocabulary) {extra : Rule}
    (hkeeps : KeepsExtra g other place extra) :
    Vocabulary.addExtra other (relocated place defined) (v.relocate place) extra =
      (Vocabulary.addExtra g defined v extra).map fun made => (made.1.relocate place, made.2) := by
  cases extra with
  | reference name =>
    rw [Vocabulary.addExtra, Vocabulary.addExtra, h.externalIndex?,
      hkeeps.references name (by rw [Rule.references]; exact List.mem_singleton_self _)]
    cases g.externalIndex? name with
    | some external => rfl
    | none =>
      cases g.ruleIndex? name with
      | none => rfl
      | some i =>
        simp only [Option.map_some, h.isLexicalAt, h.addNamed, h.terminalOf?]
        split <;> rfl
  | _ =>
    rw [Vocabulary.addExtra_of_inline (by simp), Vocabulary.addExtra_of_inline (by simp),
      h.addInline v hkeeps.text]
    cases Vocabulary.addInline g defined v _ "extras" with
    | error e => rfl
    | ok v =>
      simp only [Except.map, bind, Except.bind, h.inlineTerminal? v hkeeps.text]

/-- So are all extras. -/
theorem addExtras (h : Relocation g other place) {extras : List Rule} (v : Vocabulary)
    (found : List Symbol) (hkeeps : ∀ extra ∈ extras, KeepsExtra g other place extra) :
    Vocabulary.addExtras other (relocated place defined) (v.relocate place) found extras =
      (Vocabulary.addExtras g defined v found extras).map
        fun made => (made.1.relocate place, made.2) := by
  induction extras generalizing v found with
  | nil => rfl
  | cons extra rest ih =>
    obtain ⟨hfirst, hrest⟩ := List.forall_mem_cons.mp hkeeps
    rw [Vocabulary.addExtras_cons, Vocabulary.addExtras_cons, h.addExtra v hfirst]
    cases Vocabulary.addExtra g defined v extra with
    | error e => rfl
    | ok made => exact ih made.1 _ hrest

/-- All token rules are added alike. -/
theorem foldl_addNamed (h : Relocation g other place) (places : List Nat) (v : Vocabulary) :
    (places.map place).foldl (Vocabulary.addNamed other (relocated place defined))
        (v.relocate place) =
      (places.foldl (Vocabulary.addNamed g defined) v).relocate place := by
  induction places generalizing v with
  | nil => rfl
  | cons i rest ih =>
    rw [List.map_cons, List.foldl_cons, h.addNamed, ih, List.foldl_cons]

/-- The definitions of token rules are noted for the relocated places. -/
theorem defineTokens (h : Relocation g other place) (places : List Nat) (defined : TokenDefinitions) :
    other.defineTokens (relocated place defined) (places.map place) =
      (g.defineTokens defined places).map (relocated place) := by
  induction places generalizing defined with
  | nil => rfl
  | cons i rest ih =>
    rw [List.map_cons, Grammar.defineTokens, h.rules, Grammar.defineTokens]
    split
    · exact ih defined
    rename_i name r hrule
    cases r.tokenPattern name with
    | error e => rfl
    | ok definition =>
      have hfound : (relocated place defined).find? (fun entry => entry.2 = definition) =
          (defined.find? fun entry => entry.2 = definition).map
            fun entry => (place entry.1, entry.2) := by
        rw [relocated, List.find?_map]
        rfl
      simp only [bind, Except.bind, hfound]
      cases defined.find? fun entry => entry.2 = definition with
      | some entry => simp only [Option.map_some, h.nameAt]; rfl
      | none =>
        have happend : relocated place defined ++ [(place i, definition)] =
            relocated place (defined ++ [(i, definition)]) := by
          simp [relocated]
        simp only [Option.map_none, happend]
        exact ih _

/-- Whether the rules that a grammar uses are those that another one uses, in order, and the names and
texts in them stand for the same rules. -/
structure Covers (g other : Grammar) (place : Nat → Nat) : Prop where
  tokens : other.tokenRules other.usedRules = (g.tokenRules g.usedRules).map place
  phrases : other.phraseRules other.usedRules = (g.phraseRules g.usedRules).map place
  keeps : ∀ i ∈ g.phraseRules g.usedRules, ∀ name r, g.rules[i]? = some (name, r) →
    Keeps g other place r
  extras : other.extras = g.extras
  keepsExtras : ∀ extra ∈ g.extras, KeepsExtra g other place extra
  word : other.word.bind other.ruleIndex? = (g.word.bind g.ruleIndex?).map place

/-- The terminals are the same apart from the places of token rules. -/
theorem terminals (h : Relocation g other place) (hcovers : Covers g other place) :
    other.terminals other.usedRules = (g.terminals g.usedRules).map (·.relocate place) := by
  have hdefine := h.defineTokens (g.tokenRules g.usedRules) []
  have hword : ∀ v : Vocabulary,
      (other.word.bind other.ruleIndex?).bind (v.relocate place).terminalOf? =
        (g.word.bind g.ruleIndex?).bind v.terminalOf? := by
    intro v
    rw [hcovers.word]
    cases g.word.bind g.ruleIndex? with
    | none => rfl
    | some i => exact h.terminalOf? v i
  have hinitial : (Vocabulary.initial g.externals).relocate place = .initial g.externals := rfl
  rw [Grammar.terminals, Grammar.terminals, hcovers.tokens, hcovers.phrases, hcovers.extras,
    h.externals]
  rw [show other.defineTokens [] ((g.tokenRules g.usedRules).map place) =
    (g.defineTokens [] (g.tokenRules g.usedRules)).map (relocated place) from hdefine]
  cases g.defineTokens [] (g.tokenRules g.usedRules) with
  | error e => rfl
  | ok defined =>
    have hphrases := @addPhraseRules g other place defined h _ (.initial g.externals) hcovers.keeps
    rw [hinitial] at hphrases
    simp only [Except.map, bind, Except.bind, hphrases]
    cases Vocabulary.addPhraseRules g defined (.initial g.externals) (g.phraseRules g.usedRules) with
    | error e => rfl
    | ok v =>
      simp only [h.addExtras v [] hcovers.keepsExtras]
      cases Vocabulary.addExtras g defined v [] g.extras with
      | error e => rfl
      | ok made =>
        have hsize : ∀ v : Vocabulary, (v.relocate place).terminals.size = v.terminals.size :=
          fun _ => rfl
        simp only [Except.map, h.foldl_addNamed, hword, hsize]
        by_cases hcount : 65535 ≤ (List.foldl (Vocabulary.addNamed g defined) made.1
            (g.tokenRules g.usedRules)).terminals.size
        · rw [if_pos hcount, if_pos hcount]
        · rw [if_neg hcount, if_neg hcount]
          rfl

end Relocation

/-! ### Rules are flattened alike -/

namespace Flatten

open Relocation

/-- What is known of a grammar with its rules at other places. -/
def Source.relocate (s : Source) (other : Grammar) (place : Nat → Nat) : Source where
  grammar := other
  terminals := s.terminals.relocate place
  phraseRules := s.phraseRules.map place

variable {s : Source} {other : Grammar} {place : Nat → Nat} {owner : Nat} {d : Draft}

/-- A phrase rule has the same phrase kind. -/
theorem phraseKind?_relocate (h : Relocation s.grammar other place) (i : Nat) :
    (s.relocate other place).phraseKind? (place i) = s.phraseKind? i := by
  rw [Source.phraseKind?, Source.relocate, List.findIdx?_map, Source.phraseKind?]
  congr 1
  funext j
  exact decide_eq_decide.mpr h.injective.eq_iff

/-- So names stand for the same symbols. -/
theorem symbolOf?_relocate (h : Relocation s.grammar other place) {name : String}
    (hname : other.ruleIndex? name = (s.grammar.ruleIndex? name).map place) :
    (s.relocate other place).symbolOf? name = s.symbolOf? name := by
  have hexternal : (s.relocate other place).grammar.externalIndex? name =
      s.grammar.externalIndex? name := h.externalIndex? name
  have hindex : (s.relocate other place).grammar.ruleIndex? name =
      (s.grammar.ruleIndex? name).map place := hname
  rw [Source.symbolOf?, hexternal, hindex, Source.symbolOf?]
  cases s.grammar.ruleIndex? name with
  | none => rfl
  | some i =>
    have hterminal : (s.relocate other place).terminals.vocabulary.terminalOf? (place i) =
        s.terminals.vocabulary.terminalOf? i := h.terminalOf? _ i
    simp only [Option.map_some, hterminal, phraseKind?_relocate h]
    rfl

/-- A token in a phrase is flattened to the same terminal. -/
theorem inlineToken_relocate (h : Relocation s.grammar other place) (ctx : Context) {r : Rule}
    (htext : ∀ text, r = .literal text →
      other.textRule? text = (s.grammar.textRule? text).map place) :
    inlineToken (s.relocate other place) ctx owner d r = inlineToken s ctx owner d r := by
  have hterminal : Vocabulary.inlineTerminal? (s.relocate other place).grammar
      (s.relocate other place).terminals.definitions (s.relocate other place).terminals.vocabulary r =
        Vocabulary.inlineTerminal? s.grammar s.terminals.definitions s.terminals.vocabulary r :=
    h.inlineTerminal? _ htext
  rw [inlineToken, hterminal, inlineToken]

mutual

/-- **Flattening does not depend on the places of rules**, nor do the errors it reports. -/
theorem alternatives_relocate (h : Relocation s.grammar other place) (ctx : Context) (owner : Nat)
    (d : Draft) (r : Rule) (hkeeps : Keeps s.grammar other place r) :
    alternatives (s.relocate other place) ctx owner d r = alternatives s ctx owner d r := by
  cases r with
  | blank => rw [alternatives, alternatives]
  | literal text =>
    rw [alternatives, alternatives]
    refine inlineToken_relocate h ctx fun written hwritten => ?_
    exact hkeeps.texts written (by rw [hwritten, Rule.inlineTexts]; exact List.mem_singleton_self _)
  | pattern | token =>
    rw [alternatives, alternatives]
    exact inlineToken_relocate h ctx fun _ hwritten => nomatch hwritten
  | reference name =>
    rw [alternatives, alternatives, symbolOf?_relocate h (hkeeps.references name
      (by rw [Rule.references]; exact List.mem_singleton_self _))]
  | seq members =>
    rw [alternatives, alternatives]
    exact sequences_relocate h ctx owner d _ members hkeeps.ofSeq
  | choice members =>
    rw [alternatives, alternatives]
    exact choices_relocate h ctx owner d members hkeeps.ofChoice
  | zeroOrMore content | oneOrMore content =>
    rw [alternatives, alternatives]
    simp only [alternatives_relocate h ctx _ _ content (hkeeps.content (by rw [Rule.references])
      (by rw [Rule.inlineTexts]))]
    rfl
  | field name content | prec assoc level content =>
    rw [alternatives, alternatives]
    exact alternatives_relocate h _ owner _ content (hkeeps.content (by rw [Rule.references])
      (by rw [Rule.inlineTexts]))

theorem sequences_relocate (h : Relocation s.grammar other place) (ctx : Context) (owner : Nat)
    (d : Draft) (front : List Alternative) (rs : List Rule)
    (hkeeps : ∀ r ∈ rs, Keeps s.grammar other place r) :
    sequences (s.relocate other place) ctx owner d front rs = sequences s ctx owner d front rs := by
  cases rs with
  | nil => rw [sequences, sequences]
  | cons r rs =>
    obtain ⟨hfirst, hrest⟩ := List.forall_mem_cons.mp hkeeps
    rw [sequences, sequences, alternatives_relocate h ctx owner d r hfirst]
    simp only [sequences_relocate h ctx owner _ _ rs hrest]

theorem choices_relocate (h : Relocation s.grammar other place) (ctx : Context) (owner : Nat)
    (d : Draft) (rs : List Rule) (hkeeps : ∀ r ∈ rs, Keeps s.grammar other place r) :
    choices (s.relocate other place) ctx owner d rs = choices s ctx owner d rs := by
  cases rs with
  | nil => rw [choices, choices]
  | cons r rs =>
    obtain ⟨hfirst, hrest⟩ := List.forall_mem_cons.mp hkeeps
    rw [choices, choices, alternatives_relocate h ctx owner d r hfirst]
    simp only [choices_relocate h ctx owner _ rs hrest]

end

/-- All rules together give the same draft. -/
theorem addRules_relocate (h : Relocation s.grammar other place) {rules : List (Nat × Rule)}
    (d : Draft) (hkeeps : ∀ e ∈ rules, Keeps s.grammar other place e.2) :
    addRules (s.relocate other place) d rules = addRules s d rules := by
  induction rules generalizing d with
  | nil => rfl
  | cons entry rest ih =>
    obtain ⟨hfirst, hrest⟩ := List.forall_mem_cons.mp hkeeps
    simp only [addRules, alternatives_relocate h _ _ _ _ hfirst, ih _ hrest]

/-- The phrase kinds of rules have the same names. -/
theorem phraseKinds_relocate (h : Relocation s.grammar other place) :
    phraseKinds (s.relocate other place) = phraseKinds s := by
  have hstart : ∀ i, decide (place i = 0) = decide (i = 0) := by
    intro i
    have heq : place i = place 0 ↔ i = 0 := h.injective.eq_iff
    rw [h.start] at heq
    exact decide_eq_decide.mpr heq
  simp only [phraseKinds, Source.relocate, List.map_map]
  congr 2
  funext i
  simp only [Function.comp_apply, h.nameAt, hstart]

end Flatten

/-- The rules that are flattened are the same, with the same phrase kinds. -/
theorem Relocation.kindedRules {g other : Grammar} {place : Nat → Nat}
    (h : Relocation g other place) (places : List Nat) :
    other.kindedRules (places.map place) = g.kindedRules places := by
  simp only [Grammar.kindedRules, List.zipIdx_map, List.filterMap_map]
  congr 1
  funext entry
  simp only [Function.comp_apply, Prod.map_fst, Prod.map_snd, h.rules, id]

end LRWorkbench
