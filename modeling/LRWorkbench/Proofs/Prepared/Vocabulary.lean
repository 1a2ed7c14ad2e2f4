import LRWorkbench.Prepared.Vocabulary
import LRWorkbench.Proofs.Except
import Mathlib.Data.List.Nodup

/-!
# How vocabularies grow

A phrase, an extra or the list of token rules **mentions** tokens: that of a token rule, or an inline
token. Whatever phrases, extras and token rules a grammar has, its terminals come from one run over all
mentions in the order they are met (`Grammar.foldlM_addMention_of_terminals`). What every mention keeps
(`Vocabulary.Keeps`) holds of the terminals of the grammar once it holds of the end of the input and the
external tokens (`Grammar.keeps_terminals`).
-/

namespace LRWorkbench

/-! ### Owners -/

namespace Rule

mutual

/-- The name that is blamed for errors does not count where there are none. -/
theorem patternText_owner {owner text : String} (r : Rule) (h : r.patternText owner = .ok text)
    (other : String) : r.patternText other = .ok text := by
  cases r with
  | blank | literal =>
    rw [patternText] at h ⊢
    exact h
  | reference | field =>
    rw [patternText] at h
    cases h
  | pattern value flags =>
    rw [patternText, flaggedPattern] at h ⊢
    split at h
    case h_1 => cases h
    case h_2 => exact h
  | seq members | choice members =>
    rw [patternText] at h ⊢
    obtain ⟨parts, hparts, h⟩ := bind_eq_ok.mp h
    rw [patternTexts_owner members hparts other]
    exact h
  | zeroOrMore content | oneOrMore content =>
    rw [patternText] at h ⊢
    obtain ⟨part, hpart, h⟩ := bind_eq_ok.mp h
    rw [patternText_owner content hpart other]
    exact h
  | token content | prec _ _ content =>
    rw [patternText] at h ⊢
    exact patternText_owner content h other

/-- The owner of a token is only named in errors. -/
theorem patternTexts_owner {owner : String} {texts : List String} (rs : List Rule)
    (h : patternTexts owner rs = .ok texts) (other : String) :
    patternTexts other rs = .ok texts := by
  cases rs with
  | nil =>
    rw [patternTexts] at h ⊢
    exact h
  | cons r rs =>
    rw [patternTexts] at h ⊢
    obtain ⟨part, hpart, h⟩ := bind_eq_ok.mp h
    obtain ⟨parts, hparts, h⟩ := bind_eq_ok.mp h
    rw [patternText_owner r hpart other, patternTexts_owner rs hparts other]
    exact h

end

/-- What a token is defined by does not depend on where it stands. -/
theorem tokenPattern_owner {r : Rule} {owner : String} {definition : String × Int}
    (h : r.tokenPattern owner = .ok definition) (other : String) :
    r.tokenPattern other = .ok definition := by
  rw [tokenPattern] at h ⊢
  obtain ⟨text, htext, h⟩ := bind_eq_ok.mp h
  refine bind_eq_ok.mpr ⟨text, patternText_owner r htext other, ?_⟩
  split at h
  case h_1 => cases h
  case h_2 =>
    split at h
    case isTrue => cases h
    case isFalse hlength => rwa [if_neg hlength]

/-! ### Tokens refer to nothing -/

mutual

/-- Tokens refer to no rules. -/
theorem references_of_patternText {owner text : String} (r : Rule)
    (h : r.patternText owner = .ok text) : r.references = [] := by
  cases r with
  | blank | literal | pattern => rw [references]
  | reference | field =>
    rw [patternText] at h
    cases h
  | seq members | choice members =>
    rw [patternText] at h
    obtain ⟨texts, htexts, -⟩ := bind_eq_ok.mp h
    rw [references]
    exact references_of_patternTexts members htexts
  | zeroOrMore content | oneOrMore content =>
    rw [patternText] at h
    obtain ⟨text, htext, -⟩ := bind_eq_ok.mp h
    rw [references]
    exact references_of_patternText content htext
  | token content | prec _ _ content =>
    rw [patternText] at h
    rw [references]
    exact references_of_patternText content h

theorem references_of_patternTexts {owner : String} {texts : List String} (rs : List Rule)
    (h : patternTexts owner rs = .ok texts) : referencesOf rs = [] := by
  cases rs with
  | nil => rw [referencesOf]
  | cons r rs =>
    rw [patternTexts] at h
    obtain ⟨text, htext, h⟩ := bind_eq_ok.mp h
    obtain ⟨texts, htexts, -⟩ := bind_eq_ok.mp h
    rw [referencesOf, references_of_patternText r htext, references_of_patternTexts rs htexts]
    rfl

end

/-- The same for what a rule makes a token. -/
theorem references_of_tokenPattern {r : Rule} {owner : String} {definition : String × Int}
    (h : r.tokenPattern owner = .ok definition) : r.references = [] := by
  obtain ⟨text, htext, -⟩ := bind_eq_ok.mp h
  exact references_of_patternText r htext

end Rule

/-! ### The index of terminals -/

namespace TerminalIndex

/-- A terminal that is added is found by its definition, unless there was one before. -/
theorem find?_insert_self (definition : String × Int) (s : Symbol) (index : TerminalIndex) :
    (index.insert definition s).find? definition = (index.find? definition).or (some s) :=
  SearchTree.find?_insert_self isBelow definition s index

/-- Adding a terminal leaves those of other definitions. -/
theorem find?_insert_of_ne {definition other : String × Int} (hne : other ≠ definition) (s : Symbol)
    (index : TerminalIndex) : (index.insert definition s).find? other = index.find? other :=
  SearchTree.find?_insert_of_ne isBelow hne s index

end TerminalIndex

/-! ### Definitions of token rules -/

/-- Whether some token rules are defined, each by its pattern and no two alike. -/
structure TokenDefinitions.Fit (g : Grammar) (places : List Nat) (defined : TokenDefinitions) :
    Prop where
  places : defined.map (·.1) = places
  pattern : ∀ entry ∈ defined, ∃ name r, g.rules[entry.1]? = some (name, r) ∧
    r.tokenPattern name = .ok entry.2
  nodup : (defined.map (·.2)).Nodup

namespace TokenDefinitions.Fit

variable {g : Grammar} {places : List Nat} {defined made : TokenDefinitions}

/-- A definition that is found was noted. -/
theorem mem_of_lookup {index : Nat} {definition : String × Int}
    (h : defined.lookup index = some definition) : (index, definition) ∈ defined := by
  obtain ⟨front, back, hmade, -⟩ := List.lookup_eq_some_iff.mp h
  rw [hmade]
  exact List.mem_append_right _ (List.mem_cons_self ..)

/-- No two token rules are defined alike. -/
theorem eq_of_lookup (h : defined.Fit g places) {i j : Nat} {definition : String × Int}
    (hi : defined.lookup i = some definition) (hj : defined.lookup j = some definition) : i = j :=
  congrArg (·.1) (List.inj_on_of_nodup_map h.nodup (mem_of_lookup hi) (mem_of_lookup hj) rfl)

/-- Every token rule that is used has a definition. -/
theorem isSome_lookup (h : defined.Fit g places) {index : Nat} (hindex : index ∈ places) :
    (defined.lookup index).isSome = true := by
  rw [← h.places] at hindex
  obtain ⟨entry, hentry, rfl⟩ := List.mem_map.mp hindex
  exact List.lookup_isSome_iff.mpr ⟨entry, hentry, BEq.rfl⟩

/-- Only token rules that are used have one. -/
theorem mem_places (h : defined.Fit g places) {index : Nat} {definition : String × Int}
    (hlookup : defined.lookup index = some definition) : index ∈ places := by
  rw [← h.places]
  exact List.mem_map.mpr ⟨_, mem_of_lookup hlookup, rfl⟩

/-- A token rule is defined by its pattern. -/
theorem exists_lookup (h : defined.Fit g places) {index : Nat} (hindex : index ∈ places) :
    ∃ name r definition, g.rules[index]? = some (name, r) ∧
      defined.lookup index = some definition ∧ r.tokenPattern name = .ok definition := by
  obtain ⟨definition, hdefinition⟩ := Option.isSome_iff_exists.mp (h.isSome_lookup hindex)
  obtain ⟨name, r, hrule, hpattern⟩ := h.pattern _ (mem_of_lookup hdefinition)
  exact ⟨name, r, definition, hrule, hdefinition, hpattern⟩

/-- What is noted for a rule is its definition. -/
theorem lookup_of_mem (h : defined.Fit g places) (hplaces : places.Nodup)
    {entry : Nat × String × Int} (hentry : entry ∈ defined) :
    defined.lookup entry.1 = some entry.2 := by
  have hkeys : (defined.map (·.1)).Nodup := h.places ▸ hplaces
  have hindex : entry.1 ∈ places := h.places ▸ List.mem_map_of_mem hentry
  obtain ⟨definition, hdefinition⟩ := Option.isSome_iff_exists.mp (h.isSome_lookup hindex)
  have heq := List.inj_on_of_nodup_map hkeys hentry (mem_of_lookup hdefinition) rfl
  rw [hdefinition, congrArg Prod.snd heq]

/-- What is defined after some token rules goes on from them. -/
theorem of_defineTokens {more : List Nat} (h : defined.Fit g places)
    (hmore : ∀ i ∈ more, i < g.rules.length) (hmade : g.defineTokens defined more = .ok made) :
    made.Fit g (places ++ more) := by
  induction more generalizing places defined with
  | nil =>
    cases hmade
    rwa [List.append_nil]
  | cons i rest ih =>
    rw [Grammar.defineTokens, List.getElem?_eq_getElem (hmore i (List.mem_cons_self ..))] at hmade
    obtain ⟨definition, hdefinition, hmade⟩ := bind_eq_ok.mp hmade
    split at hmade
    case h_1 => cases hmade
    case h_2 hnew =>
    rw [List.append_cons]
    refine ih ⟨?_, ?_, ?_⟩ (fun j hj => hmore j (List.mem_cons_of_mem _ hj)) hmade
    · rw [List.map_append, h.places]
      rfl
    · intro entry hentry
      rcases List.mem_append.mp hentry with hentry | hentry
      · exact h.pattern entry hentry
      · rw [List.mem_singleton.mp hentry]
        exact ⟨_, _, List.getElem?_eq_getElem (hmore i (List.mem_cons_self ..)), hdefinition⟩
    · rw [List.map_append]
      refine List.nodup_append.mpr ⟨h.nodup, List.nodup_cons.mpr ⟨List.not_mem_nil, .nil⟩, ?_⟩
      rintro other hother _ hlast rfl
      obtain ⟨entry, hentry, hsame⟩ := List.mem_map.mp hother
      refine absurd ?_ (List.find?_eq_none.mp hnew entry hentry)
      exact decide_eq_true (hsame.trans (List.mem_singleton.mp hlast))

end TokenDefinitions.Fit

/-- No token rule is listed twice. -/
theorem Grammar.nodup_tokenRules (g : Grammar) (used : List Nat) : (g.tokenRules used).Nodup :=
  List.nodup_range.filter _

/-- The token rules that are used have definitions. -/
theorem Grammar.fit_of_defineTokens {g : Grammar} {used : List Nat} {defined : TokenDefinitions}
    (h : g.defineTokens [] (g.tokenRules used) = .ok defined) :
    defined.Fit g (g.tokenRules used) := by
  have hnone : TokenDefinitions.Fit g [] [] :=
    ⟨rfl, fun _ hentry => absurd hentry List.not_mem_nil, .nil⟩
  exact hnone.of_defineTokens (fun i hi => List.mem_range.mp (List.mem_filter.mp hi).1) h

/-! ### Mentions -/

/-- One place at which a grammar asks for a token. -/
inductive Mention where
  /-- The token of a token rule, by the rule's place. -/
  | rule (index : Nat)
  /-- A token that is written where it is asked for, in a rule of some name. -/
  | inline (r : Rule) (owner : String)

namespace Mention

/-- What an inline token asks for: a text that is all that a token rule says asks for that rule. -/
def ofInline (g : Grammar) (defined : TokenDefinitions) (owner : String) : Rule → Mention
  | .literal text =>
    match Vocabulary.textRule? g defined text with
    | some index => .rule index
    | none => .inline (.literal text) owner
  | r => .inline r owner

mutual

/-- What a phrase asks for, in the order it is written. -/
def ofPhrase (g : Grammar) (defined : TokenDefinitions) (owner : String) : Rule → List Mention
  | .blank => []
  | .literal text => [ofInline g defined owner (.literal text)]
  | .pattern value flags => [ofInline g defined owner (.pattern value flags)]
  | .token content => [ofInline g defined owner (.token content)]
  | .reference name =>
    match g.ruleIndex? name with
    | some index => if g.isLexicalAt index then [.rule index] else []
    | none => []
  | .seq members | .choice members => ofPhrases g defined owner members
  | .zeroOrMore content | .oneOrMore content | .field _ content | .prec _ _ content =>
    ofPhrase g defined owner content

/-- What several phrases ask for. -/
def ofPhrases (g : Grammar) (defined : TokenDefinitions) (owner : String) :
    List Rule → List Mention
  | [] => []
  | r :: rs => ofPhrase g defined owner r ++ ofPhrases g defined owner rs

end

/-- What an extra asks for. -/
def ofExtra (g : Grammar) (defined : TokenDefinitions) : Rule → List Mention
  | .reference name =>
    match g.externalIndex? name, g.ruleIndex? name with
    | none, some index => [.rule index]
    | _, _ => []
  | r => [ofInline g defined "extras" r]

/-- An extra that is no name is an inline token. -/
theorem ofExtra_of_inline {g : Grammar} {defined : TokenDefinitions} {extra : Rule}
    (h : ∀ name, extra ≠ .reference name) :
    ofExtra g defined extra = [ofInline g defined "extras" extra] := by
  cases extra with
  | reference name => exact absurd rfl (h name)
  | _ => rfl

end Mention

namespace Grammar

/-- What the rule at a place asks for. -/
def mentionsAt (g : Grammar) (defined : TokenDefinitions) (index : Nat) : List Mention :=
  match g.rules[index]? with
  | some (name, r) => Mention.ofPhrase g defined name r
  | none => []

/-- All that a grammar asks for: the phrases that are used, the extras, and the token rules that are
used. -/
def mentions (g : Grammar) (defined : TokenDefinitions) (used : List Nat) : List Mention :=
  (g.phraseRules used).flatMap (g.mentionsAt defined) ++
    g.extras.flatMap (Mention.ofExtra g defined) ++ (g.tokenRules used).map .rule

end Grammar

namespace Vocabulary

variable {g : Grammar} {defined : TokenDefinitions} {P : Vocabulary → Prop} {v v' : Vocabulary}
variable {owner : String}

/-- Gives what is asked for its terminal. -/
def addMention (g : Grammar) (defined : TokenDefinitions) (v : Vocabulary) :
    Mention → Except GrammarError Vocabulary
  | .rule index => .ok (addNamed g defined v index)
  | .inline r owner => v.addAnonymous r owner

/-! ### Parts one after the other -/

/-- Phrases are added one after the other. -/
theorem addPhrases_cons (v : Vocabulary) (r : Rule) (rs : List Rule) :
    addPhrases g defined owner v (r :: rs) =
      (addPhrase g defined owner v r >>= fun v => addPhrases g defined owner v rs) := by
  rw [addPhrases]
  cases addPhrase g defined owner v r <;> rfl

theorem addPhraseRules_cons {i : Nat} {name : String} {r : Rule} (h : g.rules[i]? = some (name, r))
    (v : Vocabulary) (rest : List Nat) : addPhraseRules g defined v (i :: rest) =
      (addPhrase g defined name v r >>= fun v => addPhraseRules g defined v rest) := by
  rw [addPhraseRules, h]
  dsimp only
  cases addPhrase g defined name v r <;> rfl

theorem addExtras_cons (v : Vocabulary) (found : List Symbol) (extra : Rule) (rest : List Rule) :
    addExtras g defined v found (extra :: rest) = (addExtra g defined v extra >>= fun made =>
      addExtras g defined made.1 (found ++ made.2.toList.filter (· ∉ found)) rest) := by
  rw [addExtras]
  cases addExtra g defined v extra <;> rfl

/-- An extra that is no reference is an inline token. -/
theorem addExtra_of_inline {extra : Rule} (h : ∀ name, extra ≠ .reference name) (v : Vocabulary) :
    addExtra g defined v extra = (addInline g defined v extra "extras" >>= fun v =>
      .ok (v, inlineTerminal? g defined v extra)) := by
  cases extra with
  | reference name => exact absurd rfl (h name)
  | _ =>
    simp only [addExtra]
    split <;> simp_all [bind, Except.bind]

/-! ### One run over all mentions -/

/-- Giving an inline token its terminal is what the mention of it says. -/
theorem addMention_ofInline (v : Vocabulary) (r : Rule) (owner : String) :
    addMention g defined v (.ofInline g defined owner r) = addInline g defined v r owner := by
  cases r with
  | literal text =>
    rw [Mention.ofInline, addInline]
    cases textRule? g defined text <;> rfl
  | _ => rfl

theorem foldlM_singleton (v : Vocabulary) (m : Mention) :
    [m].foldlM (addMention g defined) v = addMention g defined v m := by
  rw [List.foldlM_cons]
  exact bind_pure _

mutual

/-- The terminals of a phrase are those of its mentions. -/
theorem addPhrase_eq_foldlM (v : Vocabulary) (r : Rule) : addPhrase g defined owner v r =
    (Mention.ofPhrase g defined owner r).foldlM (addMention g defined) v := by
  cases r with
  | blank =>
    rw [addPhrase, Mention.ofPhrase]
    rfl
  | literal | pattern | token =>
    rw [addPhrase, Mention.ofPhrase, foldlM_singleton, addMention_ofInline]
  | reference name =>
    rw [addPhrase, Mention.ofPhrase]
    cases g.ruleIndex? name with
    | none => rfl
    | some index =>
      dsimp only
      split
      · rw [foldlM_singleton, addMention]
      · rfl
  | seq members | choice members =>
    rw [addPhrase, Mention.ofPhrase]
    exact addPhrases_eq_foldlM v members
  | zeroOrMore content | oneOrMore content | field _ content | prec _ _ content =>
    rw [addPhrase, Mention.ofPhrase]
    exact addPhrase_eq_foldlM v content

/-- Phrases add all that they mention, in order. -/
theorem addPhrases_eq_foldlM (v : Vocabulary) (rs : List Rule) :
    addPhrases g defined owner v rs =
      (Mention.ofPhrases g defined owner rs).foldlM (addMention g defined) v := by
  cases rs with
  | nil =>
    rw [addPhrases, Mention.ofPhrases]
    rfl
  | cons r rs =>
    rw [addPhrases_cons, Mention.ofPhrases, List.foldlM_append, addPhrase_eq_foldlM v r]
    congr
    funext v
    exact addPhrases_eq_foldlM v rs

end

/-- So do the phrase rules that are used. -/
theorem addPhraseRules_eq_foldlM (v : Vocabulary) (places : List Nat) :
    addPhraseRules g defined v places =
      (places.flatMap (g.mentionsAt defined)).foldlM (addMention g defined) v := by
  induction places generalizing v with
  | nil => rfl
  | cons i rest ih =>
    rw [List.flatMap_cons, List.foldlM_append, Grammar.mentionsAt]
    cases hrule : g.rules[i]? with
    | none =>
      rw [addPhraseRules, hrule]
      exact ih v
    | some entry =>
      rw [addPhraseRules_cons hrule, addPhrase_eq_foldlM]
      congr
      funext v
      exact ih v

/-- An extra adds what it mentions, if it can be one. -/
theorem foldlM_of_addExtra {extra : Rule} {s : Option Symbol}
    (h : addExtra g defined v extra = .ok (v', s)) :
    (Mention.ofExtra g defined extra).foldlM (addMention g defined) v = .ok v' := by
  cases extra with
  | reference name =>
    rw [addExtra] at h
    rw [Mention.ofExtra]
    cases hexternal : g.externalIndex? name with
    | some external =>
      rw [hexternal] at h
      cases h
      rfl
    | none =>
      rw [hexternal] at h
      cases hindex : g.ruleIndex? name with
      | none =>
        rw [hindex] at h
        cases h
        rfl
      | some index =>
        rw [hindex] at h
        dsimp only at h ⊢
        split at h
        case isTrue =>
          cases h
          rw [foldlM_singleton, addMention]
        case isFalse => cases h
  | _ =>
    rw [addExtra_of_inline (by simp)] at h
    obtain ⟨_, hinline, h⟩ := bind_eq_ok.mp h
    cases h
    rw [Mention.ofExtra_of_inline (by simp), foldlM_singleton, addMention_ofInline, hinline]

/-- So do all extras. -/
theorem foldlM_of_addExtras {extras : List Rule} {found found' : List Symbol}
    (h : addExtras g defined v found extras = .ok (v', found')) :
    (extras.flatMap (Mention.ofExtra g defined)).foldlM (addMention g defined) v = .ok v' := by
  induction extras generalizing v found with
  | nil =>
    cases h
    rfl
  | cons extra rest ih =>
    rw [addExtras_cons] at h
    obtain ⟨made, hmade, h⟩ := bind_eq_ok.mp h
    rw [List.flatMap_cons, List.foldlM_append, foldlM_of_addExtra hmade]
    exact ih h

/-- Token rules that no phrase mentions are added in the end. -/
theorem foldlM_rules (v : Vocabulary) (places : List Nat) :
    (places.map Mention.rule).foldlM (addMention g defined) v =
      .ok (places.foldl (addNamed g defined) v) := by
  induction places generalizing v with
  | nil => rfl
  | cons i rest ih =>
    rw [List.map_cons, List.foldlM_cons, addMention, List.foldl_cons]
    exact ih _

/-! ### What a mention does -/

/-- What a vocabulary may become by a mention. -/
inductive Adds (g : Grammar) (defined : TokenDefinitions) (v : Vocabulary) :
    Mention → Vocabulary → Prop
  /-- A token rule has one terminal only. -/
  | known {index : Nat} : (v.terminalOf? index).isSome = true → Adds g defined v (.rule index) v
  | undefined {index : Nat} : g.rules[index]? = none ∨ defined.lookup index = none →
    Adds g defined v (.rule index) v
  | rule {index : Nat} {name : String} {r : Rule} {regex : String} {precedence : Int} :
    g.rules[index]? = some (name, r) → defined.lookup index = some (regex, precedence) →
    v.terminalOf? index = none →
    Adds g defined v (.rule index)
      { v.push ⟨name, .lexical regex precedence r.literalBody?, isPublicName name⟩ with
        named := v.named ++ [(index, v.nextSymbol)] }
  /-- An inline token takes the terminal that is defined like it. -/
  | found {r : Rule} {owner : String} {definition : String × Int} :
    r.tokenPattern owner = .ok definition → (v.definedAs? definition).isSome = true →
    Adds g defined v (.inline r owner) v
  | text {text owner regex : String} {precedence : Int} :
    (Rule.literal text).tokenPattern owner = .ok (regex, precedence) →
    v.definedAs? (regex, precedence) = none →
    Adds g defined v (.inline (.literal text) owner)
      (v.push ⟨text, .lexical regex precedence (some text), false⟩)
  | pattern {r : Rule} {owner regex : String} {precedence : Int} {number : Nat}
    {counters : List (String × Nat)} : r.tokenPattern owner = .ok (regex, precedence) →
    v.definedAs? (regex, precedence) = none →
    Adds g defined v (.inline r owner)
      { v.push ⟨owner ++ "_token" ++ toString number, .lexical regex precedence none, false⟩ with
        counters := counters }

/-- A token rule is added once. -/
theorem adds_addNamed (v : Vocabulary) (index : Nat) :
    Adds g defined v (.rule index) (addNamed g defined v index) := by
  rw [addNamed]
  split
  case isTrue hknown => exact .known hknown
  case isFalse hfresh =>
  split
  case h_1 hrule hdefined =>
    exact .rule hrule hdefined (Option.not_isSome_iff_eq_none.mp hfresh)
  case h_2 hundefined =>
    refine .undefined ?_
    cases hrule : g.rules[index]? with
    | none => exact .inl rfl
    | some entry =>
      cases hdefined : defined.lookup index with
      | none => exact .inr rfl
      | some definition => exact absurd hdefined (hundefined _ _ _ _ hrule)

/-- A token without a rule is added once for each pattern. -/
theorem adds_of_addAnonymous {r : Rule} (h : v.addAnonymous r owner = .ok v') :
    Adds g defined v (.inline r owner) v' := by
  cases r with
  | literal text =>
    dsimp only [addAnonymous] at h
    split at h
    case h_1 => cases h
    case h_2 hpattern =>
    have hpattern := Rule.tokenPattern_owner hpattern owner
    split at h
    case isTrue hfound =>
      cases h
      exact .found hpattern hfound
    case isFalse hnew =>
      cases h
      exact .text hpattern (Option.not_isSome_iff_eq_none.mp hnew)
  | _ =>
    dsimp only [addAnonymous] at h
    split at h
    case h_1 => cases h
    case h_2 hpattern =>
    have hpattern := Rule.tokenPattern_owner hpattern owner
    split at h
    case isTrue hfound =>
      cases h
      exact .found hpattern hfound
    case isFalse hnew =>
      cases h
      exact .pattern hpattern (Option.not_isSome_iff_eq_none.mp hnew)

/-- So a mention changes the vocabulary in one of the ways that are listed. -/
theorem adds_of_addMention {m : Mention} (h : addMention g defined v m = .ok v') :
    Adds g defined v m v' := by
  cases m with
  | rule index =>
    cases h
    exact adds_addNamed v index
  | inline r owner => exact adds_of_addAnonymous h

/-! ### What is kept -/

/-- Mentions keep a property. -/
def Keeps (g : Grammar) (defined : TokenDefinitions) (P : Vocabulary → Prop) : Prop :=
  ∀ v v' m, P v → Adds g defined v m v' → P v'

namespace Keeps

/-- What every mention keeps is kept by all of them. -/
theorem foldlM_addMention (h : Keeps g defined P) (hv : P v) {mentions : List Mention}
    (hrun : mentions.foldlM (Vocabulary.addMention g defined) v = .ok v') : P v' := by
  induction mentions generalizing v with
  | nil =>
    cases hrun
    exact hv
  | cons m rest ih =>
    rw [List.foldlM_cons] at hrun
    obtain ⟨next, hnext, hrun⟩ := bind_eq_ok.mp hrun
    exact ih (h v next m hv (adds_of_addMention hnext)) hrun

/-- It is kept while the phrases are gone through. -/
theorem addPhraseRules (h : Keeps g defined P) (hv : P v) {rules : List Nat}
    (hadd : Vocabulary.addPhraseRules g defined v rules = .ok v') : P v' := by
  rw [addPhraseRules_eq_foldlM] at hadd
  exact h.foldlM_addMention hv hadd

/-- It is kept while an extra is looked up. -/
theorem addExtra (h : Keeps g defined P) (hv : P v) {extra : Rule} {s : Option Symbol}
    (hadd : Vocabulary.addExtra g defined v extra = .ok (v', s)) : P v' :=
  h.foldlM_addMention hv (foldlM_of_addExtra hadd)

/-- It is kept while the token rules are added. -/
theorem foldl_addNamed (h : Keeps g defined P) (hv : P v) (rules : List Nat) :
    P (rules.foldl (addNamed g defined) v) :=
  h.foldlM_addMention hv (foldlM_rules v rules)

end Keeps

end Vocabulary

namespace Grammar

variable {g : Grammar} {used : List Nat} {t : Terminals}

/-- **The terminals of a grammar come from one run over all that it mentions.** There are not too many
of them. -/
theorem foldlM_addMention_of_terminals (h : g.terminals used = .ok t) :
    g.defineTokens [] (g.tokenRules used) = .ok t.definitions ∧
      t.vocabulary.terminals.size < 65535 ∧
      (g.mentions t.definitions used).foldlM (Vocabulary.addMention g t.definitions)
        (.initial g.externals) = .ok t.vocabulary := by
  rw [terminals] at h
  obtain ⟨defined, hdefined, h⟩ := bind_eq_ok.mp h
  obtain ⟨v, hv, h⟩ := bind_eq_ok.mp h
  obtain ⟨⟨v', extras⟩, hv', h⟩ := bind_eq_ok.mp h
  dsimp only at h
  split at h
  case isTrue => cases h
  case isFalse hcount =>
    cases h
    refine ⟨hdefined, Nat.not_le.mp hcount, ?_⟩
    rw [Vocabulary.addPhraseRules_eq_foldlM] at hv
    rw [mentions, List.foldlM_append, List.foldlM_append, hv]
    refine bind_eq_ok.mpr ⟨v', Vocabulary.foldlM_of_addExtras hv', ?_⟩
    exact Vocabulary.foldlM_rules v' _

/-- **What mentions keep** holds of the terminals of a grammar, which are not too
many. -/
theorem keeps_terminals (h : g.terminals used = .ok t) :
    g.defineTokens [] (g.tokenRules used) = .ok t.definitions ∧
      t.vocabulary.terminals.size < 65535 ∧
      ∀ P : Vocabulary → Prop, Vocabulary.Keeps g t.definitions P →
        P (.initial g.externals) → P t.vocabulary := by
  obtain ⟨hdefined, hcount, hrun⟩ := foldlM_addMention_of_terminals h
  exact ⟨hdefined, hcount, fun P hkeeps hinitial => hkeeps.foldlM_addMention hinitial hrun⟩

end Grammar

end LRWorkbench
