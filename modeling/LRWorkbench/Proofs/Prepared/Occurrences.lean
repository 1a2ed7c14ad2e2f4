import LRWorkbench.Proofs.Prepared.Definitions
import LRWorkbench.Proofs.Prepared.Reached

/-!
# Tokens and names in phrases find their symbols

Phrases are gone through twice: their mentions give tokens their terminals, and when they are flattened
the symbols of their tokens and names are looked up. The second pass finds all that the first one left
behind, in every grammar whose names fit together and whose terminals are numbered
(`Grammar.resolves_of_terminals`):

- an inline token finds the terminal with its own regular expression and precedence, but for a text that
  is all that a token rule says, which finds the terminal of that rule (`Grammar.TokenOf`);
- a name finds the symbol of the external token, token rule or phrase rule that it stands for
  (`Grammar.StandsFor`).

Flattening fails for four reasons only (`Flatten.Refusal`). Two of them are a token and a name without a
symbol, so they never come up (`Grammar.lateRefusal_of_prepare`).
-/

namespace LRWorkbench

/-! ### Inline tokens -/

namespace Rule

mutual

/-- The tokens that are written in a phrase, each as a whole. -/
def inlineTokens : Rule → List Rule
  | literal text => [literal text]
  | pattern value flags => [pattern value flags]
  | token content => [token content]
  | seq members | choice members => inlineTokensOf members
  | zeroOrMore content | oneOrMore content | field _ content | prec _ _ content =>
    inlineTokens content
  | blank | reference _ => []

/-- The tokens that are written in some phrases. -/
def inlineTokensOf : List Rule → List Rule
  | [] => []
  | r :: rs => inlineTokens r ++ inlineTokensOf rs

end

mutual

/-- The inline tokens that are texts. -/
theorem mem_inlineTexts {text : String} (r : Rule) (h : literal text ∈ r.inlineTokens) :
    text ∈ r.inlineTexts := by
  cases r with
  | blank | reference => cases h
  | literal other =>
    rw [inlineTokens] at h
    obtain rfl := literal.inj (List.mem_singleton.mp h)
    exact List.mem_singleton_self _
  | pattern | token =>
    rw [inlineTokens] at h
    cases List.mem_singleton.mp h
  | seq members | choice members =>
    rw [inlineTokens] at h
    rw [inlineTexts]
    exact mem_inlineTextsOf members h
  | zeroOrMore content | oneOrMore content | field _ content | prec _ _ content =>
    rw [inlineTokens] at h
    rw [inlineTexts]
    exact mem_inlineTexts content h

/-- An inline text is an inline token like any other. -/
theorem mem_inlineTextsOf {text : String} (rs : List Rule) (h : literal text ∈ inlineTokensOf rs) :
    text ∈ inlineTextsOf rs := by
  cases rs with
  | nil => cases h
  | cons r rs =>
    rw [inlineTokensOf] at h
    rw [inlineTextsOf]
    exact List.mem_append.mpr ((List.mem_append.mp h).imp (mem_inlineTexts r) (mem_inlineTextsOf rs))

end

end Rule

namespace Mention

variable {g : Grammar} {defined : TokenDefinitions} {owner : String} {c : Rule}

mutual

/-- The inline tokens of a phrase are mentioned. -/
theorem ofInline_mem_ofPhrase (r : Rule) (h : c ∈ r.inlineTokens) :
    ofInline g defined owner c ∈ ofPhrase g defined owner r := by
  cases r with
  | blank | reference => cases h
  | literal | pattern | token =>
    rw [Rule.inlineTokens] at h
    rw [List.mem_singleton.mp h, ofPhrase]
    exact List.mem_singleton_self _
  | seq members | choice members =>
    rw [Rule.inlineTokens] at h
    rw [ofPhrase]
    exact ofInline_mem_ofPhrases members h
  | zeroOrMore content | oneOrMore content | field _ content | prec _ _ content =>
    rw [Rule.inlineTokens] at h
    rw [ofPhrase]
    exact ofInline_mem_ofPhrase content h

theorem ofInline_mem_ofPhrases (rs : List Rule) (h : c ∈ Rule.inlineTokensOf rs) :
    ofInline g defined owner c ∈ ofPhrases g defined owner rs := by
  cases rs with
  | nil => cases h
  | cons r rs =>
    rw [Rule.inlineTokensOf] at h
    rw [ofPhrases]
    exact List.mem_append.mpr
      ((List.mem_append.mp h).imp (ofInline_mem_ofPhrase r) (ofInline_mem_ofPhrases rs))

end

end Mention

/-! ### What is found -/

namespace Vocabulary

variable {g : Grammar} {defined : TokenDefinitions} {v v' : Vocabulary}

/-- Whether what is found in a vocabulary is what was looked for. -/
structure Points (g : Grammar) (defined : TokenDefinitions) (v : Vocabulary) : Prop where
  indexed : ∀ definition s, v.definedAs? definition = some s →
    ∃ t, v.terminals[s.index]? = some t ∧ t.definition? = some definition
  named : ∀ index s, v.terminalOf? index = some s → ∃ name r definition,
    g.rules[index]? = some (name, r) ∧ defined.lookup index = some definition ∧
      v.terminals[s.index]? = some
        ⟨name, .lexical definition.1 definition.2 r.literalBody?, isPublicName name⟩

/-- At first the vocabulary has the end of input and the external tokens only, and no inline token
was seen. -/
theorem points_initial (externals : List String) : Points g defined (initial externals) where
  indexed := fun _ _ h => by cases h
  named := fun _ _ h => by cases h

/-- Terminals stay where they are. -/
theorem getElem?_push {t t' : Terminal} {place : Nat} (h : v.terminals[place]? = some t') :
    (v.push t).terminals[place]? = some t' :=
  (Array.getElem?_push_lt (Array.getElem?_eq_some_iff.mp h).choose).trans
    (Array.getElem?_eq_getElem _ ▸ h)

theorem getElem?_push_nextSymbol (t : Terminal) :
    (v.push t).terminals[v.nextSymbol.index]? = some t :=
  Array.getElem?_push_size

/-- A terminal may be added, and be given to a token rule. -/
theorem Points.push (h : Points g defined v) {t : Terminal} {named : List (Nat × Symbol)}
    {counters : List (String × Nat)}
    (hnamed : ∀ index s, named.lookup index = some s → v.terminalOf? index = some s ∨
      s = v.nextSymbol ∧ ∃ name r definition, g.rules[index]? = some (name, r) ∧
        defined.lookup index = some definition ∧
        t = ⟨name, .lexical definition.1 definition.2 r.literalBody?, isPublicName name⟩) :
    Points g defined { v.push t with named := named, counters := counters } where
  indexed := by
    intro definition s hs
    have hold : v.definedAs? definition = some s →
        ∃ t', (v.push t).terminals[s.index]? = some t' ∧ t'.definition? = some definition := by
      intro hs
      obtain ⟨t', ht', hdefinition⟩ := h.indexed definition s hs
      exact ⟨t', getElem?_push ht', hdefinition⟩
    dsimp only [definedAs?, Vocabulary.push] at hs
    split at hs
    case h_2 => exact hold hs
    case h_1 other hother =>
    by_cases heq : definition = other
    · subst heq
      rw [TerminalIndex.find?_insert_self] at hs
      rcases Option.or_eq_some_iff.mp hs with hs | ⟨-, hs⟩
      · exact hold hs
      · obtain rfl := Option.some.inj hs
        exact ⟨t, getElem?_push_nextSymbol t, hother⟩
    · rw [TerminalIndex.find?_insert_of_ne heq] at hs
      exact hold hs
  named := by
    intro index s hs
    rcases hnamed index s hs with hs | ⟨rfl, name, r, definition, hrule, hdefinition, rfl⟩
    · obtain ⟨name, r, definition, hrule, hdefinition, ht⟩ := h.named index s hs
      exact ⟨name, r, definition, hrule, hdefinition, getElem?_push ht⟩
    · exact ⟨name, r, definition, hrule, hdefinition, getElem?_push_nextSymbol _⟩

/-- Additions to the vocabulary move no terminal, so whatever points to one goes on doing so. -/
theorem keeps_points : Keeps g defined (Points g defined) := by
  intro v v' m hv hadds
  cases hadds with
  | known | undefined | found => exact hv
  | text | pattern => exact hv.push fun _ _ hs => .inl hs
  | @rule index name r regex precedence hrule hdefinition hfresh =>
    refine hv.push fun other s hs => ?_
    rw [List.lookup_append, Option.or_eq_some_iff] at hs
    refine hs.imp_right fun ⟨_, hlast⟩ => ?_
    rw [List.lookup_cons] at hlast
    split at hlast
    case h_2 => cases hlast
    case h_1 heq =>
      obtain rfl := eq_of_beq heq
      exact ⟨(Option.some.inj hlast).symm, name, r, _, hrule, hdefinition, rfl⟩

/-- What is mentioned could be added. -/
theorem exists_adds_of_mem {mentions : List Mention}
    (hrun : mentions.foldlM (addMention g defined) v = .ok v') {m : Mention} (hm : m ∈ mentions) :
    ∃ before after, Adds g defined before m after := by
  induction mentions generalizing v with
  | nil => cases hm
  | cons first rest ih =>
    rw [List.foldlM_cons] at hrun
    obtain ⟨next, hnext, hrun⟩ := bind_eq_ok.mp hrun
    rcases List.mem_cons.mp hm with rfl | hm
    · exact ⟨v, next, adds_of_addMention hnext⟩
    · exact ih hrun hm

/-- An inline token that was added has a pattern. -/
theorem Adds.exists_tokenPattern {r : Rule} {owner : String}
    (h : Adds g defined v (.inline r owner) v') :
    ∃ definition, r.tokenPattern owner = .ok definition := by
  cases h with
  | found hpattern | text hpattern | pattern hpattern => exact ⟨_, hpattern⟩

end Vocabulary

namespace Grammar

variable {g : Grammar} {t : Terminals}

/-- This holds of the vocabulary with which the phrases are flattened. -/
theorem points_of_terminals {used : List Nat} (h : g.terminals used = .ok t) :
    t.vocabulary.Points g t.definitions := by
  obtain ⟨-, -, hkeeps⟩ := keeps_terminals h
  exact hkeeps _ Vocabulary.keeps_points (Vocabulary.points_initial _)

/-- A token rule that is used has the terminal of its name and pattern. -/
theorem exists_terminalOf? {used : List Nat} (h : g.terminals used = .ok t) {index : Nat}
    (hindex : index ∈ g.tokenRules used) : ∃ s name r definition,
      t.vocabulary.terminalOf? index = some s ∧ g.rules[index]? = some (name, r) ∧
      r.tokenPattern name = .ok definition ∧ t.vocabulary.terminals[s.index]? = some
        ⟨name, .lexical definition.1 definition.2 r.literalBody?, isPublicName name⟩ := by
  have hfit := fit_of_defineTokens (keeps_terminals h).1
  have hmention : .rule index ∈ g.mentions t.definitions used :=
    List.mem_append_right _ (List.mem_map_of_mem hindex)
  obtain ⟨s, hs⟩ := Option.isSome_iff_exists.mp
    (((after_of_terminals h).named index).mpr ⟨hmention, hfit.isSome_lookup hindex⟩)
  obtain ⟨name, r, definition, hrule, hlookup, ht⟩ := (points_of_terminals h).named index s hs
  obtain ⟨name', r', hrule', hpattern⟩ :=
    hfit.pattern _ (TokenDefinitions.Fit.mem_of_lookup hlookup)
  obtain ⟨rfl, rfl⟩ := Prod.mk.inj (Option.some.inj (hrule'.symm.trans hrule))
  exact ⟨s, name', r', definition, hs, hrule, hpattern, ht⟩

/-- Whether a terminal is the one for an inline token. -/
inductive TokenOf (g : Grammar) : Rule → Terminal → Prop
  /-- A text that is all that a token rule says stands for the first such rule. -/
  | rule {text : String} {index : Nat} {name : String} {r : Rule} {definition : String × Int} :
    g.textRule? text = some index → index ∈ g.tokenRules g.usedRules →
    g.rules[index]? = some (name, r) → r.tokenPattern name = .ok definition →
    TokenOf g (.literal text)
      ⟨name, .lexical definition.1 definition.2 r.literalBody?, isPublicName name⟩
  /-- All other tokens stand for themselves. -/
  | own {c : Rule} {t : Terminal} {definition : String × Int} :
    (∀ text, c = .literal text → ∀ index ∈ g.tokenRules g.usedRules, ∀ name r,
      g.rules[index]? = some (name, r) → r.literalBody? ≠ some text) →
    (∀ owner, c.tokenPattern owner = .ok definition) → t.definition? = some definition →
    TokenOf g c t

/-- Whether a symbol is the one for a name. -/
inductive StandsFor (g : Grammar) (t : Terminals) (name : String) : Symbol → Prop
  | external {index : Nat} : g.externals[index]? = some name →
    StandsFor g t name (Vocabulary.externalSymbol index)
  | token {index : Nat} {r : Rule} {definition : String × Int} {s : Symbol} :
    index ∈ g.tokenRules g.usedRules → g.rules[index]? = some (name, r) →
    r.tokenPattern name = .ok definition → t.vocabulary.terminals[s.index]? = some
      ⟨name, .lexical definition.1 definition.2 r.literalBody?, isPublicName name⟩ →
    StandsFor g t name s
  | phrase {index kind : Nat} {r : Rule} : g.rules[index]? = some (name, r) →
    (g.phraseRules g.usedRules)[kind]? = some index →
    StandsFor g t name ⟨t.vocabulary.terminals.size + kind⟩

theorem mem_usedRules_of_mem_phraseRules {i : Nat} (hi : i ∈ g.phraseRules g.usedRules) :
    i ∈ g.usedRules := by
  have hused := (Bool.and_eq_true_iff.mp (List.mem_filter.mp hi).2).1
  simpa using hused

/-- A rule that is used and lexical gets a terminal. -/
theorem mem_tokenRules {i : Nat} (hused : i ∈ g.usedRules) (hlexical : g.isLexicalAt i = true) :
    i ∈ g.tokenRules g.usedRules := by
  refine List.mem_filter.mpr ⟨List.mem_range.mpr (Nat.lt_of_not_le fun hle => ?_), ?_⟩
  · rw [isLexicalAt, List.getElem?_eq_none hle] at hlexical
    cases hlexical
  · simp [hused, hlexical]

/-- A text in a phrase that has no token rule to itself is not all that a used token rule says. -/
theorem literalBody?_ne_of_textRule? (h : g.terminals g.usedRules = .ok t) {i : Nat}
    (hi : i ∈ g.phraseRules g.usedRules) {name : String} {r : Rule}
    (hrule : g.rules[i]? = some (name, r)) {text : String} (htext : .literal text ∈ r.inlineTokens)
    (hnone : Vocabulary.textRule? g t.definitions text = none) {j : Nat} {other : String} {r' : Rule}
    (hrule' : g.rules[j]? = some (other, r')) : r'.literalBody? ≠ some text := by
  intro hbody
  obtain ⟨hlt, hother⟩ := List.getElem?_eq_some_iff.mp hrule'
  cases hfirst : g.textRule? text with
  | none =>
    have hall := List.findIdx?_eq_none_iff.mp hfirst _ (List.getElem_mem hlt)
    rw [hother] at hall
    exact of_decide_eq_false hall hbody
  | some first =>
    have hphrase : r.isLexical = false := by
      obtain ⟨_, _, hsame, hlexical⟩ := exists_of_mem_phraseRules hi
      rwa [isLexicalAt, hrule] at hlexical
    have hused := mem_usedRules_of_text (mem_usedRules_of_mem_phraseRules hi) hrule hphrase
      (Rule.mem_inlineTexts r htext) hfirst
    have hdefined := (fit_of_defineTokens (keeps_terminals h).1).isSome_lookup
      (mem_tokenRules hused (isLexicalAt_of_textRule? hfirst))
    rw [Vocabulary.textRule?, hfirst, Option.filter_some, if_pos hdefined] at hnone
    cases hnone

/-- Every token that is written in a phrase finds its terminal. -/
theorem exists_inlineTerminal? (h : g.terminals g.usedRules = .ok t) {i : Nat}
    (hi : i ∈ g.phraseRules g.usedRules) {name : String} {r : Rule}
    (hrule : g.rules[i]? = some (name, r)) {c : Rule} (hc : c ∈ r.inlineTokens) :
    ∃ s terminal, Vocabulary.inlineTerminal? g t.definitions t.vocabulary c = some s ∧
      t.vocabulary.terminals[s.index]? = some terminal ∧ g.TokenOf c terminal := by
  have hmention : Mention.ofInline g t.definitions name c ∈ g.mentions t.definitions g.usedRules := by
    refine List.mem_append_left _ (List.mem_append_left _ (List.mem_flatMap.mpr ⟨i, hi, ?_⟩))
    rw [mentionsAt, hrule]
    exact Mention.ofInline_mem_ofPhrase r hc
  -- the terminal of the token's own definition
  have hown : Mention.inline c name ∈ g.mentions t.definitions g.usedRules →
      ∃ definition s terminal, (∀ owner, c.tokenPattern owner = .ok definition) ∧
        (c.tokenPattern "").toOption.bind t.vocabulary.definedAs? = some s ∧
        t.vocabulary.terminals[s.index]? = some terminal ∧
        terminal.definition? = some definition := by
    intro hmention
    obtain ⟨-, -, hrun⟩ := foldlM_addMention_of_terminals h
    obtain ⟨_, _, hadds⟩ := Vocabulary.exists_adds_of_mem hrun hmention
    obtain ⟨definition, hpattern⟩ := hadds.exists_tokenPattern
    have hasks : (Mention.inline c name).asks t.definitions definition = true := by
      rw [Mention.asks_iff, Mention.definition?, hpattern]
      rfl
    obtain ⟨s, hs⟩ := Option.isSome_iff_exists.mp
      (((after_of_terminals h).indexed definition).trans (List.any_eq_true.mpr ⟨_, hmention, hasks⟩))
    obtain ⟨terminal, hterminal, hdefinition⟩ := (points_of_terminals h).indexed definition s hs
    refine ⟨definition, s, terminal, Rule.tokenPattern_owner hpattern, ?_, hterminal, hdefinition⟩
    rw [Rule.tokenPattern_owner hpattern]
    exact hs
  cases c with
  | literal text =>
    cases htext : Vocabulary.textRule? g t.definitions text with
    | some index =>
      have hindex := (Option.filter_eq_some_iff.mp htext).1
      have hdefined := (Option.filter_eq_some_iff.mp htext).2
      obtain ⟨definition, hlookup⟩ := Option.isSome_iff_exists.mp hdefined
      have hplace := (fit_of_defineTokens (keeps_terminals h).1).mem_places hlookup
      obtain ⟨s, _, _, _, hs, hrule', hpattern, hterminal⟩ := exists_terminalOf? h hplace
      refine ⟨s, _, ?_, hterminal, .rule hindex hplace hrule' hpattern⟩
      rw [Vocabulary.inlineTerminal?, htext]
      exact hs
    | none =>
      rw [Mention.ofInline, htext] at hmention
      obtain ⟨definition, s, terminal, hpattern, hs, hterminal, hdefinition⟩ := hown hmention
      refine ⟨s, terminal, ?_, hterminal, .own ?_ hpattern hdefinition⟩
      · rw [Vocabulary.inlineTerminal?, htext]
        exact hs
      · rintro _ hsame _ _ _ _ hrule'
        obtain rfl := Rule.literal.inj hsame
        exact literalBody?_ne_of_textRule? h hi hrule hc htext hrule'
  | _ =>
    obtain ⟨definition, s, terminal, hpattern, hs, hterminal, hdefinition⟩ := hown hmention
    exact ⟨s, terminal, hs, hterminal, .own (fun _ hsame => by cases hsame) hpattern hdefinition⟩

/-- Every name in a phrase finds its symbol. -/
theorem exists_symbolOf? (hnamed : g.checkNames = .ok ()) (h : g.terminals g.usedRules = .ok t)
    {i : Nat} (hi : i ∈ g.phraseRules g.usedRules) {owner : String} {r : Rule}
    (hrule : g.rules[i]? = some (owner, r)) {name : String} (hname : name ∈ r.references) :
    ∃ s, Flatten.Source.symbolOf? ⟨g, t, g.phraseRules g.usedRules⟩ name = some s ∧
      g.StandsFor t name s := by
  have hdefines : g.defines name = true :=
    checkReferences_eq_ok.mp (checkNames_eq_ok.mp hnamed).references (owner, r)
      (List.mem_of_getElem? hrule) name hname
  cases hexternal : g.externalIndex? name with
  | some index =>
    refine ⟨_, by rw [Flatten.Source.symbolOf?, hexternal], .external ?_⟩
    obtain ⟨hlt, hsame, -⟩ := List.findIdx?_eq_some_iff_getElem.mp hexternal
    rw [List.getElem?_eq_getElem hlt, of_decide_eq_true hsame]
  | none =>
  obtain ⟨index, hindex⟩ : ∃ index, g.ruleIndex? name = some index := by
    rw [defines, hexternal, Option.isSome_none, Bool.or_false] at hdefines
    exact Option.isSome_iff_exists.mp hdefines
  have hused := mem_usedRules_of_reference (mem_usedRules_of_mem_phraseRules hi) hrule hname hindex
  obtain ⟨hlt, hsame, -⟩ := List.findIdx?_eq_some_iff_getElem.mp hindex
  have hentry : g.rules[index]? = some (name, g.rules[index].2) := by
    rw [List.getElem?_eq_getElem hlt, ← of_decide_eq_true hsame]
  cases hlexical : g.isLexicalAt index with
  | true =>
    have hplace := mem_tokenRules hused hlexical
    obtain ⟨s, _, _, _, hs, hrule', hpattern, hterminal⟩ := exists_terminalOf? h hplace
    obtain ⟨rfl, rfl⟩ := Prod.mk.inj (Option.some.inj (hrule'.symm.trans hentry))
    refine ⟨s, ?_, .token hplace hrule' hpattern hterminal⟩
    simp only [Flatten.Source.symbolOf?, hexternal, hindex, hs]
  | false =>
    have hphrase : index ∈ g.phraseRules g.usedRules :=
      List.mem_filter.mpr ⟨List.mem_range.mpr hlt, by simp [hused, hlexical]⟩
    obtain ⟨kind, hkind⟩ := List.mem_iff_getElem?.mp hphrase
    exact ⟨_, symbolOf?_of_mem_phraseRules hnamed h hindex hkind, .phrase hentry hkind⟩

end Grammar

/-! ### Why flattening fails -/

namespace Flatten

variable {s : Source} {ctx : Context} {d : Draft} {e : GrammarError} {owner : Nat}

/-- Why rules with some tokens and names are refused when they are flattened. -/
inductive Refusal (s : Source) (tokens : List Rule) (names : List String) : GrammarError → Prop
  | symbols {count : Nat} : Refusal s tokens names (.tooManySymbols count)
  | alternatives {owner : String} : Refusal s tokens names (.unsupported ("rule `" ++ owner ++
      "` expands to more than " ++ toString maxAlternatives ++ " alternatives"))
  | token {c : Rule} {owner : String} : c ∈ tokens → s.inlineSymbol? c = none →
    Refusal s tokens names
      (.unsupported ("token in `" ++ owner ++ "` could not be resolved"))
  | reference {owner name : String} : name ∈ names → s.symbolOf? name = none →
    Refusal s tokens names (.undefinedSymbol owner name)

/-- The reasons of a part are reasons of the whole. -/
theorem Refusal.mono {tokens tokens' : List Rule} {names names' : List String}
    (h : Refusal s tokens names e) (htokens : tokens ⊆ tokens') (hnames : names ⊆ names') :
    Refusal s tokens' names' e := by
  cases h with
  | symbols => exact .symbols
  | alternatives => exact .alternatives
  | token hc hnone => exact .token (htokens hc) hnone
  | reference hname hnone => exact .reference (hnames hname) hnone

theorem exists_of_checkCount_eq_error (h : checkCount s d = .error e) :
    ∃ count, e = .tooManySymbols count := by
  dsimp only [checkCount] at h
  split at h
  · exact ⟨_, (Except.error.inj h).symm⟩
  · cases h

theorem exists_of_startHelper_eq_error (h : startHelper s owner d = .error e) :
    ∃ count, e = .tooManySymbols count := by
  refine exists_of_checkCount_eq_error ((bind_eq_error.mp h).resolve_right ?_)
  rintro ⟨_, -, h⟩
  cases h

/-- An inline token is refused only if it has no terminal. -/
theorem refusal_of_inlineToken {c : Rule} (h : inlineToken s ctx owner d c = .error e) :
    Refusal s [c] [] e := by
  rw [inlineToken] at h
  split at h
  case h_1 => cases h
  case h_2 hnone =>
    cases h
    exact .token (List.mem_singleton_self _) hnone

mutual

/-- A rule is refused for want of symbols, for its many alternatives, or for one of its own tokens or
names. -/
theorem refusal_of_alternatives {ctx : Context} {owner : Nat} {d : Draft} (r : Rule)
    (h : alternatives s ctx owner d r = .error e) : Refusal s r.inlineTokens r.references e := by
  cases r with
  | blank =>
    rw [alternatives] at h
    cases h
  | literal | pattern | token =>
    rw [alternatives] at h
    rw [Rule.inlineTokens]
    exact (refusal_of_inlineToken h).mono (List.Subset.refl _) (List.nil_subset _)
  | reference name =>
    rw [alternatives] at h
    split at h
    case h_1 => cases h
    case h_2 hnone =>
      cases h
      exact .reference (List.mem_singleton_self _) hnone
  | seq members =>
    rw [alternatives] at h
    rw [Rule.inlineTokens, Rule.references]
    exact refusal_of_sequences members h
  | choice members =>
    rw [alternatives] at h
    rw [Rule.inlineTokens, Rule.references]
    exact refusal_of_choices members h
  | zeroOrMore content | oneOrMore content =>
    rw [alternatives] at h
    rw [Rule.inlineTokens, Rule.references]
    rcases bind_eq_error.mp h with h | ⟨_, -, h⟩
    · obtain ⟨count, rfl⟩ := exists_of_startHelper_eq_error h
      exact .symbols
    · rcases bind_eq_error.mp h with h | ⟨_, -, h⟩
      · exact refusal_of_alternatives content h
      · cases h
  | field name content | prec assoc level content =>
    rw [alternatives] at h
    rw [Rule.inlineTokens, Rule.references]
    exact refusal_of_alternatives content h

/-- The part of `refusal_of_alternatives` about sequences. -/
theorem refusal_of_sequences {ctx : Context} {owner : Nat} {d : Draft} {front : List Alternative}
    (rs : List Rule) (h : sequences s ctx owner d front rs = .error e) :
    Refusal s (Rule.inlineTokensOf rs) (Rule.referencesOf rs) e := by
  cases rs with
  | nil =>
    rw [sequences] at h
    cases h
  | cons r rs =>
    rw [sequences] at h
    rw [Rule.inlineTokensOf, Rule.referencesOf]
    rcases bind_eq_error.mp h with h | ⟨next, -, h⟩
    · exact (refusal_of_alternatives r h).mono (List.subset_append_left ..)
        (List.subset_append_left ..)
    · dsimp only at h
      split at h
      · cases h
        exact .alternatives
      · exact (refusal_of_sequences rs h).mono (List.subset_append_right ..)
          (List.subset_append_right ..)

/-- The part of `refusal_of_alternatives` about choices. -/
theorem refusal_of_choices {ctx : Context} {owner : Nat} {d : Draft} (rs : List Rule)
    (h : choices s ctx owner d rs = .error e) :
    Refusal s (Rule.inlineTokensOf rs) (Rule.referencesOf rs) e := by
  cases rs with
  | nil =>
    rw [choices] at h
    cases h
  | cons r rs =>
    rw [choices] at h
    rw [Rule.inlineTokensOf, Rule.referencesOf]
    rcases bind_eq_error.mp h with h | ⟨next, -, h⟩
    · exact (refusal_of_alternatives r h).mono (List.subset_append_left ..)
        (List.subset_append_left ..)
    · rcases bind_eq_error.mp h with h | ⟨_, -, h⟩
      · exact (refusal_of_choices rs h).mono (List.subset_append_right ..)
          (List.subset_append_right ..)
      · cases h

end

/-- If rules are refused, one of them is. -/
theorem exists_refusal_of_addRules {rules : List (Nat × Rule)} (h : addRules s d rules = .error e) :
    ∃ entry ∈ rules, Refusal s entry.2.inlineTokens entry.2.references e := by
  induction rules generalizing d with
  | nil => cases h
  | cons entry rest ih =>
    rcases bind_eq_error.mp h with h | ⟨_, -, h⟩
    · exact ⟨entry, List.mem_cons_self .., refusal_of_alternatives entry.2 h⟩
    · obtain ⟨other, hother, hrefusal⟩ := ih h
      exact ⟨other, List.mem_cons_of_mem _ hother, hrefusal⟩

theorem exists_of_checkProductive_eq_error {terminalCount : Nat}
    (h : checkProductive terminalCount d = .error e) : ∃ name, e = .underivable name := by
  dsimp only [checkProductive] at h
  split at h
  · exact ⟨_, (Except.error.inj h).symm⟩
  · cases h

theorem exists_of_groupMembers_eq_error {names : List String} {found : List Nat}
    (h : groupMembers s found names = .error e) :
    ∃ name, e = .unsupported ("token `" ++ name ++ "` in a conflict group") := by
  induction names generalizing found with
  | nil => cases h
  | cons name rest ih =>
    rw [groupMembers] at h
    split at h
    · exact ih h
    · split at h
      · exact ⟨_, (Except.error.inj h).symm⟩
      · exact ih h

theorem exists_of_conflictGroups_eq_error {declared : List (List String)} {found : List (List Nat)}
    (h : conflictGroups s found declared = .error e) :
    ∃ name, e = .unsupported ("token `" ++ name ++ "` in a conflict group") := by
  induction declared generalizing found with
  | nil => cases h
  | cons names rest ih =>
    rcases bind_eq_error.mp h with h | ⟨_, -, h⟩
    · exact exists_of_groupMembers_eq_error h
    · exact ih h

end Flatten

namespace Grammar

open Flatten

variable {g : Grammar} {t : Terminals} {e : GrammarError}

/-- Why a grammar is refused once its terminals are numbered. No token and no name is to blame. -/
inductive LateRefusal : GrammarError → Prop
  | symbols {count : Nat} : LateRefusal (.tooManySymbols count)
  | alternatives {owner : String} : LateRefusal (.unsupported ("rule `" ++ owner ++
      "` expands to more than " ++ toString maxAlternatives ++ " alternatives"))
  | barren {name : String} : LateRefusal (.underivable name)
  | group {name : String} :
    LateRefusal (.unsupported ("token `" ++ name ++ "` in a conflict group"))

/-- **Where names fit together and terminals are numbered, no token and no name is to blame** for a
grammar that is refused. -/
theorem lateRefusal_of_prepare (hnamed : g.checkNames = .ok ())
    (ht : g.terminals g.usedRules = .ok t) (h : g.prepare = .error e) : LateRefusal e := by
  rw [prepare] at h
  obtain ⟨_, -, h⟩ := (bind_eq_error.mp h).resolve_left fun h => by cases hnamed.symm.trans h
  obtain ⟨terminals, hterminals, h⟩ :=
    (bind_eq_error.mp h).resolve_left fun h => by cases ht.symm.trans h
  obtain rfl := Except.ok.inj (ht.symm.trans hterminals)
  rcases bind_eq_error.mp h with h | ⟨_, -, h⟩
  · obtain ⟨count, rfl⟩ := exists_of_checkCount_eq_error h
    exact .symbols
  rcases bind_eq_error.mp h with h | ⟨d, -, h⟩
  · obtain ⟨entry, hentry, hrefusal⟩ := exists_refusal_of_addRules h
    obtain ⟨i, name, hi, hrule⟩ := mem_kindedRules.mp hentry
    have hi := List.mem_of_getElem? hi
    cases hrefusal with
    | symbols => exact .symbols
    | alternatives => exact .alternatives
    | token hc hnone =>
      obtain ⟨s, _, hs, -⟩ := exists_inlineTerminal? ht hi hrule hc
      cases hnone.symm.trans hs
    | reference hname hnone =>
      obtain ⟨s, hs, -⟩ := exists_symbolOf? hnamed ht hi hrule hname
      cases hnone.symm.trans hs
  rcases bind_eq_error.mp h with h | ⟨_, -, h⟩
  · obtain ⟨name, rfl⟩ := exists_of_checkProductive_eq_error h
    exact .barren
  rcases bind_eq_error.mp h with h | ⟨_, -, h⟩
  · obtain ⟨name, rfl⟩ := exists_of_conflictGroups_eq_error h
    exact .group
  · cases h

/-- A late refusal does not say that a token or a name was not found. -/
theorem LateRefusal.ne (h : LateRefusal e) :
    (∀ owner, e ≠ .unsupported ("token in `" ++ owner ++ "` could not be resolved")) ∧
      ∀ owner name, e ≠ .undefinedSymbol owner name := by
  constructor
  · intro owner heq
    -- the beginnings of the messages differ
    cases h with
    | symbols | barren => cases heq
    | alternatives =>
      have hletters := congrArg (·.toList.take 5) (GrammarError.unsupported.inj heq)
      simp at hletters
    | group =>
      have hletters := congrArg (·.toList.take 7) (GrammarError.unsupported.inj heq)
      simp at hletters
  · rintro owner name rfl
    cases h

/-- **Tokens and names in phrases find their symbols.** -/
theorem resolves_of_terminals (hnamed : g.checkNames = .ok ()) (ht : g.terminals g.usedRules = .ok t) :
    (∀ i ∈ g.phraseRules g.usedRules, ∀ name r, g.rules[i]? = some (name, r) →
      (∀ c ∈ r.inlineTokens, ∃ s terminal,
        Vocabulary.inlineTerminal? g t.definitions t.vocabulary c = some s ∧
          t.vocabulary.terminals[s.index]? = some terminal ∧ g.TokenOf c terminal) ∧
      ∀ other ∈ r.references, ∃ s,
        Source.symbolOf? ⟨g, t, g.phraseRules g.usedRules⟩ other = some s ∧
          g.StandsFor t other s) ∧
    (∀ owner, g.prepare ≠
      .error (.unsupported ("token in `" ++ owner ++ "` could not be resolved"))) ∧
    ∀ owner name, g.prepare ≠ .error (.undefinedSymbol owner name) :=
  ⟨fun _ hi _ _ hrule => ⟨fun _ hc => exists_inlineTerminal? ht hi hrule hc,
      fun _ hother => exists_symbolOf? hnamed ht hi hrule hother⟩,
    fun owner h => (lateRefusal_of_prepare hnamed ht h).ne.1 owner rfl,
    fun owner name h => (lateRefusal_of_prepare hnamed ht h).ne.2 owner name rfl⟩

/-- A phrase of a text, a token, a token rule and an external token. All that the rule `semi` says is the
text. -/
def statement : Grammar where
  name := "statement"
  rules := [("phrase", .seq [.literal ";", .token (.prec none 1 (.pattern "b" none)),
    .reference "word", .reference "heredoc"]), ("word", .pattern "a" none), ("semi", .literal ";")]
  extras := []
  conflicts := []
  externals := ["heredoc"]
  word := none

/-- The text finds the terminal of the rule `semi`. -/
theorem resolves_statement : ∃ t, statement.terminals statement.usedRules = .ok t ∧
    (∃ s terminal, Vocabulary.inlineTerminal? statement t.definitions t.vocabulary (.literal ";") =
        some s ∧ t.vocabulary.terminals[s.index]? = some terminal ∧ terminal.name = "semi") ∧
    (∃ s, Source.symbolOf? ⟨statement, t, statement.phraseRules statement.usedRules⟩ "heredoc" =
        some s ∧ statement.StandsFor t "heredoc" s) ∧
    ∀ owner name, statement.prepare ≠ .error (.undefinedSymbol owner name) := by
  have hnamed : statement.checkNames.toOption = some () := by decide +kernel
  have hnumbered : (statement.terminals statement.usedRules).toOption.isSome = true := by
    decide +kernel
  have hphrase : 0 ∈ statement.phraseRules statement.usedRules := by decide +kernel
  have hsemi : 2 ∈ statement.tokenRules statement.usedRules := by decide +kernel
  obtain ⟨t, ht⟩ := Option.isSome_iff_exists.mp hnumbered
  have ht := eq_ok_of_toOption ht
  obtain ⟨hfinds, -, hdefined⟩ := resolves_of_terminals (eq_ok_of_toOption hnamed) ht
  obtain ⟨htokens, hnames⟩ := hfinds 0 hphrase _ _ rfl
  obtain ⟨s, terminal, hs, hterminal, htoken⟩ := htokens (.literal ";") (List.mem_cons_self ..)
  refine ⟨t, ht, ⟨s, terminal, hs, hterminal, ?_⟩, hnames "heredoc" (by decide), hdefined⟩
  cases htoken with
  | rule hindex _ hrule =>
    obtain rfl := Option.some.inj (hindex.symm.trans (by decide : _ = some 2))
    exact (congrArg Prod.fst (Option.some.inj hrule)).symm
  | own hnot => exact absurd rfl (hnot ";" rfl 2 hsemi "semi" (.literal ";") rfl)

end Grammar

end LRWorkbench
