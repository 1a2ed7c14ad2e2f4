import LRWorkbench.Grammar.Compile
import LRWorkbench.Proofs.Prepared.Draft
import LRWorkbench.Proofs.Prepared.WellFormed
import Mathlib.Data.List.Nodup

/-!
# What symbols are named after

The named symbols of a prepared grammar are named after external tokens and rules, which have names of
their own, or are helpers, which come last and are hidden (`Grammar.eq_of_isNamed`). Those that show by
their text, with no name, have texts of their own (`Grammar.eq_of_plain`): an inline token for a text
is only added if no terminal is defined like it.
-/

namespace LRWorkbench

/-! ### Names -/

theorem Grammar.nodup_of_firstRepeated? {seen names : List String}
    (h : firstRepeated? seen names = none) : names.Nodup ∧ ∀ n ∈ names, n ∉ seen := by
  induction names generalizing seen with
  | nil => exact ⟨.nil, fun _ hn => absurd hn List.not_mem_nil⟩
  | cons name names ih =>
    rw [firstRepeated?] at h
    split at h
    case isTrue => cases h
    case isFalse hfresh =>
      obtain ⟨hnodup, hnot⟩ := ih h
      refine ⟨List.nodup_cons.mpr ⟨fun hmem => hnot name hmem (List.mem_cons_self ..), hnodup⟩, ?_⟩
      rintro n (_ | ⟨_, hn⟩)
      · exact hfresh
      · exact fun hseen => hnot n hn (List.mem_cons_of_mem _ hseen)

theorem Grammar.firstRepeated?_eq_none {seen names : List String} (hnodup : names.Nodup)
    (hnew : ∀ n ∈ names, n ∉ seen) : firstRepeated? seen names = none := by
  induction names generalizing seen with
  | nil => rfl
  | cons name names ih =>
    obtain ⟨hfresh, hnodup⟩ := List.nodup_cons.mp hnodup
    rw [firstRepeated?, if_neg (hnew name (List.mem_cons_self ..))]
    refine ih hnodup fun n hn hseen => ?_
    rcases List.mem_cons.mp hseen with rfl | hseen
    · exact hfresh hn
    · exact hnew n (List.mem_cons_of_mem _ hn) hseen

/-- Rules are refused unless all that they refer to is defined. -/
theorem Grammar.checkReferences_eq_ok {g : Grammar} {rules : List (String × Rule)} :
    g.checkReferences rules = .ok () ↔
      ∀ e ∈ rules, ∀ name ∈ e.2.references, g.defines name = true := by
  induction rules with
  | nil => simp [checkReferences]
  | cons entry rest ih =>
    obtain ⟨owner, r⟩ := entry
    rw [checkReferences, List.forall_mem_cons, ← ih]
    cases hfound : g.undefinedIn? r with
    | some name =>
      refine iff_of_false (by intro h; cases h) fun h => ?_
      have hdefined := h.1 name (List.mem_of_find?_eq_some hfound)
      simpa [hdefined] using List.find?_some hfound
    | none =>
      have hall := List.find?_eq_none.mp hfound
      exact (and_iff_right fun name hname => by simpa using hall name hname).symm

/-- Whether the names of a grammar fit together. -/
structure Grammar.NamesFit (g : Grammar) : Prop where
  rules : firstRepeated? [] (g.rules.map (·.1)) = none
  externals : firstRepeated? (g.rules.map (·.1)) g.externals = none
  references : g.checkReferences g.rules = .ok ()
  extras : g.checkReferences (g.extras.map fun r => ("@extras", r)) = .ok ()
  conflicts : ∀ name ∈ g.conflicts.flatten, (g.ruleIndex? name).isSome
  start : ∃ start, g.rules.head? = some start ∧ start.2.isLexical = false
  word : ∀ name ∈ g.word.toList, ∃ i, g.ruleIndex? name = some i ∧ g.isLexicalAt i = true

theorem Grammar.checkRuleName_eq_ok {g : Grammar} {owner name : String} :
    g.checkRuleName owner name = .ok () ↔ (g.ruleIndex? name).isSome := by
  rw [checkRuleName]
  split
  case isTrue h => exact iff_of_true rfl h
  case isFalse h => exact iff_of_false nofun h

/-- A grammar is refused for its names unless they fit together. -/
theorem Grammar.checkNames_eq_ok {g : Grammar} : g.checkNames = .ok () ↔ g.NamesFit := by
  rw [checkNames]
  constructor
  · intro h
    split at h
    case h_2 => cases h
    case h_1 hstart =>
    dsimp only at h
    split at h
    case h_1 => cases h
    case h_2 hrules =>
    split at h
    case h_1 => cases h
    case h_2 hexternals =>
    obtain ⟨_, hreferences, h⟩ := bind_eq_ok.mp h
    obtain ⟨_, hextras, h⟩ := bind_eq_ok.mp h
    obtain ⟨_, -, h⟩ := bind_eq_ok.mp h
    obtain ⟨_, hconflicts, h⟩ := bind_eq_ok.mp h
    split at h
    case isTrue => cases h
    case isFalse hstartRule =>
    -- Checks go one after the other, so passing them means to pass each.
    refine ⟨Option.eq_none_iff_forall_ne_some.mpr hrules,
      Option.eq_none_iff_forall_ne_some.mpr hexternals, hreferences, hextras, ?_,
      ⟨_, hstart, eq_false_of_ne_true hstartRule⟩, ?_⟩
    · intro name hname
      exact checkRuleName_eq_ok.mp (forM_eq_ok.mp hconflicts name hname)
    · intro name hname
      have hword := forM_eq_ok.mp h name hname
      split at hword
      case isFalse => cases hword
      case isTrue hlexical =>
      cases hindex : g.ruleIndex? name with
      | none => simp [hindex] at hlexical
      | some i => exact ⟨i, rfl, by simpa [hindex] using hlexical⟩
  · intro h
    obtain ⟨⟨startName, startRule⟩, hstart, hstartRule⟩ := h.start
    have hword : ∀ name ∈ g.word.toList, g.checkRuleName "@word" name = .ok () := by
      intro name hname
      obtain ⟨i, hi, -⟩ := h.word name hname
      exact checkRuleName_eq_ok.mpr (hi ▸ rfl)
    rw [hstart, h.rules, h.externals]
    dsimp only
    rw [h.references, h.extras, forM_eq_ok.mpr hword, forM_eq_ok.mpr fun name hname =>
      checkRuleName_eq_ok.mpr (h.conflicts name hname)]
    have hstartRule : startRule.isLexical = false := hstartRule
    simp only [hstartRule]
    apply forM_eq_ok.mpr
    intro name hname
    obtain ⟨i, hi, hlexical⟩ := h.word name hname
    rw [hi, Option.map_some, Option.getD_some, if_pos hlexical]

/-- The names of the external tokens, then those of the rules. -/
def Grammar.names (g : Grammar) : List String := g.externals ++ g.rules.map (·.1)

/-- No two rules or external tokens share a name. -/
theorem Grammar.nodup_names {g : Grammar} (h : g.checkNames = .ok ()) : g.names.Nodup := by
  have hfit := checkNames_eq_ok.mp h
  obtain ⟨hrules, -⟩ := nodup_of_firstRepeated? hfit.rules
  obtain ⟨hexternals, hnew⟩ := nodup_of_firstRepeated? hfit.externals
  refine List.nodup_append.mpr ⟨hexternals, hrules, ?_⟩
  intro n hn m hm heq
  exact hnew n hn (heq ▸ hm)

/-! ### Terminals -/

namespace Terminal

/-- Whether a terminal shows in trees by a text that no rule is named after. -/
def IsText (t : Terminal) : Prop :=
  t.isNamed = false ∧ isPublicName t.name = true ∧ t.literal? = some t.name

end Terminal

namespace Vocabulary

variable {g : Grammar} {defined : TokenDefinitions} {v v' : Vocabulary} {owner : String}

/-- Where the terminal at a place comes from. -/
inductive Origin (g : Grammar) (named : List (Nat × Symbol)) (place : Nat) : Terminal → Prop
  | endOfInput : place = 0 → Origin g named place ⟨"end", .endOfInput, false⟩
  | external {index : Nat} {name : String} : g.externals[index]? = some name → place = index + 1 →
    Origin g named place ⟨name, .external, isPublicName name⟩
  | rule {index : Nat} {name : String} {r : Rule} {regex : String} {precedence : Int} :
    g.rules[index]? = some (name, r) → (index, ⟨place⟩) ∈ named →
    Origin g named place ⟨name, .lexical regex precedence r.literalBody?, isPublicName name⟩
  | text {text owner regex : String} {precedence : Int} :
    (Rule.literal text).tokenPattern owner = .ok (regex, precedence) →
    Origin g named place ⟨text, .lexical regex precedence (some text), false⟩
  | pattern {owner : String} {number : Nat} {regex : String} {precedence : Int} :
    Origin g named place ⟨owner ++ "_token" ++ toString number, .lexical regex precedence none, false⟩

theorem Origin.mono {named named' : List (Nat × Symbol)} {place : Nat} {t : Terminal}
    (h : Origin g named place t) (hsub : named ⊆ named') : Origin g named' place t := by
  cases h with
  | endOfInput h => exact .endOfInput h
  | external h hplace => exact .external h hplace
  | rule h hmem => exact .rule h (hsub hmem)
  | text h => exact .text h
  | pattern => exact .pattern

/-- What is known of the terminals met so far. -/
structure Traced (g : Grammar) (v : Vocabulary) : Prop where
  origin : ∀ (place : Nat) (t : Terminal), v.terminals[place]? = some t → Origin g v.named place t
  /-- No token rule has two terminals. -/
  nodup : (v.named.map (·.1)).Nodup
  lexical : ∀ entry ∈ v.named, g.isLexicalAt entry.1 = true
  indexed : ∀ (place : Nat) (t : Terminal) definition, v.terminals[place]? = some t →
    t.definition? = some definition → (v.index.find? definition).isSome = true
  /-- No two texts are the same. -/
  texts : ∀ (place place' : Nat) (t t' : Terminal), v.terminals[place]? = some t → v.terminals[place']? = some t' →
    t.IsText → t'.IsText → t.name = t'.name → place = place'

/-- A text is defined by what it says. -/
theorem Origin.definition_of_isText {named : List (Nat × Symbol)} {place : Nat} {t : Terminal}
    (h : Origin g named place t) (htext : t.IsText) (owner : String) :
    ∃ definition, t.definition? = some definition ∧
      (Rule.literal t.name).tokenPattern owner = .ok definition := by
  obtain ⟨hnamed, hpublic, hliteral⟩ := htext
  cases h with
  | endOfInput => cases hliteral
  | external => cases hliteral
  | rule => exact absurd (hpublic.symm.trans hnamed) Bool.true_eq_false.mp
  | text h => exact ⟨_, rfl, Rule.tokenPattern_owner h owner⟩
  | pattern => cases hliteral

theorem origin_initial {place : Nat} {t : Terminal}
    (h : (initial g.externals).terminals[place]? = some t) :
    Origin g [] place t ∧ t.definition? = none ∧ t.literal? = none := by
  rw [initial, List.getElem?_toArray] at h
  cases place with
  | zero =>
    obtain rfl := Option.some.inj h
    exact ⟨.endOfInput rfl, rfl, rfl⟩
  | succ index =>
    rw [List.getElem?_cons_succ, List.getElem?_map] at h
    obtain ⟨name, hname, rfl⟩ := Option.map_eq_some_iff.mp h
    exact ⟨.external hname rfl, rfl, rfl⟩

theorem traced_initial (g : Grammar) : Traced g (initial g.externals) where
  origin := fun _ _ ht => (origin_initial ht).1
  nodup := .nil
  lexical := fun _ h => absurd h List.not_mem_nil
  indexed := by
    intro place t definition ht hdefinition
    rw [(origin_initial ht).2.1] at hdefinition
    cases hdefinition
  texts := by
    intro place place' t t' ht _ htext
    have hliteral := htext.2.2
    rw [(origin_initial ht).2.2] at hliteral
    cases hliteral

/-- A terminal that is added is found by what it is defined by, as are those before it. -/
theorem isSome_find?_push {t : Terminal} {definition : String × Int}
    (h : t.definition? = some definition ∨ (v.index.find? definition).isSome = true) :
    ((v.push t).index.find? definition).isSome = true := by
  rw [Vocabulary.push]
  dsimp only
  split
  case h_1 other hother =>
    by_cases heq : definition = other
    · rw [heq, TerminalIndex.find?_insert_self]
      exact Option.isSome_or.trans (Bool.or_true _)
    · rw [TerminalIndex.find?_insert_of_ne heq]
      refine h.resolve_left fun hdefinition => heq ?_
      exact Option.some.inj (hdefinition.symm.trans hother)
  case h_2 hnone =>
    refine h.resolve_left fun hdefinition => ?_
    rw [hnone] at hdefinition
    cases hdefinition

/-- A terminal may be added that comes from somewhere and is not a text that is there. -/
theorem Traced.push (h : Traced g v) {t : Terminal} {named : List (Nat × Symbol)}
    {counters : List (String × Nat)} (hsub : v.named ⊆ named) (hnodup : (named.map (·.1)).Nodup)
    (hlexical : ∀ entry ∈ named, g.isLexicalAt entry.1 = true)
    (horigin : Origin g named v.terminals.size t)
    (htexts : t.IsText → ∀ (place : Nat) (t' : Terminal), v.terminals[place]? = some t' →
      t'.IsText → t'.name ≠ t.name) :
    Traced g { v.push t with named := named, counters := counters } where
  origin := by
    intro place t' ht'
    rw [Vocabulary.push, Array.getElem?_push] at ht'
    split at ht'
    case isTrue heq =>
      obtain rfl := Option.some.inj ht'
      exact heq ▸ horigin
    case isFalse => exact (h.origin place t' ht').mono hsub
  nodup := hnodup
  lexical := hlexical
  indexed := by
    intro place t' definition ht' hdefinition
    refine isSome_find?_push ?_
    rw [Vocabulary.push, Array.getElem?_push] at ht'
    split at ht'
    case isTrue =>
      obtain rfl := Option.some.inj ht'
      exact .inl hdefinition
    case isFalse => exact .inr (h.indexed place t' definition ht' hdefinition)
  texts := by
    intro place place' t₁ t₂ ht₁ ht₂ htext₁ htext₂ hname
    rw [Vocabulary.push, Array.getElem?_push] at ht₁ ht₂
    split at ht₁
    case isTrue heq₁ =>
      obtain rfl := Option.some.inj ht₁
      split at ht₂
      case isTrue heq₂ => rw [heq₁, heq₂]
      case isFalse => exact absurd hname.symm (htexts htext₁ place' t₂ ht₂ htext₂)
    case isFalse =>
      split at ht₂
      case isTrue heq₂ =>
        obtain rfl := Option.some.inj ht₂
        exact absurd hname (htexts htext₂ place t₁ ht₁ htext₁)
      case isFalse => exact h.texts place place' t₁ t₂ ht₁ ht₂ htext₁ htext₂ hname

/-- What a token rule is called may be added to what is known of the terminals, once. -/
theorem Traced.push_rule (h : Traced g v) {index : Nat} {name : String} {r : Rule} {regex : String}
    {precedence : Int} (hlexical : g.isLexicalAt index = true) (hrule : g.rules[index]? = some (name, r))
    (hfresh : v.terminalOf? index = none) :
    Traced g { v.push ⟨name, .lexical regex precedence r.literalBody?, isPublicName name⟩ with
      named := v.named ++ [(index, v.nextSymbol)] } := by
  refine h.push (List.subset_append_left ..) ?_ ?_ ?_ ?_
  · rw [List.map_append]
    refine List.nodup_append.mpr ⟨h.nodup, List.nodup_cons.mpr ⟨List.not_mem_nil, .nil⟩, ?_⟩
    rintro a ha b hb rfl
    obtain ⟨entry, hentry, hplace⟩ := List.mem_map.mp ha
    refine bne_iff_ne.mp (List.lookup_eq_none_iff.mp hfresh entry hentry) ?_
    rw [hplace, List.mem_singleton.mp hb]
  · intro entry hentry
    rcases List.mem_append.mp hentry with hentry | hentry
    · exact h.lexical entry hentry
    · rwa [List.mem_singleton.mp hentry]
  · exact .rule hrule (List.mem_append_right _ (List.mem_singleton_self _))
  · intro htext
    exact absurd (htext.2.1.symm.trans htext.1) Bool.true_eq_false.mp

theorem keeps_traced (hdefined : ∀ index definition, defined.lookup index = some definition →
    g.isLexicalAt index = true) : Keeps g defined (Traced g) := by
  intro v v' m h hadds
  cases hadds with
  | known | undefined | found => exact h
  | rule hrule hdefinition hfresh => exact h.push_rule (hdefined _ _ hdefinition) hrule hfresh
  | text hpattern hnew =>
    refine h.push (List.Subset.refl _) h.nodup h.lexical (.text hpattern) fun _ place t' ht' htext => ?_
    -- a text that is added is not defined like any terminal that is there
    rintro rfl
    obtain ⟨definition, hdefinition, hother⟩ :=
      (h.origin place t' ht').definition_of_isText htext t'.name
    obtain rfl := Except.ok.inj ((Rule.tokenPattern_owner hpattern _).symm.trans hother)
    have hfound := h.indexed place t' _ ht' hdefinition
    rw [← definedAs?, hnew] at hfound
    cases hfound
  | pattern =>
    refine h.push (List.Subset.refl _) h.nodup h.lexical .pattern fun htext => ?_
    cases htext.2.2

end Vocabulary

namespace Grammar

variable {g : Grammar} {prepared : PreparedGrammar}

/-- Where the terminals of a grammar come from is known. -/
theorem traced_of_terminals {used : List Nat} {t : Terminals} (h : g.terminals used = .ok t) :
    t.vocabulary.Traced g := by
  obtain ⟨hdefined, -, hkeeps⟩ := keeps_terminals h
  refine hkeeps _ (Vocabulary.keeps_traced fun index definition hlookup => ?_)
    (Vocabulary.traced_initial g)
  have hplace := (fit_of_defineTokens hdefined).mem_places hlookup
  rw [tokenRules, List.mem_filter, Bool.and_eq_true] at hplace
  exact hplace.2.2

end Grammar

/-! ### Symbols -/

/-- What is known of each symbol. -/
def PreparedGrammar.symbolInfos (g : PreparedGrammar) : Array SymbolInfo :=
  g.terminals.map terminalInfo ++ g.nonTerminals.map nonTerminalInfo

/-- Whether the symbol at a place is named after the external token or rule at an index of the names of
a grammar. -/
inductive Grammar.Bears (g : Grammar) (v : Vocabulary) (phrases : List Nat) (place : Nat) : Nat → Prop
  | external {index : Nat} : index < g.externals.length → place = index + 1 →
    Bears g v phrases place index
  | token {index rule : Nat} : g.isLexicalAt rule = true → (rule, ⟨place⟩) ∈ v.named →
    index = g.externals.length + rule → Bears g v phrases place index
  | phrase {index kind rule : Nat} : g.isLexicalAt rule = false → phrases[kind]? = some rule →
    place = v.terminals.size + kind → index = g.externals.length + rule →
    Bears g v phrases place index

namespace Grammar

variable {g : Grammar} {prepared : PreparedGrammar} {v : Vocabulary} {phrases : List Nat}
variable {place place' index : Nat}

/-- No two symbols are named after the same token or rule. -/
theorem Bears.eq (hv : v.Traced g) (hphrases : phrases.Nodup) (h : g.Bears v phrases place index)
    (h' : g.Bears v phrases place' index) : place = place' := by
  cases h with
  | external hindex hplace =>
    cases h' with
    | external _ hplace' => rw [hplace, hplace']
    | token _ _ hrule => omega
    | phrase _ _ _ hrule => omega
  | token hlexical hmem hindex =>
    cases h' with
    | external hrule => omega
    | token _ hmem' hrule =>
      obtain rfl := Nat.add_left_cancel (hindex.symm.trans hrule)
      have heq := List.inj_on_of_nodup_map hv.nodup hmem hmem' rfl
      exact congrArg (fun entry => entry.2.index) heq
    | phrase hphrase _ _ hrule =>
      obtain rfl := Nat.add_left_cancel (hindex.symm.trans hrule)
      rw [hlexical] at hphrase
      cases hphrase
  | phrase hphrase hkind hplace hindex =>
    cases h' with
    | external hrule => omega
    | token hlexical _ hrule =>
      obtain rfl := Nat.add_left_cancel (hindex.symm.trans hrule)
      rw [hlexical] at hphrase
      cases hphrase
    | phrase _ hkind' hplace' hrule =>
      obtain rfl := Nat.add_left_cancel (hindex.symm.trans hrule)
      have heq := (findIdx?_eq_of_nodup hphrases hkind).symm.trans
        (findIdx?_eq_of_nodup hphrases hkind')
      rw [hplace, hplace', Option.some.inj heq]

theorem getElem?_names_rule {rule : Nat} {name : String} {r : Rule}
    (h : g.rules[rule]? = some (name, r)) : g.names[g.externals.length + rule]? = some name := by
  rw [names, List.getElem?_append_right (Nat.le_add_right ..), Nat.add_sub_cancel_left,
    List.getElem?_map, h]
  rfl

/-- A phrase rule is a rule that is no token. -/
theorem exists_of_mem_phraseRules {used : List Nat} {rule : Nat} (h : rule ∈ g.phraseRules used) :
    ∃ name r, g.rules[rule]? = some (name, r) ∧ g.isLexicalAt rule = false := by
  rw [phraseRules, List.mem_filter, Bool.and_eq_true, Bool.not_eq_true', List.mem_range] at h
  exact ⟨_, _, List.getElem?_eq_getElem h.1, h.2.2⟩

theorem nodup_phraseRules (g : Grammar) (used : List Nat) : (g.phraseRules used).Nodup :=
  List.nodup_range.filter _

/-- A named symbol is named after an external token or a rule, unless it is a helper. -/
theorem exists_bears (h : g.prepare = .ok prepared) : ∃ v : Vocabulary, v.Traced g ∧
    prepared.terminals = v.terminals ∧
    ∀ (place : Nat) (info : SymbolInfo), prepared.symbolInfos[place]? = some info → info.isNamed = true →
      (place < v.terminals.size + (g.phraseRules g.usedRules).length ∧
        ∃ index, g.Bears v (g.phraseRules g.usedRules) place index ∧
          g.names[index]? = some info.name) ∨
      (v.terminals.size + (g.phraseRules g.usedRules).length ≤ place ∧ info.isVisible = false) := by
  obtain ⟨terminals, d, hterminals, hadd, hsame, hkinds, -, -⟩ := exists_of_prepare h
  have hv := traced_of_terminals hterminals
  refine ⟨terminals.vocabulary, hv, hsame, fun place info hinfo hnamed => ?_⟩
  rw [PreparedGrammar.symbolInfos, hsame, hkinds] at hinfo
  rcases Nat.lt_or_ge place terminals.vocabulary.terminals.size with hlt | hge
  -- among the terminals those of externals and of rules have names
  · rw [Array.getElem?_append_left (by rwa [Array.size_map]), Array.getElem?_map] at hinfo
    obtain ⟨t, ht, rfl⟩ := Option.map_eq_some_iff.mp hinfo
    refine .inl ⟨Nat.lt_add_right _ hlt, ?_⟩
    have hnamed : t.isNamed = true := hnamed
    cases hv.origin place t ht with
    | endOfInput => cases hnamed
    | @external index name hname hplace =>
      have hindex := (List.getElem?_eq_some_iff.mp hname).choose
      refine ⟨index, .external hindex hplace, ?_⟩
      rw [names, List.getElem?_append_left hindex]
      exact hname
    | @rule index name r _ _ hrule hmem =>
      refine ⟨_, .token (hv.lexical _ hmem) hmem rfl, ?_⟩
      exact getElem?_names_rule hrule
    | text => cases hnamed
    | pattern => cases hnamed
  -- behind them come the kinds of the rules, and then helpers, which do not show
  · rw [Array.getElem?_append_right (by rwa [Array.size_map]), Array.size_map,
      Array.getElem?_map] at hinfo
    obtain ⟨kind, hkind, rfl⟩ := Option.map_eq_some_iff.mp hinfo
    have hgrows := grows_of_kindedRules hadd
    rcases Nat.lt_or_ge (place - terminals.vocabulary.terminals.size)
      (g.phraseRules g.usedRules).length with hphrase | hhelper
    · rw [hgrows.getElem?_eq (by rwa [size_phraseKinds]), getElem?_phraseKinds] at hkind
      obtain ⟨rule, hrule, rfl⟩ := Option.map_eq_some_iff.mp hkind
      obtain ⟨name, r, hname, hlexical⟩ := exists_of_mem_phraseRules (List.mem_of_getElem? hrule)
      refine .inl ⟨by omega, _, .phrase hlexical hrule (by omega) rfl, ?_⟩
      rw [getElem?_names_rule hname]
      simp [PreparedGrammar.nonTerminalInfo, nameAt, hname]
    · refine .inr ⟨by omega, hgrows.hidden _ kind ?_ hkind⟩
      rwa [size_phraseKinds]

/-- **Named symbols are told apart by their names.** One that shows comes before all others of its
name. -/
theorem eq_of_isNamed (h : g.prepare = .ok prepared) {info info' : SymbolInfo}
    (hinfo : prepared.symbolInfos[place]? = some info)
    (hinfo' : prepared.symbolInfos[place']? = some info') (hnamed : info.isNamed = true)
    (hnamed' : info'.isNamed = true) (hname : info'.name = info.name)
    (hvisible : info.isVisible = true) (hle : place' ≤ place) : place' = place := by
  obtain ⟨v, hv, -, hbears⟩ := exists_bears h
  obtain ⟨_, _, _, hmade⟩ := prepare_eq_ok.mp h
  rcases hbears place info hinfo hnamed with ⟨hlt, index, hindex, hat⟩ | ⟨-, hhidden⟩
  · rcases hbears place' info' hinfo' hnamed' with ⟨-, index', hindex', hat'⟩ | ⟨hge, -⟩
    · have heq : index' = index := by
        rw [hname] at hat'
        exact (List.getElem?_inj (List.getElem?_eq_some_iff.mp hat').choose (nodup_names hmade.named)).mp
          (hat'.trans hat.symm)
      exact (heq ▸ hindex').eq hv (nodup_phraseRules g _) hindex
    · omega
  · rw [hvisible] at hhidden
    cases hhidden

/-- Whether no token has a text as a name that it does not show by. -/
structure Plain (text : String) : Prop where
  ne_end : text ≠ "end"
  isPublic : isPublicName text = true
  ne_token : ∀ (owner : String) (number : Nat), text ≠ owner ++ "_token" ++ toString number

theorem plain_of_notMem {text : String} (hne : text ≠ "end") (hmem : '_' ∉ text.toList) :
    Plain text where
  ne_end := hne
  isPublic := by
    refine decide_eq_true fun hhead => hmem ?_
    exact List.mem_of_head? hhead
  ne_token := by
    rintro owner number rfl
    exact hmem (by simp)

/-- What has a plain text but no name is an inline token for the text. -/
theorem exists_isText {v : Vocabulary} (hv : v.Traced g)
    (hterminals : prepared.terminals = v.terminals) {info : SymbolInfo}
    (hinfo : prepared.symbolInfos[place]? = some info) (hnamed : info.isNamed = false)
    (hplain : Plain info.name) :
    ∃ t, v.terminals[place]? = some t ∧ t.IsText ∧ t.name = info.name := by
  rw [PreparedGrammar.symbolInfos] at hinfo
  rcases Nat.lt_or_ge place prepared.terminals.size with hlt | hge
  · rw [Array.getElem?_append_left (by rwa [Array.size_map]), Array.getElem?_map,
      hterminals] at hinfo
    obtain ⟨t, ht, rfl⟩ := Option.map_eq_some_iff.mp hinfo
    have hpublic : isPublicName t.name = true := hplain.isPublic
    refine ⟨t, ht, ⟨hnamed, hpublic, ?_⟩, rfl⟩
    have hnamed : t.isNamed = false := hnamed
    cases hv.origin place t ht with
    | endOfInput => exact absurd rfl hplain.ne_end
    | external => exact absurd (hpublic.symm.trans hnamed) Bool.true_eq_false.mp
    | rule => exact absurd (hpublic.symm.trans hnamed) Bool.true_eq_false.mp
    | text => rfl
    | pattern => exact absurd rfl (hplain.ne_token _ _)
  · rw [Array.getElem?_append_right (by rwa [Array.size_map]), Array.getElem?_map] at hinfo
    obtain ⟨kind, -, rfl⟩ := Option.map_eq_some_iff.mp hinfo
    cases hnamed

/-- **Texts are told apart.** What has a plain text but no name is the only such symbol of its text. -/
theorem eq_of_plain (h : g.prepare = .ok prepared) {info info' : SymbolInfo}
    (hinfo : prepared.symbolInfos[place]? = some info)
    (hinfo' : prepared.symbolInfos[place']? = some info') (hnamed : info.isNamed = false)
    (hnamed' : info'.isNamed = false) (hname : info'.name = info.name)
    (hplain : Plain info.name) : place' = place := by
  obtain ⟨v, hv, hterminals, -⟩ := exists_bears h
  obtain ⟨t, ht, htext, htname⟩ := exists_isText hv hterminals hinfo hnamed hplain
  obtain ⟨t', ht', htext', htname'⟩ := exists_isText hv hterminals hinfo' hnamed' (hname ▸ hplain)
  exact hv.texts place' place t' t ht' ht htext' htext (by rw [htname, htname', hname])

end Grammar

end LRWorkbench
