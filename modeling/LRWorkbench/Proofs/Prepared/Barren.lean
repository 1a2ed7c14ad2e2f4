import LRWorkbench.Proofs.Graph.Reach
import LRWorkbench.Proofs.Prepared.Conflicts
import LRWorkbench.Proofs.Prepared.Occurrences
import LRWorkbench.Proofs.Prepared.Productive
import LRWorkbench.Proofs.Prepared.Vocabulary

/-!
# Phrases that derive nothing

The last check of a grammar refuses the first phrase kind that the rounds of `Flatten.productive` do
not find. What they find derives terminals (`Flatten.exists_derives_of_productive`). Conversely the
rounds end with a set that is **closed**: a production whose steps are terminals or in the set has its
phrase kind in it, since each round but the last adds a phrase kind and there are as many rounds as
phrase kinds. By induction on derivations only what is in a closed set derives anything.

No other step of the preparation fails in this way (`Spares`), so that a grammar is refused for a
phrase that derives nothing just if, once its rules are flattened, it has one
(`Grammar.decides_hasPhrase`).
-/

namespace LRWorkbench

namespace PreparedGrammar

variable {g : PreparedGrammar}

/-- Derivations end in terminals. -/
theorem Derives.isTerminal {s t : Symbol} {sentence : List Symbol} (h : g.Derives s sentence)
    (ht : t ∈ sentence) : g.isTerminal t = true := by
  refine (Derives.induct (g := g) (P := fun _ sentence => ∀ t ∈ sentence, g.isTerminal t = true)
    (Q := fun _ sentence => ∀ t ∈ sentence, g.isTerminal t = true) ?_ ?_ ?_ ?_).1 s sentence h t ht
  · intro s hs t ht
    rwa [List.mem_singleton.mp ht]
  · exact fun _ _ _ _ _ ih => ih
  · exact fun _ ht => absurd ht List.not_mem_nil
  · intro _ _ _ _ _ _ hfront hback t ht
    rcases List.mem_append.mp ht with ht | ht
    · exact hfront t ht
    · exact hback t ht

/-- Whether a phrase kind has a phrase: a finite list of terminals that derives from it. -/
def HasPhrase (g : PreparedGrammar) (kind : Nat) : Prop :=
  ∃ sentence, (∀ t ∈ sentence, g.isTerminal t = true) ∧
    g.Derives (g.nonTerminalSymbol kind) sentence

/-- Whether a phrase kind is the first one without a phrase, and has a given name. -/
def FirstBarren (g : PreparedGrammar) (kind : Nat) (name : String) : Prop :=
  (∃ info, g.nonTerminals[kind]? = some info ∧ info.name = name) ∧ ¬g.HasPhrase kind ∧
    ∀ earlier < kind, g.HasPhrase earlier

/-- A phrase kind has a phrase if it derives some sentence. -/
theorem hasPhrase_iff {kind : Nat} :
    g.HasPhrase kind ↔ ∃ sentence, g.Derives (g.nonTerminalSymbol kind) sentence :=
  ⟨fun ⟨sentence, _, h⟩ => ⟨sentence, h⟩, fun ⟨sentence, h⟩ =>
    ⟨sentence, fun _ ht => h.isTerminal ht, h⟩⟩

end PreparedGrammar

namespace Flatten

open Draft

/-! ### The rounds end -/

/-- Whether a set of phrase kinds has that of each production whose steps are terminals or in it. -/
def IsClosed (terminalCount : Nat) (productions : List Production) (known : List Nat) : Prop :=
  ∀ p ∈ productions, derives terminalCount known p = true → p.lhs ∈ known

/-- Phrase kinds that are all different and as many as there are at all are all that there are. -/
theorem mem_of_nodup_of_le {known : List Nat} {count kind : Nat} (hnodup : known.Nodup)
    (hlt : ∀ k ∈ known, k < count) (hle : count ≤ known.length) (hkind : kind < count) :
    kind ∈ known := by
  have hperm : known.Perm (List.range count) :=
    (List.subperm_of_subset hnodup fun k hk => List.mem_range.mpr (hlt k hk)).perm_of_length_le
      (by simpa using hle)
  exact hperm.mem_iff.mpr (List.mem_range.mpr hkind)

/-- With as many rounds as there are phrase kinds to find, the rounds end in a closed set. -/
theorem isClosed_productive {terminalCount count : Nat} {productions : List Production}
    (hlhs : ∀ p ∈ productions, p.lhs < count) (rounds : Nat) {known : List Nat}
    (hnodup : known.Nodup) (hlt : ∀ k ∈ known, k < count) (hrounds : count ≤ known.length + rounds) :
    IsClosed terminalCount productions (productive terminalCount productions rounds known) := by
  induction rounds generalizing known with
  | zero => exact fun p hp _ => mem_of_nodup_of_le hnodup hlt hrounds (hlhs p hp)
  | succ rounds ih =>
    rw [productive]
    split
    case h_1 hnone =>
      intro p hp hderives
      by_contra hmem
      refine List.not_mem_nil (hnone ▸ List.mem_eraseDups.mpr (List.mem_map.mpr ⟨p, ?_, rfl⟩))
      exact List.mem_filter.mpr ⟨hp, by simp [hmem, hderives]⟩
    case h_2 hsome =>
      have hfresh : ∀ k ∈ ((productions.filter fun p =>
          !known.contains p.lhs && derives terminalCount known p).map (·.lhs)).eraseDups,
          k < count ∧ k ∉ known := by
        intro k hk
        obtain ⟨p, hp, rfl⟩ := List.mem_map.mp (List.mem_eraseDups.mp hk)
        obtain ⟨hp, hnew⟩ := List.mem_filter.mp hp
        exact ⟨hlhs p hp, by simpa using (Bool.and_eq_true_iff.mp hnew).1⟩
      have hpos := List.length_pos_iff.mpr hsome
      refine ih ?_ (fun k hk => ?_) ?_
      · refine List.nodup_append.mpr ⟨Graph.nodup_eraseDups _, hnodup, ?_⟩
        rintro k hk other hother rfl
        exact (hfresh k hk).2 hother
      · rcases List.mem_append.mp hk with hk | hk
        · exact (hfresh k hk).1
        · exact hlt k hk
      · rw [List.length_append]
        omega

/-- Only what is in a closed set derives anything. -/
theorem mem_of_derives {g : PreparedGrammar} {known : List Nat}
    (hclosed : IsClosed g.terminals.size g.productions.toList known) {kind : Nat}
    {sentence : List Symbol} (h : g.Derives (g.nonTerminalSymbol kind) sentence) : kind ∈ known := by
  -- each symbol that derives something is a terminal or in the set
  have hknown := (PreparedGrammar.Derives.induct (g := g)
    (P := fun s _ => s.index < g.terminals.size ∨ s.index - g.terminals.size ∈ known)
    (Q := fun symbols _ => ∀ s ∈ symbols,
      s.index < g.terminals.size ∨ s.index - g.terminals.size ∈ known)
    ?_ ?_ ?_ ?_).1 _ sentence h
  · have hindex : (g.nonTerminalSymbol kind).index = g.terminals.size + kind := rfl
    rw [hindex, Nat.add_sub_cancel_left] at hknown
    exact hknown.resolve_left (Nat.not_lt.mpr (Nat.le_add_right ..))
  · exact fun s hs => .inl (of_decide_eq_true hs)
  · intro p rule sentence hp _ hsteps
    right
    have hindex : (g.nonTerminalSymbol rule.lhs).index = g.terminals.size + rule.lhs := rfl
    rw [hindex, Nat.add_sub_cancel_left]
    refine hclosed rule (Array.mem_toList_iff.mpr (Array.mem_of_getElem? hp)) ?_
    refine List.all_eq_true.mpr fun step hstep => ?_
    rw [Bool.or_eq_true, decide_eq_true_eq, List.contains_iff_mem]
    exact hsteps step.symbol (List.mem_map_of_mem hstep)
  · exact fun s hs => absurd hs List.not_mem_nil
  · intro s rest front back _ _ hfirst hrest t ht
    rcases List.mem_cons.mp ht with rfl | ht
    · exact hfirst
    · exact hrest t ht

/-- The rounds find just what has a phrase. -/
theorem mem_productive_iff {g : PreparedGrammar}
    (hlhs : ∀ p ∈ g.productions, p.lhs < g.nonTerminals.size) {kind : Nat} :
    kind ∈ productive g.terminals.size g.productions.toList g.nonTerminals.size [] ↔
      g.HasPhrase kind := by
  rw [PreparedGrammar.hasPhrase_iff]
  constructor
  · exact exists_derives_of_productive rfl _ (fun _ h => absurd h List.not_mem_nil) kind
  · rintro ⟨sentence, h⟩
    have hlhs : ∀ p ∈ g.productions.toList, p.lhs < g.nonTerminals.size :=
      fun p hp => hlhs p (Array.mem_toList_iff.mp hp)
    exact mem_of_derives (isClosed_productive hlhs _ .nil
      (fun _ hk => absurd hk List.not_mem_nil) (Nat.le_add_left ..)) h

end Flatten

/-! ### No other step fails so -/

section

variable {α β : Type}

/-- Whether a grammar is refused for want of a phrase. -/
def GrammarError.isUnderivable : GrammarError → Bool
  | underivable _ => true
  | _ => false

/-- Whether a computation does not fail for want of a phrase. -/
def Spares (x : Except GrammarError α) : Prop := ∀ e, x = .error e → e.isUnderivable = false

theorem spares_ok (a : α) : Spares (.ok a : Except GrammarError α) := by
  intro e he
  cases he

theorem spares_error {e : GrammarError} (h : e.isUnderivable = false) :
    Spares (.error e : Except GrammarError α) := by
  intro e' he
  rwa [← Except.error.inj he]

/-- Whatever spares it does not report a rule that derives nothing. -/
theorem Spares.ne {x : Except GrammarError α} (h : Spares x) (name : String) :
    x ≠ .error (.underivable name) := by
  intro hx
  cases h _ hx

/-- Steps one after the other do not report it if none of them does. -/
theorem Spares.bind {x : Except GrammarError α} {f : α → Except GrammarError β} (h : Spares x)
    (hf : ∀ a, Spares (f a)) : Spares (x >>= f) := by
  intro e hfails
  rcases bind_eq_error.mp hfails with hx | ⟨a, -, ha⟩
  · exact h e hx
  · exact hf a e ha

/-- Neither do checks of several things. -/
theorem spares_forM {f : α → Except GrammarError Unit} (h : ∀ a, Spares (f a)) (l : List α) :
    Spares (l.forM f) := by
  induction l with
  | nil => exact spares_ok ()
  | cons a l ih => exact (h a).bind fun _ => ih

end

section

variable {g : Grammar}

/-- The steps before the check report other errors, the first of them names that stand for nothing. -/
theorem Grammar.spares_checkReferences (entries : List (String × Rule)) :
    Spares (g.checkReferences entries) := by
  induction entries with
  | nil => exact spares_ok ()
  | cons entry rest ih =>
    rw [checkReferences]
    split
    · exact spares_error rfl
    · exact ih

theorem Grammar.spares_checkRuleName (owner name : String) : Spares (g.checkRuleName owner name) := by
  rw [checkRuleName]
  split
  · exact spares_ok _
  · exact spares_error rfl

/-- All checks of names together report names. -/
theorem Grammar.spares_checkNames : Spares g.checkNames := by
  rw [checkNames]
  split
  case h_2 => exact spares_error rfl
  dsimp only
  split
  case h_1 => exact spares_error rfl
  split
  case h_1 => exact spares_error rfl
  refine (spares_checkReferences _).bind fun _ => (spares_checkReferences _).bind fun _ =>
    (spares_forM (spares_checkRuleName _) _).bind fun _ =>
      (spares_forM (spares_checkRuleName _) _).bind fun _ => ?_
  split
  · exact spares_error rfl
  · refine spares_forM (fun word => ?_) _
    split
    · exact spares_ok _
    · exact spares_error rfl

theorem Rule.spares_flaggedPattern (owner value : String) (flags : List Char) :
    Spares (flaggedPattern owner value flags) := by
  rw [flaggedPattern]
  split
  · exact spares_error rfl
  · exact spares_ok _

mutual

/-- Tokens that cannot be patterns are reported as such. -/
theorem Rule.spares_patternText (owner : String) (r : Rule) : Spares (r.patternText owner) := by
  cases r with
  | blank | literal =>
    rw [patternText]
    exact spares_ok _
  | reference | field =>
    rw [patternText]
    exact spares_error rfl
  | pattern value flags =>
    rw [patternText]
    exact spares_flaggedPattern _ _ _
  | seq members | choice members =>
    rw [patternText]
    exact (Rule.spares_patternTexts owner members).bind fun _ => spares_ok _
  | zeroOrMore content | oneOrMore content =>
    rw [patternText]
    exact (Rule.spares_patternText owner content).bind fun _ => spares_ok _
  | token content | prec _ _ content =>
    rw [patternText]
    exact Rule.spares_patternText owner content

theorem Rule.spares_patternTexts (owner : String) (rs : List Rule) :
    Spares (patternTexts owner rs) := by
  cases rs with
  | nil =>
    rw [patternTexts]
    exact spares_ok _
  | cons r rs =>
    rw [patternTexts]
    exact (Rule.spares_patternText owner r).bind fun _ =>
      (Rule.spares_patternTexts owner rs).bind fun _ => spares_ok _

end

theorem Rule.spares_tokenPattern (r : Rule) (owner : String) : Spares (r.tokenPattern owner) := by
  rw [tokenPattern]
  refine (spares_patternText owner r).bind fun text => ?_
  split
  · exact spares_error rfl
  · split
    · exact spares_error rfl
    · exact spares_ok _

/-- So are token rules that are defined alike. -/
theorem Grammar.spares_defineTokens (places : List Nat) (defined : TokenDefinitions) :
    Spares (g.defineTokens defined places) := by
  induction places generalizing defined with
  | nil => exact spares_ok _
  | cons i rest ih =>
    rw [defineTokens]
    split
    · exact ih _
    · refine (Rule.spares_tokenPattern _ _).bind fun definition => ?_
      split
      · exact spares_error rfl
      · exact ih _

end

namespace Vocabulary

variable {g : Grammar} {defined : TokenDefinitions} {owner : String}

theorem spares_addAnonymous (v : Vocabulary) (r : Rule) (owner : String) :
    Spares (v.addAnonymous r owner) := by
  intro e he
  dsimp only [addAnonymous] at he
  split at he
  case h_1 e' hpattern =>
    obtain rfl := Except.error.inj he
    exact Rule.spares_tokenPattern r _ e' hpattern
  case h_2 =>
    split at he <;> cases he

/-- So are tokens that cannot be added. -/
theorem spares_addMention (v : Vocabulary) (m : Mention) : Spares (addMention g defined v m) := by
  cases m with
  | rule index => exact spares_ok _
  | inline r owner => exact spares_addAnonymous v r owner

theorem spares_addPhraseRules (places : List Nat) (v : Vocabulary) :
    Spares (addPhraseRules g defined v places) := by
  rw [addPhraseRules_eq_foldlM]
  generalize places.flatMap (g.mentionsAt defined) = mentions
  induction mentions generalizing v with
  | nil => exact spares_ok v
  | cons m rest ih =>
    rw [List.foldlM_cons]
    exact (spares_addMention v m).bind ih

theorem spares_addExtra (v : Vocabulary) (extra : Rule) : Spares (addExtra g defined v extra) := by
  cases extra with
  | reference name =>
    rw [addExtra]
    split
    · exact spares_ok _
    · dsimp only
      split
      · exact spares_ok _
      · exact spares_error rfl
    · exact spares_ok _
  | _ =>
    rw [addExtra_of_inline (by simp), ← addMention_ofInline]
    exact (spares_addMention _ _).bind fun v => spares_ok _

/-- So are extras that are no tokens. -/
theorem spares_addExtras (extras : List Rule) (v : Vocabulary) (found : List Symbol) :
    Spares (addExtras g defined v found extras) := by
  induction extras generalizing v found with
  | nil => exact spares_ok _
  | cons extra rest ih =>
    rw [addExtras_cons]
    exact (spares_addExtra v extra).bind fun made => ih made.1 _

end Vocabulary

/-- All steps for terminals together report tokens. -/
theorem Grammar.spares_terminals {g : Grammar} (used : List Nat) : Spares (g.terminals used) := by
  rw [terminals]
  refine (spares_defineTokens _ _).bind fun defined => ?_
  refine (Vocabulary.spares_addPhraseRules _ _).bind fun v => ?_
  refine (Vocabulary.spares_addExtras _ _ _).bind fun made => ?_
  dsimp only
  split
  · exact spares_error rfl
  · exact spares_ok _

namespace Flatten

variable {s : Source} {d : Draft}

/-- Too many symbols are reported as such. -/
theorem spares_checkCount : Spares (checkCount s d) := by
  intro e he
  obtain ⟨count, rfl⟩ := exists_of_checkCount_eq_error he
  rfl

/-- Flattening reports what it cannot flatten, whether or not it derives anything. -/
theorem spares_addRules (rules : List (Nat × Rule)) (d : Draft) : Spares (addRules s d rules) := by
  intro e he
  obtain ⟨entry, -, hrefusal⟩ := exists_refusal_of_addRules he
  cases hrefusal <;> rfl

/-- Groups of conflicting rules are looked up after the check. -/
theorem spares_conflictGroups (declared : List (List String)) (found : List (List Nat)) :
    Spares (conflictGroups s found declared) := by
  intro e he
  obtain ⟨name, rfl⟩ := exists_of_conflictGroups_eq_error he
  rfl

end Flatten

namespace Grammar

open Flatten

variable {g : Grammar}

/-- A grammar with its rules flattened, before it is looked at whether its phrases derive anything and
which conflict groups it has. -/
def flatten (g : Grammar) : Except GrammarError PreparedGrammar := do
  g.checkNames
  let terminals ← g.terminals g.usedRules
  let s : Source := ⟨g, terminals, g.phraseRules g.usedRules⟩
  checkCount s ⟨phraseKinds s, #[], .empty, []⟩
  let d ← addRules s ⟨phraseKinds s, #[], .empty, []⟩ (g.kindedRules s.phraseRules)
  return {
    name := g.name
    terminals := terminals.vocabulary.terminals
    externalCount := g.externals.length
    nonTerminals := d.nonTerminals
    productions := d.productions
    fieldNames := d.fieldNames
    extras := terminals.extras
    word := terminals.word
    conflictGroups := [] }

/-- What a flattened grammar is made of. -/
theorem flatten_eq_ok {flat : PreparedGrammar} : g.flatten = .ok flat ↔
    g.checkNames = .ok () ∧ ∃ terminals, g.terminals g.usedRules = .ok terminals ∧
      checkCount ⟨g, terminals, g.phraseRules g.usedRules⟩
        ⟨phraseKinds ⟨g, terminals, g.phraseRules g.usedRules⟩, #[], .empty, []⟩ = .ok () ∧
      ∃ d, addRules ⟨g, terminals, g.phraseRules g.usedRules⟩
        ⟨phraseKinds ⟨g, terminals, g.phraseRules g.usedRules⟩, #[], .empty, []⟩
        (g.kindedRules (g.phraseRules g.usedRules)) = .ok d ∧
      flat = ⟨g.name, terminals.vocabulary.terminals, g.externals.length, d.nonTerminals,
        d.productions, d.fieldNames, terminals.extras, terminals.word, []⟩ := by
  rw [flatten]
  constructor
  · intro h
    obtain ⟨_, hnames, h⟩ := bind_eq_ok.mp h
    obtain ⟨terminals, hterminals, h⟩ := bind_eq_ok.mp h
    obtain ⟨_, hcount, h⟩ := bind_eq_ok.mp h
    obtain ⟨d, hrules, h⟩ := bind_eq_ok.mp h
    exact ⟨hnames, terminals, hterminals, hcount, d, hrules, (Except.ok.inj h).symm⟩
  · rintro ⟨hnames, terminals, hterminals, hcount, d, hrules, rfl⟩
    refine bind_eq_ok.mpr ⟨(), hnames, bind_eq_ok.mpr ⟨terminals, hterminals, ?_⟩⟩
    exact bind_eq_ok.mpr ⟨(), hcount, bind_eq_ok.mpr ⟨d, hrules, rfl⟩⟩

/-- A grammar is refused for want of a phrase by the check of the flattened grammar. -/
theorem prepare_eq_underivable {name : String} : g.prepare = .error (.underivable name) ↔
    ∃ terminals d, g.checkNames = .ok () ∧ g.terminals g.usedRules = .ok terminals ∧
      checkCount ⟨g, terminals, g.phraseRules g.usedRules⟩
        ⟨phraseKinds ⟨g, terminals, g.phraseRules g.usedRules⟩, #[], .empty, []⟩ = .ok () ∧
      addRules ⟨g, terminals, g.phraseRules g.usedRules⟩
        ⟨phraseKinds ⟨g, terminals, g.phraseRules g.usedRules⟩, #[], .empty, []⟩
        (g.kindedRules (g.phraseRules g.usedRules)) = .ok d ∧
      checkProductive terminals.vocabulary.terminals.size d = .error (.underivable name) := by
  rw [prepare]
  constructor
  · intro h
    obtain ⟨_, hnames, h⟩ := (bind_eq_error.mp h).resolve_left (spares_checkNames.ne name)
    obtain ⟨terminals, hterminals, h⟩ := (bind_eq_error.mp h).resolve_left ((spares_terminals _).ne name)
    obtain ⟨_, hcount, h⟩ := (bind_eq_error.mp h).resolve_left (spares_checkCount.ne name)
    obtain ⟨d, hrules, h⟩ := (bind_eq_error.mp h).resolve_left ((spares_addRules _ _).ne name)
    refine ⟨terminals, d, hnames, hterminals, hcount, hrules, ?_⟩
    refine (bind_eq_error.mp h).resolve_right ?_
    rintro ⟨_, -, h⟩
    exact ((spares_conflictGroups _ _).bind fun _ => spares_ok _).ne name h
  · rintro ⟨terminals, d, hnames, hterminals, hcount, hrules, hproductive⟩
    refine bind_eq_error.mpr (.inr ⟨(), hnames, bind_eq_error.mpr (.inr ⟨terminals, hterminals, ?_⟩)⟩)
    refine bind_eq_error.mpr (.inr ⟨(), hcount, bind_eq_error.mpr (.inr ⟨d, hrules, ?_⟩)⟩)
    exact bind_eq_error.mpr (.inl hproductive)

end Grammar

/-- The check names the first phrase kind that derives nothing. -/
theorem Flatten.checkProductive_eq_error {d : Draft} {flat : PreparedGrammar} {name : String}
    (hkinds : flat.nonTerminals = d.nonTerminals) (hproductions : flat.productions = d.productions)
    (hlhs : ∀ p ∈ d.productions, p.lhs < d.nonTerminals.size) :
    checkProductive flat.terminals.size d = .error (.underivable name) ↔
      ∃ kind, flat.FirstBarren kind name := by
  have hfound : ∀ kind, (List.range d.nonTerminals.size).find? (fun i => !(productive
      flat.terminals.size d.productions.toList d.nonTerminals.size []).contains i) = some kind ↔
      kind < d.nonTerminals.size ∧ ¬flat.HasPhrase kind ∧
        ∀ earlier < kind, flat.HasPhrase earlier := by
    intro kind
    have hmem : ∀ other, other ∈ productive flat.terminals.size d.productions.toList
        d.nonTerminals.size [] ↔ flat.HasPhrase other := by
      rw [← hkinds, ← hproductions]
      exact fun _ => mem_productive_iff (hkinds ▸ hproductions ▸ hlhs)
    simp only [List.find?_range_eq_some, Bool.not_eq_true', List.mem_range, Bool.not_not,
      List.contains_iff_mem, ← Bool.not_eq_true, hmem]
    tauto
  rw [checkProductive]
  constructor
  · intro h
    split at h
    case h_2 => cases h
    case h_1 kind hkind =>
      obtain ⟨hlt, hbarren, hearlier⟩ := (hfound kind).mp hkind
      obtain rfl := GrammarError.underivable.inj (Except.error.inj h)
      have hinfo := Array.getElem?_eq_getElem hlt
      refine ⟨kind, ⟨_, (congrArg (·[kind]?) hkinds).trans hinfo, ?_⟩, hbarren, hearlier⟩
      rw [Draft.nameOf, hinfo]
      rfl
  · rintro ⟨kind, ⟨info, hinfo, rfl⟩, hbarren, hearlier⟩
    rw [hkinds] at hinfo
    rw [(hfound kind).mpr ⟨(Array.getElem?_eq_some_iff.mp hinfo).choose, hbarren, hearlier⟩]
    dsimp only
    rw [Draft.nameOf, hinfo]
    rfl

namespace Grammar

/-- **Whether all phrases derive something is decided exactly.** If a grammar is prepared, each of its
phrase kinds, those of rules and helpers, has a phrase, a finite list of terminals. It is refused for
want of a phrase just if its flattened form has a phrase kind without one, of which the first is
named. -/
theorem decides_hasPhrase (g : Grammar) :
    (∀ prepared, g.prepare = .ok prepared →
      ∀ kind < prepared.nonTerminals.size, prepared.HasPhrase kind) ∧
    ∀ name, g.prepare = .error (.underivable name) ↔
      ∃ flat, g.flatten = .ok flat ∧ ∃ kind, flat.FirstBarren kind name := by
  refine ⟨fun prepared h kind hkind => ?_, fun name => ?_⟩
  · exact PreparedGrammar.hasPhrase_iff.mpr (derives_of_prepare h hkind)
  rw [prepare_eq_underivable]
  constructor
  · rintro ⟨terminals, d, hnames, hterminals, hcount, hrules, hproductive⟩
    refine ⟨_, flatten_eq_ok.mpr ⟨hnames, terminals, hterminals, hcount, d, hrules, rfl⟩, ?_⟩
    exact (Flatten.checkProductive_eq_error rfl rfl (closed_of_kindedRules hrules).lhs_lt).mp
      hproductive
  · rintro ⟨flat, hflat, hbarren⟩
    obtain ⟨hnames, terminals, hterminals, hcount, d, hrules, rfl⟩ := flatten_eq_ok.mp hflat
    refine ⟨terminals, d, hnames, hterminals, hcount, hrules, ?_⟩
    exact (Flatten.checkProductive_eq_error rfl rfl (closed_of_kindedRules hrules).lhs_lt).mpr
      hbarren

/-- Ones and what stands between an opening bracket and something else. -/
def brackets (close : Rule) : Grammar where
  name := "brackets"
  rules := [("phrase", .choice [.literal "1", .reference "group"]),
    ("group", .seq [.literal "(", .zeroOrMore (.reference "phrase"), close])]
  extras := []
  conflicts := []
  externals := []
  word := none

/-- Groups that end have phrases. Those that end with a group have none, although all that they begin
with has, and are refused by name. -/
theorem decides_hasPhrase_brackets :
    (∃ prepared, (brackets (.literal ")")).prepare = .ok prepared ∧
      ∀ kind < prepared.nonTerminals.size, prepared.HasPhrase kind) ∧
    (brackets (.reference "group")).prepare = .error (.underivable "group") ∧
      ∃ flat, (brackets (.reference "group")).flatten = .ok flat ∧
        ∃ kind, flat.FirstBarren kind "group" := by
  have hprepares : (brackets (.literal ")")).prepare.toOption.isSome = true := by decide +kernel
  obtain ⟨prepared, hprepared⟩ := Option.isSome_iff_exists.mp hprepares
  have hnamed : (match (brackets (.reference "group")).prepare with
      | .error (.underivable name) => name == "group"
      | _ => false) = true := by decide +kernel
  have hrefused : (brackets (.reference "group")).prepare = .error (.underivable "group") := by
    split at hnamed
    case h_1 name hname => rw [hname, eq_of_beq hnamed]
    case h_2 => cases hnamed
  exact ⟨⟨prepared, eq_ok_of_toOption hprepared,
    (decides_hasPhrase _).1 prepared (eq_ok_of_toOption hprepared)⟩, hrefused,
    ((decides_hasPhrase _).2 "group").mp hrefused⟩

end Grammar

end LRWorkbench
