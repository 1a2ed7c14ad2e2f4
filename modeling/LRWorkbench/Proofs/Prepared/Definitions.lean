import LRWorkbench.Proofs.Prepared.Names

/-!
# Terminals that are defined alike

What a run over mentions leaves behind can be told from the mentions alone (`Vocabulary.After`):

- a token rule has a terminal once it was mentioned;
- an inline token gets a terminal if nothing was mentioned before that is defined like it.

So each definition has at most two terminals, that of a token rule and that of an inline token. It has
both if the inline token comes first (`Grammar.nodup_definitions_iff`), since a token rule does not look
for a terminal that is defined like it.
-/

namespace LRWorkbench

/-! ### How many terminals are defined alike -/

namespace Mention

/-- Whether a token rule is asked for. -/
def isRule : Mention → Bool
  | rule _ => true
  | inline _ _ => false

/-- What the token that is asked for is defined by. -/
def definition? (defined : TokenDefinitions) : Mention → Option (String × Int)
  | rule index => defined.lookup index
  | inline r owner => (r.tokenPattern owner).toOption

/-- Whether a token with a given definition is asked for. -/
def asks (defined : TokenDefinitions) (definition : String × Int) (m : Mention) : Bool :=
  m.definition? defined = some definition

/-- How many terminals come from some mentions for one definition: one if it is that of a token rule that
is mentioned, and one if it is first that of an inline token. -/
def share (defined : TokenDefinitions) (mentions : List Mention) (definition : String × Int) : Nat :=
  (mentions.any fun m => m.isRule && m.asks defined definition).toNat +
    ((mentions.find? (·.asks defined definition)).any (!·.isRule)).toNat

variable {defined : TokenDefinitions} {mentions : List Mention} {definition : String × Int} {m : Mention}

theorem asks_iff : m.asks defined definition = true ↔ m.definition? defined = some definition :=
  decide_eq_true_iff

theorem share_append_of_not_asks (h : m.asks defined definition = false) :
    share defined (mentions ++ [m]) definition = share defined mentions definition := by
  simp [share, List.find?_append, h]

/-- Nothing comes from a mention that was made before, nor from an inline token that was. -/
theorem share_append_of_asked (hasked : mentions.any (·.asks defined definition) = true)
    (hrule : m.isRule = true →
      (mentions.any fun m => m.isRule && m.asks defined definition) = true) :
    share defined (mentions ++ [m]) definition = share defined mentions definition := by
  obtain ⟨first, hfirst⟩ := Option.isSome_iff_exists.mp (List.find?_isSome.mpr
    (List.any_eq_true.mp hasked))
  cases hkind : m.isRule with
  | true => simp [share, List.find?_append, hfirst, hrule hkind]
  | false => simp [share, List.find?_append, hfirst, hkind]

/-- One terminal comes from the first mention of a token rule, and from one of an inline token if it is
the first of all. -/
theorem share_append_of_new (hasks : m.asks defined definition = true)
    (hnew : mentions.any (fun other => (other.isRule || !m.isRule) && other.asks defined definition) =
      false) :
    share defined (mentions ++ [m]) definition = share defined mentions definition + 1 := by
  cases hkind : m.isRule with
  | true =>
    have hnew : (mentions.any fun other => other.isRule && other.asks defined definition) = false := by
      simpa [hkind] using hnew
    rw [share, share, List.any_append, hnew, List.find?_append]
    cases mentions.find? (·.asks defined definition) with
    | none => simp [hasks, hkind]
    | some first => simp [hasks, hkind, Nat.add_comm]
  | false =>
    have hnone : mentions.find? (·.asks defined definition) = none := by
      simpa [hkind] using hnew
    simp [share, List.find?_append, hnone, hasks, hkind]

end Mention


/-! ### What mentions leave behind -/

namespace Vocabulary

variable {g : Grammar} {defined : TokenDefinitions} {places : List Nat} {mentions : List Mention}
variable {v v' : Vocabulary}

/-- What the terminals are defined by, in order. -/
def definitions (v : Vocabulary) : List (String × Int) :=
  v.terminals.toList.filterMap (·.definition?)

/-- What a vocabulary has after some mentions. -/
structure After (defined : TokenDefinitions) (mentions : List Mention) (v : Vocabulary) : Prop where
  named : ∀ index, (v.terminalOf? index).isSome = true ↔
    .rule index ∈ mentions ∧ (defined.lookup index).isSome = true
  indexed : ∀ definition, (v.definedAs? definition).isSome =
    mentions.any (·.asks defined definition)
  count : ∀ definition, v.definitions.count definition = Mention.share defined mentions definition

theorem after_initial (defined : TokenDefinitions) (externals : List String) :
    After defined [] (initial externals) where
  named := fun _ => iff_of_false Bool.false_ne_true fun h => absurd h.1 List.not_mem_nil
  indexed := fun _ => rfl
  count := by
    intro definition
    have hnone : (initial externals).definitions = [] := by
      refine List.filterMap_eq_nil_iff.mpr fun t ht => ?_
      rcases List.mem_cons.mp ht with rfl | ht
      · rfl
      · obtain ⟨name, -, rfl⟩ := List.mem_map.mp ht
        rfl
    rw [hnone]
    rfl

/-- A mention that adds nothing. -/
theorem After.again (h : After defined mentions v) {m : Mention}
    (hnamed : ∀ index, m = .rule index → (defined.lookup index).isSome = true →
      .rule index ∈ mentions)
    (hasked : ∀ definition, m.asks defined definition = true →
      mentions.any (·.asks defined definition) = true) : After defined (mentions ++ [m]) v where
  named := by
    intro index
    rw [h.named, List.mem_append, List.mem_singleton]
    refine and_congr_left fun hdefined => ⟨.inl, ?_⟩
    rintro (hmem | hlast)
    · exact hmem
    · exact hnamed index hlast.symm hdefined
  indexed := by
    intro definition
    rw [h.indexed, List.any_append]
    cases hasks : m.asks defined definition with
    | true => rw [hasked definition hasks, Bool.true_or]
    | false => simp [hasks]
  count := by
    intro definition
    rw [h.count]
    symm
    cases hasks : m.asks defined definition with
    | false => exact Mention.share_append_of_not_asks hasks
    | true =>
      refine Mention.share_append_of_asked (hasked definition hasks) fun hkind => ?_
      cases m with
      | inline => cases hkind
      | rule index =>
        have hdefined := Mention.asks_iff.mp hasks
        refine List.any_eq_true.mpr ⟨.rule index, hnamed index rfl ?_, ?_⟩
        · exact Option.isSome_iff_exists.mpr ⟨definition, hdefined⟩
        · exact Bool.and_eq_true_iff.mpr ⟨rfl, hasks⟩

/-- A mention that adds the terminal of its definition. -/
theorem After.push (h : After defined mentions v) {m : Mention} {t : Terminal}
    {definition : String × Int} {named : List (Nat × Symbol)} {counters : List (String × Nat)}
    (hm : m.definition? defined = some definition) (ht : t.definition? = some definition)
    (hnew : mentions.any (fun other => (other.isRule || !m.isRule) && other.asks defined definition) =
      false)
    (hnamed : ∀ index, (named.lookup index).isSome = true ↔
      .rule index ∈ mentions ++ [m] ∧ (defined.lookup index).isSome = true) :
    After defined (mentions ++ [m])
      { v.push t with named := named, counters := counters } where
  named := hnamed
  indexed := by
    intro other
    have hindex : (v.push t).index = v.index.insert definition v.nextSymbol := by
      rw [Vocabulary.push, ht]
    rw [definedAs?, hindex, List.any_append, ← h.indexed]
    by_cases heq : other = definition
    · rw [heq, TerminalIndex.find?_insert_self, Option.isSome_or]
      simp [Mention.asks, hm, definedAs?]
    · have hother : m.asks defined other = false := by
        simpa [Mention.asks, hm] using Ne.symm heq
      rw [TerminalIndex.find?_insert_of_ne heq]
      simp [hother, definedAs?]
  count := by
    intro other
    have hlast : ({ v.push t with named := named, counters := counters } : Vocabulary).definitions =
        v.definitions ++ [definition] := by
      simp [definitions, Vocabulary.push, ht]
    rw [hlast, List.count_append, h.count]
    by_cases heq : other = definition
    · rw [heq, List.count_singleton_self, Mention.share_append_of_new (Mention.asks_iff.mpr hm) hnew]
    · have hother : m.asks defined other = false := by
        simpa [Mention.asks, hm] using Ne.symm heq
      rw [List.count_eq_zero_of_not_mem (by simpa using heq),
        Mention.share_append_of_not_asks hother, Nat.add_zero]

/-- A token rule gets its terminal when it is first mentioned, whatever else is defined like it. An
inline token gets one if it is the first that is defined so. -/
theorem After.adds (h : After defined mentions v) (hfit : defined.Fit g places) {m : Mention}
    (hadds : Adds g defined v m v') : After defined (mentions ++ [m]) v' := by
  -- an inline token leaves the token rules as they are
  have hinline : ∀ (r : Rule) (owner : String) (index : Nat), (v.terminalOf? index).isSome = true ↔
      .rule index ∈ mentions ++ [.inline r owner] ∧ (defined.lookup index).isSome = true := by
    intro r owner index
    rw [h.named, List.mem_append, List.mem_singleton, or_iff_left nofun]
  have hfirst : ∀ {definition : String × Int}, v.definedAs? definition = none →
      mentions.any (fun other => (other.isRule || !false) && other.asks defined definition) = false := by
    intro definition hnone
    simpa [hnone] using (h.indexed definition).symm
  cases hadds with
  | @known index hknown =>
    have hmem := ((h.named index).mp hknown).1
    refine h.again (fun other hother _ => Mention.rule.inj hother ▸ hmem) fun definition hasks => ?_
    exact List.any_eq_true.mpr ⟨_, hmem, hasks⟩
  | @undefined index hundefined =>
    have hnone : defined.lookup index = none := by
      cases hdefinition : defined.lookup index with
      | none => rfl
      | some definition =>
        obtain ⟨name, r, hrule, -⟩ := hfit.pattern _ (TokenDefinitions.Fit.mem_of_lookup hdefinition)
        simp [hrule, hdefinition] at hundefined
    refine h.again (fun other hother hdefined => ?_) fun definition hasks => ?_
    · obtain rfl := Mention.rule.inj hother
      rw [hnone] at hdefined
      cases hdefined
    · rw [Mention.asks_iff, Mention.definition?, hnone] at hasks
      cases hasks
  | @found r owner definition hpattern hfound =>
    refine h.again (fun _ hother => by cases hother) fun other hasks => ?_
    rw [Mention.asks_iff, Mention.definition?, hpattern] at hasks
    obtain rfl := Option.some.inj hasks
    rw [← h.indexed, hfound]
  | text hpattern hnew =>
    exact h.push (by rw [Mention.definition?, hpattern]; rfl) rfl (hfirst hnew) (hinline _ _)
  | pattern hpattern hnew =>
    exact h.push (by rw [Mention.definition?, hpattern]; rfl) rfl (hfirst hnew) (hinline _ _)
  | @rule index name r regex precedence hrule hdefinition hfresh =>
    refine h.push hdefinition rfl ?_ fun other => ?_
    · -- another token rule that is defined alike would be this one
      refine List.any_eq_false.mpr fun other hother hasks => ?_
      cases other with
      | inline => cases hasks
      | rule other =>
        have hother' := Mention.asks_iff.mp (Bool.and_eq_true_iff.mp hasks).2
        obtain rfl := hfit.eq_of_lookup hother' hdefinition
        have hknown := (h.named other).mpr ⟨hother, hdefinition ▸ rfl⟩
        rw [hfresh] at hknown
        cases hknown
    · have hlookup : ((v.named ++ [(index, v.nextSymbol)]).lookup other).isSome = true ↔
          (v.terminalOf? other).isSome = true ∨ other = index := by
        rw [List.lookup_append, Option.isSome_or, Bool.or_eq_true, terminalOf?,
          List.lookup_isSome_iff (l := [_])]
        simp
      rw [hlookup, h.named, List.mem_append, List.mem_singleton, Mention.rule.injEq]
      constructor
      · rintro (⟨hmem, hdefined⟩ | rfl)
        · exact ⟨.inl hmem, hdefined⟩
        · exact ⟨.inr rfl, hdefinition ▸ rfl⟩
      · rintro ⟨hmem | hlast, hdefined⟩
        · exact .inl ⟨hmem, hdefined⟩
        · exact .inr hlast

theorem After.foldlM_addMention (h : After defined mentions v) (hfit : defined.Fit g places)
    {rest : List Mention} (hrun : rest.foldlM (addMention g defined) v = .ok v') :
    After defined (mentions ++ rest) v' := by
  induction rest generalizing mentions v with
  | nil =>
    cases hrun
    rwa [List.append_nil]
  | cons m rest ih =>
    rw [List.foldlM_cons] at hrun
    obtain ⟨next, hnext, hrun⟩ := bind_eq_ok.mp hrun
    rw [List.append_cons]
    exact ih (h.adds hfit (adds_of_addMention hnext)) hrun

end Vocabulary

/-! ### Grammars with terminals that are defined alike -/

/-- What the terminals of a prepared grammar are defined by, in order. -/
def PreparedGrammar.definitions (g : PreparedGrammar) : List (String × Int) :=
  g.terminals.toList.filterMap (·.definition?)

namespace Grammar

variable {g : Grammar} {prepared : PreparedGrammar} {defined : TokenDefinitions}

/-- Whether the first token that a grammar asks for with a given definition is that of a token
rule. -/
def ruleComesFirst (g : Grammar) (defined : TokenDefinitions) (definition : String × Int) : Bool :=
  ((g.mentions defined g.usedRules).find? (·.asks defined definition)).any (·.isRule)

/-- The terminals of a grammar are told by what it mentions. -/
theorem after_of_terminals {used : List Nat} {t : Terminals} (h : g.terminals used = .ok t) :
    t.vocabulary.After t.definitions (g.mentions t.definitions used) := by
  obtain ⟨hdefined, -, hrun⟩ := foldlM_addMention_of_terminals h
  exact (Vocabulary.after_initial _ _).foldlM_addMention (fit_of_defineTokens hdefined) hrun

/-- **How many terminals are defined alike** is told by the mentions. -/
theorem count_definitions (h : g.prepare = .ok prepared)
    (hdefined : g.defineTokens [] (g.tokenRules g.usedRules) = .ok defined)
    (definition : String × Int) : prepared.definitions.count definition =
      Mention.share defined (g.mentions defined g.usedRules) definition := by
  obtain ⟨terminals, _, groups, hmade⟩ := prepare_eq_ok.mp h
  obtain rfl := hmade.eq
  obtain rfl := Except.ok.inj (hdefined.symm.trans (keeps_terminals hmade.numbered).1)
  exact (after_of_terminals hmade.numbered).count definition

/-- **Terminals are told apart by their regular expressions and precedences** just if the token rules
that are used are mentioned before any inline token that is defined like them. Otherwise an inline
token and a token rule share a definition; no three terminals do. -/
theorem nodup_definitions_iff (h : g.prepare = .ok prepared)
    (hdefined : g.defineTokens [] (g.tokenRules g.usedRules) = .ok defined) :
    (prepared.definitions.Nodup ↔ ∀ entry ∈ defined, g.ruleComesFirst defined entry.2 = true) ∧
      ∀ definition, prepared.definitions.count definition ≤ 2 := by
  have hfit := fit_of_defineTokens hdefined
  have hcount := count_definitions h hdefined
  refine ⟨?_, fun definition => ?_⟩
  · rw [List.nodup_iff_count_le_one]
    constructor
    · intro hle entry hentry
      have hrule : .rule entry.1 ∈ g.mentions defined g.usedRules := by
        refine List.mem_append_right _ (List.mem_map_of_mem ?_)
        rw [← hfit.places]
        exact List.mem_map_of_mem hentry
      have hasks : (Mention.rule entry.1).asks defined entry.2 = true :=
        Mention.asks_iff.mpr (hfit.lookup_of_mem (nodup_tokenRules g _) hentry)
      have hle := (hcount entry.2).symm.trans_le (hle entry.2)
      rw [Mention.share, List.any_eq_true.mpr ⟨_, hrule, Bool.and_eq_true_iff.mpr ⟨rfl, hasks⟩⟩] at hle
      obtain ⟨first, hfirst⟩ :=
        Option.isSome_iff_exists.mp (List.find?_isSome.mpr ⟨_, hrule, hasks⟩)
      -- The rule has a terminal of its own. A second one would be there if an inline token came
      -- first.
      rw [ruleComesFirst, hfirst, Option.any_some]
      rw [hfirst, Option.any_some] at hle
      cases hkind : first.isRule with
      | true => rfl
      | false => simp [hkind] at hle
    · intro hfirst definition
      rw [hcount, Mention.share]
      cases hrule : (g.mentions defined g.usedRules).any fun m =>
          m.isRule && m.asks defined definition with
      | false => simpa using Bool.toNat_le _
      | true =>
        obtain ⟨m, hm, hasks⟩ := List.any_eq_true.mp hrule
        cases m with
        | inline => cases hasks
        | rule index =>
          have hlookup := Mention.asks_iff.mp (Bool.and_eq_true_iff.mp hasks).2
          have hfirst := hfirst _ (TokenDefinitions.Fit.mem_of_lookup hlookup)
          rw [ruleComesFirst] at hfirst
          cases hfound : (g.mentions defined g.usedRules).find? (·.asks defined definition) with
          | none => simp
          | some first =>
            have hkind : first.isRule = true := by simpa [hfound] using hfirst
            simp [hkind]
  · rw [hcount, Mention.share]
    exact Nat.add_le_add (Bool.toNat_le _) (Bool.toNat_le _)

/-- A phrase and the token rule `x = /a/`. -/
def twins (members : List Rule) : Grammar where
  name := "twins"
  rules := [("phrase", .seq members), ("x", .pattern "a" none)]
  extras := []
  conflicts := []
  externals := []
  word := none

/-- A pattern behind the token rule of the pattern takes the rule's terminal. -/
theorem nodup_definitions_twins : ∃ prepared,
    (twins [.reference "x", .pattern "a" none]).prepare = .ok prepared ∧
      prepared.definitions.Nodup := by
  have hprepares : (twins [.reference "x", .pattern "a" none]).prepare.toOption.isSome = true := by
    decide +kernel
  obtain ⟨prepared, hprepared⟩ := Option.isSome_iff_exists.mp hprepares
  have hfirst : ((twins [.reference "x", .pattern "a" none]).defineTokens []
      ((twins [.reference "x", .pattern "a" none]).tokenRules
        (twins [.reference "x", .pattern "a" none]).usedRules)).toOption.any (fun defined =>
      defined.all fun entry =>
        (twins [.reference "x", .pattern "a" none]).ruleComesFirst defined entry.2) = true := by
    decide +kernel
  obtain ⟨defined, hdefined, hall⟩ := (Option.any_eq_true _ _).mp hfirst
  have hprepared := eq_ok_of_toOption hprepared
  exact ⟨prepared, hprepared, (nodup_definitions_iff hprepared (eq_ok_of_toOption hdefined)).1.mpr
    (List.all_eq_true.mp hall)⟩

/-- Before its token rule the pattern gets a terminal of its own, and the rule another one. -/
theorem not_nodup_definitions_twins : ∃ prepared,
    (twins [.pattern "a" none, .reference "x"]).prepare = .ok prepared ∧
      ¬prepared.definitions.Nodup := by
  have hrun : (twins [.pattern "a" none, .reference "x"]).prepare.toOption.any (fun prepared =>
      !decide prepared.definitions.Nodup) = true := by decide +kernel
  obtain ⟨prepared, hprepared, htwice⟩ := (Option.any_eq_true _ _).mp hrun
  exact ⟨prepared, eq_ok_of_toOption hprepared, by simpa using htwice⟩

end Grammar

end LRWorkbench
