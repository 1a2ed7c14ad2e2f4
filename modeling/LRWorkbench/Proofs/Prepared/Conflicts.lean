import LRWorkbench.Proofs.Prepared.Names

/-!
# Preparing a grammar with more conflict groups

Two things in the preparation of a grammar look at its conflict groups: their names have to be those
of phrase rules, and each group with members becomes one of phrase kinds. All else is the same
whatever groups are declared, so that a grammar with more of them is prepared alike, and keeps the
groups it had (`Grammar.exists_prepare_withConflicts`).
-/

namespace LRWorkbench

/-- A grammar with other conflict groups. -/
def Grammar.withConflicts (g : Grammar) (groups : List (List String)) : Grammar :=
  { g with conflicts := groups }

/-- A prepared grammar with other conflict groups. -/
def PreparedGrammar.withGroups (g : PreparedGrammar) (groups : List (List Nat)) : PreparedGrammar :=
  { g with conflictGroups := groups }

/-- Whether a name is one of a rule that defines no token. -/
def Grammar.NamesPhrase (g : Grammar) (name : String) : Prop :=
  ∃ i, g.ruleIndex? name = some i ∧ g.isLexicalAt i = false

instance (g : Grammar) (name : String) : Decidable (g.NamesPhrase name) :=
  decidable_of_iff ((g.ruleIndex? name).any fun i => !g.isLexicalAt i) <| by
    simp [Grammar.NamesPhrase, Option.any_eq_true]

/-! ### What does not look at the groups

None of the recursions below reads the groups of the grammar that it is given, so that both sides
unfold to the same one. -/

section

variable (g : Grammar) (groups : List (List String))

theorem Grammar.checkReferences_withConflicts :
    (g.withConflicts groups).checkReferences = g.checkReferences := by
  delta checkReferences
  rfl

theorem Grammar.defineTokens_withConflicts :
    (g.withConflicts groups).defineTokens = g.defineTokens := by
  delta defineTokens
  rfl

theorem Vocabulary.addPhrase_withConflicts :
    addPhrase (g.withConflicts groups) = addPhrase g := by
  delta addPhrase
  rfl

theorem Vocabulary.addPhraseRules_withConflicts (defined : TokenDefinitions) (v : Vocabulary)
    (places : List Nat) :
    addPhraseRules (g.withConflicts groups) defined v places = addPhraseRules g defined v places := by
  induction places generalizing v with
  | nil => rfl
  | cons i rest ih =>
    simp only [addPhraseRules, addPhrase_withConflicts, ih]
    rfl

theorem Vocabulary.addExtras_withConflicts :
    addExtras (g.withConflicts groups) = addExtras g := by
  delta addExtras
  rfl

theorem Grammar.terminals_withConflicts (used : List Nat) :
    (g.withConflicts groups).terminals used = g.terminals used := by
  simp only [terminals, defineTokens_withConflicts, Vocabulary.addPhraseRules_withConflicts,
    Vocabulary.addExtras_withConflicts]
  rfl

end

namespace Flatten

/-- What is known of a grammar does not change with its groups. -/
def Source.withConflicts (s : Source) (groups : List (List String)) : Source :=
  { s with grammar := s.grammar.withConflicts groups }

variable (s : Source) (groups : List (List String))

theorem alternatives_withConflicts : alternatives (s.withConflicts groups) = alternatives s := by
  delta alternatives
  rfl

theorem addRules_withConflicts (d : Draft) (rules : List (Nat × Rule)) :
    addRules (s.withConflicts groups) d rules = addRules s d rules := by
  induction rules generalizing d with
  | nil => rfl
  | cons entry rest ih => simp only [addRules, alternatives_withConflicts, ih]

theorem groupMembers_withConflicts : groupMembers (s.withConflicts groups) = groupMembers s := by
  delta groupMembers
  rfl

theorem conflictGroups_withConflicts (found : List (List Nat)) (declared : List (List String)) :
    conflictGroups (s.withConflicts groups) found declared = conflictGroups s found declared := by
  induction declared generalizing found with
  | nil => rfl
  | cons names rest ih => simp only [conflictGroups, groupMembers_withConflicts, ih]

end Flatten

namespace PreparedGrammar

variable (g : PreparedGrammar) (groups : List (List Nat))

theorem describeSteps_withGroups : (g.withGroups groups).describeSteps = g.describeSteps := by
  delta describeSteps
  rfl

theorem describeProduction_withGroups :
    (g.withGroups groups).describeProduction = g.describeProduction := by
  funext production dot
  simp only [describeProduction, describeSteps_withGroups]
  rfl

end PreparedGrammar

/-! ### Groups -/

namespace Flatten

variable {s : Source} {found groups : List (List Nat)} {declared : List (List String)}

/-- A group has members unless it names a token. -/
theorem exists_groupMembers {names : List String} {found : List Nat}
    (h : ∀ name ∈ names, s.grammar.NamesPhrase name) :
    ∃ members, groupMembers s found names = .ok members := by
  induction names generalizing found with
  | nil => exact ⟨found, rfl⟩
  | cons name rest ih =>
    obtain ⟨⟨rule, hrule, hlexical⟩, hrest⟩ := List.forall_mem_cons.mp h
    simp only [groupMembers, hrule, hlexical]
    exact ih hrest

/-- If each group has members, there are groups of phrase kinds. -/
theorem exists_conflictGroups
    (h : ∀ names ∈ declared, ∃ members, groupMembers s [] names = .ok members) :
    ∃ groups, conflictGroups s found declared = .ok groups := by
  induction declared generalizing found with
  | nil => exact ⟨found, rfl⟩
  | cons names rest ih =>
    obtain ⟨⟨members, hmembers⟩, hrest⟩ := List.forall_mem_cons.mp h
    obtain ⟨groups, hgroups⟩ := ih hrest
    exact ⟨groups, bind_eq_ok.mpr ⟨members, hmembers, hgroups⟩⟩

/-- Which groups of phrase kinds there are: those found before and, for each one declared, that of
its members if there are any. -/
theorem mem_conflictGroups (h : conflictGroups s found declared = .ok groups) :
    (∀ names ∈ declared, ∃ members, groupMembers s [] names = .ok members) ∧
      ∀ group, group ∈ groups ↔ group ∈ found ∨
        group ≠ [] ∧ ∃ names ∈ declared, groupMembers s [] names = .ok group := by
  induction declared generalizing found with
  | nil =>
    cases h
    exact ⟨fun _ hnames => absurd hnames List.not_mem_nil, by simp⟩
  | cons names rest ih =>
    obtain ⟨members, hmembers, h⟩ := bind_eq_ok.mp h
    obtain ⟨hall, hmem⟩ := ih h
    refine ⟨List.forall_mem_cons.mpr ⟨⟨members, hmembers⟩, hall⟩, ?_⟩
    intro group
    have hadded : group ∈ (if members.isEmpty || found.contains members then found
        else found ++ [members]) ↔ group ∈ found ∨ group ≠ [] ∧ members = group := by
      split
      case isTrue hknown =>
        simp only [Bool.or_eq_true, List.isEmpty_iff, List.contains_iff_mem] at hknown
        refine ⟨.inl, ?_⟩
        rintro (hfound | ⟨hne, rfl⟩)
        · exact hfound
        · exact hknown.resolve_left hne
      case isFalse hnew =>
        simp only [Bool.or_eq_true, List.isEmpty_iff, List.contains_iff_mem, not_or] at hnew
        simp only [List.mem_append, List.mem_singleton]
        refine or_congr_right ⟨?_, fun h => h.2.symm⟩
        rintro rfl
        exact ⟨hnew.1, rfl⟩
    rw [hmem, hadded]
    simp only [List.mem_cons, exists_eq_or_imp, hmembers, Except.ok.injEq]
    tauto

/-- With more groups declared there are more groups of phrase kinds. -/
theorem subset_of_conflictGroups {more : List (List String)} {groups' : List (List Nat)}
    (h : conflictGroups s [] declared = .ok groups)
    (h' : conflictGroups s [] more = .ok groups') (hmore : declared ⊆ more) : groups ⊆ groups' := by
  intro group hgroup
  rcases ((mem_conflictGroups h).2 group).mp hgroup with hfound | ⟨hne, names, hnames, hmembers⟩
  · cases hfound
  · exact ((mem_conflictGroups h').2 group).mpr (.inr ⟨hne, names, hmore hnames, hmembers⟩)

end Flatten

namespace Grammar

open Flatten

variable {g : Grammar} {prepared : PreparedGrammar} {groups : List (List String)}

/-- More groups may be declared if their names are those of rules. -/
theorem NamesFit.withConflicts (h : g.NamesFit)
    (hnames : ∀ name ∈ groups.flatten, (g.ruleIndex? name).isSome) :
    (g.withConflicts groups).NamesFit := by
  refine ⟨h.rules, h.externals, ?_, ?_, hnames, h.start, h.word⟩
  · rw [checkReferences_withConflicts]
    exact h.references
  · rw [checkReferences_withConflicts]
    exact h.extras

/-- **A grammar with more conflict groups is prepared alike**, and has all groups of phrase kinds
that it had. -/
theorem exists_prepare_withConflicts (h : g.prepare = .ok prepared) (hmore : g.conflicts ⊆ groups)
    (hphrases : ∀ names ∈ groups, names ∉ g.conflicts → ∀ name ∈ names, g.NamesPhrase name) :
    ∃ kinds, prepared.conflictGroups ⊆ kinds ∧
      (g.withConflicts groups).prepare = .ok (prepared.withGroups kinds) := by
  obtain ⟨terminals, d, old, hmade⟩ := prepare_eq_ok.mp h
  obtain rfl := hmade.eq
  have hfit := checkNames_eq_ok.mp hmade.named
  have hdefined : ∀ name ∈ groups.flatten, (g.ruleIndex? name).isSome := by
    intro name hname
    obtain ⟨names, hnames, hname⟩ := List.mem_flatten.mp hname
    by_cases hdeclared : names ∈ g.conflicts
    · exact hfit.conflicts name (List.mem_flatten.mpr ⟨names, hdeclared, hname⟩)
    · obtain ⟨i, hi, -⟩ := hphrases names hnames hdeclared name hname
      exact hi ▸ rfl
  have hmembers : ∀ names ∈ groups, ∃ members,
      groupMembers ⟨g, terminals, g.phraseRules g.usedRules⟩ [] names = .ok members := by
    intro names hnames
    by_cases hdeclared : names ∈ g.conflicts
    · exact (mem_conflictGroups hmade.grouped).1 names hdeclared
    · exact exists_groupMembers (hphrases names hnames hdeclared)
  obtain ⟨kinds, hkinds⟩ := exists_conflictGroups hmembers
  refine ⟨kinds, subset_of_conflictGroups hmade.grouped hkinds hmore, ?_⟩
  apply prepare_eq_ok.mpr
  refine ⟨terminals, d, kinds, checkNames_eq_ok.mpr (hfit.withConflicts hdefined),
    (terminals_withConflicts ..).trans hmade.numbered, hmade.counted, ?_, hmade.productive, ?_, rfl⟩
  · exact (addRules_withConflicts ..).trans hmade.flattened
  · exact (conflictGroups_withConflicts ..).trans hkinds

end Grammar

end LRWorkbench
