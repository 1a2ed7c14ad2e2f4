import LRWorkbench.Lalr.Resolution
import LRWorkbench.Proofs.Except
import LRWorkbench.Proofs.Prepared.Conflicts

/-!
# Declaring conflicts is conservative

The states of a parser and their lookaheads do not depend on the conflict groups of the grammar
(`Augmented.automaton_withGroups`). Groups are looked at in one place only, where several
productions of the highest level are complete: without a group that has them all there is no
decision, and with one the first of them wins, whichever group it is
(`Automaton.within_reduceReduce`). With more groups the rows stay as they are
(`Automaton.within_rows`).

So a conflict group only allows what would be an error without it. Where a grammar compiles, more groups
of phrase rules leave its table as it is (`Grammar.compile_withConflicts`).
-/

namespace LRWorkbench.Lalr

/-- An augmented grammar with other conflict groups. -/
def Augmented.withGroups (a : Augmented) (groups : List (List Nat)) : Augmented :=
  { a with grammar := a.grammar.withGroups groups }

/-- The states of a parser with other conflict groups. -/
def Automaton.withGroups (m : Automaton) (groups : List (List Nat)) : Automaton :=
  { m with augmented := m.augmented.withGroups groups }

theorem augment_withGroups (g : PreparedGrammar) (groups : List (List Nat)) :
    augment (g.withGroups groups) = (augment g).withGroups groups := rfl

/-! ### States and lookaheads -/

namespace Augmented

variable (a : Augmented) (groups : List (List Nat))

theorem explore_withGroups : (a.withGroups groups).explore = a.explore := by
  delta explore
  rfl

theorem collection_withGroups : (a.withGroups groups).collection = a.collection := by
  rw [collection, explore_withGroups]
  rfl

theorem settle_withGroups : (a.withGroups groups).settle = a.settle := by
  delta settle
  rfl

theorem closureWith_withGroups (kernel : List (Item × Lookahead)) :
    (a.withGroups groups).closureWith kernel = a.closureWith kernel := by
  simp only [closureWith, closureLookaheads, settle_withGroups]
  rfl

theorem sources_withGroups (states : Array State) :
    (a.withGroups groups).sources states = a.sources states := by
  simp only [sources, flows, closureWith_withGroups]
  rfl

/-- **The states and their lookaheads do not depend on the groups.** -/
theorem automaton_withGroups :
    (a.withGroups groups).automaton = a.automaton.withGroups groups := by
  simp only [automaton, collection_withGroups, sources_withGroups]
  rfl

end Augmented

/-! ### Decisions -/

namespace Automaton

variable {m : Automaton} {groups : List (List Nat)}

theorem closureOf_withGroups (m : Automaton) (groups : List (List Nat)) (place : Nat) :
    (m.withGroups groups).closureOf place = m.closureOf place := by
  simp only [closureOf]
  rw [show (m.withGroups groups).augmented = m.augmented.withGroups groups from rfl,
    Augmented.closureWith_withGroups]
  rfl

theorem whole_withGroups (m : Automaton) (groups : List (List Nat)) :
    (m.withGroups groups).augmented.whole = m.augmented.whole := rfl

theorem levelOf_withGroups (m : Automaton) (groups : List (List Nat)) :
    (m.withGroups groups).levelOf = m.levelOf := rfl

theorem describe_withGroups (m : Automaton) (groups : List (List Nat)) :
    (m.withGroups groups).describe = m.describe := by
  funext item
  unfold describe
  rw [show (m.withGroups groups).grammar = m.grammar.withGroups groups from rfl,
    PreparedGrammar.describeProduction_withGroups]
  rfl

/-- Groups have no say in whether to shift or to reduce. -/
theorem shiftReduce_withGroups (m : Automaton) (groups : List (List Nat)) :
    (m.withGroups groups).shiftReduce = m.shiftReduce := by
  funext place s items reduced
  unfold shiftReduce reduceLine
  rw [describe_withGroups]
  rfl

section

variable (hmore : m.grammar.conflictGroups ⊆ groups)
include hmore

/-- Productions that share a group still do. -/
theorem inOneGroup_withGroups {productions : List Nat} (h : m.inOneGroup productions = true) :
    (m.withGroups groups).inOneGroup productions = true := by
  obtain ⟨group, hgroup, hall⟩ := List.any_eq_true.mp h
  exact List.any_eq_true.mpr ⟨group, hmore hgroup, hall⟩

/-- A conflict between reductions that is decided is decided alike: no group has a say in which of
the productions wins. -/
theorem within_reduceReduce (place : Nat) (s : Symbol) (productions : List Nat) :
    Within (m.reduceReduce place s productions)
      ((m.withGroups groups).reduceReduce place s productions) := by
  intro p h
  rw [reduceReduce] at h ⊢
  rw [levelOf_withGroups, whole_withGroups]
  generalize productions.filter (fun p => m.levelOf p = highest (productions.map m.levelOf)) = top
    at h ⊢
  split at h
  case h_1 => exact h
  case h_2 =>
  split at h
  case isFalse => cases h
  case isTrue hshared =>
  obtain ⟨hwhole, hgroup⟩ := Bool.and_eq_true_iff.mp hshared
  rw [if_pos (Bool.and_eq_true_iff.mpr ⟨hwhole, inOneGroup_withGroups hmore hgroup⟩)]
  split at h
  case h_1 => exact h
  case h_2 => cases h

/-- What is decided is decided alike. -/
theorem within_decide (place : Nat) (s : Symbol) (target? : Option Nat) (items : List Item)
    (productions : List Nat) :
    Within (m.decide place s target? items productions)
      ((m.withGroups groups).decide place s target? items productions) := by
  unfold Automaton.decide
  rw [shiftReduce_withGroups, whole_withGroups]
  split
  case isTrue => exact .refl _
  case isFalse =>
    dsimp only
    split
    · exact .refl _
    · exact (within_reduceReduce hmore place s productions).bind fun _ => .refl _

/-- The cells of a state stay as they are. -/
theorem within_cells (place : Nat) (state : State) :
    Within (m.cells place state) ((m.withGroups groups).cells place state) := by
  unfold cells
  rw [closureOf_withGroups]
  refine .bind (.mapM ?_ _) fun _ => .bind (.mapM ?_ _) fun _ => .refl _
  · rintro ⟨s, target⟩
    exact (within_decide hmore place s _ _ _).bind fun _ => .refl _
  · intro s
    exact (within_decide hmore place s _ _ _).bind fun _ => .refl _

theorem within_addRows (rows : Rows) (states : List (State × Nat)) :
    Within (m.addRows rows states) ((m.withGroups groups).addRows rows states) := by
  induction states generalizing rows with
  | nil => exact .refl _
  | cons entry rest ih =>
    exact (within_cells hmore entry.2 entry.1).bind fun _ => ih _

/-- **With more groups the rows stay as they are.** -/
theorem within_rows : Within m.rows (m.withGroups groups).rows :=
  within_addRows hmore _ _

end

end Automaton

end LRWorkbench.Lalr

namespace LRWorkbench

theorem PreparedGrammar.automaton_withGroups (g : PreparedGrammar) (groups : List (List Nat)) :
    (g.withGroups groups).automaton = g.automaton.withGroups groups := by
  rw [automaton, Lalr.augment_withGroups, Lalr.Augmented.automaton_withGroups]
  rfl

/-- The groups are no part of the table. -/
theorem PreparedGrammar.emit_withGroups (g : PreparedGrammar) (groups : List (List Nat))
    (rows : Lalr.Rows) : (g.withGroups groups).emit rows = g.emit rows := by
  unfold emit checkLengths
  rw [describeProduction_withGroups]
  rfl

/-- **Declaring conflicts is conservative.** If a grammar compiles, it does so with more conflict
groups of phrase rules, wherever they are put, and its table is the same. -/
theorem Grammar.compile_withConflicts {g : Grammar} {t : ParseTable} {groups : List (List String)}
    (h : g.compile = .ok t) (hmore : g.conflicts ⊆ groups)
    (hphrases : ∀ names ∈ groups, names ∉ g.conflicts → ∀ name ∈ names, g.NamesPhrase name) :
    (g.withConflicts groups).compile = .ok t := by
  rw [compile] at h
  obtain ⟨prepared, hprepare, h⟩ := bind_eq_ok.mp h
  obtain ⟨rows, hrows, hemit⟩ := bind_eq_ok.mp h
  obtain ⟨kinds, hkinds, hprepare⟩ := exists_prepare_withConflicts hprepare hmore hphrases
  rw [compile]
  refine bind_eq_ok.mpr ⟨_, hprepare, bind_eq_ok.mpr ⟨rows, ?_, ?_⟩⟩
  · rw [PreparedGrammar.automaton_withGroups]
    exact Lalr.Automaton.within_rows hkinds rows hrows
  · rw [PreparedGrammar.emit_withGroups]
    exact hemit

/-- A phrase that may be read in two ways, which only a conflict group allows. -/
def twofold : Grammar where
  name := "twofold"
  rules := [
    ("phrase", .choice [.reference "former", .reference "latter"]),
    ("former", .seq [.literal "x"]),
    ("latter", .seq [.literal "x"])]
  extras := []
  conflicts := [["former", "latter"]]
  externals := []
  word := none

/-- A group that is put before the one that decides leaves the decision as it is. -/
theorem Grammar.compile_withConflicts_twofold : ∃ t, twofold.compile = .ok t ∧
    (twofold.withConflicts [["phrase", "latter"], ["former", "latter"]]).compile = .ok t := by
  have hrun : twofold.compile.toOption.isSome = true := by decide +kernel
  obtain ⟨t, ht⟩ := Option.isSome_iff_exists.mp hrun
  have hcompile := eq_ok_of_toOption ht
  exact ⟨t, hcompile, compile_withConflicts hcompile (by decide) (by decide +kernel)⟩

end LRWorkbench
