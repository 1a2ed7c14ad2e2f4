import LRWorkbench.Prepared.Productions
import Mathlib.Algebra.Order.Kleene
import Mathlib.Computability.Language
import Mathlib.Order.CompletePartialOrder

/-!
# What rules and productions mean

A rule stands for a language of steps (`Flatten.meaning`): a sequence for a concatenation, a choice
for a union, a repetition for a star. Around an atom it counts which field and which level are the
innermost ones.

The productions of a phrase kind stand for a language of steps too (`PreparedGrammar.language`):
steps that are helpers made for the phrase kind are replaced by what the productions of the helper
stand for, all other steps stay. The productions that are made for a repetition,
`helper → helper x` and `helper → x`, are those of a **Kleene plus**
(`PreparedGrammar.unfolding_helper`).
-/

namespace LRWorkbench

open scoped Computability

/-! ### Rules -/

namespace Flatten

/-- A language of steps, by a name that no language of a table has. -/
abbrev StepLanguage := Language Step

/-- The terminal of a token that is written within a phrase. -/
def Source.inlineSymbol? (s : Source) (r : Rule) : Option Symbol :=
  Vocabulary.inlineTerminal? s.grammar s.terminals.definitions s.terminals.vocabulary r

/-- An atom by itself, with what is written around it. There is nothing to read where an atom has
no symbol. -/
def atom (ctx : Context) : Option Symbol → Language Step
  | some symbol => {[ctx.step symbol]}
  | none => 0

mutual

/-- The lists of steps that a rule stands for. Fields have the number of their name in a list. -/
def meaning (s : Source) (fields : List String) (ctx : Context) : Rule → Language Step
  | .blank => 1
  | .literal text => atom ctx (s.inlineSymbol? (.literal text))
  | .pattern value flags => atom ctx (s.inlineSymbol? (.pattern value flags))
  | .token content => atom ctx (s.inlineSymbol? (.token content))
  | .reference name => atom ctx (s.symbolOf? name)
  | .seq members => meaningOfSeq s fields ctx members
  | .choice members => meaningOfChoice s fields ctx members
  | .zeroOrMore content => (meaning s fields ctx content)∗
  | .oneOrMore content => meaning s fields ctx content * (meaning s fields ctx content)∗
  | .field name content =>
    meaning s fields { ctx with field := some (.ofIndex (fields.idxOf name)) } content
  | .prec assoc level content =>
    meaning s fields { ctx with precedence := level, assoc := assoc } content

/-- The lists of steps of rules that follow each other. -/
def meaningOfSeq (s : Source) (fields : List String) (ctx : Context) : List Rule → Language Step
  | [] => 1
  | r :: rs => meaning s fields ctx r * meaningOfSeq s fields ctx rs

/-- The lists of steps of any of some rules. -/
def meaningOfChoice (s : Source) (fields : List String) (ctx : Context) :
    List Rule → Language Step
  | [] => 0
  | r :: rs => meaning s fields ctx r + meaningOfChoice s fields ctx rs

end

end Flatten

/-! ### Productions -/

namespace PreparedGrammar

/-- The helper that a step stands for, if it was made for a repetition in the phrases of a kind. -/
def helperOf? (g : PreparedGrammar) (kind : Nat) (step : Step) : Option Nat :=
  (g.nonTerminalIndex? step.symbol).filter fun i =>
    (g.nonTerminals[i]?.bind (·.parent)).isSome && g.conflictOwner i = kind

/-- Whether replacing the helpers made for a kind by what they stand for makes some steps of others,
until no such helper is left. -/
inductive Unfolds (g : PreparedGrammar) (kind : Nat) : List Step → List Step → Prop where
  | nil : Unfolds g kind [] []
  | keep {step : Step} {steps out : List Step} (kept : g.helperOf? kind step = none)
      (rest : Unfolds g kind steps out) : Unfolds g kind (step :: steps) (step :: out)
  | expand {step : Step} {p : Production} {steps front back : List Step}
      (production : p ∈ g.productions) (helper : g.helperOf? kind step = some p.lhs)
      (first : Unfolds g kind p.steps front) (rest : Unfolds g kind steps back) :
      Unfolds g kind (step :: steps) (front ++ back)

/-- What the productions of a phrase kind or helper stand for. -/
def unfolding (g : PreparedGrammar) (kind lhs : Nat) : Language Step :=
  {out | ∃ p ∈ g.productions, p.lhs = lhs ∧ g.Unfolds kind p.steps out}

/-- What the productions of a phrase kind stand for. -/
def language (g : PreparedGrammar) (kind : Nat) : Language Step := g.unfolding kind kind

/-- What any of some alternatives stands for. -/
def readings (g : PreparedGrammar) (kind : Nat) (members : List Flatten.Alternative) :
    Language Step :=
  {out | ∃ a ∈ members, g.Unfolds kind a.steps out}

variable {g : PreparedGrammar} {kind : Nat} {step : Step} {steps more out : List Step}

/-! ### Unfolding step by step -/

theorem unfolds_nil : g.Unfolds kind [] out ↔ out = [] := by
  constructor
  · intro h
    cases h
    rfl
  · rintro rfl
    exact .nil

theorem unfolds_append : g.Unfolds kind (steps ++ more) out ↔
    ∃ front back, out = front ++ back ∧ g.Unfolds kind steps front ∧ g.Unfolds kind more back := by
  constructor
  · intro h
    induction steps generalizing out with
    | nil => exact ⟨[], out, rfl, .nil, h⟩
    | cons step steps ih =>
      cases h with
      | keep kept rest =>
        obtain ⟨front, back, rfl, hfront, hback⟩ := ih rest
        exact ⟨step :: front, back, rfl, .keep kept hfront, hback⟩
      | @expand _ _ _ first _ production helper hfirst rest =>
        obtain ⟨front, back, rfl, hfront, hback⟩ := ih rest
        exact ⟨first ++ front, back, (List.append_assoc ..).symm,
          .expand production helper hfirst hfront, hback⟩
  · rintro ⟨front, back, rfl, hfront, hback⟩
    induction hfront with
    | nil => exact hback
    | keep kept rest ih => exact .keep kept ih
    | expand production helper first rest _ ih =>
      rw [List.append_assoc]
      exact .expand production helper first ih

theorem unfolds_kept (h : g.helperOf? kind step = none) :
    g.Unfolds kind [step] out ↔ out = [step] := by
  constructor
  · intro hunfolds
    cases hunfolds with
    | keep _ rest => rw [unfolds_nil.mp rest]
    | expand _ helper _ _ => exact absurd (h.symm.trans helper) (by simp)
  · rintro rfl
    exact .keep h .nil

theorem unfolds_helper {helper : Nat} (h : g.helperOf? kind step = some helper) :
    g.Unfolds kind [step] out ↔ out ∈ g.unfolding kind helper := by
  constructor
  · intro hunfolds
    cases hunfolds with
    | keep kept _ => exact absurd (h.symm.trans kept) (by simp)
    | @expand _ p _ front _ production hstep first rest =>
      rw [unfolds_nil.mp rest, List.append_nil]
      exact ⟨p, production, Option.some.inj (hstep.symm.trans h), first⟩
  · rintro ⟨p, hp, rfl, hout⟩
    rw [← List.append_nil out]
    exact .expand hp h hout .nil

/-! ### The readings of alternatives -/

section Readings

variable {ctx : Flatten.Context} {front next : List Flatten.Alternative}

theorem mem_readings : out ∈ g.readings kind front ↔ ∃ a ∈ front, g.Unfolds kind a.steps out :=
  Iff.rfl

theorem readings_nil : g.readings kind [] = 0 := by
  ext out
  simp [mem_readings]

theorem readings_append :
    g.readings kind (front ++ next) = g.readings kind front + g.readings kind next := by
  ext out
  simp only [mem_readings, List.mem_append, Language.mem_add, or_and_right, exists_or]

theorem readings_cons (a : Flatten.Alternative) :
    g.readings kind (a :: next) = g.readings kind [a] + g.readings kind next := by
  rw [← readings_append, List.singleton_append]

theorem readings_nothing : g.readings kind [.nothing ctx] = 1 := by
  ext out
  simp only [mem_readings, List.mem_singleton, exists_eq_left, Language.mem_one]
  exact unfolds_nil

theorem readings_kept (h : g.helperOf? kind step = none) :
    g.readings kind [.single step] = {[step]} := by
  ext out
  simp only [mem_readings, List.mem_singleton, exists_eq_left]
  exact unfolds_kept h

theorem readings_helper {helper : Nat} (h : g.helperOf? kind step = some helper) :
    g.readings kind [.single step] = g.unfolding kind helper := by
  ext out
  simp only [mem_readings, List.mem_singleton, exists_eq_left]
  exact unfolds_helper h

theorem steps_append (a b : Flatten.Alternative) : (a.append b).steps = a.steps ++ b.steps := by
  rw [Flatten.Alternative.append]
  split <;> rfl

/-- Combining all alternatives of two parts concatenates what they stand for. -/
theorem readings_product :
    g.readings kind (front.flatMap fun a => next.map fun b => a.append b) =
      g.readings kind front * g.readings kind next := by
  ext out
  rw [Language.mem_mul]
  constructor
  · rintro ⟨c, hc, hout⟩
    obtain ⟨a, ha, hc⟩ := List.mem_flatMap.mp hc
    obtain ⟨b, hb, rfl⟩ := List.mem_map.mp hc
    rw [steps_append] at hout
    obtain ⟨u, v, rfl, hu, hv⟩ := unfolds_append.mp hout
    exact ⟨u, ⟨a, ha, hu⟩, v, ⟨b, hb, hv⟩, rfl⟩
  · rintro ⟨u, ⟨a, ha, hu⟩, v, ⟨b, hb, hv⟩, rfl⟩
    refine ⟨a.append b, List.mem_flatMap.mpr ⟨a, ha, List.mem_map_of_mem hb⟩, ?_⟩
    rw [steps_append]
    exact unfolds_append.mpr ⟨u, v, rfl, hu, hv⟩

end Readings

/-! ### Repetitions -/

/-- Whether the productions of a helper are its members, each alone and, if it has steps, after the
helper itself. -/
def Repeats (g : PreparedGrammar) (helper : Nat) (again : Step)
    (members : List Flatten.Alternative) : Prop :=
  ∀ steps, (∃ p ∈ g.productions, p.lhs = helper ∧ p.steps = steps) ↔
    ∃ a ∈ members, steps = a.steps ∨ a.steps ≠ [] ∧ steps = again :: a.steps

section Repeats

theorem le_mul_kstar (l : Language Step) : l ≤ l * l∗ :=
  calc
    l = l * 1 := (mul_one l).symm
    _ ≤ l * l∗ := mul_le_mul_right one_le_kstar l

variable {helper : Nat} {members : List Flatten.Alternative}

/-- What unfolds from a member after the helper is a repetition. The induction is on the unfolding:
the helper at the front unfolds to a repetition itself. -/
theorem Repeats.mem_of_unfolds (h : g.Repeats helper step members)
    (hstep : g.helperOf? kind step = some helper) (hout : g.Unfolds kind steps out) :
    ∀ a ∈ members, steps = step :: a.steps →
      out ∈ g.readings kind members * (g.readings kind members)∗ := by
  induction hout with
  | nil =>
    intro a ha heq
    cases heq
  | keep kept rest ih =>
    intro a ha heq
    obtain ⟨rfl, -⟩ := List.cons.inj heq
    exact absurd (hstep.symm.trans kept) (by simp)
  | @expand step' p steps front back production hhelper first rest ih _ =>
    intro a ha heq
    obtain ⟨rfl, rfl⟩ := List.cons.inj heq
    have hlhs : p.lhs = helper := Option.some.inj (hhelper.symm.trans hstep)
    have hback : back ∈ g.readings kind members := ⟨a, ha, rest⟩
    have hfront : front ∈ g.readings kind members * (g.readings kind members)∗ := by
      obtain ⟨b, hb, hsteps | ⟨-, hsteps⟩⟩ := (h p.steps).mp ⟨p, production, hlhs, rfl⟩
      · exact le_mul_kstar _ ⟨b, hb, hsteps ▸ first⟩
      · exact ih b hb hsteps
    have hle : g.readings kind members * (g.readings kind members)∗ * g.readings kind members ≤
        g.readings kind members * (g.readings kind members)∗ := by
      rw [mul_assoc]
      exact mul_le_mul_right kstar_mul_le_kstar _
    exact hle (Language.append_mem_mul hfront hback)

/-- **A helper stands for a Kleene plus** of what its members stand for. -/
theorem unfolding_helper (h : g.Repeats helper step members)
    (hstep : g.helperOf? kind step = some helper) :
    g.unfolding kind helper = g.readings kind members * (g.readings kind members)∗ := by
  apply le_antisymm
  · rintro out ⟨p, hp, hlhs, hout⟩
    obtain ⟨a, ha, hsteps | ⟨-, hsteps⟩⟩ := (h p.steps).mp ⟨p, hp, hlhs, rfl⟩
    · exact le_mul_kstar _ ⟨a, ha, hsteps ▸ hout⟩
    · exact h.mem_of_unfolds hstep hout a ha hsteps
  · refine mul_kstar_le ?_ ?_
    · rintro out ⟨a, ha, hout⟩
      obtain ⟨p, hp, hlhs, hsteps⟩ := (h a.steps).mpr ⟨a, ha, .inl rfl⟩
      exact ⟨p, hp, hlhs, hsteps ▸ hout⟩
    · intro out hout
      obtain ⟨u, hu, v, ⟨a, ha, hv⟩, rfl⟩ := Language.mem_mul.mp hout
      by_cases hempty : a.steps = []
      · -- a member without steps adds nothing
        rw [hempty] at hv
        rw [unfolds_nil.mp hv, List.append_nil]
        exact hu
      · obtain ⟨p, hp, hlhs, hsteps⟩ := (h (step :: a.steps)).mpr ⟨a, ha, .inr ⟨hempty, rfl⟩⟩
        refine ⟨p, hp, hlhs, ?_⟩
        rw [hsteps]
        obtain ⟨q, hq, hqlhs, hu⟩ := hu
        exact .expand hq (hqlhs ▸ hstep) hu hv

end Repeats

end PreparedGrammar

end LRWorkbench
