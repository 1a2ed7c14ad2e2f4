import LRWorkbench.Diagnostic.Basic
import Mathlib.Data.List.Basic
import Mathlib.Logic.Relation

/-!
# The core of a list of diagnostics

Diagnostics are dropped while others are still to be looked at, and what is dropped drops nothing any
more. So what is left depends on the order in which the diagnostics came, the more as shadowing is not
transitive: `a` may shadow `b` and `b` shadow `c`, while `a` does not shadow `c`.

What is left is a **core** all the same. A sweep only ever takes out what is shadowed by the diagnostic
it is at (`sweep_cons`), those it has passed shadow nothing that still stands (`shadows_sweep`), and what
is taken out is led back to what stands, step by step (`exists_reaches_sweep`).

**Main statement.** `filtered_core`: the diagnostics that are left stand in their order, none shadows
another, they are left alone by another filtering, there are some if there were any, and whatever was
dropped is at the end of a chain of shadowing diagnostics that begins at one that is left.
-/

namespace LRWorkbench.Diagnostic

/-- Whether a diagnostic of a list shadows another one of the list. -/
def ShadowsIn (ds : List Diagnostic) (a b : Diagnostic) : Prop :=
  a ∈ ds ∧ b ∈ ds ∧ shadows a b = true

variable {ds passed todo : List Diagnostic} {a b d : Diagnostic}

/-- No diagnostic shadows itself, nor a copy of itself. -/
theorem shadows_self (d : Diagnostic) : shadows d d = false := by
  rw [shadows, if_neg (by simp), if_neg (by simp)]
  cases d.kind.cause <;> simp

theorem mem_unshadowed : b ∈ unshadowed d ds ↔ b ∈ ds ∧ shadows d b = false := by
  simp [unshadowed]

theorem unshadowed_subset (d : Diagnostic) (ds : List Diagnostic) : unshadowed d ds ⊆ ds :=
  fun _ h => (mem_unshadowed.mp h).1

theorem unshadowed_eq_self (h : ∀ b ∈ ds, shadows d b = false) : unshadowed d ds = ds :=
  List.filter_eq_self.mpr fun b hb => by simp [h b hb]

/-! ### One step of a sweep -/

/-- The diagnostic that a sweep is at takes out what it shadows, and nothing else. -/
theorem unshadowed_around (d : Diagnostic) (passed todo : List Diagnostic) :
    unshadowed d passed ++ [d] ++ unshadowed d todo = unshadowed d (passed ++ d :: todo) := by
  simp [unshadowed, shadows_self]

theorem sweep_cons (passed : List Diagnostic) (d : Diagnostic) (todo : List Diagnostic) :
    sweep passed (d :: todo) = sweep (unshadowed d passed ++ [d]) (unshadowed d todo) := by
  rw [sweep]

theorem mem_around : b ∈ unshadowed d passed ++ [d] ++ unshadowed d todo ↔
    b ∈ passed ++ d :: todo ∧ shadows d b = false := by
  rw [unshadowed_around, mem_unshadowed]

/-! ### Sweeps -/

/-- Whether a diagnostic is left depends on what it is, not on its place: copies share their fate. -/
theorem sweep_eq_filter (passed todo : List Diagnostic) :
    sweep passed todo = (passed ++ todo).filter (· ∈ sweep passed todo) := by
  induction passed, todo using sweep.induct with
  | case1 passed =>
    rw [sweep, List.append_nil]
    exact (List.filter_eq_self.mpr fun b hb => decide_eq_true hb).symm
  | case2 passed d todo ih =>
    rw [← sweep_cons, unshadowed_around] at ih
    have hleft : ∀ b ∈ sweep passed (d :: todo), shadows d b = false := by
      intro b hb
      rw [ih] at hb
      exact (mem_unshadowed.mp (List.mem_filter.mp hb).1).2
    calc sweep passed (d :: todo)
        = (unshadowed d (passed ++ d :: todo)).filter (· ∈ sweep passed (d :: todo)) := ih
      _ = (passed ++ d :: todo).filter
            fun b => decide (b ∈ sweep passed (d :: todo)) && !shadows d b := List.filter_filter
      _ = (passed ++ d :: todo).filter (· ∈ sweep passed (d :: todo)) := by
          refine List.filter_congr fun b _ => ?_
          by_cases hb : b ∈ sweep passed (d :: todo)
          · simp [hb, hleft b hb]
          · simp [hb]

/-- If those that were passed shadow nothing that stands, nothing that is left shadows another. -/
theorem shadows_sweep (passed todo : List Diagnostic)
    (h : ∀ a ∈ passed, ∀ b ∈ passed ++ todo, shadows a b = false) :
    ∀ a ∈ sweep passed todo, ∀ b ∈ sweep passed todo, shadows a b = false := by
  induction passed, todo using sweep.induct with
  | case1 passed => simpa [sweep] using h
  | case2 passed d todo ih =>
    rw [sweep_cons]
    refine ih fun a ha b hb => ?_
    obtain ⟨hmem, hstands⟩ := mem_around.mp hb
    rcases List.mem_append.mp ha with ha | ha
    · exact h a (unshadowed_subset d passed ha) b hmem
    · rwa [List.mem_singleton.mp ha]

/-- Nothing is taken out where nothing shadows another. -/
theorem sweep_eq_append (passed todo : List Diagnostic)
    (h : ∀ a ∈ passed ++ todo, ∀ b ∈ passed ++ todo, shadows a b = false) :
    sweep passed todo = passed ++ todo := by
  induction passed, todo using sweep.induct with
  | case1 passed => simp [sweep]
  | case2 passed d todo ih =>
    have hnone := unshadowed_eq_self (h d (by simp))
    rw [unshadowed_around, hnone] at ih
    rw [sweep_cons]
    exact ih h

/-- Whatever stood before is led back to what is left. -/
theorem exists_reaches_sweep (passed todo : List Diagnostic) (hds : passed ++ todo ⊆ ds)
    (hb : b ∈ passed ++ todo) :
    ∃ a ∈ sweep passed todo, Relation.ReflTransGen (ShadowsIn ds) a b := by
  induction passed, todo using sweep.induct generalizing b with
  | case1 passed => exact ⟨b, by simpa [sweep] using hb, .refl⟩
  | case2 passed d todo ih =>
    rw [sweep_cons]
    have hsub : unshadowed d passed ++ [d] ++ unshadowed d todo ⊆ ds := fun c hc =>
      hds (mem_around.mp hc).1
    cases hshadows : shadows d b with
    | false => exact ih hsub (mem_around.mpr ⟨hb, hshadows⟩)
    | true =>
      -- what takes `b` out stands now, so it is led back itself
      obtain ⟨a, ha, hchain⟩ := ih hsub (b := d) (by simp)
      exact ⟨a, ha, hchain.tail ⟨hds (by simp), hds hb, hshadows⟩⟩

/-- Nothing is left of an empty list only. -/
theorem filtered_eq_nil : filtered ds = [] ↔ ds = [] := by
  constructor
  · intro h
    by_contra hne
    obtain ⟨d, hd⟩ := List.exists_mem_of_ne_nil ds hne
    obtain ⟨a, ha, -⟩ := exists_reaches_sweep [] ds (fun _ h => h) hd
    rw [filtered] at h
    simp [h] at ha
  · rintro rfl
    simp [filtered, sweep]

/-- **Filtering leaves a stable core.** What is left of a list of diagnostics stands in the order of the
list, copies of one diagnostic being kept or dropped together. No diagnostic that is left shadows
another one, filtering again changes nothing, and something is left of every list that is not empty.
Each diagnostic that was dropped is at the end of a chain of diagnostics of the list, each shadowing the
next, that begins at one that is left. -/
theorem filtered_core (ds : List Diagnostic) :
    ((filtered ds).Sublist ds ∧ filtered ds = ds.filter (· ∈ filtered ds)) ∧
      (∀ a ∈ filtered ds, ∀ b ∈ filtered ds, shadows a b = false) ∧
      filtered (filtered ds) = filtered ds ∧
      (ds ≠ [] → filtered ds ≠ []) ∧
      ∀ d ∈ ds, d ∉ filtered ds →
        ∃ kept ∈ filtered ds, Relation.TransGen (ShadowsIn ds) kept d := by
  have hfilter : filtered ds = ds.filter (· ∈ filtered ds) := sweep_eq_filter [] ds
  have hcore : ∀ a ∈ filtered ds, ∀ b ∈ filtered ds, shadows a b = false :=
    shadows_sweep [] ds nofun
  refine ⟨⟨?_, hfilter⟩, hcore, sweep_eq_append [] _ hcore,
    fun hne h => hne (filtered_eq_nil.mp h), fun d hd hdropped => ?_⟩
  · rw [hfilter]
    exact List.filter_sublist
  · obtain ⟨kept, hkept, hchain⟩ := exists_reaches_sweep [] ds (fun _ h => h) hd
    refine ⟨kept, hkept, ?_⟩
    rcases Relation.reflTransGen_iff_eq_or_transGen.mp hchain with rfl | hchain
    · exact absurd hkept hdropped
    · exact hchain

/-- An unclosed parenthesis drops the bad escape inside it, and is dropped later by the missing
expression at its start, which does not shadow the escape. Still a chain leads from what is left to
the escape. -/
theorem filtered_core_indirect :
    let missing := ofKind .expectedExpression ⟨0, 1⟩
    let escape := ofKind .invalidEscape ⟨4, 6⟩
    let ds := [ofKind .unclosedParen ⟨0, 9⟩, escape, missing]
    filtered ds = [missing] ∧ shadows missing escape = false ∧
      Relation.TransGen (ShadowsIn ds) missing escape := by
  intro missing escape ds
  have hleft : filtered ds = [missing] := by cbv
  refine ⟨hleft, by decide, ?_⟩
  obtain ⟨kept, hkept, hchain⟩ := (filtered_core ds).2.2.2.2 escape (by simp [ds])
    (by rw [hleft]; simp [escape, missing, ofKind])
  rw [hleft, List.mem_singleton] at hkept
  rwa [hkept] at hchain

end LRWorkbench.Diagnostic
