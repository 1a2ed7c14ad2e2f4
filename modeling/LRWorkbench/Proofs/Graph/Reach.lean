import LRWorkbench.Graph.Reach
import Mathlib.Algebra.Ring.Nat
import Mathlib.Data.Finset.Card

/-!
# What a search finds

All places that a search finds are roots or one step from another one that is found
(`Graph.mem_reachFrom`), and none is found twice. With as many rounds as there are places that lead
on, whatever is one step from a place that is found is found too (`Graph.mem_reachFrom_of_step`).
-/

namespace LRWorkbench

namespace Graph

variable {next : Nat → List Nat} {bound : Nat}

/-! ### Nothing else is found -/

/-- Each place that is found is a root or one step from a place that is found. -/
theorem mem_closeUnder {roots : List Nat} (rounds : Nat) {latest seen : List Nat}
    (hlatest : ∀ i ∈ latest, i ∈ seen)
    (hseen : ∀ i ∈ seen, i ∈ roots ∨ ∃ j ∈ seen, i ∈ next j) :
    ∀ i ∈ closeUnder next rounds latest seen,
      i ∈ roots ∨ ∃ j ∈ closeUnder next rounds latest seen, i ∈ next j := by
  induction rounds generalizing latest seen with
  | zero => exact hseen
  | succ rounds ih =>
    intro i hi
    rw [closeUnder] at hi ⊢
    split at hi
    · exact hseen i hi
    · refine ih (fun j hj => List.mem_append_right _ hj) (fun j hj => ?_) i hi
      rcases List.mem_append.mp hj with hj | hj
      · rcases hseen j hj with hroot | ⟨k, hk, hjk⟩
        · exact .inl hroot
        · exact .inr ⟨k, List.mem_append_left _ hk, hjk⟩
      · -- a fresh place is one step from one of the latest ones
        obtain ⟨hj, -⟩ := List.mem_filter.mp hj
        obtain ⟨k, hk, hjk⟩ := List.mem_flatMap.mp (List.mem_eraseDups.mp hj)
        exact .inr ⟨k, List.mem_append_left _ (hlatest k hk), hjk⟩

theorem mem_reachFrom {roots : List Nat} {i : Nat} (hi : i ∈ reachFrom next bound roots) :
    i ∈ roots ∨ ∃ j ∈ reachFrom next bound roots, i ∈ next j :=
  mem_closeUnder bound (fun _ h => h) (fun _ hj => .inl (List.mem_eraseDups.mp hj)) i hi

/-- What holds of the roots and is handed on by steps holds of all places that are found. -/
theorem forall_mem_closeUnder {P : Nat → Prop} (hstep : ∀ i, P i → ∀ j ∈ next i, P j)
    (rounds : Nat) {latest seen : List Nat} (hlatest : ∀ i ∈ latest, P i) (hseen : ∀ i ∈ seen, P i) :
    ∀ i ∈ closeUnder next rounds latest seen, P i := by
  induction rounds generalizing latest seen with
  | zero => exact hseen
  | succ rounds ih =>
    rw [closeUnder]
    split
    · exact hseen
    · have hfresh : ∀ j ∈ (latest.flatMap next).eraseDups.filter (fun i => !seen.contains i),
          P j := by
        intro j hj
        obtain ⟨hj, -⟩ := List.mem_filter.mp hj
        obtain ⟨i, hi, hij⟩ := List.mem_flatMap.mp (List.mem_eraseDups.mp hj)
        exact hstep i (hlatest i hi) j hij
      refine ih hfresh fun j hj => ?_
      rcases List.mem_append.mp hj with hj | hj
      · exact hseen j hj
      · exact hfresh j hj

theorem forall_mem_reachFrom {P : Nat → Prop} {roots : List Nat}
    (hstep : ∀ i, P i → ∀ j ∈ next i, P j) (hroots : ∀ i ∈ roots, P i) :
    ∀ i ∈ reachFrom next bound roots, P i :=
  forall_mem_closeUnder hstep bound (fun i hi => hroots i (List.mem_eraseDups.mp hi))
    fun i hi => hroots i (List.mem_eraseDups.mp hi)

theorem nodup_eraseDups {α : Type} [DecidableEq α] (l : List α) : l.eraseDups.Nodup := by
  induction hlength : l.length using Nat.strong_induction_on generalizing l with
  | _ n ih =>
    cases l with
    | nil => exact List.nodup_nil
    | cons i l =>
      rw [List.eraseDups_cons, List.nodup_cons, List.mem_eraseDups]
      have hlt : (l.filter fun j => !j == i).length < n := by
        rw [← hlength]
        exact Nat.lt_succ_of_le (List.length_filter_le ..)
      exact ⟨by simp, ih _ hlt _ rfl⟩

theorem nodup_closeUnder (rounds : Nat) {latest seen : List Nat} (h : seen.Nodup) :
    (closeUnder next rounds latest seen).Nodup := by
  induction rounds generalizing latest seen with
  | zero => exact h
  | succ rounds ih =>
    rw [closeUnder]
    split
    · exact h
    · refine ih (List.nodup_append.mpr ⟨h, (nodup_eraseDups _).filter _, fun i hi j hj heq => ?_⟩)
      obtain ⟨-, hfresh⟩ := List.mem_filter.mp hj
      rw [← heq] at hfresh
      simp [hi] at hfresh

/-- What can be reached is listed once. -/
theorem nodup_reachFrom (next : Nat → List Nat) (bound : Nat) (roots : List Nat) :
    (reachFrom next bound roots).Nodup :=
  nodup_closeUnder bound (nodup_eraseDups roots)

/-! ### All is found -/

/-- A search is complete if it has rounds left for all places that are not done with. The induction
is on the rounds; what is done with is all that was seen apart from the latest places. -/
theorem closed_closeUnder (hout : ∀ i, bound ≤ i → next i = []) (rounds : Nat)
    {latest seen : List Nat} (hlatest : ∀ i ∈ latest, i ∈ seen)
    (hdone : ∀ i ∈ seen, i ∉ latest → ∀ j ∈ next i, j ∈ seen)
    (hrounds : bound ≤ rounds +
      ((Finset.range bound).filter fun i => i ∈ seen ∧ i ∉ latest).card) :
    ∀ i ∈ closeUnder next rounds latest seen, ∀ j ∈ next i, j ∈ closeUnder next rounds latest seen
    := by
  induction rounds generalizing latest seen with
  | zero =>
    intro i hi j hj
    refine hdone i hi (fun hmem => ?_) j hj
    -- all places are done with, so that nothing comes after the latest ones
    have hall : (Finset.range bound).filter (fun i => i ∈ seen ∧ i ∉ latest) = Finset.range bound :=
      Finset.eq_of_subset_of_card_le (Finset.filter_subset ..)
        (by rw [Finset.card_range]; omega)
    by_cases hlt : i < bound
    · have hi := Finset.mem_range.mpr hlt
      rw [← hall, Finset.mem_filter] at hi
      exact hi.2.2 hmem
    · rw [hout i (Nat.le_of_not_lt hlt)] at hj
      cases hj
  | succ rounds ih =>
    rw [closeUnder]
    split
    · rename_i hnil
      intro i hi j hj
      by_cases hmem : i ∈ latest
      · by_contra hnot
        have hfresh : j ∈ (latest.flatMap next).eraseDups.filter fun i => !seen.contains i := by
          refine List.mem_filter.mpr ⟨List.mem_eraseDups.mpr (List.mem_flatMap.mpr ⟨i, hmem, hj⟩), ?_⟩
          simpa using hnot
        rw [hnil] at hfresh
        cases hfresh
      · exact hdone i hi hmem j hj
    · rename_i hne
      have hfresh : ∀ j, j ∈ (latest.flatMap next).eraseDups.filter (fun i => !seen.contains i) ↔
          (∃ i ∈ latest, j ∈ next i) ∧ j ∉ seen := by
        intro j
        rw [List.mem_filter, List.mem_eraseDups, List.mem_flatMap]
        simp
      refine ih (fun j hj => List.mem_append_right _ hj) ?_ ?_
      · intro i hi hnot j hj
        have hseen : i ∈ seen := (List.mem_append.mp hi).resolve_right hnot
        by_cases hmem : i ∈ latest
        · by_cases hj' : j ∈ seen
          · exact List.mem_append_left _ hj'
          · exact List.mem_append_right _ ((hfresh j).mpr ⟨⟨i, hmem, hj⟩, hj'⟩)
        · exact List.mem_append_left _ (hdone i hseen hmem j hj)
      · -- one of the latest places leads on, and it is done with now
        obtain ⟨j, hj⟩ := List.exists_mem_of_ne_nil _ hne
        obtain ⟨⟨i, hi, hji⟩, -⟩ := (hfresh j).mp hj
        have hlt : i < bound := by
          by_contra hge
          rw [hout i (Nat.le_of_not_lt hge)] at hji
          cases hji
        have hgrows : ((Finset.range bound).filter fun i => i ∈ seen ∧ i ∉ latest).card <
            ((Finset.range bound).filter fun i => i ∈ seen ++
              (latest.flatMap next).eraseDups.filter (fun i => !seen.contains i) ∧
              i ∉ (latest.flatMap next).eraseDups.filter (fun i => !seen.contains i)).card := by
          refine Finset.card_lt_card ((Finset.ssubset_iff_of_subset ?_).mpr ⟨i, ?_, ?_⟩)
          · refine Finset.monotone_filter_right _ fun k _ hk => ?_
            exact ⟨List.mem_append_left _ hk.1, fun hmem => ((hfresh k).mp hmem).2 hk.1⟩
          · rw [Finset.mem_filter, Finset.mem_range]
            exact ⟨hlt, List.mem_append_left _ (hlatest i hi),
              fun hmem => ((hfresh i).mp hmem).2 (hlatest i hi)⟩
          · rw [Finset.mem_filter]
            exact fun hmem => hmem.2.2 hi
        omega

theorem mem_closeUnder_of_mem (rounds : Nat) {latest seen : List Nat} {i : Nat} (hi : i ∈ seen) :
    i ∈ closeUnder next rounds latest seen := by
  induction rounds generalizing latest seen with
  | zero => exact hi
  | succ rounds ih =>
    rw [closeUnder]
    split
    · exact hi
    · exact ih (List.mem_append_left _ hi)

/-- What is one step from a place that is found is found. -/
theorem mem_reachFrom_of_step (hout : ∀ i, bound ≤ i → next i = []) {roots : List Nat} {i j : Nat}
    (hi : i ∈ reachFrom next bound roots) (hj : j ∈ next i) : j ∈ reachFrom next bound roots :=
  closed_closeUnder hout bound (fun _ h => h) (fun _ h hnot => absurd h hnot) (by omega) i hi j hj

theorem mem_reachFrom_of_root {roots : List Nat} {i : Nat} (hi : i ∈ roots) :
    i ∈ reachFrom next bound roots :=
  mem_closeUnder_of_mem bound (List.mem_eraseDups.mpr hi)

end Graph

end LRWorkbench
