import LRWorkbench.Lalr.First
import LRWorkbench.Proofs.Table.TerminalSet
import LRWorkbench.Proofs.Tree.Derivation
import Mathlib.Algebra.Order.BigOperators.Group.Finset

/-!
# First sets are complete

Sets grow in rounds: a round takes one member of a list after the other into account, and rounds go
on until one changes nothing. If every step that changes something makes a **measure** larger, which
is bounded, the rounds end, and then no step would change anything (`Rounds.settle_spec`).

So the rounds of `FirstSets.ofGrammar` end, and then every production has been taken into account
(`FirstSets.closed_ofGrammar`). Whatever a phrase derives, its first terminal is in the first set
of the phrase, and where it derives nothing at all, the first sets say that it may be empty
(`FirstSets.begins_of_derivesAll`).
-/

namespace LRWorkbench.Rounds

variable {α β : Type}

/-- Repeats a round until nothing changes, a number of times at most. -/
def settle [DecidableEq α] (round : α → α) : Nat → α → α
  | 0, x => x
  | rounds + 1, x => if round x = x then x else settle round rounds (round x)

/-- Whether a step keeps an invariant and either changes nothing or makes the measure larger. -/
def Inflates (I : α → Prop) (size : α → Nat) (step : α → α) : Prop :=
  ∀ x, I x → I (step x) ∧ (step x = x ∨ size x < size (step x))

section

variable {I : α → Prop} {size : α → Nat} {step : α → β → α} {l : List β} {x : α}

theorem inflates_foldl (h : ∀ b ∈ l, Inflates I size (step · b)) :
    Inflates I size fun x => l.foldl step x := by
  induction l with
  | nil => exact fun x hx => ⟨hx, .inl rfl⟩
  | cons b l ih =>
    intro x hx
    obtain ⟨hstep, hgrows⟩ := h b (List.mem_cons_self ..) x hx
    obtain ⟨hrest, hgrows'⟩ := ih (fun c hc => h c (List.mem_cons_of_mem _ hc)) _ hstep
    refine ⟨hrest, ?_⟩
    dsimp only at hgrows hgrows' ⊢
    rw [List.foldl_cons]
    rcases hgrows with heq | hlt
    · rwa [heq] at hgrows' ⊢
    · rcases hgrows' with heq' | hlt'
      · rw [heq']
        exact .inr hlt
      · exact .inr (Nat.lt_trans hlt hlt')

/-- A round that changes nothing has no step that changes something. -/
theorem step_eq_of_foldl_eq (h : ∀ b ∈ l, Inflates I size (step · b)) (hx : I x)
    (heq : l.foldl step x = x) : ∀ b ∈ l, step x b = x := by
  induction l with
  | nil => exact fun b hb => absurd hb List.not_mem_nil
  | cons b l ih =>
    have hrest := fun c hc => h c (List.mem_cons_of_mem b hc)
    obtain ⟨hstep, hgrows⟩ := h b (List.mem_cons_self ..) x hx
    have hfirst : step x b = x := by
      rcases hgrows with hfirst | hlt
      · exact hfirst
      · rcases (inflates_foldl hrest _ hstep).2 with heq' | hlt'
        · exact heq'.symm.trans heq
        · rw [List.foldl_cons] at heq
          dsimp only at hlt hlt'
          rw [heq] at hlt'
          exact absurd hlt (Nat.lt_asymm hlt')
    intro c hc
    rcases List.mem_cons.mp hc with rfl | hc
    · exact hfirst
    · rw [List.foldl_cons, hfirst] at heq
      exact ih hrest heq c hc

end

/-- If there are more rounds than the measure can grow, the last one changes nothing. -/
theorem settle_spec [DecidableEq α] {I : α → Prop} {size : α → Nat} {round : α → α} {bound : Nat}
    (hround : Inflates I size round) (hbound : ∀ x, I x → size x ≤ bound) {rounds : Nat} {x : α}
    (hx : I x) (hrounds : bound < rounds + size x) :
    I (settle round rounds x) ∧ round (settle round rounds x) = settle round rounds x := by
  induction rounds generalizing x with
  | zero => exact absurd (hbound x hx) (by omega)
  | succ rounds ih =>
    rw [settle]
    split
    · exact ⟨hx, ‹_›⟩
    · rename_i hne
      obtain ⟨hstep, heq | hlt⟩ := hround x hx
      · exact absurd heq hne
      · exact ih hstep (by omega)

end LRWorkbench.Rounds

namespace LRWorkbench.FirstSets

/-! ### The rounds end -/

/-- What all first sets are together. -/
def total (kinds bound : Nat) (f : FirstSets) : Nat :=
  ∑ kind ∈ Finset.range kinds, (f.entry kind).1.weight bound (f.entry kind).2

/-- Whether there are first sets for some phrase kinds, of terminals of the grammar. -/
structure Fits (kinds bound : Nat) (f : FirstSets) : Prop where
  terminalCount : f.terminalCount = bound
  size : f.entries.size = kinds
  below : ∀ kind, (f.entry kind).1.Below bound

variable {kinds bound : Nat} {f : FirstSets}

theorem Fits.below_ofSymbols (h : f.Fits kinds bound) (symbols : List Symbol) :
    (f.ofSymbols symbols).1.Below bound := by
  induction symbols with
  | nil => exact TerminalSet.below_empty bound
  | cons s rest ih =>
    rw [ofSymbols]
    split
    · rename_i hs
      exact (TerminalSet.below_empty bound).insert (h.terminalCount ▸ hs)
    · dsimp only
      split
      · exact (h.below _).union ih
      · exact h.below _

theorem total_le (kinds bound : Nat) (f : FirstSets) : f.total kinds bound ≤ kinds * (bound + 1) := by
  refine (Finset.sum_le_card_nsmul _ _ (bound + 1) fun kind _ => TerminalSet.weight_le ..).trans ?_
  rw [Finset.card_range, Nat.nsmul_eq_mul]

/-- Whether first sets agree with a production. -/
def Agrees (f : FirstSets) (p : Production) : Prop :=
  ((f.entry p.lhs).1.includes (f.ofSymbols p.symbols).1 &&
    ((f.entry p.lhs).2 || !(f.ofSymbols p.symbols).2)) = true

theorem absorb_of_agrees {p : Production} (h : f.Agrees p) : f.absorb p = f := by
  rw [Agrees] at h
  simp only [absorb, h, if_true]

/-- The first sets with another entry for a phrase kind. -/
def replace (f : FirstSets) (kind : Nat) (e : TerminalSet × Bool) : FirstSets :=
  { f with entries := f.entries.setIfInBounds kind e }

theorem absorb_of_not_agrees {p : Production} (h : ¬f.Agrees p) :
    f.absorb p = f.replace p.lhs ((f.entry p.lhs).1.union (f.ofSymbols p.symbols).1,
      (f.entry p.lhs).2 || (f.ofSymbols p.symbols).2) := by
  rw [Agrees, Bool.not_eq_true] at h
  simp only [absorb, h, Bool.false_eq_true, if_false]
  rfl

theorem entry_replace {kind i : Nat} (e : TerminalSet × Bool) (hkind : kind < f.entries.size) :
    (f.replace kind e).entry i = if i = kind then e else f.entry i := by
  rw [entry, replace]
  split
  · rename_i heq
    subst heq
    rw [Array.getElem?_setIfInBounds_self_of_lt hkind, Option.getD_some]
  · rename_i hne
    rw [Array.getElem?_setIfInBounds_ne (Ne.symm hne)]
    rfl

/-- Taking a production into account that first sets do not agree with makes them larger. -/
theorem Fits.absorb (h : f.Fits kinds bound) {p : Production} (hlhs : p.lhs < kinds)
    (hnot : ¬f.Agrees p) :
    (f.absorb p).Fits kinds bound ∧ f.total kinds bound < (f.absorb p).total kinds bound := by
  rw [absorb_of_not_agrees hnot]
  have hentry := fun i => entry_replace (f := f) (i := i)
    ((f.entry p.lhs).1.union (f.ofSymbols p.symbols).1,
      (f.entry p.lhs).2 || (f.ofSymbols p.symbols).2) (h.size.symm ▸ hlhs)
  have hbelow := h.below_ofSymbols p.symbols
  rw [Agrees, Bool.not_eq_true] at hnot
  constructor
  · refine ⟨h.terminalCount, by rw [replace, Array.size_setIfInBounds, h.size], fun kind => ?_⟩
    rw [hentry]
    split
    · exact (h.below _).union hbelow
    · exact h.below kind
  · refine Finset.sum_lt_sum (fun kind _ => ?_) ⟨p.lhs, Finset.mem_range.mpr hlhs, ?_⟩
    · rw [hentry]
      split
      · rename_i heq
        rw [heq]
        exact Nat.le_of_lt (TerminalSet.weight_lt_weight_union hbelow hnot)
      · exact Nat.le_refl _
    · rw [hentry, if_pos rfl]
      exact TerminalSet.weight_lt_weight_union hbelow hnot

theorem inflates_absorb {p : Production} (hlhs : p.lhs < kinds) :
    Rounds.Inflates (Fits kinds bound) (total kinds bound) (FirstSets.absorb · p) := by
  intro f hf
  by_cases h : f.Agrees p
  · dsimp only
    rw [absorb_of_agrees h]
    exact ⟨hf, .inl rfl⟩
  · obtain ⟨hfits, hlt⟩ := hf.absorb hlhs h
    exact ⟨hfits, .inr hlt⟩

theorem settle_eq (productions : List Production) (rounds : Nat) (f : FirstSets) :
    settle productions rounds f = Rounds.settle (productions.foldl FirstSets.absorb ·) rounds f := by
  induction rounds generalizing f with
  | zero => rfl
  | succ rounds ih => rw [settle, Rounds.settle, ih]

variable {g : PreparedGrammar}

theorem fits_empty (g : PreparedGrammar) :
    (⟨g.terminalCount, Array.replicate g.nonTerminals.size (.empty, false)⟩ : FirstSets).Fits
      g.nonTerminals.size g.terminalCount where
  terminalCount := rfl
  size := Array.size_replicate
  below := by
    intro kind
    rw [entry, Array.getElem?_replicate]
    split <;> exact TerminalSet.below_empty _

/-- **First sets agree with all productions.** -/
theorem closed_ofGrammar (hlhs : ∀ p ∈ g.productions, p.lhs < g.nonTerminals.size) :
    (ofGrammar g).Fits g.nonTerminals.size g.terminalCount ∧
      ∀ p ∈ g.productions, (ofGrammar g).Agrees p := by
  have hinflates : ∀ p ∈ g.productions.toList, Rounds.Inflates
      (Fits g.nonTerminals.size g.terminalCount) (total g.nonTerminals.size g.terminalCount)
      (FirstSets.absorb · p) :=
    fun p hp => inflates_absorb (hlhs p (Array.mem_toList_iff.mp hp))
  obtain ⟨hfits, hround⟩ := Rounds.settle_spec (Rounds.inflates_foldl hinflates)
    (fun f _ => total_le g.nonTerminals.size g.terminalCount f) (fits_empty g)
    (show _ < g.nonTerminals.size * (g.terminalCount + 1) + 1 + _ by omega)
  rw [← settle_eq] at hfits hround
  refine ⟨hfits, fun p hp => ?_⟩
  by_contra hnot
  have hsame := Rounds.step_eq_of_foldl_eq hinflates hfits hround p (Array.mem_toList_iff.mpr hp)
  have hlt := (hfits.absorb (hlhs p hp) hnot).2
  rw [show FirstSets.absorb _ p = _ from hsame] at hlt
  exact Nat.lt_irrefl _ hlt

/-! ### What a phrase begins with -/

/-- Whether terminals begin as a first set says, or are none where it says that there may be none. -/
def Begins (e : TerminalSet × Bool) : List Symbol → Prop
  | [] => e.2 = true
  | s :: _ => e.1.contains s = true

theorem Begins.append {s : Symbol} {rest front back : List Symbol}
    (hfront : Begins (f.ofSymbols [s]) front) (hback : Begins (f.ofSymbols rest) back) :
    Begins (f.ofSymbols (s :: rest)) (front ++ back) := by
  rw [ofSymbols] at hfront ⊢
  split at hfront
  · rename_i hs
    rw [if_pos hs]
    cases front with
    | nil => cases hfront
    | cons t front => exact hfront
  · rename_i hs
    rw [if_neg hs]
    dsimp only at hfront ⊢
    split at hfront
    · rename_i hnullable
      rw [if_pos hnullable]
      cases front with
      | nil =>
        cases back with
        | nil => exact hback
        | cons t back =>
          change ((f.entry _).1.union (f.ofSymbols rest).1).contains t = true
          rw [TerminalSet.contains_union, Bool.or_eq_true]
          exact .inr hback
      | cons t front =>
        change ((f.entry _).1.union (f.ofSymbols rest).1).contains t = true
        change ((f.entry _).1.union TerminalSet.empty).contains t = true at hfront
        rw [TerminalSet.contains_union, TerminalSet.contains_empty, Bool.or_false] at hfront
        rw [TerminalSet.contains_union, hfront, Bool.true_or]
    · rename_i hnullable
      rw [if_neg hnullable]
      cases front with
      | nil => cases hfront
      | cons t front => exact hfront

/-- Phrases begin with what is in their first sets. -/
theorem begins_of_derivesAll (hf : f.terminalCount = g.terminalCount)
    (hclosed : ∀ p ∈ g.productions, f.Agrees p) {symbols sentence : List Symbol}
    (h : g.DerivesAll symbols sentence) : Begins (f.ofSymbols symbols) sentence := by
  refine (PreparedGrammar.Derives.induct (P := fun s => Begins (f.ofSymbols [s]))
    (Q := fun symbols => Begins (f.ofSymbols symbols)) ?_ ?_ rfl
    fun s rest front back _ _ => Begins.append).2 symbols sentence h
  · intro s hs
    have hlt : s.index < f.terminalCount := hf ▸ of_decide_eq_true hs
    rw [ofSymbols, if_pos hlt]
    exact TerminalSet.contains_insert.mpr (.inl rfl)
  · intro p rule sentence production _ hbegins
    have hagrees := hclosed rule (Array.mem_of_getElem? production)
    rw [Agrees, Bool.and_eq_true, TerminalSet.includes_iff, Bool.or_eq_true, Bool.not_eq_true']
      at hagrees
    have hge : ¬(g.nonTerminalSymbol rule.lhs).index < f.terminalCount := by
      rw [hf]
      exact Nat.not_lt.mpr (Nat.le_add_right ..)
    have hkind : (g.nonTerminalSymbol rule.lhs).index - f.terminalCount = rule.lhs := by
      rw [hf]
      exact Nat.add_sub_cancel_left ..
    simp only [ofSymbols, if_neg hge, hkind]
    cases sentence with
    | nil =>
      have hnullable : (f.entry rule.lhs).2 = true := by
        rcases hagrees.2 with h | h
        · exact h
        · exact absurd (h.symm.trans hbegins) (by simp)
      rw [if_pos hnullable]
      rfl
    | cons t rest =>
      have hfirst := hagrees.1 t hbegins
      split
      · change ((f.entry rule.lhs).1.union .empty).contains t = true
        rw [TerminalSet.contains_union, hfirst, Bool.true_or]
      · exact hfirst

end LRWorkbench.FirstSets
