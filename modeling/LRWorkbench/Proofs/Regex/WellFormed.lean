import LRWorkbench.Proofs.Regex.Literal

/-!
# Well-formed expressions

A repetition may ask for a number of turns at least and a number at most. An expression is
**well-formed** if no repetition asks for more turns than it allows. Whatever is read from a text is
(`Regex.wellFormed_of_parse?`), since counts in the wrong order are refused.
-/

namespace LRWorkbench.Regex

/-- Whether no repetition has to be done more often than it may be. -/
inductive WellFormed : Regex → Prop where
  | empty : WellFormed .empty
  | chars (set : CharSet) : WellFormed (.chars set)
  | look (l : Look) : WellFormed (.look l)
  | seq {a b : Regex} (first : WellFormed a) (second : WellFormed b) : WellFormed (.seq a b)
  | alt {a b : Regex} (first : WellFormed a) (second : WellFormed b) : WellFormed (.alt a b)
  | repeated {r : Regex} {least : Nat} {most : Option Nat} (content : WellFormed r)
      (room : ∀ m, most = some m → least ≤ m) : WellFormed (.repeated r least most)

theorem WellFormed.followedBy {a b : Regex} (ha : a.WellFormed) (hb : b.WellFormed) :
    (a.followedBy b).WellFormed := by
  cases ha with
  | empty => exact hb
  | _ => exact .seq (by constructor <;> assumption) hb

/-! ### Reading -/

namespace Read

/-- Whether all that a step may read has a property. -/
def Gives {α : Type} (x : Read α) (P : α → Prop) : Prop := ∀ s a s', x s = some (a, s') → P a

namespace Gives

variable {α β : Type} {P : α → Prop} {Q : β → Prop} {x : Read α} {f : α → Read β}

theorem any (x : Read α) : Gives x fun _ => True := fun _ _ _ _ => trivial

theorem fail : Gives (Read.fail : Read α) P := by
  intro s a s' h
  cases h

theorem pure {a : α} (h : P a) : Gives (pure a : Read α) P := by
  intro s a' s' ha
  rw [pure_apply] at ha
  obtain ⟨rfl, -⟩ := Prod.mk.inj (Option.some.inj ha)
  exact h

/-- What a step may read decides what the next one has to be asked for. -/
theorem bind (hx : Gives x P) (hf : ∀ a, P a → Gives (f a) Q) : Gives (x >>= f) Q := by
  intro s b s' h
  rw [bind_apply] at h
  obtain ⟨⟨a, t⟩, ha, hb⟩ := Option.bind_eq_some_iff.mp h
  exact hf a (hx s a t ha) t b s' hb

/-- What a step reads is of no importance to what follows. -/
theorem next (hf : ∀ a, Gives (f a) Q) : Gives (x >>= f) Q :=
  (any x).bind fun a _ => hf a

/-- After a check the rest is read only if nothing was wrong. -/
theorem checked {k : Unit → Read α} {wrong : Prop} [Decidable wrong]
    (h : ¬wrong → Gives (k ()) P) : Gives (if wrong then Read.fail >>= k else k ()) P := by
  split
  · rintro s a s' hs
    cases hs
  · rename_i hright
    exact h hright

end Gives

/-- Whether the expressions of all items are well-formed. -/
def AllWellFormed (items : List Nested) : Prop := ∀ x ∈ items, x.regex.WellFormed

theorem AllWellFormed.nil : AllWellFormed [] := by
  intro x hx
  cases hx

theorem AllWellFormed.cons {x : Nested} {items : List Nested} (hx : x.regex.WellFormed)
    (h : AllWellFormed items) : AllWellFormed (x :: items) := by
  intro y hy
  rcases List.mem_cons.mp hy with rfl | hy
  · exact hx
  · exact h y hy

/-- A repetition is well-formed if it asks for no more turns than it allows. -/
theorem wellFormed_repetition {r : Regex} {least : Nat} {most : Option Nat} (hr : r.WellFormed)
    (hroom : ∀ m, most = some m → least ≤ m) : (repetition r least most).WellFormed := by
  rw [repetition]
  split
  · exact .empty
  · split
    · exact hr
    · exact .repeated hr hroom

/-- Only the last item is repeated, so the others keep what they have. -/
theorem gives_repeatLast {items : List Nested} {least : Nat} {most : Option Nat}
    (hitems : AllWellFormed items) (hroom : ∀ m, most = some m → least ≤ m) :
    Gives (repeatLast items least most) AllWellFormed := by
  cases items with
  | nil => exact .fail
  | cons x before =>
    have hdone : Gives (Pure.pure (⟨repetition x.regex least most, x.depth + 1, x.form⟩ :: before) :
        Read (List Nested)) AllWellFormed :=
      .pure (.cons (wellFormed_repetition (hitems x (List.mem_cons_self ..)) hroom)
        fun y hy => hitems y (List.mem_cons_of_mem _ hy))
    rw [repeatLast]
    split
    · exact .fail
    · refine .next fun c => ?_
      split
      · exact .next fun _ => hdone
      · exact hdone

/-- Counts are given in order. -/
theorem gives_counts : Gives counts fun found => ∀ m, found.2 = some m → found.1 ≤ m := by
  rw [counts]
  refine .next fun _ => .next fun least => .next fun c => ?_
  dsimp only
  -- in each case a count at most is read last, or there is none
  suffices hdone : ∀ most : Option Nat, Gives _ _ by
    split
    · refine .next fun _ => .next fun d => ?_
      split
      · exact .next hdone
      · exact .next fun _ => .next hdone
    · exact .next hdone
  intro most
  refine .next fun d => .checked fun _ => .next fun _ => ?_
  cases most with
  | none =>
    apply Gives.pure
    rintro m ⟨⟩
  | some n =>
    refine .checked fun hle => .pure fun m hm => ?_
    rw [← Option.some.inj hm]
    exact Nat.le_of_not_lt hle

/-! What holds of the parts holds of the whole, if it is passed on by what puts parts together. -/

section Whole

variable {P : Regex → Prop} {step : Regex → Nested → Regex} {items branches : List Nested} {r : Regex}

/-- A property that joining keeps is passed on through a row of items. -/
theorem holds_foldl (hr : P r) (hitems : ∀ x ∈ items, P x.regex)
    (hstep : ∀ r x, P r → P x.regex → P (step r x)) : P (items.foldl step r) := by
  induction items generalizing r with
  | nil => exact hr
  | cons x items ih =>
    exact ih (hstep r x hr (hitems x (List.mem_cons_self ..)))
      fun y hy => hitems y (List.mem_cons_of_mem _ hy)

/-- A property that sequences keep holds of the sequence of some items if it holds of each. -/
theorem holds_sequence (hempty : P .empty) (hitems : ∀ x ∈ items, P x.regex)
    (hseq : ∀ a b, P a → P b → P (.seq a b)) : P (sequence items).regex := by
  have hleft : ∀ x ∈ items.filter (!·.isEmpty), P x.regex := fun x hx =>
    hitems x (List.mem_filter.mp hx).1
  rw [sequence]
  split
  · exact hempty
  · rename_i x heq
    exact hleft x (heq ▸ List.mem_cons_self ..)
  · rename_i x before _ heq
    exact holds_foldl (hleft x (heq ▸ List.mem_cons_self ..))
      (fun y hy => hleft y (heq ▸ List.mem_cons_of_mem _ hy)) fun r y hr hy => hseq _ _ hy hr

/-- One item alone is the sequence. -/
theorem regex_sequence_singleton (x : Nested) : (sequence [x]).regex = x.regex := by
  cases hempty : x.isEmpty with
  | true =>
    rw [sequence, List.filter_cons_of_neg (by simp [hempty]), List.filter_nil]
    exact (of_decide_eq_true (Bool.and_eq_true_iff.mp hempty).2).symm
  | false => rw [sequence, List.filter_cons_of_pos (by simp [hempty]), List.filter_nil]

/-- The same for choices, whose branches are joined into one class where all are single
characters. -/
theorem holds_choice (hempty : P .empty) (hbranches : ∀ x ∈ branches, P x.regex)
    (halt : ∀ a b, P a → P b → P (.alt a b))
    (hjoined : ∀ s, branches ≠ [] → joined? branches = some s → P (.chars s)) :
    P (choice branches).regex := by
  match branches with
  | [] => exact hempty
  | [x] => exact hbranches x (List.mem_cons_self ..)
  | x :: y :: before =>
    rw [choice.eq_def]
    dsimp only
    split
    · rename_i s heq
      exact hjoined s (List.cons_ne_nil _ _) heq
    · exact holds_foldl (hbranches x (List.mem_cons_self ..))
        (fun z hz => hbranches z (List.mem_cons_of_mem _ hz)) fun r z hr hz => halt _ _ hz hr

end Whole

theorem wellFormed_sequence {items : List Nested} (h : AllWellFormed items) :
    (sequence items).regex.WellFormed :=
  holds_sequence .empty h fun _ _ => .seq

theorem wellFormed_choice {branches : List Nested} (h : AllWellFormed branches) :
    (choice branches).regex.WellFormed :=
  holds_choice .empty h (fun _ _ => .alt) fun s _ _ => .chars s

theorem gives_charRegex (c : Char) : Gives (charRegex c) WellFormed := by
  rw [charRegex]
  refine .next fun s => ?_
  dsimp only
  split
  · exact .pure (.chars _)
  · split
    · exact .pure (.chars _)
    · split
      · exact .pure (.chars _)
      · exact .pure (.chars _)

theorem gives_primitive : Gives primitive fun x => x.regex.WellFormed := by
  have hchar : ∀ c, Gives (do return ⟨← charRegex c, 0, .plain⟩) fun x : Nested =>
      x.regex.WellFormed := fun c => (gives_charRegex c).bind fun _ hr => .pure hr
  rw [primitive]
  refine .next fun c => .next fun s => ?_
  dsimp only
  split
  · refine .next fun e => ?_
    cases e with
    | char c asByte => exact .checked fun _ => hchar c
    | set s => exact .pure (.chars s)
    | look l => exact .pure (.look l)
  · refine .next fun _ => ?_
    split
    · exact .checked fun _ => .pure (.chars _)
    · split
      · exact .pure (.look _)
      · split
        · exact .pure (.look _)
        · exact hchar c

/-- **What is read is well-formed**, whatever was read before it in the same sequence. -/
theorem gives_wellFormed (fuel : Nat) :
    (∀ branches, AllWellFormed branches →
      Gives (alternatives fuel branches) fun x => x.regex.WellFormed) ∧
    (∀ items, AllWellFormed items → Gives (sequenceItems fuel items) AllWellFormed) ∧
    (Gives (group fuel) fun x => x.regex.WellFormed) ∧
    ∀ outer captures, Gives (groupBody fuel outer captures) fun x => x.regex.WellFormed := by
  induction fuel with
  | zero =>
    refine ⟨fun branches _ => ?_, fun items _ => ?_, ?_, fun outer captures => ?_⟩
    · exact .fail
    · exact .fail
    · exact .fail
    · exact .fail
  | succ fuel ih =>
    obtain ⟨halternatives, hitems, hgroup, hbody⟩ := ih
    refine ⟨fun branches hbranches => ?_, fun items hall => ?_, ?_, fun outer captures => ?_⟩
    · rw [alternatives]
      refine (hitems [] .nil).bind fun items hall => ?_
      have hmore := hbranches.cons (wellFormed_sequence hall)
      refine .next fun c => ?_
      split
      · exact .next fun _ => halternatives _ hmore
      · exact .pure (wellFormed_choice hmore)
    · rw [sequenceItems]
      -- Counts are the only place where turns could be in the wrong order; the signs ask for none
      -- or one at least.
      have hrepeat : ∀ least most, (∀ m, most = some m → least ≤ m) →
          Gives (repeatLast items least most >>= sequenceItems fuel) AllWellFormed :=
        fun least most hroom => (gives_repeatLast hall hroom).bind fun items => hitems items
      have hendless : ∀ least m, (none : Option Nat) = some m → least ≤ m := by
        rintro least m ⟨⟩
      refine .next fun _ => .next fun c => ?_
      split
      · exact .pure hall
      · exact .pure hall
      · exact .pure hall
      · exact hgroup.bind fun g hg => hitems _ (hall.cons hg)
      · exact .next fun _ => .next fun found => hitems _ (hall.cons (.chars _))
      · exact .next fun _ => hrepeat 0 (some 1) fun m hm => Nat.zero_le m
      · exact .next fun _ => hrepeat 0 none (hendless 0)
      · exact .next fun _ => hrepeat 1 none (hendless 1)
      · exact .checked fun _ => gives_counts.bind fun found hroom => hrepeat _ _ hroom
      · exact gives_primitive.bind fun x hx => hitems _ (hall.cons hx)
    · rw [group]
      refine .next fun _ => .next fun _ => .next fun _ => .next fun s => .next fun named =>
        .next fun named' => ?_
      dsimp only
      split
      · exact .next fun _ => .next fun _ => .next fun _ => hbody _ _
      · refine .next fun flagged => ?_
        split
        · refine .next fun _ => .next fun given => .next fun c => .next fun _ => .next fun _ => ?_
          split
          · exact .checked fun _ => .pure .empty
          · exact hbody _ _
        · exact hbody _ _
    · rw [groupBody]
      refine (halternatives [] .nil).bind fun inner hinner => .next fun c => ?_
      exact .checked fun _ => .next fun _ => .next fun _ => .pure hinner

end Read

/-- **Expressions that are read are well-formed.** -/
theorem wellFormed_of_parse? {text : List Char} {r : Regex} (h : parse? text = some r) :
    r.WellFormed := by
  rw [parse?] at h
  obtain ⟨⟨x, s⟩, hread, h⟩ := Option.bind_eq_some_iff.mp h
  have hx := (Read.gives_wellFormed _).1 [] .nil _ _ _ hread
  dsimp only at h
  split at h
  · cases h
  · split at h
    · cases h
    · obtain rfl := Option.some.inj h
      exact hx

end LRWorkbench.Regex
