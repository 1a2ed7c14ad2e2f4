import LRWorkbench.Proofs.Operators.Productions
import LRWorkbench.Proofs.Table.Driver

/-!
# Expressions that obey their operators

An expression **obeys** its operators if every operand that is an operation itself is at a higher
level, or at the same level and on the side that the operators nest on (`Expr.Obeys`). There is one
such expression at most with given operators in a row (`Expr.Obeys.unique`).
-/

namespace LRWorkbench.Operators

/-- Whether an operator that has its operands comes before one of a level that follows. -/
def comesFirst (op : Operator) (level : Int) : Bool :=
  level < op.level || (level = op.level && op.side = .left)

theorem comesFirst_iff {op : Operator} {level : Int} : comesFirst op level = true ↔
    level < op.level ∨ op.level = level ∧ op.side = .left := by
  rw [eq_comm (a := op.level)]
  simp [comesFirst]

theorem not_comesFirst_iff {op : Operator} {level : Int} : ¬comesFirst op level = true ↔
    op.level < level ∨ level = op.level ∧ op.side = .right := by
  rw [comesFirst_iff]
  cases op.side
  · simp only [reduceCtorEq, and_true, and_false, or_false]
    omega
  · simp only [reduceCtorEq, and_true, and_false, or_false]
    omega

/-- Where one operator comes before another, and this before a level, so does the first. -/
theorem comesFirst_trans {a b : Operator} {level : Int} (hab : comesFirst a b.level = true)
    (hb : comesFirst b level = true) : comesFirst a level = true := by
  rw [comesFirst_iff] at *
  grind

/-- What is not held back by an operator that comes first comes first too. -/
theorem comesFirst_of_not {a b : Operator} {level : Int} (hba : ¬comesFirst b a.level = true)
    (hb : comesFirst b level = true) : comesFirst a level = true := by
  rw [not_comesFirst_iff] at hba
  rw [comesFirst_iff] at *
  grind

/-- An operator holds back no more than what is at a lower level. -/
theorem not_comesFirst_mono {op : Operator} {level higher : Int} (hle : level ≤ higher)
    (h : ¬comesFirst op level = true) : ¬comesFirst op higher = true := by
  rw [not_comesFirst_iff] at *
  grind

theorem le_of_comesFirst {op : Operator} {level : Int} (h : comesFirst op level = true) :
    level ≤ op.level := by
  rw [comesFirst_iff] at h
  omega

theorem le_of_not_comesFirst {op : Operator} {level : Int} (h : ¬comesFirst op level = true) :
    op.level ≤ level := by
  rw [not_comesFirst_iff] at h
  omega

/-- An expression made of atoms and of operators, which are given by their places. -/
inductive Expr where
  | atom
  | binary (place : Nat) (left right : Expr)
  deriving DecidableEq, Repr

namespace Expr

/-- The operator that an expression is an operation of. -/
def root? : Expr → Option Nat
  | atom => none
  | binary place _ _ => some place

/-- The operators from left to right. -/
def places : Expr → List Nat
  | atom => []
  | binary place left right => left.places ++ place :: right.places

/-- The tree of an expression. -/
def tree (ops : List Operator) : Expr → ParseTree
  | atom => .node ops.length [.leaf (atomSymbol ops)]
  | binary place left right =>
    .node place [left.tree ops, .leaf (operatorSymbol place), right.tree ops]

/-- Whether each operand that is an operation is at a higher level than the operator around it, or
at the same level and on the side that the operator on the left nests on. -/
inductive Obeys (ops : List Operator) : Expr → Prop where
  | atom : Obeys ops .atom
  | binary {place : Nat} {op : Operator} {left right : Expr} (known : ops[place]? = some op)
      (before : ∀ i inner, left.root? = some i → ops[i]? = some inner →
        op.level < inner.level ∨ inner.level = op.level ∧ inner.side = .left)
      (after : ∀ i inner, right.root? = some i → ops[i]? = some inner →
        op.level < inner.level ∨ inner.level = op.level ∧ op.side = .right)
      (obeysLeft : Obeys ops left) (obeysRight : Obeys ops right) :
      Obeys ops (.binary place left right)

end Expr

namespace Expr

variable {ops : List Operator}

theorem exists_root? {e : Expr} {k : Nat} (hk : k ∈ e.places) :
    ∃ place left right, e = binary place left right := by
  cases e with
  | atom => cases hk
  | binary place left right => exact ⟨place, left, right, rfl⟩

theorem Obeys.known {e : Expr} (h : e.Obeys ops) {place : Nat} (hroot : e.root? = some place) :
    ∃ op, ops[place]? = some op := by
  cases h with
  | atom => cases hroot
  | binary known =>
    obtain rfl := Option.some.inj hroot
    exact ⟨_, known⟩

/-- All operators of a left operand come before the operator, and it does not come before any of its
right operand. -/
theorem Obeys.spec {e : Expr} (h : e.Obeys ops) {place : Nat} {left right : Expr} {op : Operator}
    (he : e = .binary place left right) (hop : ops[place]? = some op) :
    (∀ k ∈ left.places, ∃ inner, ops[k]? = some inner ∧ comesFirst inner op.level = true) ∧
      ∀ k ∈ right.places, ∃ inner, ops[k]? = some inner ∧ ¬comesFirst op inner.level = true := by
  induction h generalizing place left right op with
  | atom => cases he
  | binary known before after obeysLeft obeysRight ihLeft ihRight =>
    cases he
    obtain rfl := Option.some.inj (hop.symm.trans known)
    constructor
    · intro k hk
      obtain ⟨j, first, second, rfl⟩ := exists_root? hk
      obtain ⟨middle, hmiddle⟩ := obeysLeft.known rfl
      obtain ⟨hfirst, hsecond⟩ := ihLeft rfl hmiddle
      have hroot := comesFirst_iff.mpr (before j middle rfl hmiddle)
      rcases List.mem_append.mp hk with hk | hk
      · obtain ⟨inner, hinner, hlevel⟩ := hfirst k hk
        exact ⟨inner, hinner, comesFirst_trans hlevel hroot⟩
      · rcases List.mem_cons.mp hk with rfl | hk
        · exact ⟨middle, hmiddle, hroot⟩
        · obtain ⟨inner, hinner, hlevel⟩ := hsecond k hk
          exact ⟨inner, hinner, comesFirst_of_not hlevel hroot⟩
    · intro k hk
      obtain ⟨j, first, second, rfl⟩ := exists_root? hk
      obtain ⟨middle, hmiddle⟩ := obeysRight.known rfl
      obtain ⟨hfirst, hsecond⟩ := ihRight rfl hmiddle
      have hroot := not_comesFirst_iff.mpr (after j middle rfl hmiddle)
      rcases List.mem_append.mp hk with hk | hk
      · obtain ⟨inner, hinner, hlevel⟩ := hfirst k hk
        exact ⟨inner, hinner, not_comesFirst_mono (le_of_comesFirst hlevel) hroot⟩
      · rcases List.mem_cons.mp hk with rfl | hk
        · exact ⟨middle, hmiddle, hroot⟩
        · obtain ⟨inner, hinner, hlevel⟩ := hsecond k hk
          exact ⟨inner, hinner, not_comesFirst_mono (le_of_not_comesFirst hlevel) hroot⟩

/-- Of two operators in a row, the first one cannot be above the second in one expression and below
it in another. -/
theorem Obeys.not_crossed {place place' : Nat} {left right left' right' : Expr}
    (h : Obeys ops (.binary place left right)) (h' : Obeys ops (.binary place' left' right'))
    (hmem : place' ∈ right.places) : place ∉ left'.places := by
  intro hmem'
  obtain ⟨op, hop⟩ := h.known rfl
  obtain ⟨op', hop'⟩ := h'.known rfl
  obtain ⟨inner, hinner, hnot⟩ := (h.spec rfl hop).2 place' hmem
  obtain ⟨inner', hinner', hfirst⟩ := (h'.spec rfl hop').1 place hmem'
  obtain rfl := Option.some.inj (hop'.symm.trans hinner)
  obtain rfl := Option.some.inj (hop.symm.trans hinner')
  exact hnot hfirst

theorem Obeys.left {place : Nat} {left right : Expr} (h : Obeys ops (.binary place left right)) :
    left.Obeys ops := by
  cases h with
  | binary _ _ _ obeysLeft => exact obeysLeft

theorem Obeys.right {place : Nat} {left right : Expr} (h : Obeys ops (.binary place left right)) :
    right.Obeys ops := by
  cases h with
  | binary _ _ _ _ obeysRight => exact obeysRight

/-- **The operators in a row determine the expression that obeys them.** -/
theorem Obeys.unique {e e' : Expr} (h : e.Obeys ops) (h' : e'.Obeys ops)
    (hplaces : e.places = e'.places) : e = e' := by
  induction e generalizing e' with
  | atom =>
    cases e' with
    | atom => rfl
    | binary => exact absurd hplaces.symm (by simp [places])
  | binary place left right ihLeft ihRight =>
    cases e' with
    | atom => exact absurd hplaces (by simp [places])
    | binary place' left' right' =>
      -- the root of one is not to the left of the root of the other
      rcases List.append_eq_append_iff.mp hplaces with ⟨gap, hgap, hrest⟩ | ⟨gap, hgap, hrest⟩
      · cases gap with
        | nil =>
          obtain ⟨rfl, hright⟩ := List.cons.inj hrest
          rw [List.append_nil] at hgap
          rw [ihLeft h.left h'.left hgap.symm, ihRight h.right h'.right hright]
        | cons first gap =>
          obtain ⟨rfl, hright⟩ := List.cons.inj hrest
          refine absurd ?_ (h.not_crossed h' ?_)
          · exact hgap ▸ List.mem_append_right _ (List.mem_cons_self ..)
          · exact hright ▸ List.mem_append_right _ (List.mem_cons_self ..)
      · cases gap with
        | nil =>
          obtain ⟨rfl, hright⟩ := List.cons.inj hrest
          rw [List.append_nil] at hgap
          rw [ihLeft h.left h'.left hgap, ihRight h.right h'.right hright.symm]
        | cons first gap =>
          obtain ⟨rfl, hright⟩ := List.cons.inj hrest
          refine absurd ?_ (h'.not_crossed h ?_)
          · exact hgap ▸ List.mem_append_right _ (List.mem_cons_self ..)
          · exact hright ▸ List.mem_append_right _ (List.mem_cons_self ..)

end Expr

end LRWorkbench.Operators
