import LRWorkbench.Diagnostic.Basic

/-!
# Computations that may fail, keep a state or report what is wrong

What is known of the parts of a computation that did not fail, and what steps do that are functions of
a state.

A step that meets something wrong may also report that and go on with what it has. So it says something
about its answer only **if it reported nothing** (`Accounts`). One step after the other reports nothing
just if neither does, since nothing that was reported is ever taken back (`Accounts.bind`).
-/

namespace LRWorkbench

variable {ε α β : Type}

/-- If a computation in two parts succeeds, both parts do. -/
theorem bind_eq_ok {x : Except ε α} {f : α → Except ε β} {b : β} :
    (x >>= f) = .ok b ↔ ∃ a, x = .ok a ∧ f a = .ok b := by
  cases x with
  | error e =>
    constructor
    · intro h
      cases h
    · rintro ⟨a, ha, -⟩
      cases ha
  | ok a =>
    constructor
    · intro h
      exact ⟨a, rfl, h⟩
    · rintro ⟨a', ha, h⟩
      cases ha
      exact h

/-- If a computation in two parts fails, the first part does, or the second part after it. -/
theorem bind_eq_error {x : Except ε α} {f : α → Except ε β} {e : ε} :
    (x >>= f) = .error e ↔ x = .error e ∨ ∃ a, x = .ok a ∧ f a = .error e := by
  cases x with
  | error e' =>
    constructor
    · intro h
      exact .inl (congrArg Except.error (Except.error.inj h))
    · rintro (h | ⟨a, ha, -⟩)
      · exact congrArg Except.error (Except.error.inj h)
      · cases ha
  | ok a =>
    constructor
    · intro h
      exact .inr ⟨a, rfl, h⟩
    · rintro (h | ⟨a', ha, h⟩)
      · cases h
      · cases ha
        exact h

theorem map_eq_ok {x : Except ε α} {f : α → β} {b : β} :
    x.map f = .ok b ↔ ∃ a, x = .ok a ∧ f a = b := by
  cases x with
  | error e =>
    constructor
    · intro h
      cases h
    · rintro ⟨a, ha, -⟩
      cases ha
  | ok a =>
    constructor
    · intro h
      exact ⟨a, rfl, Except.ok.inj h⟩
    · rintro ⟨a', ha, rfl⟩
      cases ha
      rfl

theorem exists_map_eq_ok {x : Except ε α} {f : α → β} :
    (∃ b, x.map f = .ok b) ↔ ∃ a, x = .ok a := by
  constructor
  · rintro ⟨b, hb⟩
    obtain ⟨a, ha, -⟩ := map_eq_ok.mp hb
    exact ⟨a, ha⟩
  · rintro ⟨a, rfl⟩
    exact ⟨f a, rfl⟩

theorem eq_ok_of_toOption {x : Except ε α} {a : α} (h : x.toOption = some a) : x = .ok a := by
  cases x with
  | error e => cases h
  | ok a' =>
    obtain rfl := Option.some.inj h
    rfl

/-- What is made of a list member by member, each being made of one of the list. -/
theorem exists_of_mem_mapM {f : α → Except ε β} {l : List α} {made : List β}
    (h : l.mapM f = .ok made) {b : β} (hb : b ∈ made) : ∃ a ∈ l, f a = .ok b := by
  induction l generalizing made with
  | nil =>
    cases h
    cases hb
  | cons a l ih =>
    rw [List.mapM_cons] at h
    obtain ⟨first, hfirst, h⟩ := bind_eq_ok.mp h
    obtain ⟨rest, hrest, h⟩ := bind_eq_ok.mp h
    cases h
    rcases List.mem_cons.mp hb with rfl | hb
    · exact ⟨a, List.mem_cons_self .., hfirst⟩
    · obtain ⟨a', ha', hf⟩ := ih hrest hb
      exact ⟨a', List.mem_cons_of_mem _ ha', hf⟩

/-- Every member of the list has something made of it. -/
theorem exists_mem_of_mapM {f : α → Except ε β} {l : List α} {made : List β}
    (h : l.mapM f = .ok made) {a : α} (ha : a ∈ l) : ∃ b ∈ made, f a = .ok b := by
  induction l generalizing made with
  | nil => cases ha
  | cons a' l ih =>
    rw [List.mapM_cons] at h
    obtain ⟨first, hfirst, h⟩ := bind_eq_ok.mp h
    obtain ⟨rest, hrest, h⟩ := bind_eq_ok.mp h
    cases h
    rcases List.mem_cons.mp ha with rfl | ha
    · exact ⟨first, List.mem_cons_self .., hfirst⟩
    · obtain ⟨b, hb, hf⟩ := ih hrest ha
      exact ⟨b, List.mem_cons_of_mem _ hb, hf⟩

/-- If something can be made of every member, it can be made of the list. -/
theorem exists_mapM {f : α → Except ε β} {l : List α} (h : ∀ a ∈ l, ∃ b, f a = .ok b) :
    ∃ made, l.mapM f = .ok made := by
  induction l with
  | nil => exact ⟨[], rfl⟩
  | cons a l ih =>
    obtain ⟨first, hfirst⟩ := h a (List.mem_cons_self ..)
    obtain ⟨rest, hrest⟩ := ih fun a ha => h a (List.mem_cons_of_mem _ ha)
    rw [List.mapM_cons, hfirst]
    change ∃ made, (l.mapM f >>= fun rest => Except.ok (first :: rest)) = .ok made
    rw [hrest]
    exact ⟨_, rfl⟩

/-- If nothing can be made of a list, it is for one of its members. -/
theorem exists_of_mapM_eq_error {f : α → Except ε β} {l : List α} {e : ε}
    (h : l.mapM f = .error e) : ∃ a ∈ l, f a = .error e := by
  induction l with
  | nil => cases h
  | cons a l ih =>
    rw [List.mapM_cons] at h
    rcases bind_eq_error.mp h with h | ⟨b, -, h⟩
    · exact ⟨a, List.mem_cons_self .., h⟩
    · rcases bind_eq_error.mp h with h | ⟨rest, -, h⟩
      · obtain ⟨a', ha', hf⟩ := ih h
        exact ⟨a', List.mem_cons_of_mem _ ha', hf⟩
      · cases h

/-- If nothing can be made of a member, nothing can be made of the list: because of that member, or
of one before it. -/
theorem exists_mapM_eq_error {f : α → Except ε β} {a : α} {e : ε} (ha : f a = .error e)
    (before after : List α) : ∃ e', (before ++ a :: after).mapM f = .error e' ∧
      (e' = e ∨ ∃ b ∈ before, f b = .error e') := by
  induction before with
  | nil =>
    refine ⟨e, ?_, .inl rfl⟩
    rw [List.nil_append, List.mapM_cons]
    exact bind_eq_error.mpr (.inl ha)
  | cons b before ih =>
    obtain ⟨e', hrest, hfirst⟩ := ih
    rw [List.cons_append, List.mapM_cons]
    cases hb : f b with
    | error e'' => exact ⟨e'', rfl, .inr ⟨b, List.mem_cons_self .., hb⟩⟩
    | ok made =>
      refine ⟨e', bind_eq_error.mpr (.inr ⟨made, rfl, bind_eq_error.mpr (.inl hrest)⟩), ?_⟩
      refine hfirst.imp id ?_
      rintro ⟨c, hc, hf⟩
      exact ⟨c, List.mem_cons_of_mem _ hc, hf⟩

/-- What is done with each member of a list succeeds if it does for every member. -/
theorem forM_eq_ok {f : α → Except ε Unit} {l : List α} :
    l.forM f = .ok () ↔ ∀ a ∈ l, f a = .ok () := by
  induction l with
  | nil => exact iff_of_true rfl fun _ ha => absurd ha List.not_mem_nil
  | cons a l ih =>
    rw [List.forall_mem_cons, ← ih]
    constructor
    · intro h
      obtain ⟨_, ha, hl⟩ := bind_eq_ok.mp h
      exact ⟨ha, hl⟩
    · rintro ⟨ha, hl⟩
      exact bind_eq_ok.mpr ⟨_, ha, hl⟩

/-- What may be made of the items of a list, one by one, is made of all of them. -/
theorem getElem?_of_mapM {f : α → Option β} {l : List α} {made : List β} (h : l.mapM f = some made)
    {i : Nat} {a : α} (ha : l[i]? = some a) : ∃ b, made[i]? = some b ∧ f a = some b := by
  induction l generalizing made i with
  | nil => cases ha
  | cons first l ih =>
    rw [List.mapM_cons] at h
    obtain ⟨b, hb, h⟩ := Option.bind_eq_some_iff.mp h
    obtain ⟨bs, hbs, h⟩ := Option.bind_eq_some_iff.mp h
    cases h
    cases i with
    | zero =>
      cases ha
      exact ⟨b, rfl, hb⟩
    | succ i => exact ih hbs ha

theorem length_of_mapM {f : α → Option β} {l : List α} {made : List β} (h : l.mapM f = some made) :
    made.length = l.length := by
  induction l generalizing made with
  | nil =>
    cases h
    rfl
  | cons first l ih =>
    rw [List.mapM_cons] at h
    obtain ⟨b, hb, h⟩ := Option.bind_eq_some_iff.mp h
    obtain ⟨bs, hbs, h⟩ := Option.bind_eq_some_iff.mp h
    cases h
    exact congrArg (· + 1) (ih hbs)

/-- What is made of a list begins with what is made of its beginning, item by item. -/
theorem exists_of_mapM_eq_append {f : α → Option β} {l : List α} {before after : List β} {b : β}
    (h : l.mapM f = some (before ++ b :: after)) : ∃ before' a after', l = before' ++ a :: after' ∧
      f a = some b ∧ after'.mapM f = some after := by
  induction before generalizing l with
  | nil =>
    cases l with
    | nil => cases h
    | cons a l =>
      rw [List.mapM_cons] at h
      obtain ⟨b', hb, h⟩ := Option.bind_eq_some_iff.mp h
      obtain ⟨bs, hbs, h⟩ := Option.bind_eq_some_iff.mp h
      cases h
      exact ⟨[], a, l, rfl, hb, hbs⟩
  | cons c before ih =>
    cases l with
    | nil => cases h
    | cons a l =>
      rw [List.mapM_cons] at h
      obtain ⟨b', hb, h⟩ := Option.bind_eq_some_iff.mp h
      obtain ⟨bs, hbs, h⟩ := Option.bind_eq_some_iff.mp h
      cases h
      obtain ⟨before', a', after', rfl, ha, hafter⟩ := ih hbs
      exact ⟨a :: before', a', after', rfl, ha, hafter⟩

/-- Every entry of the list was made into something. -/
theorem exists_mem_of_mapM_option {f : α → Option β} {l : List α} {made : List β}
    (h : l.mapM f = some made) {a : α} (ha : a ∈ l) : ∃ b ∈ made, f a = some b := by
  obtain ⟨i, hi⟩ := List.getElem?_of_mem ha
  obtain ⟨b, hb, hf⟩ := getElem?_of_mapM h hi
  exact ⟨b, List.mem_of_getElem? hb, hf⟩

/-- All that was made was made of an entry of the list. -/
theorem exists_of_mem_mapM_option {f : α → Option β} {l : List α} {made : List β}
    (h : l.mapM f = some made) {b : β} (hb : b ∈ made) : ∃ a ∈ l, f a = some b := by
  obtain ⟨i, hi⟩ := List.getElem?_of_mem hb
  have hlt : i < l.length := length_of_mapM h ▸ (List.getElem?_eq_some_iff.mp hi).1
  obtain ⟨b', hb', hf⟩ := getElem?_of_mapM h (List.getElem?_eq_getElem hlt)
  cases hi.symm.trans hb'
  exact ⟨_, List.getElem_mem hlt, hf⟩

/-- If nothing but a result is made of every item of a list, nothing else is made of the list. -/
theorem mapM_map_eq_pure {m : Type → Type} [Monad m] [LawfulMonad m] {γ : Type} {f : β → m γ}
    {g : α → β} {made : α → γ} {l : List α} (h : ∀ a ∈ l, f (g a) = pure (made a)) :
    (l.map g).mapM f = pure (l.map made) := by
  induction l with
  | nil => rfl
  | cons a l ih =>
    rw [List.map_cons, List.mapM_cons, h a (List.mem_cons_self ..), pure_bind,
      ih fun b hb => h b (List.mem_cons_of_mem _ hb), pure_bind, List.map_cons]

/-! ### Computations that fail less often -/

/-- Whether a computation succeeds as another one does, wherever that one succeeds. -/
def Within (x y : Except ε α) : Prop := ∀ a, x = .ok a → y = .ok a

namespace Within

theorem refl (x : Except ε α) : Within x x := fun _ h => h

/-- What fails less often part by part fails less often as a whole. -/
theorem bind {x y : Except ε α} {f f' : α → Except ε β} (h : Within x y)
    (hf : ∀ a, Within (f a) (f' a)) : Within (x >>= f) (y >>= f') := by
  intro b hb
  obtain ⟨a, ha, hb⟩ := bind_eq_ok.mp hb
  exact bind_eq_ok.mpr ⟨a, h a ha, hf a b hb⟩

theorem mapM {f f' : α → Except ε β} (h : ∀ a, Within (f a) (f' a)) (l : List α) :
    Within (l.mapM f) (l.mapM f') := by
  induction l with
  | nil => exact .refl _
  | cons a l ih =>
    rw [List.mapM_cons, List.mapM_cons]
    exact (h a).bind fun _ => ih.bind fun _ => .refl _

end Within

/-! ### Steps with a state -/

section

variable {σ : Type}

theorem bind_apply (x : StateM σ α) (f : α → StateM σ β) (s : σ) :
    (x >>= f) s = f (x s).1 (x s).2 := rfl

theorem pure_apply (a : α) (s : σ) : (pure a : StateM σ α) s = (a, s) := rfl

theorem get_apply (s : σ) : (get : StateM σ σ) s = (s, s) := rfl

theorem modify_apply (f : σ → σ) (s : σ) : (modify f : StateM σ Unit) s = ((), f s) := rfl

end

/-! ### Steps that report what is wrong -/

/-- States with the errors that were reported so far, the latest first. -/
class Reporting (σ : Type) where
  reported : σ → List Diagnostic
  /-- Whether one state may lead to another. -/
  Leads : σ → σ → Prop
  refl : ∀ s, Leads s s
  trans : ∀ {s s' s''}, Leads s s' → Leads s' s'' → Leads s s''
  grows : ∀ {s s'}, Leads s s' → ∃ ds, reported s' = ds ++ reported s ∧ ∀ d ∈ ds, d.isError = true

section

open Reporting

variable {σ : Type} [Reporting σ] {s s' : σ}

/-- A step leads on, and if it reports nothing, its answer and the state behind it have some property. -/
structure Accounts (p : StateM σ α) (s : σ) (P : α → σ → Prop) : Prop where
  leads : Leads s (p s).2
  found : reported (p s).2 = reported s → P (p s).1 (p s).2

namespace Accounts

variable {p : StateM σ α} {f : α → StateM σ β} {a : α} {P P' : α → σ → Prop} {Q : β → σ → Prop}

/-- A step of which it is known what it does. -/
theorem run (hp : p s = (a, s')) (hleads : Leads s s') (h : P a s') : Accounts p s P where
  leads := by rwa [hp]
  found _ := by rwa [hp]

theorem pure (h : P a s) : Accounts (pure a) s P := run rfl (Reporting.refl s) h

theorem mono (h : Accounts p s P) (himp : ∀ a s', P a s' → P' a s') : Accounts p s P' where
  leads := h.leads
  found hquiet := himp _ _ (h.found hquiet)

/-- One step after the other. What the first one found is known of the second one if nothing was reported. -/
theorem bind (hp : Accounts p s P) (hf : ∀ a s', Leads s s' →
    Accounts (f a) s' fun b s'' => P a s' → Leads s' s'' → Q b s'') : Accounts (p >>= f) s Q := by
  have hthen := hf (p s).1 (p s).2 hp.leads
  refine ⟨trans hp.leads hthen.leads, fun hquiet => ?_⟩
  obtain ⟨ds, hds, -⟩ := grows hp.leads
  obtain ⟨ds', hds', -⟩ := grows hthen.leads
  have hnone : ds' ++ ds = [] := by
    rw [bind_apply, hds', hds, ← List.append_assoc] at hquiet
    exact List.append_left_eq_self.mp hquiet
  obtain ⟨hsecond, hfirst⟩ := List.append_eq_nil_iff.mp hnone
  rw [hfirst] at hds
  rw [hsecond] at hds'
  exact hthen.found hds' (hp.found hds) hthen.leads

/-- Behind a step that reports something wrong nothing has to be known. -/
theorem wrong (hp : Accounts p s fun _ _ => False) (hf : ∀ a s', Leads s' (f a s').2) :
    Accounts (p >>= f) s Q :=
  hp.bind fun a s' _ => ⟨hf a s', fun _ hnever => hnever.elim⟩

/-- A step that reports nothing is passed over if it is known what it does. -/
theorem pass (hp : p s = (a, s')) (hleads : Leads s s') (hquiet : reported s' = reported s)
    (hf : Accounts (f a) s' Q) : Accounts (p >>= f) s Q := by
  have heq : (p >>= f) s = f a s' := by rw [bind_apply, hp]
  refine ⟨heq ▸ trans hleads hf.leads, fun hnone => heq ▸ hf.found ?_⟩
  rw [hquiet, ← hnone, heq]

/-- A step that only looks at the state is passed over. -/
theorem look (hp : p s = (a, s)) (hf : Accounts (f a) s Q) : Accounts (p >>= f) s Q :=
  pass hp (Reporting.refl s) rfl hf

end Accounts

end

end LRWorkbench
