import LRWorkbench.Proofs.Regex.Literal
import LRWorkbench.Proofs.Text.Bytes

/-!
# Readers in step

An expression may stand alone or inside a group. To see that it is read the same, two readers are
run side by side (`Read.InStep`): both have the same expression before them, but behind it the first
one has a closing parenthesis, and the second one nothing at all or, if the first one has nothing
behind its parenthesis, one of its own.

A step **tracks** another (`Read.Tracks`) if the two readers find the same and stay in step, unless
the first one reads past its parenthesis. That is the invariant of all steps, and it is passed on from
step to step. A comment that is not closed is what makes a reader miss the parenthesis.
-/

namespace LRWorkbench.Regex.Read

open Text

/-! ### Steps that stay together -/

/-- Two readers at the same place of an expression. Behind the expression the first one has a closing
parenthesis and more; the second one has nothing at all, or a parenthesis and anything behind it if the
first one has only the parenthesis. -/
structure InStep (past w : List Char) (s b : ReadState) : Prop where
  rest : ∃ v, s.rest = v ++ ')' :: past ∧ b.rest = v ++ w
  closing : w = [] ∨ past = [] ∧ ∃ t, w = ')' :: t
  flags : s.flags = b.flags

/-- Two steps that stay together: unless the first one reads its parenthesis, they find the same and
stay in step. -/
structure Tracks {α : Type} (past w : List Char) (R : α → α → Prop) (x y : Read α) : Prop where
  /-- The first one only goes forward. -/
  stays : ∀ {s r s'}, x s = some (r, s') → s'.rest <:+ s.rest
  inStep : ∀ {s b r s' q b'}, InStep past w s b → x s = some (r, s') →
    past.length < s'.rest.length → y b = some (q, b') → R r q ∧ InStep past w s' b'

/-- A step that reads the same whatever closes the expression. -/
abbrev Local {α : Type} (past w : List Char) (x : Read α) : Prop := Tracks past w Eq x x

variable {α β : Type} {past w v : List Char} {R : α → α → Prop} {Q : β → β → Prop} {x y : Read α}
  {f g : α → Read β} {s b : ReadState}

namespace Tracks

/-- Answers that belong together are given by both. -/
theorem pure {a b : α} (h : R a b) : Tracks past w R (pure a) (pure b) where
  stays hx := by
    rw [pure_apply] at hx
    obtain ⟨-, rfl⟩ := Prod.mk.inj (Option.some.inj hx)
    exact List.suffix_rfl
  inStep hstep hx _ hy := by
    rw [pure_apply] at hx hy
    obtain ⟨rfl, rfl⟩ := Prod.mk.inj (Option.some.inj hx)
    obtain ⟨rfl, rfl⟩ := Prod.mk.inj (Option.some.inj hy)
    exact ⟨h, hstep⟩

/-- A step that fails has nothing to keep in step with. -/
theorem fail : Tracks past w R Read.fail y where
  stays hx := nomatch hx
  inStep _ hx := nomatch hx

theorem fail_bind {z : Read β} : Tracks past w Q (Read.fail >>= f) z where
  stays hx := nomatch hx
  inStep _ hx := nomatch hx

/-- If the second one fails, the first one reads past its parenthesis. -/
theorem fail_right (h : Tracks past w R x y) {R' : α → α → Prop} : Tracks past w R' x Read.fail where
  stays := h.stays
  inStep _ _ _ hy := nomatch hy

/-- **Steps one after the other stay in step.** What the first steps find may differ, as long as the
next ones track each other for it. -/
theorem bind (hx : Tracks past w R x y) (hrefl : ∀ a, R a a)
    (hf : ∀ a b, R a b → Tracks past w Q (f a) (g b)) : Tracks past w Q (x >>= f) (y >>= g) where
  stays h := by
    rw [bind_apply] at h
    obtain ⟨⟨a, t⟩, ha, hb⟩ := Option.bind_eq_some_iff.mp h
    exact ((hf a a (hrefl a)).stays hb).trans (hx.stays ha)
  inStep hstep h hne h' := by
    rw [bind_apply] at h h'
    obtain ⟨⟨a, t⟩, ha, hb⟩ := Option.bind_eq_some_iff.mp h
    obtain ⟨⟨a', t'⟩, ha', hb'⟩ := Option.bind_eq_some_iff.mp h'
    -- had the first step read the parenthesis, it would be read in the end
    have hmid := Nat.lt_of_lt_of_le hne ((hf a a (hrefl a)).stays hb).length_le
    obtain ⟨hR, hstep'⟩ := hx.inStep hstep ha hmid ha'
    exact (hf a a' hR).inStep hstep' hb hne hb'

/-- Both find the same and go on with it. -/
theorem next (hx : Tracks past w Eq x y) (hf : ∀ a, Tracks past w Q (f a) (g a)) :
    Tracks past w Q (x >>= f) (y >>= g) := by
  refine hx.bind (fun _ => rfl) ?_
  rintro a _ rfl
  exact hf a

/-- What both find is of no importance. -/
theorem skip (hx : Tracks past w (fun _ _ => True) x y) (hf : ∀ a b, Tracks past w Q (f a) (g b)) :
    Tracks past w Q (x >>= f) (y >>= g) :=
  hx.bind (fun _ => trivial) fun a b _ => hf a b

/-- Both go the same way. -/
theorem ite {c : Prop} [Decidable c] {x' y' : Read α} (hthen : c → Tracks past w R x y)
    (helse : ¬c → Tracks past w R x' y') :
    Tracks past w R (if c then x else x') (if c then y else y') := by
  split
  · exact hthen ‹_›
  · exact helse ‹_›

/-- After a check both go on. -/
theorem checked {k k' : Unit → Read α} {wrong : Prop} [Decidable wrong]
    (h : ¬wrong → Tracks past w R (k ()) (k' ())) :
    Tracks past w R (if wrong then Read.fail >>= k else k ())
      (if wrong then Read.fail >>= k' else k' ()) :=
  .ite (fun _ => .fail_bind) h

/-- After checks that are not the same both go on if nothing was wrong. -/
theorem checkedBoth {k k' : Unit → Read α} {wrong wrong' : Prop} [Decidable wrong]
    [Decidable wrong'] (h : Tracks past w R (k ()) (k' ())) :
    Tracks past w R (if wrong then Read.fail >>= k else k ())
      (if wrong' then Read.fail >>= k' else k' ()) := by
  split
  · exact .fail_bind
  · split
    · exact h.fail_right
    · exact h

/-- Changing the state keeps readers in step if it changes both alike. -/
theorem modify {f : ReadState → ReadState} (hstays : ∀ s, (f s).rest <:+ s.rest)
    (hstep : ∀ s b, InStep past w s b → past.length < (f s).rest.length →
      InStep past w (f s) (f b)) :
    Local past w (modify f) where
  stays h := by
    rw [modify_apply] at h
    obtain ⟨-, rfl⟩ := Prod.mk.inj (Option.some.inj h)
    exact hstays _
  inStep hin h hne h' := by
    rw [modify_apply] at h h'
    obtain ⟨-, rfl⟩ := Prod.mk.inj (Option.some.inj h)
    obtain ⟨-, rfl⟩ := Prod.mk.inj (Option.some.inj h')
    exact ⟨rfl, hstep _ _ hin hne⟩

/-- Readers in step may look at their states if what they make of them belongs together. -/
theorem get {R : ReadState → ReadState → Prop} (h : ∀ s b, InStep past w s b → R s b) :
    Tracks past w R get get where
  stays hx := by
    rw [get_apply] at hx
    obtain ⟨-, rfl⟩ := Prod.mk.inj (Option.some.inj hx)
    exact List.suffix_rfl
  inStep hin hx _ hy := by
    rw [get_apply] at hx hy
    obtain ⟨rfl, rfl⟩ := Prod.mk.inj (Option.some.inj hx)
    obtain ⟨rfl, rfl⟩ := Prod.mk.inj (Option.some.inj hy)
    exact ⟨h _ _ hin, hin⟩

/-- Both have the same flags. -/
theorem flags {f g : ReadState → Read β}
    (hf : ∀ s b : ReadState, s.flags = b.flags → Tracks past w Q (f s) (g b)) :
    Tracks past w Q (MonadState.get >>= f) (MonadState.get >>= g) :=
  (get fun _ _ h => h.flags).bind (fun _ => rfl) hf

/-- What both have is of no importance. -/
theorem anyState {f g : ReadState → Read β} (hf : ∀ s b, Tracks past w Q (f s) (g b)) :
    Tracks past w Q (MonadState.get >>= f) (MonadState.get >>= g) :=
  (get fun _ _ _ => trivial).skip hf

/-- What takes as many steps as needed is tracked if one step more is. -/
theorem ofFuel {γ : Type} {f : Nat → γ → Read α} (hzero : ∀ a, f 0 a = Read.fail)
    (hsucc : ∀ m k, (∀ a, Tracks past w Eq (f m a) (f k a)) →
      ∀ a, Tracks past w Eq (f (m + 1) a) (f (k + 1) a)) (m k : Nat) (a : γ) :
    Tracks past w Eq (f m a) (f k a) := by
  induction m generalizing k a with
  | zero =>
    rw [hzero]
    exact .fail
  | succ m ih =>
    cases k with
    | zero =>
      rw [hzero]
      exact (hsucc m 0 (ih 0) a).fail_right
    | succ k => exact hsucc m k (ih k) a

/-- A check is passed for each of some things. -/
theorem forIn {γ : Type} (l : List γ) {f : γ → PUnit → Read (ForInStep PUnit)}
    (hf : ∀ a ∈ l, Local past w (f a ⟨⟩)) : Local past w (forIn l PUnit.unit f) := by
  induction l with
  | nil => exact .pure rfl
  | cons a l ih =>
    rw [List.forIn_cons]
    refine (hf a (List.mem_cons_self ..)).next fun step => ?_
    cases step with
    | done => exact .pure rfl
    | yield => exact ih fun a ha => hf a (List.mem_cons_of_mem _ ha)

end Tracks

/-! ### The next characters -/

/-- What two readers in step see next: the same character, or the first one the parenthesis and the
second one nothing. -/
def SameNext (c d : Option Char) : Prop := c = d ∨ c = some ')' ∧ d = none

/-- Within the expression both see the same; at its end the first one sees its parenthesis. -/
theorem sameNext_append (v : List Char) (hw : w = [] ∨ past = [] ∧ ∃ t, w = ')' :: t) :
    SameNext (v ++ ')' :: past).head? (v ++ w).head? := by
  cases v with
  | cons c v => exact .inl rfl
  | nil =>
    rcases hw with rfl | ⟨-, t, rfl⟩
    · exact .inr ⟨rfl, rfl⟩
    · exact .inl rfl

/-- Behind the expression the second one has nothing, or a parenthesis. -/
theorem InStep.closed (h : InStep past w s b) : w = [] ∨ ∃ t, w = ')' :: t :=
  h.closing.imp_right And.right

/-- So readers in step see the same next, or the first one its parenthesis. -/
theorem InStep.sameNext (h : InStep past w s b) : SameNext s.rest.head? b.rest.head? := by
  obtain ⟨v, hs, hb⟩ := h.rest
  rw [hs, hb]
  exact sameNext_append v h.closing

/-- Looking at the next character finds such two. -/
theorem tracks_peek? : Tracks past w SameNext peek? peek? := by
  have h : Tracks past w (fun s b => SameNext s.rest.head? b.rest.head?) get get :=
    .get fun _ _ h => h.sameNext
  exact h.bind (fun _ => .inl rfl) fun _ _ h => .pure h

/-- A character that is looked at is the next one. -/
theorem peek_eq_some {c : Char} {s' : ReadState} (h : peek s = some (c, s')) :
    s' = s ∧ s.rest.head? = some c := by
  obtain ⟨rest, flags, names⟩ := s
  cases rest with
  | nil => cases h
  | cons d rest =>
    obtain ⟨rfl, rfl⟩ := Prod.mk.inj (Option.some.inj h)
    exact ⟨rfl, rfl⟩

/-- Both see the same character if both see one. -/
theorem InStep.head_eq (h : InStep past w s b) {c d : Char} (hc : s.rest.head? = some c)
    (hd : b.rest.head? = some d) : c = d := by
  have hnext := h.sameNext
  rw [hc, hd] at hnext
  rcases hnext with heq | ⟨-, hnone⟩
  · exact Option.some.inj heq
  · cases hnone

/-- Where a character has to be there, both see the same or the first one sees its parenthesis. -/
theorem local_peek : Local past w peek where
  stays h := by
    obtain ⟨rfl, -⟩ := peek_eq_some h
    exact List.suffix_rfl
  inStep hin h _ h' := by
    obtain ⟨rfl, hc⟩ := peek_eq_some h
    obtain ⟨rfl, hd⟩ := peek_eq_some h'
    exact ⟨hin.head_eq hc hd, hin⟩

/-- What goes on with the next character goes on from the same place. -/
theorem exists_of_peek {f : Char → Read α} {out : α × ReadState} (h : (peek >>= f) s = some out) :
    ∃ c, s.rest.head? = some c ∧ f c s = some out := by
  rw [bind_apply] at h
  obtain ⟨⟨c, t⟩, hc, hf⟩ := Option.bind_eq_some_iff.mp h
  obtain ⟨rfl, hhead⟩ := peek_eq_some hc
  exact ⟨c, hhead, hf⟩

/-- Going on by one character keeps them in step, unless the first one leaves the expression. -/
theorem local_bump : Local past w bump := by
  refine .modify (fun s => List.drop_suffix 1 s.rest) fun s b h hne => ?_
  obtain ⟨v, hs, hb⟩ := h.rest
  cases v with
  | nil =>
    rw [hs] at hne
    exact absurd hne (Nat.lt_irrefl _)
  | cons c v => exact ⟨⟨v, by rw [hs]; rfl, by rw [hb]; rfl⟩, h.closing, h.flags⟩

theorem local_setFlags (flags : Flags) : Local past w (modify fun s => { s with flags := flags }) :=
  .modify (fun _ => List.suffix_rfl) fun _ _ h _ => ⟨h.rest, h.closing, rfl⟩

/-- Whether a text without a parenthesis stands in front is settled before the parenthesis that closes
the group. -/
theorem dropPrefix?_closing {p : List Char} (hp : ')' ∉ p) (v : List Char)
    (hw : w = [] ∨ ∃ t, w = ')' :: t) :
    dropPrefix? p (v ++ w) = (dropPrefix? p v).map (· ++ w) := by
  induction p generalizing v with
  | nil => rfl
  | cons c p ih =>
    obtain ⟨hc, hp⟩ := not_or.mp (mt List.mem_cons.mpr hp)
    cases v with
    | nil =>
      rcases hw with rfl | ⟨t, rfl⟩
      · rfl
      · exact if_neg fun heq => hc heq.symm
    | cons d v =>
      rw [List.cons_append, dropPrefix?, dropPrefix?]
      split
      · exact ih hp v
      · rfl

theorem bumpIf_apply (text : String) (s : ReadState) :
    bumpIf text s = match dropPrefix? text.toList s.rest with
      | some rest => some (true, { s with rest := rest })
      | none => some (false, s) := by
  rw [bumpIf, bind_apply, get_apply]
  dsimp only [Option.bind_some]
  cases dropPrefix? text.toList s.rest with
  | none => rfl
  | some rest => rfl

/-- So both take such a text, or neither does. -/
theorem local_bumpIf {text : String} (h : ')' ∉ text.toList) : Local past w (bumpIf text) where
  stays hx := by
    rw [bumpIf_apply] at hx
    split at hx
    · rename_i hrest
      obtain ⟨-, rfl⟩ := Prod.mk.inj (Option.some.inj hx)
      exact ⟨_, append_of_dropPrefix? hrest⟩
    · obtain ⟨-, rfl⟩ := Prod.mk.inj (Option.some.inj hx)
      exact List.suffix_rfl
  inStep hin hx _ hy := by
    obtain ⟨v, hs, hb⟩ := hin.rest
    rw [bumpIf_apply, hs, dropPrefix?_closing h v (.inr ⟨past, rfl⟩)] at hx
    rw [bumpIf_apply, hb, dropPrefix?_closing h v hin.closed] at hy
    cases hdrop : dropPrefix? text.toList v with
    | none =>
      rw [hdrop] at hx hy
      obtain ⟨rfl, rfl⟩ := Prod.mk.inj (Option.some.inj hx)
      obtain ⟨rfl, rfl⟩ := Prod.mk.inj (Option.some.inj hy)
      exact ⟨rfl, hin⟩
    | some rest =>
      rw [hdrop] at hx hy
      obtain ⟨rfl, rfl⟩ := Prod.mk.inj (Option.some.inj hx)
      obtain ⟨rfl, rfl⟩ := Prod.mk.inj (Option.some.inj hy)
      exact ⟨rfl, ⟨rest, rfl, rfl⟩, hin.closing, hin.flags⟩

/-! ### Blanks -/

/-- A closing parenthesis is no blank. -/
theorem contains_space_closing : Unicode.space.contains ')' = false := by
  have htext : Unicode.findIn Unicode.propertyTable "whitespace" =
      some "9-d 20 85 a0 1680 2000-200a 2028-2029 202f 205f 3000" := by
    decide +kernel
  rw [Unicode.space, Unicode.propertyClass, htext, Option.map_some, Option.getD_some]
  decide +kernel

theorem dropSpace_closing_self (t : List Char) : dropSpace false (')' :: t) = ')' :: t := by
  rw [dropSpace, if_neg Bool.false_ne_true, contains_space_closing, if_neg Bool.false_ne_true,
    if_neg (by decide)]

/-- Dropping blanks and comments leaves the end of the text. -/
theorem dropSpace_suffix (inComment : Bool) (rest : List Char) :
    dropSpace inComment rest <:+ rest := by
  induction rest generalizing inComment with
  | nil => exact List.suffix_rfl
  | cons c rest ih =>
    rw [dropSpace]
    split
    · exact (ih _).trans (List.suffix_cons ..)
    · split
      · exact (ih _).trans (List.suffix_cons ..)
      · split
        · exact (ih _).trans (List.suffix_cons ..)
        · exact List.suffix_rfl

/-- Blanks and comments in front of the parenthesis are the same, unless a comment hides it, which
goes on to the end of the expression. -/
theorem dropSpace_closing (inComment : Bool) (v : List Char)
    (hw : w = [] ∨ past = [] ∧ ∃ t, w = ')' :: t) :
    (∃ v', dropSpace inComment (v ++ ')' :: past) = v' ++ ')' :: past ∧
        dropSpace inComment (v ++ w) = v' ++ w) ∨
      (dropSpace inComment (v ++ ')' :: past)).length ≤ past.length ∧
        dropSpace inComment v = [] := by
  induction v generalizing inComment with
  | nil =>
    cases inComment with
    | true =>
      refine .inr ⟨?_, rfl⟩
      rw [List.nil_append, dropSpace, if_pos rfl]
      exact (dropSpace_suffix ..).length_le
    | false =>
      refine .inl ⟨[], dropSpace_closing_self past, ?_⟩
      rcases hw with rfl | ⟨-, t, rfl⟩
      · rfl
      · exact dropSpace_closing_self t
  | cons c v ih =>
    simp only [List.cons_append, dropSpace]
    split
    · exact ih _
    · split
      · exact ih _
      · split
        · exact ih _
        · exact .inl ⟨c :: v, rfl, rfl⟩

/-- What is left after blanks, where they are allowed. -/
def skipSpace (flags : Flags) (rest : List Char) : List Char :=
  if flags.verbose then dropSpace false rest else rest

theorem skipSpace_suffix (flags : Flags) (rest : List Char) : skipSpace flags rest <:+ rest := by
  rw [skipSpace]
  split
  · exact dropSpace_suffix ..
  · exact List.suffix_rfl

/-- Blanks end before the parenthesis, or a comment hides it from the first reader while the second
one comes to the end. -/
theorem skipSpace_closing (flags : Flags) (v : List Char)
    (hw : w = [] ∨ past = [] ∧ ∃ t, w = ')' :: t) :
    (∃ v', skipSpace flags (v ++ ')' :: past) = v' ++ ')' :: past ∧
        skipSpace flags (v ++ w) = v' ++ w) ∨
      (skipSpace flags (v ++ ')' :: past)).length ≤ past.length ∧ skipSpace flags v = [] := by
  simp only [skipSpace]
  cases flags.verbose with
  | true => exact dropSpace_closing false v hw
  | false => exact .inl ⟨v, rfl, rfl⟩

theorem skipSpace_nil (flags : Flags) : skipSpace flags [] = [] := by
  rw [skipSpace]
  split <;> rfl

theorem bumpSpace_eq : bumpSpace = modify fun s => { s with rest := skipSpace s.flags s.rest } := by
  rw [bumpSpace]
  congr 1
  funext s
  rw [skipSpace]
  split <;> rfl

/-- Skipping blanks keeps readers in step. -/
theorem local_bumpSpace : Local past w bumpSpace := by
  rw [bumpSpace_eq]
  refine .modify (fun s => skipSpace_suffix s.flags s.rest) fun s b h hne => ?_
  obtain ⟨⟨v, hs, hb⟩, hw, hflags⟩ := h
  rw [hs] at hne
  obtain ⟨v', hs', hb'⟩ := (skipSpace_closing s.flags v hw).resolve_right
    fun hhidden => Nat.not_le.mpr hne hhidden.1
  exact ⟨⟨v', by rw [hs, hs'], by rw [← hflags, hb, hb']⟩, hw, hflags⟩

theorem tracks_bumpAndSpace : Tracks past w (fun _ _ => True) bumpAndSpace bumpAndSpace := by
  rw [bumpAndSpace]
  refine local_bump.next fun _ => local_bumpSpace.next fun _ => ?_
  exact Tracks.skip (.anyState fun _ _ => .pure trivial) fun _ _ => .pure trivial

/-- So does going on to what is behind them. -/
theorem local_advance : Local past w advance := by
  rw [advance]
  refine tracks_bumpAndSpace.skip fun left left' => ?_
  cases left with
  | false => exact .fail
  | true =>
    cases left' with
    | false => exact (Tracks.pure (R := Eq) rfl : Local past w (Pure.pure ())).fail_right
    | true => exact .pure rfl

theorem advance_apply (s : ReadState) :
    advance s = if (skipSpace s.flags (s.rest.drop 1)).isEmpty then none
      else some ((), { s with rest := skipSpace s.flags (s.rest.drop 1) }) := by
  rw [advance, bumpAndSpace, bumpSpace_eq]
  change (if (!(!(skipSpace s.flags (s.rest.drop 1)).isEmpty)) = true then fail else pure ())
    { s with rest := skipSpace s.flags (s.rest.drop 1) } = _
  cases (skipSpace s.flags (s.rest.drop 1)).isEmpty <;> rfl

/-- Something is left after an advance. -/
theorem advance_eq_some {s' : ReadState} {u : Unit} (h : advance s = some (u, s')) :
    skipSpace s.flags (s.rest.drop 1) ≠ [] ∧
      s' = { s with rest := skipSpace s.flags (s.rest.drop 1) } := by
  rw [advance_apply] at h
  split at h
  · cases h
  · rename_i hne
    obtain ⟨-, rfl⟩ := Prod.mk.inj (Option.some.inj h)
    exact ⟨by simpa using hne, rfl⟩

/-- Where something is left to both after blanks, the first one has its parenthesis before it. -/
theorem lt_length_skipSpace (flags : Flags) (v : List Char)
    (hw : w = [] ∨ past = [] ∧ ∃ t, w = ')' :: t) (hne : skipSpace flags (v ++ ')' :: past) ≠ [])
    (hne' : skipSpace flags (v ++ w) ≠ []) :
    past.length < (skipSpace flags (v ++ ')' :: past)).length := by
  rcases skipSpace_closing flags v hw with ⟨v', hv', -⟩ | ⟨hle, hhidden⟩
  · rw [hv', List.length_append, List.length_cons]
    omega
  · rcases hw with rfl | ⟨rfl, -⟩
    · rw [List.append_nil] at hne'
      exact absurd hhidden hne'
    · exact absurd (List.eq_nil_of_length_eq_zero (Nat.le_zero.mp hle)) hne

/-- The first one advances to its parenthesis at most if there is something for both. -/
theorem InStep.lt_of_advance (hin : InStep past w s b) {s' b' : ReadState} {u u' : Unit}
    (h : advance s = some (u, s')) (h' : advance b = some (u', b')) :
    past.length < s'.rest.length := by
  obtain ⟨hne, rfl⟩ := advance_eq_some h
  obtain ⟨hne', -⟩ := advance_eq_some h'
  obtain ⟨v, hs, hb⟩ := hin.rest
  dsimp only
  rw [hs] at hne ⊢
  rw [hb, ← hin.flags] at hne'
  cases v with
  | nil =>
    -- one of them is at its end
    rcases hin.closing with rfl | ⟨rfl, -⟩
    · exact absurd (skipSpace_nil s.flags) hne'
    · exact absurd (skipSpace_nil s.flags) hne
  | cons c v => exact lt_length_skipSpace s.flags v hin.closing hne hne'

/-- Both are in step after an advance. -/
theorem InStep.of_advance (hin : InStep past w s b) {s' b' : ReadState} {u u' : Unit}
    (h : advance s = some (u, s')) (h' : advance b = some (u', b')) : InStep past w s' b' :=
  (local_advance.inStep hin h (hin.lt_of_advance h h') h').2

end LRWorkbench.Regex.Read
