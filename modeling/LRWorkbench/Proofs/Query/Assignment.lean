import LRWorkbench.Query.Matching

/-!
# What a pattern asks of a node

What it means that a pattern holds at a node is said here without trying it (`Pattern.Binds`): the
kinds agree, no child fills a negated field, and there are **groups** of children, one for each
pattern for children. The groups come one after another among the children, each as large as the
quantifier of its pattern allows, and the pattern holds at every child of its group.

Trying a pattern finds out just that (`Pattern.tryAt_complete`), and all that it does to the list of
what is bound is to put what it bound at its end, if it succeeds. For this every kind of try is first
brought into one form (`Realizes.run_eq`): what it binds itself does not depend on the list, and where
it fails nothing of it is left. From then on the list can be forgotten, and only what is bound
counts (`Realizes.sound`, `Realizes.complete`).

A repetition takes all the children it can and gives up the last ones only, so most groups are never
tried. None of them is missed: a group of at least one child may be cut down to the first child at
which its pattern holds at all, and what comes after it only gains room (`realizes_repeatedThen`).
-/

namespace LRWorkbench.Query

/-- The sizes that a quantifier allows a group of children to have. -/
def Quantifier.Allows : Quantifier → Nat → Prop
  | .one, size => size = 1
  | .optional, size => size ≤ 1
  | .zeroOrMore, _ => True
  | .oneOrMore, size => 1 ≤ size

mutual

/-- Whether a pattern holds at a node and binds its captures there: its own to the node, and then
those of what it asks for. -/
def Pattern.Binds (t : ParseTable) : Pattern → Shown → List Capture → Prop
  | .mk form captures, s, bound =>
    ∃ inner, form.Binds t s inner ∧ bound = captures.map (⟨·, s.node⟩) ++ inner

/-- Whether a node is what a pattern asks for. The children of a node are matched in groups, which
stand among them in order; the members of a group come with what they bind. -/
def PatternForm.Binds (t : ParseTable) : PatternForm → Shown → List Capture → Prop
  | .node symbol children negated, s, bound =>
    s.node.isNamed t = true ∧ (∀ kind, symbol = some kind → s.node.symbol = kind) ∧
      (∀ field ∈ negated, ∀ child ∈ s.children, child.node.field ≠ some field) ∧
      ∃ groups : List (List (Shown × List Capture)),
        (groups.flatten.map Prod.fst).Sublist s.children ∧ EachBinds t children groups ∧
          bound = groups.flatten.flatMap Prod.snd
  | .wildcard, _, bound => bound = []
  | .anonymous symbol, s, bound =>
    s.node.symbol = symbol ∧ s.node.isNamed t = false ∧ bound = []
  | .choice alternatives, s, bound => SomeBinds t alternatives s bound

/-- Whether one of several patterns holds at a node. -/
def SomeBinds (t : ParseTable) : List Pattern → Shown → List Capture → Prop
  | [], _, _ => False
  | p :: rest, s, bound => p.Binds t s bound ∨ SomeBinds t rest s bound

/-- Whether a child fills the field that is asked for, and the pattern for it holds there. -/
def ChildPattern.Binds (t : ParseTable) : ChildPattern → Shown → List Capture → Prop
  | .mk field p _, s, bound =>
    (∀ name, field = some name → s.node.field = some name) ∧ p.Binds t s bound

/-- Whether there is a group of children for each of some patterns, as large as its quantifier
allows, and the pattern holds at each of them. -/
def EachBinds (t : ParseTable) : List ChildPattern → List (List (Shown × List Capture)) → Prop
  | [], groups => groups = []
  | c :: rest, groups => ∃ group others, groups = group :: others ∧
      c.quantifier.Allows group.length ∧ (∀ member ∈ group, c.Binds t member.1 member.2) ∧
        EachBinds t rest others

end

/-! ### Finding out whether something holds -/

/-- What a try comes to that bound something itself, or failed, after something was bound. -/
def outcome (bound : List Capture) : Option (List Capture) → Bool × List Capture
  | some own => (true, bound ++ own)
  | none => (false, bound)

/-- What a try binds that is made before anything is bound, if it succeeds. -/
def own? {α : Type} (tries : α → Try) (x : α) : Option (List Capture) :=
  match (tries x).run [] with
  | (true, own) => some own
  | (false, _) => none

/-- Whether trying something finds out if it holds. -/
structure Realizes {α : Type} (tries : α → Try) (holds : α → List Capture → Prop) : Prop where
  /-- What was bound before is kept and makes no difference, and a failure leaves nothing else. -/
  run_eq : ∀ x bound, (tries x).run bound = outcome bound (own? tries x)
  sound : ∀ {x own}, own? tries x = some own → holds x own
  complete : ∀ {x own}, holds x own → (own? tries x).isSome

/-! What is tried one after the other is tried on what is bound by then. -/

theorem run_bind {α β : Type} (first : StateM (List Capture) α)
    (next : α → StateM (List Capture) β) (bound : List Capture) :
    (first >>= next).run bound = (next (first.run bound).1).run (first.run bound).2 := rfl

theorem run_pure {α : Type} (a : α) (bound : List Capture) :
    (pure a : StateM (List Capture) α).run bound = (a, bound) := rfl

theorem run_modify (change : List Capture → List Capture) (bound : List Capture) :
    (modify change : StateM (List Capture) Unit).run bound = ((), change bound) := rfl

theorem run_mark (bound : List Capture) : Try.mark.run bound = (bound.length, bound) := rfl

theorem run_cutBack (mark : Nat) (bound : List Capture) :
    (Try.cutBack mark).run bound = ((), bound.take mark) := rfl

/-- What a try binds itself is what it adds to any list of what is bound. -/
theorem own?_eq {α : Type} {tries : α → Try} {f : α → Option (List Capture)}
    (hrun : ∀ x bound, (tries x).run bound = outcome bound (f x)) (x : α) :
    own? tries x = f x := by
  rw [own?, hrun]
  cases f x <;> rfl

namespace Realizes

variable {α : Type} {f g : α → Try} {P Q : α → List Capture → Prop}

/-- What a try comes to may be known from elsewhere. -/
theorem of_run (own : α → Option (List Capture))
    (hrun : ∀ x bound, (f x).run bound = outcome bound (own x))
    (hsound : ∀ {x more}, own x = some more → P x more)
    (hcomplete : ∀ {x more}, P x more → (own x).isSome) : Realizes f P where
  run_eq x bound := by rw [own?_eq hrun, hrun]
  sound {x more} hown := by
    rw [own?_eq hrun] at hown
    exact hsound hown
  complete {x more} hholds := by
    rw [own?_eq hrun]
    exact hcomplete hholds

theorem congr (h : Realizes f P) (hiff : ∀ x more, P x more ↔ Q x more) : Realizes f Q where
  run_eq := h.run_eq
  sound hmore := (hiff _ _).mp (h.sound hmore)
  complete hholds := h.complete ((hiff _ _).mpr hholds)

/-- What is tried at a part of something. -/
theorem comap {β : Type} (h : Realizes f P) (part : β → α) :
    Realizes (fun y => f (part y)) fun y more => P (part y) more where
  run_eq y bound := h.run_eq (part y) bound
  sound hmore := h.sound hmore
  complete hholds := h.complete hholds

/-- Of two things that are tried one after the other one holds. -/
theorem or (hf : Realizes f P) (hg : Realizes g Q) :
    Realizes (fun x => do if ← f x then return true else g x) fun x more => P x more ∨ Q x more := by
  refine of_run (fun x => (own? f x).or (own? g x)) (fun x bound => ?_)
    (fun {x more} hmore => ?_) fun {x more} hholds => ?_
  · rw [run_bind, hf.run_eq]
    cases own? f x with
    | some own => rfl
    | none => exact hg.run_eq x bound
  · rcases Option.or_eq_some_iff.mp hmore with hmore | ⟨-, hmore⟩
    · exact .inl (hf.sound hmore)
    · exact .inr (hg.sound hmore)
  · rw [Option.isSome_or, Bool.or_eq_true]
    exact hholds.imp hf.complete hg.complete

/-- Binding something first comes to binding it before the rest, as long as it is given up again
where the rest fails. -/
theorem prepend (h : Realizes f P) (first : α → List Capture) :
    Realizes (fun x => do
      let before ← Try.mark
      modify fun bound => bound ++ first x
      if ← f x then return true
      Try.cutBack before
      return false) fun x more => ∃ inner, P x inner ∧ more = first x ++ inner := by
  refine of_run (fun x => (own? f x).map (first x ++ ·)) (fun x bound => ?_)
    (fun {x more} hmore => ?_) fun {x more} hholds => ?_
  · simp only [run_bind, run_mark, run_modify, h.run_eq]
    cases own? f x with
    | some own => simp only [outcome, Option.map_some, if_true, run_pure, List.append_assoc]
    | none => simp only [outcome, Option.map_none, Bool.false_eq_true, if_false, run_bind,
        run_cutBack, run_pure, List.take_left]
  · obtain ⟨inner, hinner, rfl⟩ := Option.map_eq_some_iff.mp hmore
    exact ⟨inner, h.sound hinner, rfl⟩
  · obtain ⟨inner, hinner, -⟩ := hholds
    rw [Option.isSome_map]
    exact h.complete hinner

/-- What is tried under a condition only. -/
theorem guard (h : Realizes f P) {test : α → Bool} {C : α → Prop}
    (htest : ∀ x, test x = true ↔ C x) :
    Realizes (fun x => if test x then f x else return false) fun x more => C x ∧ P x more := by
  refine of_run (fun x => if test x then own? f x else none) (fun x bound => ?_)
    (fun {x more} hmore => ?_) fun {x more} hholds => ?_
  · split
    · exact h.run_eq x bound
    · rfl
  · split at hmore
    · rename_i hx
      exact ⟨(htest x).mp hx, h.sound hmore⟩
    · cases hmore
  · rw [if_pos ((htest x).mpr hholds.1)]
    exact h.complete hholds.2

/-- What binds nothing. -/
theorem test {test : α → Bool} {C : α → Prop} (htest : ∀ x, test x = true ↔ C x) :
    Realizes (fun x => return test x) fun x more => C x ∧ more = [] := by
  refine of_run (fun x => if test x then some [] else none) (fun x bound => ?_)
    (fun {x more} hmore => ?_) fun {x more} hholds => ?_
  · rw [run_pure]
    cases test x with
    | true => rw [if_pos rfl, outcome, List.append_nil]
    | false => rfl
  · split at hmore
    · rename_i hx
      exact ⟨(htest x).mp hx, (Option.some.inj hmore).symm⟩
    · cases hmore
  · rw [if_pos ((htest x).mpr hholds.1)]
    rfl

end Realizes

/-! ### Groups of children -/

section Groups

variable {one : Shown → Try} {others : List Shown → Try}
  {P : Shown → List Capture → Prop} {Q : List Shown → List Capture → Prop}

/-- Whether some of the first nodes make up a group at which `P` holds, as large as a quantifier
allows, and `Q` holds of the nodes behind them. -/
def Grouped (P : Shown → List Capture → Prop) (Q : List Shown → List Capture → Prop)
    (quantifier : Quantifier) (nodes : List Shown) (bound : List Capture) : Prop :=
  ∃ (group : List (Shown × List Capture)) (front back : List Shown) (more : List Capture),
    quantifier.Allows group.length ∧ (∀ member ∈ group, P member.1 member.2) ∧
      nodes = front ++ back ∧ (group.map Prod.fst).Sublist front ∧ Q back more ∧
        bound = group.flatMap Prod.snd ++ more

/-- Whether something that holds of some nodes holds of any among which they stand in order. -/
def GrowsWithNodes (Q : List Shown → List Capture → Prop) : Prop :=
  ∀ nodes nodes' more, Q nodes more → nodes.Sublist nodes' → Q nodes' more

/-- A group may be empty if `Q` holds anyway. -/
theorem grouped_iff_or {larger smaller : Quantifier}
    (hsizes : ∀ size, larger.Allows size ↔ smaller.Allows size ∨ size = 0)
    (hgrows : GrowsWithNodes Q) {nodes : List Shown} {bound : List Capture} :
    Grouped P Q larger nodes bound ↔ Grouped P Q smaller nodes bound ∨ Q nodes bound := by
  constructor
  · rintro ⟨group, front, back, more, hsize, hgroup, rfl, hsub, hback, rfl⟩
    rcases (hsizes _).mp hsize with hsize | hempty
    · exact .inl ⟨group, front, back, more, hsize, hgroup, rfl, hsub, hback, rfl⟩
    · obtain rfl := List.length_eq_zero_iff.mp hempty
      exact .inr (hgrows _ _ _ hback (List.sublist_append_right ..))
  · rintro (⟨group, front, back, more, hsize, h⟩ | hrest)
    · exact ⟨group, front, back, more, (hsizes _).mpr (.inl hsize), h⟩
    · exact ⟨[], [], nodes, bound, (hsizes _).mpr (.inr rfl), by simp, rfl, .slnil, hrest, rfl⟩

/-- A group with a member has a first one, and what comes after the group comes after it. -/
theorem Grouped.exists_first {quantifier : Quantifier} {nodes : List Shown} {bound : List Capture}
    (h : Grouped P Q quantifier nodes bound) (hsize : ¬quantifier.Allows 0)
    (hgrows : GrowsWithNodes Q) :
    ∃ front s back own more, nodes = front ++ s :: back ∧ P s own ∧ Q back more := by
  obtain ⟨group, front, back, more, hallows, hgroup, rfl, hsub, hback, -⟩ := h
  cases group with
  | nil => exact absurd hallows hsize
  | cons member group =>
    have hmem : member.1 ∈ front := hsub.subset (List.mem_cons_self ..)
    obtain ⟨before, behind, rfl⟩ := List.append_of_mem hmem
    refine ⟨before, member.1, behind ++ back, member.2, more, ?_,
      hgroup member (List.mem_cons_self ..), hgrows _ _ _ hback (List.sublist_append_right ..)⟩
    rw [List.append_assoc, List.cons_append]

/-! ### One child -/

/-- What is bound by the first child at which `one` succeeds and behind which the others do. -/
def ownOfOne? (one : Shown → Try) (others : List Shown → Try) : List Shown → Option (List Capture)
  | [] => none
  | s :: rest =>
    ((own? one s).bind fun own => (own? others rest).map (own ++ ·)).or (ownOfOne? one others rest)

/-- One node and then the others is a try in the common form, if both parts are. -/
theorem run_oneThen (hone : Realizes one P) (hothers : Realizes others Q) (nodes : List Shown)
    (bound : List Capture) :
    (oneThen one others nodes).run bound = outcome bound (ownOfOne? one others nodes) := by
  induction nodes with
  | nil => rfl
  | cons s rest ih =>
    simp only [oneThen, ownOfOne?, run_bind, run_mark, hone.run_eq]
    cases own? one s with
    | none => exact ih
    | some own =>
      simp only [outcome, if_true, run_bind, hothers.run_eq]
      cases own? others rest with
      | none =>
        -- what the child bound is cut off before the next child
        simp only [Bool.false_eq_true, if_false, run_bind, run_cutBack, List.take_left,
          Option.map_none]
        exact ih
      | some more => simp only [if_true, run_pure, Option.bind_some, Option.map_some,
          Option.some_or, List.append_assoc]

/-- A child is found if there is one from which on all goes well. -/
theorem isSome_ownOfOne? (hone : Realizes one P) (hothers : Realizes others Q)
    {front back : List Shown} {s : Shown} {own more : List Capture} (hs : P s own)
    (hback : Q back more) : (ownOfOne? one others (front ++ s :: back)).isSome := by
  induction front with
  | nil =>
    obtain ⟨bound, hbound⟩ := Option.isSome_iff_exists.mp (hone.complete hs)
    rw [List.nil_append, ownOfOne?, Option.isSome_or, hbound, Option.bind_some, Option.isSome_map,
      hothers.complete hback, Bool.true_or]
  | cons c front ih => rw [List.cons_append, ownOfOne?, Option.isSome_or, ih, Bool.or_true]

/-- The group of one node: the pattern holds at the first node, and the others go on behind it. -/
theorem realizes_oneThen (hone : Realizes one P) (hothers : Realizes others Q)
    (hgrows : GrowsWithNodes Q) : Realizes (oneThen one others) (Grouped P Q .one) := by
  refine .of_run _ (run_oneThen hone hothers) (fun {nodes more} hmore => ?_)
    fun {nodes more} hholds => ?_
  · induction nodes with
    | nil => cases hmore
    | cons s rest ih =>
      rw [ownOfOne?] at hmore
      rcases Option.or_eq_some_iff.mp hmore with hmore | ⟨-, hmore⟩
      · obtain ⟨own, hown, hrest⟩ := Option.bind_eq_some_iff.mp hmore
        obtain ⟨inner, hinner, rfl⟩ := Option.map_eq_some_iff.mp hrest
        exact ⟨[(s, own)], [s], rest, inner, rfl, by simpa using hone.sound hown, rfl,
          List.Sublist.refl _, hothers.sound hinner, by simp⟩
      · obtain ⟨group, front, back, inner, hsize, hgroup, rfl, hsub, hback, rfl⟩ := ih hmore
        exact ⟨group, s :: front, back, inner, hsize, hgroup, rfl, hsub.cons s, hback, rfl⟩
  · obtain ⟨front, s, back, own, more, rfl, hs, hback⟩ :=
      hholds.exists_first Nat.zero_ne_one hgrows
    exact isSome_ownOfOne? hone hothers hs hback

/-! ### Repetitions -/

/-- What a repetition has bound at each stop, and which places are left there. -/
def ownStops (one : Shown → Try) : List Shown → List (List Capture × List Shown)
  | [] => []
  | s :: rest =>
    match own? one s with
    | some own => (own, rest) :: (ownStops one rest).map (Prod.map (own ++ ·) id)
    | none => ownStops one rest

/-- A stop in terms of how much is bound there. -/
def stopAfter (bound : List Capture) (stop : List Capture × List Shown) : Nat × List Shown :=
  ((bound ++ stop.1).length, stop.2)

/-- What is bound first is bound at every stop after it. -/
theorem map_stopAfter_append (bound first : List Capture)
    (found : List (List Capture × List Shown)) :
    found.map (stopAfter (bound ++ first)) =
      (found.map (Prod.map (first ++ ·) id)).map (stopAfter bound) := by
  simp [stopAfter, Function.comp_def]

/-- What is bound at an earlier stop stays bound at the later ones. -/
theorem pairwise_ownStops (one : Shown → Try) (nodes : List Shown) :
    (ownStops one nodes).Pairwise fun earlier later => earlier.1 <+: later.1 := by
  induction nodes with
  | nil => exact .nil
  | cons s rest ih =>
    rw [ownStops]
    split
    · rename_i own hown
      refine List.pairwise_cons.mpr ⟨?_, List.pairwise_map.mpr (ih.imp fun h => ?_)⟩
      · intro stop hstop
        obtain ⟨inner, -, rfl⟩ := List.mem_map.mp hstop
        exact List.prefix_append own inner.1
      · exact (List.prefix_append_right_inj own).mpr h
    · exact ih

/-- What is bound in the end begins with what is bound at each stop. -/
theorem run_stops (hone : Realizes one P) (nodes : List Shown) (bound : List Capture) :
    ∃ own, (stops one nodes).run bound =
        ((ownStops one nodes).map (stopAfter bound), bound ++ own) ∧
      ∀ stop ∈ ownStops one nodes, stop.1 <+: own := by
  induction nodes generalizing bound with
  | nil => exact ⟨[], by rw [List.append_nil]; rfl, nofun⟩
  | cons s rest ih =>
    simp only [stops, ownStops, run_bind, hone.run_eq]
    cases own? one s with
    | none => exact ih bound
    | some first =>
      obtain ⟨own, hrun, hbegins⟩ := ih (bound ++ first)
      refine ⟨first ++ own, ?_, List.forall_mem_cons.mpr ⟨List.prefix_append first own, ?_⟩⟩
      · simp only [outcome, if_true, run_bind, run_mark, run_pure, hrun, List.map_cons,
          map_stopAfter_append, stopAfter, List.append_assoc]
      · intro stop hstop
        obtain ⟨inner, hinner, rfl⟩ := List.mem_map.mp hstop
        exact (List.prefix_append_right_inj first).mpr (hbegins inner hinner)

/-- What is bound from the first of some stops on from which the others succeed. -/
def ownFrom? (others : List Shown → Try) (found : List (List Capture × List Shown)) :
    Option (List Capture) :=
  found.findSome? fun stop => (own? others stop.2).map (stop.1 ++ ·)

/-- Going back from stop to stop, what was bound at a stop is what is left of what was bound at the
one before. -/
theorem run_fromStops (hothers : Realizes others Q) {least : Nat} (hleast : least ≤ 1)
    {found : List (List Capture × List Shown)} {own : List Capture} (bound : List Capture)
    (hfound : found.Pairwise fun later earlier => earlier.1 <+: later.1)
    (hown : ∀ stop ∈ found, stop.1 <+: own) :
    ∃ rest, (fromStops others least (found.map (stopAfter bound))).run (bound ++ own) =
      match ownFrom? others found with
      | some more => (true, bound ++ more)
      | none => (false, bound ++ rest) := by
  induction found generalizing own with
  | nil => exact ⟨own, rfl⟩
  | cons stop earlier ih =>
    obtain ⟨hearlier, hpairs⟩ := List.pairwise_cons.mp hfound
    obtain ⟨rest, hrest⟩ := ih hpairs hearlier
    have hcut : (bound ++ own).take (bound ++ stop.1).length = bound ++ stop.1 := by
      obtain ⟨behind, rfl⟩ := hown stop (List.mem_cons_self ..)
      rw [← List.append_assoc, List.take_left]
    have henough : ¬(earlier.map (stopAfter bound)).length + 1 < max least 1 := by omega
    refine ⟨rest, ?_⟩
    simp only [List.map_cons, stopAfter, fromStops, if_neg henough, run_bind, run_cutBack, hcut,
      hothers.run_eq, ownFrom?, List.findSome?_cons]
    cases own? others stop.2 with
    | none => exact hrest
    | some more => simp only [outcome, if_true, run_pure, Option.map_some, List.append_assoc]

/-- What a repetition binds that may be left out if nothing is needed. -/
def ownOfRepeated? (one : Shown → Try) (others : List Shown → Try) (least : Nat)
    (nodes : List Shown) : Option (List Capture) :=
  (ownFrom? others (ownStops one nodes).reverse).or
    (if least = 0 then own? others nodes else none)

/-- Repeating as often as possible is a try in the common form, if its parts are. -/
theorem run_repeatedThen (hone : Realizes one P) (hothers : Realizes others Q) {least : Nat}
    (hleast : least ≤ 1) (nodes : List Shown) (bound : List Capture) :
    (repeatedThen one others least nodes).run bound =
      outcome bound (ownOfRepeated? one others least nodes) := by
  obtain ⟨own, hstops, hbegins⟩ := run_stops hone nodes bound
  obtain ⟨rest, hfrom⟩ := run_fromStops hothers hleast bound
    (List.pairwise_reverse.mpr (pairwise_ownStops one nodes))
    fun stop hstop => hbegins stop (List.mem_reverse.mp hstop)
  simp only [repeatedThen, ownOfRepeated?, run_bind, run_mark, hstops, ← List.map_reverse, hfrom]
  cases ownFrom? others (ownStops one nodes).reverse with
  | some more => rfl
  | none =>
    -- all stops were given up, and so is what is left behind the mark
    simp only [Bool.false_eq_true, if_false, run_bind, run_cutBack, List.take_left, Option.none_or]
    split
    · exact hothers.run_eq nodes bound
    · rfl

/-- Every stop of a repetition stands behind a group. -/
theorem exists_group_of_mem_ownStops (hone : Realizes one P) {nodes rest : List Shown}
    {own : List Capture} (h : (own, rest) ∈ ownStops one nodes) :
    ∃ (group : List (Shown × List Capture)) (front : List Shown), 1 ≤ group.length ∧
      (∀ member ∈ group, P member.1 member.2) ∧ nodes = front ++ rest ∧
        (group.map Prod.fst).Sublist front ∧ own = group.flatMap Prod.snd := by
  induction nodes generalizing own with
  | nil => cases h
  | cons s nodes ih =>
    rw [ownStops] at h
    split at h
    · rename_i first hfirst
      have hs := hone.sound hfirst
      rcases List.mem_cons.mp h with heq | h
      · obtain ⟨rfl, rfl⟩ := Prod.mk.inj heq
        exact ⟨[(s, own)], [s], Nat.le_refl 1, by simpa using hs, rfl, List.Sublist.refl _, by simp⟩
      · obtain ⟨⟨inner, left⟩, hinner, heq⟩ := List.mem_map.mp h
        obtain ⟨rfl, rfl⟩ := Prod.mk.inj heq
        obtain ⟨group, front, -, hgroup, rfl, hsub, rfl⟩ := ih hinner
        refine ⟨(s, first) :: group, s :: front, by simp, ?_, rfl, hsub.cons_cons s, by simp⟩
        exact List.forall_mem_cons.mpr ⟨hs, hgroup⟩
    · obtain ⟨group, front, hsize, hgroup, rfl, hsub, rfl⟩ := ih h
      exact ⟨group, s :: front, hsize, hgroup, rfl, hsub.cons s, rfl⟩

/-- A repetition stops no later than at the first child that `P` holds at. -/
theorem exists_mem_ownStops (hone : Realizes one P) (front back : List Shown) {s : Shown}
    {own : List Capture} (hs : P s own) :
    ∃ out rest, (out, rest) ∈ ownStops one (front ++ s :: back) ∧ back.Sublist rest := by
  induction front with
  | nil =>
    obtain ⟨out, hout⟩ := Option.isSome_iff_exists.mp (hone.complete hs)
    refine ⟨out, back, ?_, List.Sublist.refl _⟩
    rw [List.nil_append, ownStops, hout]
    exact List.mem_cons_self ..
  | cons c front ih =>
    rw [List.cons_append, ownStops]
    split
    · rename_i first hfirst
      refine ⟨first, front ++ s :: back, List.mem_cons_self .., ?_⟩
      exact (List.sublist_cons_self ..).trans (List.sublist_append_right ..)
    · exact ih

/-- What comes from the last stop that leads on is a group and what the others make of the rest. -/
theorem grouped_of_ownFrom? (hone : Realizes one P) (hothers : Realizes others Q)
    {nodes : List Shown} {more : List Capture}
    (h : ownFrom? others (ownStops one nodes).reverse = some more) :
    Grouped P Q .oneOrMore nodes more := by
  obtain ⟨⟨own, rest⟩, hmem, hrest⟩ := List.exists_of_findSome?_eq_some h
  obtain ⟨group, front, hsize, hgroup, rfl, hsub, rfl⟩ :=
    exists_group_of_mem_ownStops hone (List.mem_reverse.mp hmem)
  obtain ⟨inner, hinner, rfl⟩ := Option.map_eq_some_iff.mp hrest
  exact ⟨group, front, rest, inner, hsize, hgroup, rfl, hsub, hothers.sound hinner, rfl⟩

/-- **Greedy repetition misses nothing.** It stops behind the first child that it can take, among
other places, and there is no better place for what comes after it. -/
theorem isSome_ownFrom? (hone : Realizes one P) (hothers : Realizes others Q)
    (hgrows : GrowsWithNodes Q) {nodes : List Shown} {more : List Capture}
    (h : Grouped P Q .oneOrMore nodes more) :
    (ownFrom? others (ownStops one nodes).reverse).isSome := by
  obtain ⟨front, s, back, own, inner, rfl, hs, hback⟩ :=
    h.exists_first (Nat.not_succ_le_zero 0) hgrows
  obtain ⟨out, rest, hmem, hsub⟩ := exists_mem_ownStops hone front back hs
  rw [ownFrom?, List.findSome?_isSome_iff]
  refine ⟨(out, rest), List.mem_reverse.mpr hmem, ?_⟩
  rw [Option.isSome_map]
  exact hothers.complete (hgrows _ _ _ hback hsub)

/-- Repeating something finds out if there is a group of at least one child for it, with room for the
others behind it, or if the others find room without it where they may. -/
theorem realizes_repeatedThen (hone : Realizes one P) (hothers : Realizes others Q)
    (hgrows : GrowsWithNodes Q) {least : Nat} (hleast : least ≤ 1) :
    Realizes (repeatedThen one others least) fun nodes more =>
      Grouped P Q .oneOrMore nodes more ∨ least = 0 ∧ Q nodes more := by
  refine .of_run _ (run_repeatedThen hone hothers hleast) (fun {nodes more} hmore => ?_)
    fun {nodes more} hholds => ?_
  · rcases Option.or_eq_some_iff.mp hmore with hmore | ⟨-, hmore⟩
    · exact .inl (grouped_of_ownFrom? hone hothers hmore)
    · split at hmore
      · rename_i hzero
        exact .inr ⟨hzero, hothers.sound hmore⟩
      · cases hmore
  · rw [ownOfRepeated?, Option.isSome_or, Bool.or_eq_true]
    rcases hholds with hgroup | ⟨hzero, hrest⟩
    · exact .inl (isSome_ownFrom? hone hothers hgrows hgroup)
    · rw [if_pos hzero]
      exact .inr (hothers.complete hrest)

/-- Trying a pattern for children as often as its quantifier says finds out if there is a group for
it, with room for the others behind it. -/
theorem realizes_quantifiedThen (hone : Realizes one P) (hothers : Realizes others Q)
    (hgrows : GrowsWithNodes Q) (quantifier : Quantifier) :
    Realizes (quantifiedThen one others quantifier) (Grouped P Q quantifier) := by
  cases quantifier with
  | one => exact realizes_oneThen hone hothers hgrows
  | oneOrMore =>
    refine (realizes_repeatedThen hone hothers hgrows (Nat.le_refl 1)).congr fun nodes more => ?_
    exact or_iff_left fun h => Nat.one_ne_zero h.1
  | optional =>
    refine ((realizes_oneThen hone hothers hgrows).or hothers).congr fun nodes more => ?_
    refine (grouped_iff_or (fun size => ?_) hgrows).symm
    simp only [Quantifier.Allows]
    omega
  | zeroOrMore =>
    refine (realizes_repeatedThen hone hothers hgrows (Nat.zero_le 1)).congr fun nodes more => ?_
    rw [eq_self_iff_true, true_and]
    refine (grouped_iff_or (fun size => ?_) hgrows).symm
    simp only [Quantifier.Allows, true_iff]
    omega

end Groups

/-! ### Patterns -/

variable {t : ParseTable}

/-- Whether there are groups for some patterns among some nodes, and what they bind. -/
def InGroups (t : ParseTable) (children : List ChildPattern) (nodes : List Shown)
    (bound : List Capture) : Prop :=
  ∃ groups : List (List (Shown × List Capture)), (groups.flatten.map Prod.fst).Sublist nodes ∧
    EachBinds t children groups ∧ bound = groups.flatten.flatMap Prod.snd

/-- Groups stand in order among the nodes, so more nodes do no harm. This is why taking as many as
possible is enough. -/
theorem growsWithNodes_inGroups (children : List ChildPattern) :
    GrowsWithNodes (InGroups t children) := by
  rintro _ _ _ ⟨groups, hsub, h⟩ hmore
  exact ⟨groups, hsub.trans hmore, h⟩

theorem inGroups_nil_iff {nodes : List Shown} {bound : List Capture} :
    InGroups t [] nodes bound ↔ bound = [] := by
  constructor
  · rintro ⟨groups, -, hgroups, rfl⟩
    rw [EachBinds] at hgroups
    rw [hgroups]
    rfl
  · rintro rfl
    exact ⟨[], List.nil_sublist _, rfl, rfl⟩

/-- The groups of a list are the group of its first pattern, and behind it the groups of the
rest. -/
theorem inGroups_cons_iff {c : ChildPattern} {rest : List ChildPattern} {nodes : List Shown}
    {bound : List Capture} : InGroups t (c :: rest) nodes bound ↔
      Grouped (c.Binds t) (InGroups t rest) c.quantifier nodes bound := by
  constructor
  · rintro ⟨groups, hsub, hgroups, rfl⟩
    rw [EachBinds] at hgroups
    obtain ⟨group, others, rfl, hsize, hgroup, hothers⟩ := hgroups
    rw [List.flatten_cons, List.map_append, List.append_sublist_iff] at hsub
    obtain ⟨front, back, rfl, hfront, hback⟩ := hsub
    exact ⟨group, front, back, _, hsize, hgroup, rfl, hfront, ⟨others, hback, hothers, rfl⟩,
      by rw [List.flatten_cons, List.flatMap_append]⟩
  · rintro ⟨group, front, back, more, hsize, hgroup, rfl, hfront, ⟨others, hback, hothers, rfl⟩, rfl⟩
    refine ⟨group :: others, ?_, ⟨group, others, rfl, hsize, hgroup, hothers⟩, ?_⟩
    · rw [List.flatten_cons, List.map_append]
      exact hfront.append hback
    · rw [List.flatten_cons, List.flatMap_append]

/-- The test of a node itself asks for its kind and for the fields that it must not have. -/
theorem isNodeOf_iff (symbol : Option Symbol) (negated : List FieldId) (s : Shown) :
    isNodeOf t symbol negated s = true ↔
      s.node.isNamed t = true ∧ (∀ kind, symbol = some kind → s.node.symbol = kind) ∧
        ∀ field ∈ negated, ∀ child ∈ s.children, child.node.field ≠ some field := by
  simp [isNodeOf, Option.all_eq_true, and_assoc]

mutual

/-- Trying a pattern finds out whether it holds, by recursion on the pattern. -/
theorem realizes_pattern (t : ParseTable) : ∀ p : Pattern, Realizes (p.tryAt t) (p.Binds t)
  | .mk form captures => (realizes_form t form).prepend fun s => captures.map (⟨·, s.node⟩)

/-- The part of `realizes_pattern` about forms. -/
theorem realizes_form (t : ParseTable) : ∀ form : PatternForm, Realizes (form.tryAt t) (form.Binds t)
  | .node symbol children negated => by
    have hchildren := (realizes_children t children).comap Shown.children
    refine (hchildren.guard (isNodeOf_iff symbol negated)).congr fun s more => ?_
    rw [PatternForm.Binds, InGroups]
    simp only [and_assoc]
  | .wildcard => by
    refine (Realizes.test fun s : Shown => (iff_true_intro rfl : true = true ↔ True)).congr
      fun s more => ?_
    rw [PatternForm.Binds, true_and]
  | .anonymous symbol => by
    have htest (s : Shown) : (decide (s.node.symbol = symbol) && !s.node.isNamed t) = true ↔
        s.node.symbol = symbol ∧ s.node.isNamed t = false := by simp
    refine (Realizes.test htest).congr fun s more => ?_
    rw [PatternForm.Binds, and_assoc]
  | .choice alternatives => realizes_first t alternatives

/-- The part of `realizes_pattern` about alternatives, of which the first that holds is taken. -/
theorem realizes_first (t : ParseTable) :
    ∀ alternatives : List Pattern, Realizes (tryFirst t alternatives) (SomeBinds t alternatives)
  | [] => ⟨fun _ _ => rfl, nofun, nofun⟩
  | p :: rest => (realizes_pattern t p).or (realizes_first t rest)

/-- The part of `realizes_pattern` about one pattern for children: the field is tested before the
pattern. -/
theorem realizes_child (t : ParseTable) : ∀ c : ChildPattern, Realizes (c.tryAt t) (c.Binds t)
  | .mk field p quantifier => by
    refine (realizes_pattern t p).guard fun s => ?_
    simp [Option.all_eq_true]

/-- The part of `realizes_pattern` about the patterns for children, group after group. -/
theorem realizes_children (t : ParseTable) : ∀ children : List ChildPattern,
    Realizes (tryChildren t children) (InGroups t children)
  | [] => by
    have htest (nodes : List Shown) : true = true ↔ True := iff_true_intro rfl
    refine (Realizes.test htest).congr fun nodes more => ?_
    rw [inGroups_nil_iff, true_and]
  | c :: rest => by
    have h := realizes_quantifiedThen (realizes_child t c) (realizes_children t rest)
      (growsWithNodes_inGroups rest) c.quantifier
    exact h.congr fun _ _ => inGroups_cons_iff.symm

end

/-- **Matching children is complete.** A pattern matches at a node exactly if it holds there: the
kinds agree and no negated field is filled, and among the children stand groups of the sizes that
the quantifiers allow, in order, at whose members the patterns for children hold. Where it does not
match, what was bound before is left as it was; where it matches, what it binds in one such way is
put behind it. -/
theorem Pattern.tryAt_complete (t : ParseTable) (p : Pattern) (s : Shown) (bound : List Capture) :
    (((p.tryAt t s).run bound).1 = true ↔ ∃ more, p.Binds t s more) ∧
    (((p.tryAt t s).run bound).1 = false → ((p.tryAt t s).run bound).2 = bound) ∧
    (((p.tryAt t s).run bound).1 = true →
      ∃ more, ((p.tryAt t s).run bound).2 = bound ++ more ∧ p.Binds t s more) := by
  have h := realizes_pattern t p
  rw [h.run_eq s bound]
  cases hown : own? (p.tryAt t) s with
  | none =>
    refine ⟨⟨nofun, ?_⟩, fun _ => rfl, nofun⟩
    rintro ⟨more, hmore⟩
    have hsome := h.complete hmore
    rw [hown] at hsome
    cases hsome
  | some own =>
    have hholds := h.sound hown
    exact ⟨iff_of_true rfl ⟨own, hholds⟩, nofun, fun _ => ⟨own, rfl, hholds⟩⟩

end LRWorkbench.Query
