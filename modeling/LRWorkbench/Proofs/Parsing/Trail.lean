import LRWorkbench.Parsing.Moves
import LRWorkbench.Proofs.Tree.Lengths

/-!
# Looking up one place after another

The trail that a lookup leaves behind leads from the root to a byte, and the next lookup starts from what
is left of it. This does not show in the answers: a trail that is gone back up, as far as it no longer
leads to a place, and followed down again is the way from the root to the place (`Reuse.IsTrail.goDown_backUp`).

**Main statement.** `Reuse.lookUp_trailAfter`: whatever was looked up before, the answer consists of the
parts of the old tree below the root that have bytes and start at the place, the outermost first. So a move
along the old tree is a move (`Parser.stepAlong_eq`), and it does not matter for the tree that the parser
remembers where it looked last.
-/

namespace LRWorkbench.Parsing

open Subtree

namespace Reuse

/-! ### Candidates are parts of the old tree -/

mutual

/-- What holds a byte is a part below the root, at its place. -/
theorem exists_part_of_mem_holding {position : Nat} (start : Extent) (root : Subtree)
    {entry : Subtree × Nat} (h : entry ∈ holding position start.bytes root) :
    ∃ place, (entry.1, place) ∈ partsOf start root.children ∧ place.bytes = entry.2 := by
  cases root with
  | leaf i x =>
    rw [holding] at h
    cases h
  | node i p children =>
    rw [holding] at h
    exact exists_part_of_mem_holdingAmong start children h

theorem exists_part_of_mem_holdingAmong {position : Nat} (start : Extent) (ts : List Subtree)
    {entry : Subtree × Nat} (h : entry ∈ holdingAmong position start.bytes ts) :
    ∃ place, (entry.1, place) ∈ partsOf start ts ∧ place.bytes = entry.2 := by
  cases ts with
  | nil =>
    rw [holdingAmong] at h
    cases h
  | cons t ts =>
    rw [holdingAmong] at h
    split at h
    · cases h
    split at h
    · rcases List.mem_cons.mp h with rfl | h
      · exact ⟨start, List.mem_append_left _ (mem_parts_self ..), rfl⟩
      · obtain ⟨place, hplace, hbytes⟩ := exists_part_of_mem_holding start t h
        exact ⟨place, List.mem_append_left _ (mem_parts_of_mem_children hplace), hbytes⟩
    · have hstop : start.bytes + t.length = (start + t.size).bytes := rfl
      rw [hstop] at h
      obtain ⟨place, hplace, hbytes⟩ := exists_part_of_mem_holdingAmong (start + t.size) ts h
      exact ⟨place, List.mem_append_right _ hplace, hbytes⟩

end

/-- A candidate is a part of the old tree below the root that starts at the place. -/
theorem exists_part_of_mem_candidates {r : Reuse} {position : Nat} {t : Subtree}
    (h : t ∈ r.candidates position) :
    ∃ place, (t, place) ∈ partsOf Extent.zero r.root.children ∧ place.bytes = position := by
  rw [candidates] at h
  split at h
  · obtain ⟨entry, hentry, rfl⟩ := List.mem_map.mp h
    obtain ⟨hmem, hstart⟩ := List.mem_filter.mp hentry
    obtain ⟨place, hplace, hbytes⟩ := exists_part_of_mem_holding Extent.zero r.root hmem
    exact ⟨place, hplace, hbytes.trans (of_decide_eq_true hstart)⟩
  · cases h

variable {r : Reuse} {position place q start : Nat} {t u : Subtree} {trail : Trail}

/-! ### The way down to a byte -/

/-- The first of several subtrees that holds a byte, found again for any other byte that it holds. -/
theorem holdingAmong_eq_cons {ts : List Subtree} {below : List (Subtree × Nat)}
    (h : holdingAmong q start ts = (t, place) :: below) :
    start ≤ place ∧ t ∈ ts ∧ below = holding q place t ∧
      ∀ position, holdsAt position (t, place) = true →
        holdingAmong position start ts = (t, place) :: holding position place t := by
  induction ts generalizing start with
  | nil => rw [holdingAmong] at h; cases h
  | cons first ts ih =>
    rw [holdingAmong] at h
    split at h
    · cases h
    split at h
    · cases h
      refine ⟨Nat.le_refl _, List.mem_cons_self .., rfl, fun position hholds => ?_⟩
      simp only [holdsAt, Bool.and_eq_true, decide_eq_true_eq] at hholds
      rw [holdingAmong, if_neg (Nat.not_lt.mpr hholds.1), if_pos hholds.2]
    · obtain ⟨hle, hmem, hbelow, hfound⟩ := ih h
      refine ⟨by omega, List.mem_cons_of_mem _ hmem, hbelow, fun position hholds => ?_⟩
      have hagain := hfound position hholds
      simp only [holdsAt, Bool.and_eq_true, decide_eq_true_eq] at hholds
      rw [holdingAmong, if_neg (by omega), if_neg (by omega), hagain]

/-- What is on the way down to a byte stands inside the subtree that the way starts from. -/
theorem within_of_mem_holding (h : t.AddsUp) {entry : Subtree × Nat}
    (hentry : entry ∈ holding q start t) :
    start ≤ entry.2 ∧ entry.2 + entry.1.length ≤ start + t.length := by
  obtain ⟨place, hpart, hplace⟩ := exists_part_of_mem_holding ⟨start, Point.zero⟩ t hentry
  rw [← hplace]
  exact h.within (mem_parts_of_mem_children hpart)

/-- The ways down to two bytes are the same as far as what is on the one holds the byte of the other. -/
theorem way_eq (h : t.AddsUp) {above below : List (Subtree × Nat)}
    (hway : (t, start) :: holding q start t = above ++ (u, place) :: below)
    (hholds : holdsAt position (u, place) = true) :
    (t, start) :: holding position start t = above ++ (u, place) :: holding position place u := by
  induction above generalizing t start with
  | nil =>
    obtain ⟨rfl, rfl⟩ := Prod.mk.inj (List.cons.inj hway).1
    rfl
  | cons entry above ih =>
    rw [List.cons_append, List.cons.injEq] at hway ⊢
    obtain ⟨rfl, hway⟩ := hway
    refine ⟨rfl, ?_⟩
    cases t with
    | leaf i x =>
      rw [holding] at hway
      exact absurd hway.symm (by simp)
    | node i p children =>
      rw [holding] at hway ⊢
      obtain ⟨⟨c, stop⟩, rest, hfirst⟩ : ∃ entry rest,
          holdingAmong q start children = entry :: rest := by
        rw [hway]
        cases above with
        | nil => exact ⟨_, _, rfl⟩
        | cons entry above => exact ⟨_, _, rfl⟩
      obtain ⟨-, hmem, rfl, hfound⟩ := holdingAmong_eq_cons hfirst
      have hc : c.AddsUp := allAddUp_iff.mp h.2 c hmem
      rw [hfirst] at hway
      -- the byte is in the same child as what holds it
      have hinside : holdsAt position (c, stop) = true := by
        have hentry : (u, place) ∈ (c, stop) :: holding q stop c := by
          rw [hway]
          exact List.mem_append_right _ (List.mem_cons_self ..)
        simp only [holdsAt, Bool.and_eq_true, decide_eq_true_eq] at hholds ⊢
        rcases List.mem_cons.mp hentry with heq | hentry
        · cases heq
          exact hholds
        · have hwithin := within_of_mem_holding hc hentry
          dsimp only at hwithin
          omega
      rw [hfound position hinside]
      exact ih hc hway

/-! ### Trails -/

/-- The trail from the root to a byte. -/
def trailTo (r : Reuse) (q : Nat) : Trail := (holding q 0 r.root).reverse ++ [(r.root, 0)]

/-- Whether a trail is the beginning of the way to some byte. -/
def IsTrail (r : Reuse) (trail : Trail) : Prop := ∃ q, trail <:+ r.trailTo q

theorem isTrail_nil (r : Reuse) : r.IsTrail [] := ⟨0, List.nil_suffix⟩

/-- Going back up and down again leads along the way from the root. -/
theorem IsTrail.goDown_backUp (hr : r.root.AddsUp) (htrail : r.IsTrail trail) (position : Nat) :
    goDown position (r.backUp position trail) =
      if position < r.root.length then r.trailTo position else [] := by
  obtain ⟨q, hq⟩ := htrail
  have hkept := (List.dropWhile_suffix fun entry => !holdsAt position entry).trans hq
  rw [backUp]
  split
  case h_1 hnone => split <;> rfl
  case h_2 entry above hsome =>
    obtain ⟨u, place⟩ := entry
    rw [hsome] at hkept
    obtain ⟨front, hfront⟩ := hkept
    have hholds : holdsAt position (u, place) = true := by
      have hhead := List.head?_dropWhile_not (fun entry => !holdsAt position entry) trail
      rw [hsome] at hhead
      simpa using hhead
    -- read from the root, the trail is a way down
    have hway : (r.root, 0) :: holding q 0 r.root = above.reverse ++ (u, place) :: front.reverse := by
      have hreverse := congrArg List.reverse hfront
      simpa [trailTo] using hreverse.symm
    have hagain := way_eq hr hway hholds
    have hinside : position < r.root.length := by
      have hentry : (u, place) ∈ (r.root, 0) :: holding q 0 r.root := by
        rw [hway]
        exact List.mem_append_right _ (List.mem_cons_self ..)
      simp only [holdsAt, Bool.and_eq_true, decide_eq_true_eq] at hholds
      rcases List.mem_cons.mp hentry with heq | hentry
      · cases heq
        omega
      · have hwithin := within_of_mem_holding hr hentry
        dsimp only at hwithin
        omega
    rw [if_pos hinside, goDown, trailTo]
    have hreverse := congrArg List.reverse hagain
    simpa using hreverse.symm

/-! ### What is looked up -/

mutual

/-- On the way down to a byte, what starts there are the parts that do. -/
theorem filter_holding {t : Subtree} (h : t.AddsUp) (start : Extent) :
    ((holding position start.bytes t).filter fun entry => entry.2 = position) =
      (startingAt position (partsOf start t.children)).map fun part => (part.1, position) := by
  cases t with
  | leaf i x => rw [holding]; rfl
  | node i p children =>
    rw [holding]
    exact filter_holdingAmong h.2 start

theorem filter_holdingAmong {ts : List Subtree} (h : AllAddUp ts) (start : Extent) :
    ((holdingAmong position start.bytes ts).filter fun entry => entry.2 = position) =
      (startingAt position (partsOf start ts)).map fun part => (part.1, position) := by
  cases ts with
  | nil => rw [holdingAmong]; rfl
  | cons t ts =>
    rw [holdingAmong, h.startingAt_cons]
    split
    case isTrue => rfl
    case isFalse =>
    split
    case isTrue hinside =>
      have hbelow := filter_holding h.1 start
      rw [startingAt_parts hinside, List.map_append, ← hbelow, List.filter_cons]
      by_cases hstart : start.bytes = position
      · simp [hstart]
      · simp [hstart]
    case isFalse => exact filter_holdingAmong h.2 (start + t.size)

end

/-- The parts of the old tree below the root that have bytes and start at a place, the outermost first. -/
def partsAt (r : Reuse) (position : Nat) : List (Subtree × Extent) :=
  startingAt position (partsOf Extent.zero r.root.children)

theorem partsAt_of_le (hr : r.root.AddsUp) (hle : r.root.length ≤ position) :
    r.partsAt position = [] := by
  refine startingAt_eq_nil (fun part hpart => hr.within (mem_parts_of_mem_children hpart)) (.inr ?_)
  rwa [show Extent.zero.bytes = 0 from rfl, Nat.zero_add]

/-- Looking up from the root. -/
theorem candidates_eq (hr : r.root.AddsUp) (position : Nat) :
    r.candidates position = (r.partsAt position).map (·.1) := by
  rw [candidates]
  split
  case isTrue =>
    rw [show (0 : Nat) = Extent.zero.bytes from rfl, filter_holding hr, List.map_map]
    rfl
  case isFalse hoff =>
    rw [partsAt_of_le hr (Nat.not_lt.mp hoff)]
    rfl

/-- Looking up along a trail, which leaves a trail. -/
theorem IsTrail.lookUp (hr : r.root.AddsUp) (htrail : r.IsTrail trail) (position : Nat) :
    (r.lookUp trail position).1 = (r.partsAt position).map (fun part => (part.1, position)) ∧
      r.IsTrail (r.lookUp trail position).2 := by
  rw [Reuse.lookUp, htrail.goDown_backUp hr]
  dsimp only
  split
  case isTrue =>
    refine ⟨?_, position, List.suffix_refl _⟩
    rw [trailTo, List.dropLast_concat, List.reverse_reverse, show (0 : Nat) = Extent.zero.bytes from rfl,
      filter_holding hr]
    rfl
  case isFalse hoff =>
    rw [partsAt_of_le hr (Nat.not_lt.mp hoff)]
    exact ⟨rfl, r.isTrail_nil⟩

/-- The trail that is left after some places were looked up, one after the other. -/
def trailAfter (r : Reuse) (earlier : List Nat) : Trail :=
  earlier.foldl (fun trail position => (r.lookUp trail position).2) []

theorem isTrail_trailAfter (hr : r.root.AddsUp) (earlier : List Nat) :
    r.IsTrail (r.trailAfter earlier) := by
  rw [trailAfter]
  suffices ∀ trail, r.IsTrail trail →
      r.IsTrail (earlier.foldl (fun trail position => (r.lookUp trail position).2) trail) from
    this [] r.isTrail_nil
  induction earlier with
  | nil => exact fun trail htrail => htrail
  | cons position earlier ih => exact fun trail htrail => ih _ (htrail.lookUp hr position).2

/-- **Lookups do not depend on what was looked up before.** After whatever other lookups, in whatever order,
the answer for a place consists of the parts of the old tree below the root that have bytes and start at
that place, each of them once and with the place. They are inside one another, and the outer ones come
first. -/
theorem lookUp_trailAfter (hr : r.root.AddsUp) (earlier : List Nat) (position : Nat) :
    (r.lookUp (r.trailAfter earlier) position).1 =
        ((partsOf Extent.zero r.root.children).filter fun part =>
          part.2.bytes = position && 0 < part.1.length).map (fun part => (part.1, position)) ∧
      ((partsOf Extent.zero r.root.children).filter fun part =>
          part.2.bytes = position && 0 < part.1.length).Pairwise
        fun outer inner => inner ∈ partsOf outer.2 outer.1.children :=
  ⟨((isTrail_trailAfter hr earlier).lookUp hr position).1, hr.nested Extent.zero⟩

/-- A token of some bytes. -/
def twig (symbol length : Nat) : Subtree :=
  .leaf { (default : SubtreeInfo) with symbol := ⟨symbol⟩, size := ⟨length, ⟨0, length⟩⟩ } false

/-- A node over some pieces. -/
def branch (symbol : Nat) (pieces : List Subtree) : Subtree :=
  build 0 ⟨symbol⟩ (some 0) pieces 0 0 false []

theorem addsUp_branch {symbol : Nat} {pieces : List Subtree} (h : AllAddUp pieces) :
    (branch symbol pieces).AddsUp :=
  h.build ..

/-- A tree of five bytes that begins with a piece of none. -/
def hedge : Reuse :=
  ⟨branch 1 [branch 2 [], branch 3 [twig 4 2, branch 2 []], twig 5 3], ⟨[]⟩⟩

theorem lookUp_trailAfter_hedge : hedge.root.AddsUp ∧ hedge.trailAfter [4, 9, 1] ≠ [] ∧
    (hedge.lookUp (hedge.trailAfter [4, 9, 1]) 0).1 =
      [(branch 3 [twig 4 2, branch 2 []], 0), (twig 4 2, 0)] := by
  have hempty : (branch 2 []).AddsUp := addsUp_branch trivial
  have hmiddle : (branch 3 [twig 4 2, branch 2 []]).AddsUp := addsUp_branch ⟨trivial, hempty, trivial⟩
  have hadds : hedge.root.AddsUp := addsUp_branch ⟨hempty, hmiddle, trivial, trivial⟩
  exact ⟨hadds, nofun, (lookUp_trailAfter hadds [4, 9, 1] 0).1⟩

end Reuse

/-! ### Moves along the old tree -/

/-- Whether a trail is one in the old tree of a setting, if there is one. -/
def Setting.HasTrail (s : Setting) (trail : Trail) : Prop := ∀ r, s.reuse = some r → r.IsTrail trail

/-- Whether lengths add up in the old tree of a setting, if there is one. -/
def Setting.AddsUp (s : Setting) : Prop := ∀ r, s.reuse = some r → r.root.AddsUp

namespace Parser

variable {s : Setting} {trail : Trail}

/-- The search along a trail finds what the search from the root finds. -/
theorem toReuseAlong?_eq (hs : s.AddsUp) (htrail : s.HasTrail trail) (p : Parser) (token : Token) :
    (toReuseAlong? s trail p token).1 = toReuse? s p token ∧
      s.HasTrail (toReuseAlong? s trail p token).2 := by
  rw [toReuseAlong?, toReuse?]
  split
  case isTrue => exact ⟨rfl, htrail⟩
  case isFalse =>
  cases hreuse : s.reuse with
  | none => exact ⟨rfl, htrail⟩
  | some r =>
    dsimp only
    cases r.edits.toOld? token.start with
    | none => exact ⟨rfl, htrail⟩
    | some oldStart =>
      obtain ⟨hfound, hleft⟩ := (htrail r hreuse).lookUp (hs r hreuse) oldStart
      dsimp only
      rw [hfound, Reuse.candidates_eq (hs r hreuse), List.findSome?_map, List.findSome?_map]
      refine ⟨rfl, fun r' hr' => ?_⟩
      obtain rfl := Option.some.inj (hreuse.symm.trans hr')
      exact hleft

/-- A move along a trail is a move. -/
theorem stepAlong_eq (hs : s.AddsUp) (htrail : s.HasTrail trail) (p : Parser) (token : Token) :
    (stepAlong s trail p token).1 = step s p token ∧ s.HasTrail (stepAlong s trail p token).2 := by
  obtain ⟨hfound, hleft⟩ := toReuseAlong?_eq hs htrail p token
  rw [stepAlong]
  split
  case h_1 next hshift =>
    rw [step, hshift]
    dsimp only
    rw [hfound]
    exact ⟨rfl, hleft⟩
  case h_2 => exact ⟨rfl, htrail⟩

end Parser

end LRWorkbench.Parsing
