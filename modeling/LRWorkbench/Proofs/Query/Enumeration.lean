import LRWorkbench.Query.Matching
import Mathlib.Data.List.Basic
import Mathlib.Data.List.ProdSigma
import Mathlib.Logic.Function.Iterate

/-!
# The sequence of all matches

The sequence of matches is lazy: it holds the nodes that are still to be looked at and the patterns that
are still to be tried at the latest one. What is still to come can be said without trying anything
(`Matches.remaining`), and a step takes nothing away from it but the match that it finds
(`Matches.remaining_of_skip`, `Matches.remaining_of_found`).

**Main statement.** `matches_inPreorder`: the sequence is the product of the nodes in pre-order and the
patterns in the order in which they are written, less the pairs that do not match. Whatever was taken
from it, the rest of the product follows.
-/

namespace LRWorkbench

namespace Shown

mutual

/-- A visible tree and all those below it, parents before children. -/
def inPreorder : Shown → List Shown
  | mk node children => mk node children :: allInPreorder children

/-- Several visible trees and all those below them. -/
def allInPreorder : List Shown → List Shown
  | [] => []
  | s :: rest => inPreorder s ++ allInPreorder rest

end

theorem inPreorder_eq (s : Shown) : s.inPreorder = s :: allInPreorder s.children := by
  cases s
  rw [inPreorder, children]

theorem allInPreorder_append (l l' : List Shown) :
    allInPreorder (l ++ l') = allInPreorder l ++ allInPreorder l' := by
  induction l with
  | nil => simp [allInPreorder]
  | cons s l ih => simp [allInPreorder, ih]

mutual

/-- On top of the trees are the nodes in pre-order. -/
theorem map_node_inPreorder : ∀ s : Shown, s.inPreorder.map node = s.preorder
  | mk n children => by simp [inPreorder, preorder, node, map_node_allInPreorder children]

theorem map_node_allInPreorder : ∀ l : List Shown, (allInPreorder l).map node = preorders l
  | [] => rfl
  | s :: rest => by
    simp [allInPreorder, preorders, map_node_inPreorder s, map_node_allInPreorder rest]

end

/-- Leaving out what is shown below the nodes changes nothing about their number. -/
theorem length_preorders (l : List Shown) : (preorders l).length = (allInPreorder l).length := by
  rw [← map_node_allInPreorder, List.length_map]

/-! ### No node comes up twice -/

/-- The paths of the nodes of some visible trees. -/
def paths (l : List Shown) : List (List Nat) := (allInPreorder l).map fun s => s.node.path

theorem paths_append (l l' : List Shown) : paths (l ++ l') = paths l ++ paths l' := by
  simp [paths, allInPreorder_append]

theorem paths_singleton (n : Node) (children : List Shown) :
    paths [mk n children] = n.path :: paths children := by
  simp [paths, allInPreorder, inPreorder, node]

/-- Whether paths lead below some place, or to it, and no two are the same. -/
structure AreBelow (path : List Nat) (ps : List (List Nat)) : Prop where
  below : ∀ p ∈ ps, path <+: p
  nodup : ps.Nodup

/-- Whether paths lead below the children of a place, from one of these on, and no two are the same. -/
structure AreBehind (path : List Nat) (place : Nat) (ps : List (List Nat)) : Prop where
  behind : ∀ p ∈ ps, ∃ k, place ≤ k ∧ path ++ [k] <+: p
  nodup : ps.Nodup

variable {path : List Nat} {place : Nat} {ps qs : List (List Nat)}

/-- What lies behind a place among the children of a node lies below the node. -/
theorem AreBehind.areBelow (h : AreBehind path place ps) : AreBelow path ps where
  below p hp := by
    obtain ⟨k, -, hk⟩ := h.behind p hp
    exact (List.prefix_append path [k]).trans hk
  nodup := h.nodup

/-- The place itself is above the children. -/
theorem AreBehind.cons (h : AreBehind path place ps) : AreBelow path (path :: ps) where
  below := List.forall_mem_cons.mpr ⟨List.prefix_refl path, h.areBelow.below⟩
  nodup := by
    refine List.nodup_cons.mpr ⟨fun hmem => ?_, h.nodup⟩
    obtain ⟨k, -, hk⟩ := h.behind path hmem
    have hle := hk.length_le
    rw [List.length_append, List.length_singleton] at hle
    omega

/-- What lies below one child and what lies behind it have no path in common, so together they are
behind what comes before the child. -/
theorem AreBelow.append (h : AreBelow (path ++ [place]) ps) (h' : AreBehind path (place + 1) qs) :
    AreBehind path place (ps ++ qs) where
  behind p hp := by
    rcases List.mem_append.mp hp with hp | hp
    · exact ⟨place, Nat.le_refl place, h.below p hp⟩
    · obtain ⟨k, hle, hk⟩ := h'.behind p hp
      exact ⟨k, by omega, hk⟩
  nodup := by
    refine List.nodup_append.mpr ⟨h.nodup, h'.nodup, ?_⟩
    rintro p hp q hq rfl
    obtain ⟨k, hle, hk⟩ := h'.behind p hq
    -- two beginnings of one path that are equally long
    have heq := List.prefix_of_prefix_length_le (h.below p hp) hk (by simp)
    have hplace : place = k := by simpa using heq.eq_of_length (by simp)
    omega

mutual

/-- The paths of the nodes of a subtree differ from each other and begin with the path of the
subtree. -/
theorem areBelow_ofSubtree (t : ParseTable) : ∀ (st : Subtree) (start : Extent)
    (field : Option FieldId) (path : List Nat), AreBelow path (paths (ofSubtree t start field path st))
  | .leaf i x, start, field, path => by
    rw [ofSubtree]
    split
    · rw [paths_singleton]
      exact (show AreBehind path 0 [] from ⟨nofun, List.nodup_nil⟩).cons
    · exact ⟨nofun, List.nodup_nil⟩
  | .node i p children, start, field, path => by
    rw [ofSubtree]
    split
    · rw [paths_singleton]
      exact (areBehind_ofChildren t children start none path 0 _).cons
    · exact (areBehind_ofChildren t children start field path 0 _).areBelow

/-- The paths of the nodes of some children begin with different places, so no path comes up
twice. -/
theorem areBehind_ofChildren (t : ParseTable) : ∀ (children : List Subtree) (start : Extent)
    (inherited : Option FieldId) (path : List Nat) (place : Nat) (fields : List (Option FieldId)),
    AreBehind path place (paths (ofChildren t start inherited path place fields children))
  | [], _, _, _, _, _ => ⟨nofun, List.nodup_nil⟩
  | child :: rest, start, inherited, path, place, fields => by
    rw [ofChildren, paths_append]
    exact (areBelow_ofSubtree t child start _ _).append
      (areBehind_ofChildren t rest _ inherited path (place + 1) _)

end

/-- No two nodes at and below a node of a tree are the same. -/
theorem nodup_paths (t : ParseTable) (n : Node) :
    ((n.shown t).inPreorder.map fun s => s.node.path).Nodup := by
  have h := (areBehind_ofChildren t n.subtree.children n.start none n.path 0
    (fieldsOf t n.subtree.production?)).cons
  simpa [Node.shown, inPreorder, paths, node] using h.nodup

end Shown

namespace Query

/-- The match of a pattern with a number at a node, if it matches there. -/
def matchAt? (t : ParseTable) (s : Shown) (numbered : Nat × Pattern) : Option Match :=
  (numbered.2.bind? t s []).map fun bound => ⟨numbered.1, bound⟩

namespace Matches

/-- The matches of all patterns at a node. -/
def allAt (q : Query) (t : ParseTable) (s : Shown) : List Match :=
  (numbered q).filterMap (matchAt? t s)

/-- What is still to come: the matches at the node that is looked at, and then those at the nodes that
have not been looked at. -/
def remaining (ms : Matches) : List Match :=
  (ms.current.elim [] fun (s, left) => left.filterMap (matchAt? ms.table s)) ++
    (Shown.allInPreorder ms.pending).flatMap (allAt ms.query ms.table)

/-- Whether two sequences are about the same query and began at the same node. -/
structure Follows (ms rest : Matches) : Prop where
  query : rest.query = ms.query
  table : rest.table = ms.table
  top : rest.top = ms.top

variable {ms ms' ms'' : Matches}

theorem Follows.refl (ms : Matches) : Follows ms ms := ⟨rfl, rfl, rfl⟩

theorem Follows.trans (h : Follows ms ms') (h' : Follows ms' ms'') : Follows ms ms'' :=
  ⟨h'.query.trans h.query, h'.table.trans h.table, h'.top.trans h.top⟩

/-- All sequences that follow one begin again at the same place. -/
theorem Follows.reset_eq (h : Follows ms ms') : ms'.reset = ms.reset := by
  rw [reset, reset, h.query, h.table, h.top]

/-! ### One step -/

/-- Whether a step does right: it takes nothing from what is still to come but the match that it finds,
gets on, and the end is only where nothing is to come. -/
def Step.Fits (ms : Matches) : Step → Prop
  | .done => ms.remaining = []
  | .skip rest => Follows ms rest ∧ rest.work < ms.work ∧ rest.remaining = ms.remaining
  | .found m rest => Follows ms rest ∧ rest.work < ms.work ∧ ms.remaining = m :: rest.remaining

variable {q : Query} {t : ParseTable} {top s : Shown} {pending : List Shown}
  {left : List (Nat × Pattern)}

theorem length_numbered (q : Query) : (numbered q).length = q.patterns.length := by
  simp [numbered]

/-- The next pattern is tried. -/
theorem step_of_pattern (index : Nat) (p : Pattern) :
    (Matches.mk q t top pending (some (s, (index, p) :: left))).step.Fits
      ⟨q, t, top, pending, some (s, (index, p) :: left)⟩ := by
  have hfollows : Follows ⟨q, t, top, pending, some (s, (index, p) :: left)⟩
      ⟨q, t, top, pending, some (s, left)⟩ := ⟨rfl, rfl, rfl⟩
  cases hbind : p.bind? t s [] with
  | none =>
    have hstep : (Matches.mk q t top pending (some (s, (index, p) :: left))).step =
        .skip ⟨q, t, top, pending, some (s, left)⟩ := by simp [step, hbind]
    rw [hstep]
    exact ⟨hfollows, by simp [work], by simp [remaining, matchAt?, hbind]⟩
  | some bound =>
    have hstep : (Matches.mk q t top pending (some (s, (index, p) :: left))).step =
        .found ⟨index, bound⟩ ⟨q, t, top, pending, some (s, left)⟩ := by simp [step, hbind]
    rw [hstep]
    exact ⟨hfollows, by simp [work], by simp [remaining, matchAt?, hbind]⟩

/-- The node that is looked at has no pattern left, if there is one, and the next node is taken. -/
theorem step_of_node {current : Option (Shown × List (Nat × Pattern))}
    (hnone : (current.elim [] fun (s, left) => left.filterMap (matchAt? t s)) = [])
    (hstep : (Matches.mk q t top pending current).step = match pending with
      | [] => .done
      | s :: rest => .skip ⟨q, t, top, s.children ++ rest, some (s, numbered q)⟩) :
    (Matches.mk q t top pending current).step.Fits ⟨q, t, top, pending, current⟩ := by
  rw [hstep]
  cases pending with
  | nil => simp [Step.Fits, remaining, hnone, Shown.allInPreorder]
  | cons s rest =>
    have hwork : (Matches.mk q t top (s.children ++ rest) (some (s, numbered q))).work <
        (Matches.mk q t top (s :: rest) current).work := by
      have hlength : (Shown.allInPreorder (s :: rest)).length =
          (Shown.allInPreorder (s.children ++ rest)).length + 1 := by
        simp [Shown.allInPreorder, Shown.inPreorder_eq, Shown.allInPreorder_append]
      simp only [work, Shown.length_preorders, hlength, Nat.add_mul, Option.map_some,
        Option.getD_some, length_numbered]
      omega
    refine ⟨⟨rfl, rfl, rfl⟩, hwork, ?_⟩
    simp [remaining, hnone, allAt, Shown.allInPreorder, Shown.inPreorder_eq,
      Shown.allInPreorder_append]

/-- A step takes one pair from the product: it is found if the pattern matches and skipped
otherwise. -/
theorem step_fits (ms : Matches) : ms.step.Fits ms := by
  obtain ⟨q, t, top, pending, _ | ⟨s, _ | ⟨⟨index, p⟩, left⟩⟩⟩ := ms
  case none => exact step_of_node rfl rfl
  case some.nil => exact step_of_node rfl rfl
  case some.cons => exact step_of_pattern index p

/-! ### Runs -/

/-- All that is still to come is found. -/
theorem listWithin_eq {fuel : Nat} (hfuel : ms.work < fuel) : listWithin fuel ms = ms.remaining := by
  induction fuel generalizing ms with
  | zero => exact absurd hfuel (Nat.not_lt_zero _)
  | succ fuel ih =>
    have hfits := step_fits ms
    rw [listWithin]
    cases hstep : ms.step with
    | done =>
      rw [hstep] at hfits
      exact hfits.symm
    | skip rest =>
      rw [hstep] at hfits
      obtain ⟨-, hlt, hremaining⟩ := hfits
      exact (ih (by omega)).trans hremaining
    | found m rest =>
      rw [hstep] at hfits
      obtain ⟨-, hlt, hremaining⟩ := hfits
      rw [hremaining, ← ih (by omega)]

/-- Taking all matches finds what remains of the product. -/
theorem toList_eq (ms : Matches) : ms.toList = ms.remaining := listWithin_eq (Nat.lt_succ_self _)

/-- The first match that is still to come is found, and the others are to come after it. -/
theorem nextWithin_spec {fuel : Nat} (hfuel : ms.work < fuel) :
    (nextWithin fuel ms).1 = ms.remaining.head? ∧
      (nextWithin fuel ms).2.remaining = ms.remaining.tail ∧ Follows ms (nextWithin fuel ms).2 := by
  induction fuel generalizing ms with
  | zero => exact absurd hfuel (Nat.not_lt_zero _)
  | succ fuel ih =>
    have hfits := step_fits ms
    rw [nextWithin]
    cases hstep : ms.step with
    | done =>
      rw [hstep] at hfits
      have hremaining : ms.remaining = [] := hfits
      exact ⟨by simp [hremaining], by simp [hremaining], .refl ms⟩
    | skip rest =>
      rw [hstep] at hfits
      obtain ⟨hfollows, hlt, hremaining⟩ := hfits
      obtain ⟨hfirst, hrest, hthen⟩ := @ih rest (by omega)
      rw [hremaining] at hfirst hrest
      exact ⟨hfirst, hrest, hfollows.trans hthen⟩
    | found m rest =>
      rw [hstep] at hfits
      obtain ⟨hfollows, hlt, hremaining⟩ := hfits
      exact ⟨by simp [hremaining], by simp [hremaining], hfollows⟩

/-- The next match is the first of what remains, and the rest remains behind it. -/
theorem next_spec (ms : Matches) : ms.next.1 = ms.remaining.head? ∧
    ms.next.2.remaining = ms.remaining.tail ∧ Follows ms ms.next.2 :=
  nextWithin_spec (Nat.lt_succ_self _)

/-- The sequence after a number of matches were taken from it, or after its end. -/
def after (n : Nat) (ms : Matches) : Matches := (fun ms => ms.next.2)^[n] ms

/-- After a number of matches, what remains is the product less so many matches. -/
theorem after_spec (n : Nat) (ms : Matches) :
    (ms.after n).remaining = ms.remaining.drop n ∧ Follows ms (ms.after n) := by
  induction n with
  | zero => exact ⟨rfl, .refl ms⟩
  | succ n ih =>
    obtain ⟨hremaining, hfollows⟩ := ih
    obtain ⟨-, hrest, hnext⟩ := next_spec (ms.after n)
    rw [after, Function.iterate_succ_apply']
    refine ⟨?_, hfollows.trans hnext⟩
    rw [← List.tail_drop, ← hremaining]
    exact hrest

end Matches

/-- **The sequence of matches is the product of the nodes in pre-order and the patterns in their order**,
less the pairs that do not match. No node comes up twice. However many matches were taken from the
sequence, the next ones are those behind them in the product, and none after the last; and from there it
can be begun again. -/
theorem matches_inPreorder (q : Query) (t : ParseTable) (top : Shown) :
    (matchesAt q t top).toList =
      (top.inPreorder ×ˢ Matches.numbered q).filterMap (fun (s, numbered) => matchAt? t s numbered) ∧
    (∀ n, ((matchesAt q t top).after n).next.1 = (matchesAt q t top).toList[n]? ∧
      ((matchesAt q t top).after n).toList = (matchesAt q t top).toList.drop n ∧
      ((matchesAt q t top).after n).reset = matchesAt q t top) ∧
    ∀ n : Node, ((n.shown t).inPreorder.map fun s => s.node.path).Nodup := by
  refine ⟨?_, fun n => ?_, Shown.nodup_paths t⟩
  · have hremaining : (matchesAt q t top).remaining = top.inPreorder.flatMap (Matches.allAt q t) := by
      simp [matchesAt, Matches.remaining, Shown.allInPreorder]
    rw [Matches.toList_eq, hremaining]
    induction top.inPreorder with
    | nil => rfl
    | cons s l ih =>
      rw [List.flatMap_cons, ih, List.product_cons, List.filterMap_append, List.filterMap_map]
      rfl
  · obtain ⟨hremaining, hfollows⟩ := (matchesAt q t top).after_spec n
    obtain ⟨hfirst, -, -⟩ := ((matchesAt q t top).after n).next_spec
    refine ⟨?_, ?_, hfollows.reset_eq⟩
    · rw [hfirst, hremaining, Matches.toList_eq, List.head?_drop]
    · rw [Matches.toList_eq, hremaining, Matches.toList_eq]

end Query

end LRWorkbench
