import LRWorkbench.Proofs.Tree.Spelling
import Mathlib.Data.List.Basic

/-!
# Parts of trees and their order

A part of a tree is known by its **path**, the places to take among the children from the root down. The
path says which subtree the part is (`Subtree.at?`) and, by the sizes of what comes before it on each
level, where it starts (`Subtree.startAt`). The order parents before children, first children first, is
the **lexicographic order of paths**, in which a path comes before all that go on from it
(`Subtree.ordered_allPlaced`).

The visible tree below a node has, in this order, the **visible ones among all parts** below the node,
however many hidden nodes lie in between (`Shown.IsOf.preorders_children`).
-/

namespace LRWorkbench

/-! ### Paths -/

namespace Subtree

/-- The subtree that a path leads to. -/
def at? (t : Subtree) : List Nat → Option Subtree
  | [] => some t
  | place :: path => t.children[place]?.bind (·.at? path)

/-- Where the subtree that a path leads to starts: on each level, behind the siblings before it. -/
def startAt (t : Subtree) (start : Extent) : List Nat → Extent
  | [] => start
  | place :: path =>
    match t.children[place]? with
    | some child => child.startAt (stopOf start (t.children.take place)) path
    | none => start

theorem at?_append (t : Subtree) (p q : List Nat) : t.at? (p ++ q) = (t.at? p).bind (·.at? q) := by
  induction p generalizing t with
  | nil => rfl
  | cons place p ih =>
    rw [List.cons_append, at?, at?]
    cases t.children[place]? with
    | none => rfl
    | some child => exact ih child

theorem startAt_append {t u : Subtree} {p : List Nat} (h : t.at? p = some u) (start : Extent)
    (q : List Nat) : t.startAt start (p ++ q) = u.startAt (t.startAt start p) q := by
  induction p generalizing t start with
  | nil =>
    obtain rfl := Option.some.inj h
    rfl
  | cons place p ih =>
    obtain ⟨child, hchild, hp⟩ := Option.bind_eq_some_iff.mp h
    simp only [List.cons_append, startAt, hchild]
    exact ih hp _

end Subtree

/-- A part of a tree at its place. -/
structure Placed where
  path : List Nat
  start : Extent
  subtree : Subtree

/-- A node without the field that it fills. -/
def Node.placed (n : Node) : Placed := ⟨n.path, n.start, n.subtree⟩

namespace Subtree

mutual

/-- All parts of a subtree at their places, a part before what is in it. -/
def allPlaced (start : Extent) (path : List Nat) : Subtree → List Placed
  | .leaf i x => [⟨path, start, .leaf i x⟩]
  | .node i p children => ⟨path, start, .node i p children⟩ :: allPlacedOf start path 0 children

/-- All parts of some children at their places, from a place among the children on. -/
def allPlacedOf (start : Extent) (path : List Nat) (place : Nat) : List Subtree → List Placed
  | [] => []
  | child :: rest =>
    allPlaced start (path ++ [place]) child ++ allPlacedOf (start + child.size) path (place + 1) rest

end

theorem allPlaced_eq (start : Extent) (path : List Nat) (t : Subtree) :
    allPlaced start path t = ⟨path, start, t⟩ :: allPlacedOf start path 0 t.children := by
  cases t <;> rfl

variable {x : Placed}

mutual

/-- The parts of a subtree are what paths lead to. -/
theorem mem_allPlaced (start : Extent) (path : List Nat) : ∀ t : Subtree,
    x ∈ allPlaced start path t ↔ ∃ down, x.path = path ++ down ∧ t.at? down = some x.subtree ∧
      x.start = t.startAt start down
  | .leaf i b => by
    rw [allPlaced_eq]
    constructor
    · intro hx
      obtain rfl := List.mem_singleton.mp hx
      exact ⟨[], (List.append_nil path).symm, rfl, rfl⟩
    · rintro ⟨_ | ⟨place, down⟩, hpath, hat, hstart⟩
      · obtain ⟨own, start', u⟩ := x
        obtain rfl := Option.some.inj hat
        obtain rfl : start' = start := hstart
        obtain rfl : own = path := hpath.trans (List.append_nil path)
        exact List.mem_cons_self ..
      · cases hat
  | .node i p children => by
    refine List.mem_cons.trans ((or_congr_right (mem_allPlacedOf start path 0 children)).trans ?_)
    constructor
    · rintro (rfl | ⟨k, down, child, hchild, hpath, hat, hstart⟩)
      · exact ⟨[], (List.append_nil path).symm, rfl, rfl⟩
      · refine ⟨k :: down, by rw [hpath, Nat.zero_add], ?_, ?_⟩
        · rw [at?, show (Subtree.node i p children).children[k]? = some child from hchild]
          exact hat
        · rw [startAt, show (Subtree.node i p children).children[k]? = some child from hchild]
          exact hstart
    · rintro ⟨_ | ⟨k, down⟩, hpath, hat, hstart⟩
      · obtain ⟨own, start', u⟩ := x
        obtain rfl := Option.some.inj hat
        obtain rfl : start' = start := hstart
        obtain rfl : own = path := hpath.trans (List.append_nil path)
        exact .inl rfl
      · obtain ⟨child, hchild, hat⟩ := Option.bind_eq_some_iff.mp hat
        rw [startAt, hchild] at hstart
        exact .inr ⟨k, down, child, hchild, by rw [hpath, Nat.zero_add], hat, hstart⟩

theorem mem_allPlacedOf (start : Extent) (path : List Nat) (place : Nat) : ∀ children : List Subtree,
    x ∈ allPlacedOf start path place children ↔ ∃ k down child, children[k]? = some child ∧
      x.path = path ++ (place + k) :: down ∧ child.at? down = some x.subtree ∧
      x.start = child.startAt (stopOf start (children.take k)) down
  | [] => by simp [allPlacedOf]
  | child :: rest => by
    rw [allPlacedOf, List.mem_append, mem_allPlaced start _ child,
      mem_allPlacedOf (start + child.size) path (place + 1) rest]
    constructor
    · rintro (⟨down, hpath, hat, hstart⟩ | ⟨k, down, other, hother, hpath, hat, hstart⟩)
      · exact ⟨0, down, child, rfl, by simpa using hpath, hat, hstart⟩
      · refine ⟨k + 1, down, other, hother, ?_, hat, hstart⟩
        rw [hpath, Nat.add_right_comm, Nat.add_assoc]
    · rintro ⟨_ | k, down, other, hother, hpath, hat, hstart⟩
      · obtain rfl := Option.some.inj hother
        exact .inl ⟨down, by simpa using hpath, hat, hstart⟩
      · refine .inr ⟨k, down, other, hother, ?_, hat, hstart⟩
        rw [hpath, Nat.add_right_comm, Nat.add_assoc]

end

/-! ### The order of paths -/

theorem path_lt_of_lt {place k : Nat} (h : place < k) (path down down' : List Nat) :
    path ++ place :: down < path ++ k :: down' := by
  induction path with
  | nil => exact List.cons_lt_cons_iff.mpr (.inl h)
  | cons i path ih => exact List.cons_lt_cons_iff.mpr (.inr ⟨rfl, ih⟩)

/-- A path comes before those that go on from it. -/
theorem path_lt_append_cons (path : List Nat) (k : Nat) (down : List Nat) :
    path < path ++ k :: down := by
  induction path with
  | nil => exact List.nil_lt_cons ..
  | cons i path ih => exact List.cons_lt_cons_iff.mpr (.inr ⟨rfl, ih⟩)

mutual

/-- Parts are listed in the order of their paths. -/
theorem ordered_allPlaced (start : Extent) (path : List Nat) :
    ∀ t : Subtree, (allPlaced start path t).Pairwise fun x y => x.path < y.path
  | .leaf i x => List.pairwise_singleton ..
  | .node i p children => by
    refine List.pairwise_cons.mpr ⟨fun y hy => ?_, ordered_allPlacedOf start path 0 children⟩
    obtain ⟨k, down, -, -, hpath, -⟩ := (mem_allPlacedOf start path 0 children).mp hy
    rw [hpath]
    exact path_lt_append_cons ..

theorem ordered_allPlacedOf (start : Extent) (path : List Nat) (place : Nat) :
    ∀ children : List Subtree,
      (allPlacedOf start path place children).Pairwise fun x y => x.path < y.path
  | [] => .nil
  | child :: rest => by
    refine List.pairwise_append.mpr ⟨ordered_allPlaced start _ child,
      ordered_allPlacedOf (start + child.size) path (place + 1) rest, fun x hx y hy => ?_⟩
    obtain ⟨down, hx, -⟩ := (mem_allPlaced start _ child).mp hx
    obtain ⟨k, down', -, -, hy, -⟩ := (mem_allPlacedOf _ path (place + 1) rest).mp hy
    rw [hx, hy, List.append_assoc, List.singleton_append]
    exact path_lt_of_lt (by omega) path down down'

end

end Subtree

/-! ### Nodes of a tree -/

/-- Whether a node is what its path leads to in a tree, and starts there. -/
structure SyntaxTree.Holds (t : SyntaxTree) (n : Node) : Prop where
  subtree : t.root.at? n.path = some n.subtree
  start : n.start = t.root.startAt Extent.zero n.path

theorem SyntaxTree.holds_rootNode (t : SyntaxTree) : t.Holds t.rootNode := ⟨rfl, rfl⟩

/-- What is below a node of a tree is what paths that go on from the node's lead to. -/
theorem SyntaxTree.Holds.mem_below {t : SyntaxTree} {n : Node} (h : t.Holds n) {x : Placed} :
    x ∈ Subtree.allPlacedOf n.start n.path 0 n.subtree.children ↔
      x.path ≠ n.path ∧ n.path <+: x.path ∧ t.root.at? x.path = some x.subtree ∧
        x.start = t.root.startAt Extent.zero x.path := by
  have hall : x ∈ Subtree.allPlaced n.start n.path n.subtree ↔ n.path <+: x.path ∧
      t.root.at? x.path = some x.subtree ∧ x.start = t.root.startAt Extent.zero x.path := by
    rw [Subtree.mem_allPlaced]
    constructor
    · rintro ⟨down, hpath, hat, hstart⟩
      refine ⟨⟨down, hpath.symm⟩, ?_, ?_⟩
      · rw [hpath, Subtree.at?_append, h.subtree]
        exact hat
      · rw [hpath, Subtree.startAt_append h.subtree, ← h.start]
        exact hstart
    · rintro ⟨⟨down, hpath⟩, hat, hstart⟩
      rw [← hpath, Subtree.at?_append, h.subtree] at hat
      rw [← hpath, Subtree.startAt_append h.subtree, ← h.start] at hstart
      exact ⟨down, hpath.symm, hat, hstart⟩
  have hordered := Subtree.ordered_allPlaced n.start n.path n.subtree
  rw [Subtree.allPlaced_eq] at hall hordered
  rw [← hall, List.mem_cons]
  -- nothing below the node has the path of the node
  have hne := (List.pairwise_cons.mp hordered).1
  constructor
  · intro hx
    exact ⟨fun heq => List.lt_irrefl n.path (heq ▸ hne x hx), .inr hx⟩
  · rintro ⟨hpath, rfl | hx⟩
    · exact absurd rfl hpath
    · exact hx

namespace Shown

/-! ### Visible trees -/

mutual

/-- The nodes of the visible trees that stand for a subtree are its visible parts. -/
theorem map_placed_ofSubtree (t : ParseTable) (start : Extent) (field : Option FieldId)
    (path : List Nat) : ∀ s : Subtree, (preorders (ofSubtree t start field path s)).map Node.placed =
      (s.allPlaced start path).filter fun x => t.isVisible x.subtree.symbol
  | .leaf i x => by
    rw [ofSubtree, Subtree.allPlaced_eq, List.filter_cons]
    change List.map _ (preorders (if t.isVisible i.symbol = true then _ else _)) =
      if t.isVisible i.symbol = true then _ else _
    split <;> rfl
  | .node i p children => by
    rw [ofSubtree, Subtree.allPlaced_eq, List.filter_cons]
    change List.map _ (preorders (if t.isVisible i.symbol = true then _ else _)) =
      if t.isVisible i.symbol = true then _ else _
    split
    · rw [preorders, preorder, preorders, List.append_nil, List.map_cons]
      exact congrArg _ (map_placed_ofChildren t start none path 0 _ children)
    · exact map_placed_ofChildren t start field path 0 _ children

theorem map_placed_ofChildren (t : ParseTable) (start : Extent) (inherited : Option FieldId)
    (path : List Nat) (place : Nat) (fields : List (Option FieldId)) : ∀ children : List Subtree,
    (preorders (ofChildren t start inherited path place fields children)).map Node.placed =
      (Subtree.allPlacedOf start path place children).filter fun x => t.isVisible x.subtree.symbol
  | [] => rfl
  | child :: rest => by
    rw [ofChildren, preorders_append, List.map_append, Subtree.allPlacedOf, List.filter_append]
    exact congr (congrArg _ (map_placed_ofSubtree t start _ _ child))
      (map_placed_ofChildren t (start + child.size) inherited path (place + 1) _ rest)

end

mutual

/-- Visible trees that stand for a subtree are those of their nodes. -/
theorem eq_shown_of_mem_ofSubtree {t : ParseTable} {start : Extent} {field : Option FieldId}
    {path : List Nat} {c : Shown} : ∀ s : Subtree, c ∈ ofSubtree t start field path s →
      c = c.node.shown t
  | .leaf i x, h => by
    rw [ofSubtree] at h
    split at h
    · obtain rfl := List.mem_singleton.mp h
      rfl
    · cases h
  | .node i p children, h => by
    rw [ofSubtree] at h
    split at h
    · obtain rfl := List.mem_singleton.mp h
      rfl
    · exact eq_shown_of_mem_ofChildren children h

theorem eq_shown_of_mem_ofChildren {t : ParseTable} {start : Extent} {inherited : Option FieldId}
    {path : List Nat} {place : Nat} {fields : List (Option FieldId)} {c : Shown} :
    ∀ children : List Subtree, c ∈ ofChildren t start inherited path place fields children →
      c = c.node.shown t
  | [], h => absurd h List.not_mem_nil
  | child :: rest, h => by
    rw [ofChildren] at h
    rcases List.mem_append.mp h with h | h
    · exact eq_shown_of_mem_ofSubtree child h
    · exact eq_shown_of_mem_ofChildren rest h

end

theorem preorder_eq (s : Shown) : s.preorder = s.node :: preorders s.children := by
  cases s
  rw [preorder, node, children]

theorem mem_preorders_of_mem {s : Shown} {l : List Shown} (h : s ∈ l) : s.node ∈ preorders l := by
  obtain ⟨front, back, rfl⟩ := List.append_of_mem h
  rw [preorders_append, preorders, preorder_eq]
  simp

/-- Whether a visible tree is the one below a node of a tree. -/
structure IsOf (t : SyntaxTree) (s : Shown) : Prop where
  eq_shown : s = s.node.shown t.table
  holds : t.Holds s.node

theorem isOf_shown {t : SyntaxTree} {n : Node} (h : t.Holds n) : IsOf t (n.shown t.table) :=
  ⟨rfl, h⟩

/-- Below the top are the visible ones among all parts below the node on top. -/
theorem IsOf.map_placed {t : SyntaxTree} {s : Shown} (h : s.IsOf t) :
    (preorders s.children).map Node.placed =
      (Subtree.allPlacedOf s.node.start s.node.path 0 s.node.subtree.children).filter
        fun x => t.table.isVisible x.subtree.symbol := by
  rw [h.eq_shown]
  exact map_placed_ofChildren ..

/-- A node below the top stands in the tree. -/
theorem IsOf.holds_below {t : SyntaxTree} {s : Shown} (h : s.IsOf t) {n : Node}
    (hn : n ∈ preorders s.children) : t.Holds n := by
  have hplaced := List.mem_map_of_mem (f := Node.placed) hn
  rw [h.map_placed] at hplaced
  obtain ⟨-, -, hat, hstart⟩ := h.holds.mem_below.mp (List.mem_filter.mp hplaced).1
  exact ⟨hat, hstart⟩

theorem IsOf.child {t : SyntaxTree} {s c : Shown} (h : s.IsOf t) (hc : c ∈ s.children) :
    c.IsOf t := by
  refine ⟨?_, h.holds_below (mem_preorders_of_mem hc)⟩
  rw [h.eq_shown] at hc
  exact eq_shown_of_mem_ofChildren _ hc

/-- **The visible nodes below a node**: those that a path leads to which goes on from the node's, in the
order of their paths. -/
theorem IsOf.preorders_children {t : SyntaxTree} {s : Shown} (h : s.IsOf t) :
    (∀ path, path ∈ (preorders s.children).map Node.path ↔
      path ≠ s.node.path ∧ s.node.path <+: path ∧
        ∃ u, t.root.at? path = some u ∧ t.table.isVisible u.symbol = true) ∧
    (s.node.path :: (preorders s.children).map Node.path).Pairwise (· < ·) := by
  have hpaths : (preorders s.children).map Node.path =
      ((preorders s.children).map Node.placed).map Placed.path := by
    rw [List.map_map]
    rfl
  rw [hpaths, h.map_placed]
  constructor
  · intro path
    constructor
    · intro hpath
      obtain ⟨x, hx, rfl⟩ := List.mem_map.mp hpath
      obtain ⟨hx, hvisible⟩ := List.mem_filter.mp hx
      obtain ⟨hne, hprefix, hat, -⟩ := h.holds.mem_below.mp hx
      exact ⟨hne, hprefix, x.subtree, hat, hvisible⟩
    · rintro ⟨hne, hprefix, u, hat, hvisible⟩
      have hmem : ⟨path, t.root.startAt Extent.zero path, u⟩ ∈
          Subtree.allPlacedOf s.node.start s.node.path 0 s.node.subtree.children :=
        h.holds.mem_below.mpr ⟨hne, hprefix, hat, rfl⟩
      exact List.mem_map.mpr ⟨_, List.mem_filter.mpr ⟨hmem, hvisible⟩, rfl⟩
  · have hordered := Subtree.ordered_allPlaced s.node.start s.node.path s.node.subtree
    rw [Subtree.allPlaced_eq] at hordered
    have hkept := hordered.sublist ((List.filter_sublist
      (p := fun x => t.table.isVisible x.subtree.symbol)).cons_cons _)
    exact List.pairwise_map.mpr hkept

end Shown

end LRWorkbench
