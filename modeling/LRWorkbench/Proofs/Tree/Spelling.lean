import LRWorkbench.Proofs.Text.Bytes
import LRWorkbench.Tree.Node

/-!
# Subtrees and the text they stand for

A subtree keeps sizes and no text. It **spells** a text when every leaf in it has the size of a
piece of that text, the pieces following one another, and every node the size of what its children
spell. Where a tree spells its text, everything that is read off sizes is right:

* `Spells.stands`: each part of the tree stands where its size and the sizes before it put it;
* `SpellsAll.tiles`: the leaves divide the text among themselves.
-/

namespace LRWorkbench

open Text

namespace Subtree

mutual

/-- The text that a subtree stands for, as far as sizes tell. A leaf stands for some text. -/
inductive Spells : Subtree → List Char → Prop where
  | leaf {i : SubtreeInfo} {x : Bool} {u : List Char} (size : i.size = Extent.of u) (ne : u ≠ []) :
      Spells (.leaf i x) u
  | node {i : SubtreeInfo} {p : Option Nat} {children : List Subtree} {u : List Char}
      (size : i.size = Extent.of u) (each : SpellsAll children u) : Spells (.node i p children) u

/-- The text that several subtrees stand for, one after the other. -/
inductive SpellsAll : List Subtree → List Char → Prop where
  | nil : SpellsAll [] []
  | cons {t : Subtree} {ts : List Subtree} {u v : List Char} (first : Spells t u)
      (rest : SpellsAll ts v) : SpellsAll (t :: ts) (u ++ v)

end

/-- The size of a subtree can be told from its text: bytes, lines and columns. -/
theorem Spells.size_eq {t : Subtree} {u : List Char} (h : Spells t u) : t.size = Extent.of u := by
  cases h with
  | leaf size _ => exact size
  | node size _ => exact size

theorem Spells.length_eq {t : Subtree} {u : List Char} (h : Spells t u) :
    t.length = byteLength u := by
  rw [length, h.size_eq, Extent.bytes_of]

/-- What a node spells is spelled by its children, one after the other. -/
theorem Spells.children {t : Subtree} {u : List Char} (h : Spells t u) (hleaf : t.isLeaf = false) :
    SpellsAll t.children u := by
  cases h with
  | leaf => cases hleaf
  | node _ each => exact each

theorem spellsAll_cons {t : Subtree} {ts : List Subtree} {w : List Char} :
    SpellsAll (t :: ts) w ↔ ∃ u v, w = u ++ v ∧ Spells t u ∧ SpellsAll ts v := by
  constructor
  · intro h
    cases h with
    | cons first rest => exact ⟨_, _, rfl, first, rest⟩
  · rintro ⟨u, v, rfl, first, rest⟩
    exact .cons first rest

/-- A row of subtrees can be split anywhere, and the text is split at the same place. -/
theorem spellsAll_append {ts ts' : List Subtree} {w : List Char} :
    SpellsAll (ts ++ ts') w ↔ ∃ u v, w = u ++ v ∧ SpellsAll ts u ∧ SpellsAll ts' v := by
  induction ts generalizing w with
  | nil =>
    constructor
    · intro h
      exact ⟨[], w, rfl, .nil, h⟩
    · rintro ⟨u, v, rfl, hu, hv⟩
      cases hu
      exact hv
  | cons t ts ih =>
    simp only [List.cons_append, spellsAll_cons, ih]
    constructor
    · rintro ⟨u, -, rfl, ht, v, v', rfl, hv, hv'⟩
      exact ⟨u ++ v, v', (List.append_assoc ..).symm, ⟨u, v, rfl, ht, hv⟩, hv'⟩
    · rintro ⟨-, v', rfl, ⟨u, v, rfl, ht, hv⟩, hv'⟩
      exact ⟨u, v ++ v', List.append_assoc .., ht, v, v', rfl, hv, hv'⟩

theorem SpellsAll.append {ts ts' : List Subtree} {u v : List Char} (h : SpellsAll ts u)
    (h' : SpellsAll ts' v) : SpellsAll (ts ++ ts') (u ++ v) :=
  spellsAll_append.mpr ⟨u, v, rfl, h, h'⟩

theorem SpellsAll.single {t : Subtree} {u : List Char} (h : Spells t u) : SpellsAll [t] u := by
  simpa using SpellsAll.cons h .nil

/-- Each of several subtrees spells a piece of their text. -/
theorem SpellsAll.exists_of_mem {t : Subtree} {ts : List Subtree} {w : List Char}
    (h : SpellsAll ts w) (ht : t ∈ ts) : ∃ u v u', w = u ++ v ++ u' ∧ Spells t v := by
  obtain ⟨front, back, rfl⟩ := List.append_of_mem ht
  obtain ⟨u, v, rfl, -, hback⟩ := spellsAll_append.mp h
  obtain ⟨v, u', rfl, ht, -⟩ := spellsAll_cons.mp hback
  exact ⟨u, v, u', (List.append_assoc ..).symm, ht⟩

/-! ### Nodes are as large as their children together -/

/-- The size that is gathered from children that spell a text. -/
theorem SpellsAll.size_foldl {ts : List Subtree} {u : List Char} (h : SpellsAll ts u)
    (g : Gathered) : (ts.foldl Gathered.add g).size = g.size + Extent.of u := by
  induction ts generalizing g u with
  | nil =>
    cases h
    simp
  | cons t ts ih =>
    obtain ⟨u, v, rfl, ht, hts⟩ := spellsAll_cons.mp h
    rw [List.foldl_cons, ih hts, Extent.of_append, ← Extent.add_assoc, Gathered.add, ht.size_eq]

/-- A node that is built over children spells what they spell. -/
theorem SpellsAll.build {ts : List Subtree} {u : List Char} (h : SpellsAll ts u)
    (generation : Nat) (symbol : Symbol) (production : Option Nat) (parseState lookahead : Nat)
    (isFragile : Bool) (scanner : ScannerState) :
    Spells (build generation symbol production ts parseState lookahead isFragile scanner) u := by
  refine .node ?_ h
  rw [h.size_foldl, Extent.zero_add]

/-- An error node spells what its children spell. -/
theorem SpellsAll.buildError {ts : List Subtree} {u : List Char} (h : SpellsAll ts u)
    (generation parseState : Nat) (scanner : ScannerState) :
    Spells (buildError generation ts parseState scanner) u :=
  h.build _ _ _ _ _ _ _

/-! ### Parts and their places -/

mutual

/-- All parts of a subtree with the places where they start, a part before what is in it. -/
def parts (start : Extent) : Subtree → List (Subtree × Extent)
  | .leaf i x => [(.leaf i x, start)]
  | .node i p children => (.node i p children, start) :: partsOf start children

/-- All parts of several subtrees in a row. -/
def partsOf (start : Extent) : List Subtree → List (Subtree × Extent)
  | [] => []
  | t :: ts => parts start t ++ partsOf (start + t.size) ts

end

theorem mem_parts_self (start : Extent) (t : Subtree) : (t, start) ∈ parts start t := by
  cases t <;> simp [parts]

/-- What is in a subtree is a part of it. -/
theorem mem_parts_of_mem_children {start : Extent} {t : Subtree} {part : Subtree × Extent}
    (h : part ∈ partsOf start t.children) : part ∈ parts start t := by
  cases t with
  | leaf i x => exact absurd h List.not_mem_nil
  | node i p children => exact List.mem_cons_of_mem _ h

/-- Where a row of subtrees ends. -/
def stopOf (start : Extent) (ts : List Subtree) : Extent := ts.foldl (fun stop t => stop + t.size) start

theorem partsOf_append (start : Extent) (ts us : List Subtree) :
    partsOf start (ts ++ us) = partsOf start ts ++ partsOf (stopOf start ts) us := by
  induction ts generalizing start with
  | nil => rfl
  | cons t ts ih =>
    rw [List.cons_append, partsOf, partsOf, ih, List.append_assoc]
    rfl

/-- Where subtrees end is counted from where they start. -/
theorem stopOf_add (a b : Extent) (ts : List Subtree) : stopOf (a + b) ts = a + stopOf b ts := by
  induction ts generalizing b with
  | nil => rfl
  | cons t ts ih =>
    rw [stopOf, List.foldl_cons, Extent.add_assoc]
    exact ih (b + t.size)

/-- A row that spells a text ends where the text does. -/
theorem SpellsAll.stopOf_eq {ts : List Subtree} {u w : List Char} (h : SpellsAll ts u) :
    stopOf (Extent.of w) ts = Extent.of (w ++ u) := by
  induction ts generalizing w u with
  | nil =>
    cases h
    rw [List.append_nil]
    rfl
  | cons t ts ih =>
    obtain ⟨v, u, rfl, ht, hts⟩ := spellsAll_cons.mp h
    rw [stopOf, List.foldl_cons, ht.size_eq, ← Extent.of_append, ← List.append_assoc]
    exact ih hts

/-- A part of a text of which the extent and the extent before it are known. -/
def Stands (text : List Char) (t : Subtree) (start : Extent) : Prop :=
  ∃ u v w, text = u ++ v ++ w ∧ start = Extent.of u ∧ Spells t v

mutual

theorem Spells.stands {t : Subtree} {v : List Char} (h : Spells t v) {u w : List Char}
    {part : Subtree × Extent} (hp : part ∈ parts (Extent.of u) t) :
    Stands (u ++ v ++ w) part.1 part.2 := by
  cases h with
  | leaf size ne =>
    obtain rfl := List.mem_singleton.mp hp
    exact ⟨u, v, w, rfl, rfl, .leaf size ne⟩
  | node size each =>
    rcases List.mem_cons.mp hp with rfl | hp
    · exact ⟨u, v, w, rfl, rfl, .node size each⟩
    · exact each.stands hp

theorem SpellsAll.stands {ts : List Subtree} {v : List Char} (h : SpellsAll ts v)
    {u w : List Char} {part : Subtree × Extent} (hp : part ∈ partsOf (Extent.of u) ts) :
    Stands (u ++ v ++ w) part.1 part.2 := by
  cases h with
  | nil => cases hp
  | cons first rest =>
    rename_i t ts v v'
    rw [partsOf, first.size_eq, ← Extent.of_append] at hp
    rcases List.mem_append.mp hp with hp | hp
    · have := first.stands (w := v' ++ w) hp
      simpa using this
    · have := rest.stands (w := w) hp
      simpa using this

end

end Subtree

/-! ### Nodes -/

namespace Subtree

variable {text : List Char} {t : Subtree} {start : Extent}

/-- The start of a part is the row and column of its first byte. -/
theorem Stands.start_eq (h : Stands text t start) : start = Extent.upTo text start.bytes := by
  obtain ⟨u, v, w, rfl, rfl, -⟩ := h
  rw [Extent.bytes_of, List.append_assoc, Extent.upTo_append]

/-- The end of a part is the row and column behind its last byte. -/
theorem Stands.stop_eq (h : Stands text t start) :
    start + t.size = Extent.upTo text (start.bytes + t.length) := by
  obtain ⟨u, v, w, rfl, rfl, hv⟩ := h
  rw [hv.size_eq, hv.length_eq, Extent.bytes_of, ← byteLength_append, Extent.upTo_append,
    Extent.of_append]

end Subtree

namespace Shown

open Subtree

theorem preorders_append (a b : List Shown) : preorders (a ++ b) = preorders a ++ preorders b := by
  induction a with
  | nil => rfl
  | cons s a ih => simp only [List.cons_append, preorders, ih, List.append_assoc]

mutual

/-- The visible nodes below a subtree are parts of it. -/
theorem mem_parts_of_mem_ofSubtree {t : ParseTable} {start : Extent} {field : Option FieldId}
    {path : List Nat} {n : Node} (s : Subtree)
    (h : n ∈ preorders (ofSubtree t start field path s)) : (n.subtree, n.start) ∈ parts start s := by
  cases s with
  | leaf i x =>
    simp only [ofSubtree] at h
    split at h
    · simp only [preorders, preorder, List.append_nil, List.mem_singleton] at h
      subst h
      exact mem_parts_self ..
    · cases h
  | node i p children =>
    simp only [ofSubtree] at h
    split at h
    · simp only [preorders, preorder, List.append_nil, List.mem_cons] at h
      rcases h with rfl | h
      · exact mem_parts_self ..
      · exact List.mem_cons_of_mem _ (mem_partsOf_of_mem_ofChildren children h)
    · exact List.mem_cons_of_mem _ (mem_partsOf_of_mem_ofChildren children h)

/-- The nodes that are shown are parts of the tree, at the places where they are shown. -/
theorem mem_partsOf_of_mem_ofChildren {t : ParseTable} {start : Extent}
    {inherited : Option FieldId} {path : List Nat} {place : Nat} {fields : List (Option FieldId)}
    {n : Node} (children : List Subtree)
    (h : n ∈ preorders (ofChildren t start inherited path place fields children)) :
    (n.subtree, n.start) ∈ partsOf start children := by
  cases children with
  | nil => cases h
  | cons child rest =>
    simp only [ofChildren, preorders_append, List.mem_append] at h
    rw [partsOf]
    rcases h with h | h
    · exact List.mem_append_left _ (mem_parts_of_mem_ofSubtree child h)
    · exact List.mem_append_right _ (mem_partsOf_of_mem_ofChildren rest h)

end

/-- The visible nodes of a tree are parts of it. -/
theorem mem_parts_of_mem_shown {t : SyntaxTree} {n : Node} (h : n ∈ preorder t.shown) :
    (n.subtree, n.start) ∈ parts Extent.zero t.root := by
  rw [SyntaxTree.shown, Node.shown, preorder] at h
  rcases List.mem_cons.mp h with rfl | h
  · exact mem_parts_self ..
  · have hpart := mem_partsOf_of_mem_ofChildren _ h
    cases hroot : t.root with
    | leaf i x =>
      rw [SyntaxTree.rootNode, hroot] at hpart
      cases hpart
    | node i p children =>
      rw [SyntaxTree.rootNode, hroot] at hpart
      exact List.mem_cons_of_mem _ hpart

end Shown

/-! ### Leaves -/

/-- Whether ranges follow one another without gaps, none of them empty, from one place to
another. -/
def Tiles : Nat → List (Nat × Nat) → Nat → Prop
  | start, [], stop => start = stop
  | start, (a, b) :: rest, stop => a = start ∧ a < b ∧ Tiles b rest stop

theorem Tiles.append {a b c : Nat} {front back : List (Nat × Nat)} (h : Tiles a front b)
    (h' : Tiles b back c) : Tiles a (front ++ back) c := by
  induction front generalizing a with
  | nil =>
    obtain rfl : a = b := h
    exact h'
  | cons r front ih =>
    obtain ⟨x, y⟩ := r
    obtain ⟨hx, hlt, hrest⟩ := h
    exact ⟨hx, hlt, ih hrest⟩

namespace SyntaxTree

open Subtree

mutual

/-- The leaves of a subtree divide its text among themselves. -/
theorem tiles_leafNodes {t : Subtree} {v : List Char} (h : Spells t v) (u w : List Char)
    (path : List Nat) :
    Tiles (byteLength u) ((leafNodes (Extent.of u) path t).map fun n => (n.startByte, n.endByte))
        (byteLength (u ++ v)) ∧
      (leafNodes (Extent.of u) path t).flatMap (·.textIn (u ++ v ++ w)) = v := by
  cases h with
  | leaf size ne =>
    rename_i i x
    have hstop : byteLength u + (Subtree.leaf i x).length = byteLength (u ++ v) := by
      rw [(Spells.leaf (x := x) size ne).length_eq, byteLength_append]
    have hpos := byteLength_pos.mpr ne
    simp only [leafNodes, List.map_cons, List.map_nil, Node.startByte, Node.endByte,
      Extent.bytes_of, hstop, Tiles, List.flatMap_cons, List.flatMap_nil, List.append_nil,
      Node.textIn]
    rw [byteLength_append]
    exact ⟨⟨trivial, by omega, trivial⟩, slice_append u v w⟩
  | node size each => exact tiles_leafNodesOf each u w path 0

/-- The leaves of several subtrees divide their text among themselves. -/
theorem tiles_leafNodesOf {ts : List Subtree} {v : List Char} (h : SpellsAll ts v)
    (u w : List Char) (path : List Nat) (place : Nat) :
    Tiles (byteLength u)
        ((leafNodesOf (Extent.of u) path place ts).map fun n => (n.startByte, n.endByte))
        (byteLength (u ++ v)) ∧
      (leafNodesOf (Extent.of u) path place ts).flatMap (·.textIn (u ++ v ++ w)) = v := by
  cases h with
  | nil => simp [leafNodesOf, Tiles]
  | cons first rest =>
    rename_i t ts v v'
    obtain ⟨htiles, htext⟩ := tiles_leafNodes first u (v' ++ w) (path ++ [place])
    obtain ⟨htiles', htext'⟩ := tiles_leafNodesOf rest (u ++ v) w path (place + 1)
    rw [leafNodesOf, first.size_eq, ← Extent.of_append]
    constructor
    · rw [List.map_append, ← List.append_assoc u v v']
      exact htiles.append htiles'
    · have hleft : u ++ (v ++ v') ++ w = u ++ v ++ (v' ++ w) := by simp
      have hright : u ++ (v ++ v') ++ w = u ++ v ++ v' ++ w := by simp
      rw [← hleft] at htext
      rw [← hright] at htext'
      rw [List.flatMap_append, htext, htext']

end

end SyntaxTree

end LRWorkbench
