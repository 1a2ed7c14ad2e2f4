import LRWorkbench.Grammar.Compile
import LRWorkbench.Proofs.Except
import LRWorkbench.Proofs.Parsing.Run
import LRWorkbench.Proofs.Tree.Parts
import LRWorkbench.Tree.Cursor

/-!
# Walks of cursors

A walk goes down where it can, and else to the next sibling of the nearest node that has one, but
not above the depth where it began. So it calls at a node, at what is below it, then at what is
**behind** it: the siblings to come, on each level up to that depth (`Cursor.walk_eq`).

**Main statement.** `Cursor.visitAll_inPreorder`: wherever moves have led a cursor, a walk calls at the
current node, then at each visible part below it once, in the order of their paths, each with the range
that it has in the tree, and leaves the cursor where it was.
-/

namespace LRWorkbench

namespace Cursor

/-! ### Where moves lead -/

/-- Whether moves lead a cursor to a place of a tree, from the root or from where it was reset to. -/
inductive ReachedIn (t : SyntaxTree) : Cursor → Prop where
  | root : ReachedIn t (start t.shown)
  | reset {n : Node} (holds : t.Holds n) : ReachedIn t (start (n.shown t.table))
  | firstChild {c d : Cursor} (before : ReachedIn t c) (move : c.firstChild? = some d) : ReachedIn t d
  | parent {c d : Cursor} (before : ReachedIn t c) (move : c.parent? = some d) : ReachedIn t d
  | nextSibling {c d : Cursor} (before : ReachedIn t c) (move : c.nextSibling? = some d) :
      ReachedIn t d
  | previousSibling {c d : Cursor} (before : ReachedIn t c) (move : c.previousSibling? = some d) :
      ReachedIn t d
  | firstChildForByte {c d : Cursor} (before : ReachedIn t c) (byte : Nat)
      (move : c.firstChildForByte? byte = some d) : ReachedIn t d
  | walk {c : Cursor} (before : ReachedIn t c) : ReachedIn t c.visitAll.2

/-! ### Walks -/

/-- The nodes that a walk calls at behind a node and all that is below it. -/
def behind (base : Nat) (row : SiblingRow) : List SiblingRow → List Node
  | [] => []
  | up :: above =>
    if above.length + 1 = base then [] else Shown.preorders row.after ++ behind base up above

/-- Where a walk leaves a cursor: as far up as it may go. -/
def last (base : Nat) (row : SiblingRow) : List SiblingRow → Cursor
  | [] => ⟨row, []⟩
  | up :: above => if above.length + 1 = base then ⟨row, up :: above⟩ else last base up above

/-- Whether a walk goes on as it should: to the first of the nodes behind, or nowhere if there are
none. -/
def Advance.Fits (base : Nat) (nodes : List Node) (stop : Cursor) : Advance → Prop
  | .onward c => base ≤ c.depth ∧ nodes = c.row.here.preorder ++ behind base c.row c.above ∧
      stop = last base c.row c.above
  | .halt c => nodes = [] ∧ stop = c

theorem fits_leave {base : Nat} (row : SiblingRow) {above : List SiblingRow}
    (h : base ≤ above.length) :
    (leave base row above).Fits base (behind base row above) (last base row above) := by
  induction above generalizing row with
  | nil => exact ⟨rfl, rfl⟩
  | cons up above ih =>
    rw [leave, behind, last]
    split
    · exact ⟨rfl, rfl⟩
    · rename_i hne
      rw [List.length_cons] at h
      split
      · rename_i next rest hafter
        refine ⟨h, ?_, ?_⟩
        · simp only [behind, if_neg hne, hafter, Shown.preorders, List.append_assoc]
        · simp only [last, if_neg hne]
      · rename_i hafter
        rw [hafter]
        exact ih up (by omega)

theorem fits_advance {base : Nat} {c : Cursor} (h : base ≤ c.depth) :
    (c.advance base).Fits base (Shown.preorders c.row.here.children ++ behind base c.row c.above)
      (last base c.row c.above) := by
  rw [advance, firstChild?]
  cases hchildren : c.row.here.children with
  | nil => exact fits_leave c.row h
  | cons first rest =>
    have hne : c.above.length + 1 ≠ base := by
      rw [depth] at h
      omega
    refine ⟨Nat.le_succ_of_le h, ?_, ?_⟩
    · simp only [behind, if_neg hne, Shown.preorders, List.append_assoc]
    · simp only [last, if_neg hne]

/-- A walk with enough steps calls at all that is at, below and behind a node. -/
theorem walk_eq {base steps : Nat} {c : Cursor} (h : base ≤ c.depth)
    (hsteps : (c.row.here.preorder ++ behind base c.row c.above).length ≤ steps) :
    c.walk base steps =
      (c.row.here.preorder ++ behind base c.row c.above, last base c.row c.above) := by
  induction steps generalizing c with
  | zero =>
    rw [Shown.preorder_eq] at hsteps
    cases hsteps
  | succ steps ih =>
    have hfits := fits_advance h
    rw [Shown.preorder_eq, List.cons_append] at hsteps ⊢
    rw [walk]
    cases hadvance : c.advance base with
    | onward next =>
      rw [hadvance] at hfits
      obtain ⟨hdepth, hnodes, hlast⟩ := hfits
      rw [hnodes] at hsteps ⊢
      change (c.node :: (walk base steps next).1, (walk base steps next).2) = _
      rw [ih hdepth (Nat.le_of_succ_le_succ hsteps), hlast]
      rfl
    | halt stop =>
      rw [hadvance] at hfits
      obtain ⟨hnodes, hlast⟩ := hfits
      rw [hnodes, hlast]
      rfl

/-- A walk calls at all that is at and below the current node, and ends where it began. -/
theorem visitAll_eq (c : Cursor) : c.visitAll = (c.row.here.preorder, c) := by
  have hbehind : behind c.depth c.row c.above = [] := by
    rw [depth]
    cases c.above with
    | nil => rfl
    | cons up above => exact if_pos rfl
  have hlast : last c.depth c.row c.above = c := by
    obtain ⟨row, above⟩ := c
    cases above with
    | nil => rfl
    | cons up above => exact if_pos rfl
  have hwalk := walk_eq (Nat.le_refl c.depth) (Nat.le_refl _)
  rw [hbehind, hlast, List.append_nil] at hwalk
  exact hwalk

end Cursor

/-! ### What cursors stand at -/

/-- Whether all visible trees of a row are of a tree. -/
structure SiblingRow.IsOf (t : SyntaxTree) (row : SiblingRow) : Prop where
  before : ∀ s ∈ row.before, s.IsOf t
  here : row.here.IsOf t
  after : ∀ s ∈ row.after, s.IsOf t

namespace Cursor

/-- Whether a cursor and all the way to it are in a tree. -/
structure IsIn (t : SyntaxTree) (c : Cursor) : Prop where
  row : c.row.IsOf t
  above : ∀ row ∈ c.above, row.IsOf t

variable {t : SyntaxTree} {c d : Cursor}

theorem isIn_start {n : Node} (h : t.Holds n) : (start (n.shown t.table)).IsIn t :=
  ⟨⟨List.forall_mem_nil _, Shown.isOf_shown h, List.forall_mem_nil _⟩, List.forall_mem_nil _⟩

/-- A cursor that goes down to a row of children stays in the tree. -/
theorem IsIn.down (h : c.IsIn t) {row : SiblingRow} (hrow : row.IsOf t) :
    IsIn t ⟨row, c.row :: c.above⟩ :=
  ⟨hrow, List.forall_mem_cons.mpr ⟨h.row, h.above⟩⟩

theorem IsIn.firstChild (h : c.IsIn t) (hmove : c.firstChild? = some d) : d.IsIn t := by
  have hchild : ∀ s ∈ c.row.here.children, s.IsOf t := fun s => h.row.here.child
  rw [firstChild?] at hmove
  cases hchildren : c.row.here.children with
  | nil => rw [hchildren] at hmove; cases hmove
  | cons first rest =>
    rw [hchildren] at hmove hchild
    obtain rfl := Option.some.inj hmove
    obtain ⟨hfirst, hrest⟩ := List.forall_mem_cons.mp hchild
    exact h.down ⟨List.forall_mem_nil _, hfirst, hrest⟩

theorem IsIn.parent (h : c.IsIn t) (hmove : c.parent? = some d) : d.IsIn t := by
  obtain ⟨row, _ | ⟨up, above⟩⟩ := c
  · cases hmove
  · obtain rfl := Option.some.inj hmove
    obtain ⟨hup, habove⟩ := List.forall_mem_cons.mp h.above
    exact ⟨hup, habove⟩

theorem IsIn.nextSibling (h : c.IsIn t) (hmove : c.nextSibling? = some d) : d.IsIn t := by
  obtain ⟨⟨before, here, _ | ⟨next, after⟩⟩, _ | ⟨up, above⟩⟩ := c
  · cases hmove
  · cases hmove
  · cases hmove
  · obtain rfl := Option.some.inj hmove
    obtain ⟨hnext, hafter⟩ := List.forall_mem_cons.mp h.row.after
    exact ⟨⟨List.forall_mem_cons.mpr ⟨h.row.here, h.row.before⟩, hnext, hafter⟩, h.above⟩

theorem IsIn.previousSibling (h : c.IsIn t) (hmove : c.previousSibling? = some d) : d.IsIn t := by
  obtain ⟨⟨_ | ⟨previous, before⟩, here, after⟩, _ | ⟨up, above⟩⟩ := c
  · cases hmove
  · cases hmove
  · cases hmove
  · obtain rfl := Option.some.inj hmove
    obtain ⟨hprevious, hbefore⟩ := List.forall_mem_cons.mp h.row.before
    exact ⟨⟨hbefore, hprevious, List.forall_mem_cons.mpr ⟨h.row.here, h.row.after⟩⟩, h.above⟩

theorem isOf_rowForByte? {byte : Nat} {before l : List Shown} {row : SiblingRow}
    (hrow : rowForByte? byte before l = some row) (hbefore : ∀ s ∈ before, s.IsOf t)
    (hl : ∀ s ∈ l, s.IsOf t) : row.IsOf t := by
  induction l generalizing before with
  | nil => cases hrow
  | cons s rest ih =>
    obtain ⟨hs, hrest⟩ := List.forall_mem_cons.mp hl
    rw [rowForByte?] at hrow
    split at hrow
    · obtain rfl := Option.some.inj hrow
      exact ⟨hbefore, hs, hrest⟩
    · exact ih hrow (List.forall_mem_cons.mpr ⟨hs, hbefore⟩) hrest

theorem IsIn.firstChildForByte (h : c.IsIn t) {byte : Nat}
    (hmove : c.firstChildForByte? byte = some d) : d.IsIn t := by
  obtain ⟨row, hrow, rfl⟩ := Option.map_eq_some_iff.mp hmove
  exact h.down (isOf_rowForByte? hrow (List.forall_mem_nil _) fun s => h.row.here.child)

/-- A cursor stays in the tree, wherever moves lead it. -/
theorem ReachedIn.isIn (h : c.ReachedIn t) : c.IsIn t := by
  induction h with
  | root => exact isIn_start t.holds_rootNode
  | reset hn => exact isIn_start hn
  | firstChild _ hmove ih => exact ih.firstChild hmove
  | parent _ hmove ih => exact ih.parent hmove
  | nextSibling _ hmove ih => exact ih.nextSibling hmove
  | previousSibling _ hmove ih => exact ih.previousSibling hmove
  | firstChildForByte _ _ hmove ih => exact ih.firstChildForByte hmove
  | walk _ ih => rwa [visitAll_eq]

/-- **A walk goes through what is at and below the current node.** It calls at that node, then once at
each visible part below it, in the order of their paths. Every node has the range of its part in the
tree. The cursor is left where it was. -/
theorem visitAll_inPreorder (h : c.ReachedIn t) : c.visitAll.2 = c ∧ ∃ below,
    c.visitAll.1 = c.node :: below ∧
    (∀ path, path ∈ below.map Node.path ↔ path ≠ c.node.path ∧ c.node.path <+: path ∧
      ∃ u, t.root.at? path = some u ∧ t.table.isVisible u.symbol = true) ∧
    ((c.node :: below).map Node.path).Pairwise (· < ·) ∧
    ∀ n ∈ c.node :: below, t.root.at? n.path = some n.subtree ∧
      n.startByte = (t.root.startAt Extent.zero n.path).bytes ∧
      n.endByte = n.startByte + n.subtree.length := by
  have hhere := h.isIn.row.here
  obtain ⟨hbelow, hordered⟩ := hhere.preorders_children
  rw [visitAll_eq]
  refine ⟨rfl, Shown.preorders c.row.here.children, Shown.preorder_eq _, hbelow, hordered,
    fun n hn => ?_⟩
  have hn : t.Holds n := by
    rcases List.mem_cons.mp hn with rfl | hn
    · exact hhere.holds
    · exact hhere.holds_below hn
  exact ⟨hn.subtree, by rw [Node.startByte, hn.start], rfl⟩

end Cursor

/-- Lists, one in the other. What is in a list is in hidden nodes. -/
def Grammar.bracketLists : Grammar where
  name := "lists"
  rules := [("list",
    .seq [.literal "[", .zeroOrMore (.choice [.reference "list", .literal "x"]), .literal "]"])]
  extras := []
  conflicts := []
  externals := []
  word := none

/-- In the tree of `[x[x]xx]`, a cursor on the list inside, which has siblings on both sides, walks
through that list and returns to it. -/
theorem Cursor.visitAll_bracketLists : ∃ table tree, ∃ c : Cursor,
    Grammar.bracketLists.compile = .ok table ∧
    (Parsing.Setting.fresh ⟨table, none⟩ "[x[x]xx]".toList Parsing.defaultWindow).Yields tree ∧
    c.ReachedIn tree ∧ c.place = 2 ∧ c.visitAll.2 = c ∧ c.node.path = [1, 0, 0, 1] ∧
    c.visitAll.1.map (fun n => (n.path, n.startByte, n.endByte)) =
      [([1, 0, 0, 1], 2, 5), ([1, 0, 0, 1, 0], 2, 3), ([1, 0, 0, 1, 1, 0], 3, 4),
        ([1, 0, 0, 1, 2], 4, 5)] ∧
    ∀ path, path ∈ c.visitAll.1.map Node.path ↔ path = c.node.path ∨ path ≠ c.node.path ∧
      c.node.path <+: path ∧
      ∃ u, tree.root.at? path = some u ∧ tree.table.isVisible u.symbol = true := by
  have hrun : (Grammar.bracketLists.compile.toOption).any (fun table =>
      (Parsing.Parser.runFromStart (.fresh ⟨table, none⟩ "[x[x]xx]".toList Parsing.defaultWindow)
        100).any fun tree => (Cursor.start tree.shown).firstChild?.any fun first =>
      first.nextSibling?.any fun second => second.nextSibling?.any fun c =>
        c.place == 2 && c.node.path == [1, 0, 0, 1] &&
        c.visitAll.1.map (fun n => (n.path, n.startByte, n.endByte)) ==
          [([1, 0, 0, 1], 2, 5), ([1, 0, 0, 1, 0], 2, 3), ([1, 0, 0, 1, 1, 0], 3, 4),
            ([1, 0, 0, 1, 2], 4, 5)]) = true := by
    decide +kernel
  obtain ⟨table, htable, hrun⟩ := (Option.any_eq_true ..).mp hrun
  obtain ⟨tree, htree, hrun⟩ := (Option.any_eq_true ..).mp hrun
  obtain ⟨first, hfirst, hrun⟩ := (Option.any_eq_true ..).mp hrun
  obtain ⟨second, hsecond, hrun⟩ := (Option.any_eq_true ..).mp hrun
  obtain ⟨c, hc, hrun⟩ := (Option.any_eq_true ..).mp hrun
  simp only [Bool.and_eq_true, beq_iff_eq] at hrun
  obtain ⟨⟨hplace, hpath⟩, hwalk⟩ := hrun
  have hreached : c.ReachedIn tree :=
    ((ReachedIn.root.firstChild hfirst).nextSibling hsecond).nextSibling hc
  obtain ⟨hend, below, hvisits, hbelow, -⟩ := visitAll_inPreorder hreached
  refine ⟨table, tree, c, eq_ok_of_toOption htable, ⟨100, htree⟩, hreached, hplace, hend, hpath,
    hwalk, fun path => ?_⟩
  rw [hvisits, List.map_cons, List.mem_cons, hbelow]

end LRWorkbench
