import LRWorkbench.Proofs.Parsing.Coverage
import LRWorkbench.Proofs.Tree.Lengths

/-!
# What every table keeps

A table need not come from a grammar to be run: it may shift the end of the input, reduce by more steps
than there are, accept before the end of the text or lack a goto. Whatever it says, what is on the stack and
what waits **fills** the text up to the next token (`Subtree.Fills`): lengths add up, and those of the leaves
are those of the pieces that the text is cut into. Grouping subtrees in a node leaves the leaves alone
(`Subtree.Fills.build`), so that a move only has to keep the order.

Leaves may be empty here, as that of the end of the input is. That the leaves of tables compiled from
grammars are not is part of `Subtree.Spells`.
-/

namespace LRWorkbench

open Text

/-! ### Leaves and states of subtrees -/

namespace Subtree

theorem leavesOf_append (ts us : List Subtree) : leavesOf (ts ++ us) = leavesOf ts ++ leavesOf us := by
  induction ts with
  | nil => rfl
  | cons t ts ih => rw [List.cons_append, leavesOf, leavesOf, ih, List.append_assoc]

theorem lengthOf_append (ts us : List Subtree) : lengthOf (ts ++ us) = lengthOf ts + lengthOf us := by
  rw [lengthOf, List.map_append, List.sum_append]
  rfl

theorem allAddUp_append {ts us : List Subtree} :
    AllAddUp (ts ++ us) ↔ AllAddUp ts ∧ AllAddUp us := by
  simp only [allAddUp_iff, List.mem_append, or_imp, forall_and]

mutual

/-- A subtree is as long as its leaves together. -/
theorem AddsUp.length_eq {t : Subtree} (h : t.AddsUp) : t.length = lengthOf t.leaves := by
  cases t with
  | leaf i x => exact (Nat.add_zero _).symm
  | node i p children => exact h.1.trans h.2.lengthOf_eq

/-- Lengths can be taken over the leaves where they add up. -/
theorem AllAddUp.lengthOf_eq {ts : List Subtree} (h : AllAddUp ts) :
    lengthOf ts = lengthOf (leavesOf ts) := by
  cases ts with
  | nil => rfl
  | cons t ts =>
    obtain ⟨hfirst, hrest⟩ := h
    rw [leavesOf, lengthOf_append, ← hfirst.length_eq, ← hrest.lengthOf_eq]
    rfl

end

mutual

/-- Whether the states that the parts of a subtree note are below a number. -/
def Notes (count : Nat) : Subtree → Prop
  | leaf i _ => ∀ q, i.lexState = some q → q < count
  | node i _ children => (∀ q, i.lexState = some q → q < count) ∧ AllNote count children

/-- Whether the states that the parts of several subtrees note are below a number. -/
def AllNote (count : Nat) : List Subtree → Prop
  | [] => True
  | t :: ts => Notes count t ∧ AllNote count ts

end

variable {count : Nat}

theorem allNote_iff {ts : List Subtree} : AllNote count ts ↔ ∀ t ∈ ts, t.Notes count := by
  induction ts with
  | nil => simp [AllNote]
  | cons t ts ih => simp [AllNote, ih]

theorem allNote_append {ts us : List Subtree} :
    AllNote count (ts ++ us) ↔ AllNote count ts ∧ AllNote count us := by
  simp only [allNote_iff, List.mem_append, or_imp, forall_and]

/-- The lexing state that a leaf notes is one of the table. -/
theorem Notes.lexState {t : Subtree} (h : t.Notes count) {q : Nat} (hq : t.info.lexState = some q) :
    q < count := by
  cases t with
  | leaf i x => exact h q hq
  | node i p children => exact h.1 q hq

/-- A node notes the state of one of its children. -/
theorem AllNote.lexState_foldl {ts : List Subtree} (h : AllNote count ts) {g : Gathered}
    (hg : ∀ q, g.lexState = some q → q < count) {q : Nat}
    (hq : (ts.foldl Gathered.add g).lexState = some q) : q < count := by
  induction ts generalizing g with
  | nil => exact hg q hq
  | cons t ts ih =>
    refine ih h.2 (fun q hq => ?_) hq
    rw [Gathered.add] at hq
    dsimp only at hq
    split at hq
    · exact h.1.lexState hq
    · exact hg q hq

/-- A node notes nothing itself, so whatever groups subtrees keeps their notes. -/
theorem AllNote.build {ts : List Subtree} (h : AllNote count ts) (generation : Nat) (symbol : Symbol)
    (production : Option Nat) (parseState lookahead : Nat) (isFragile : Bool)
    (scanner : ScannerState) :
    (build generation symbol production ts parseState lookahead isFragile scanner).Notes count :=
  ⟨fun _ => h.lexState_foldl (by intro q hq; cases hq), h⟩

/-! ### Parts of subtrees -/

mutual

/-- The leaves of a part stand together among those of a subtree, behind as many bytes as the part. -/
theorem exists_leaves_of_mem_parts {t : Subtree} (hadds : t.AddsUp) (hnotes : t.Notes count)
    {start : Extent} {part : Subtree × Extent} (hpart : part ∈ parts start t) :
    part.1.AddsUp ∧ part.1.Notes count ∧ ∃ before after,
      t.leaves = before ++ part.1.leaves ++ after ∧ part.2.bytes = start.bytes + lengthOf before := by
  have hself : t.AddsUp ∧ t.Notes count ∧ ∃ before after,
      t.leaves = before ++ t.leaves ++ after ∧ start.bytes = start.bytes + lengthOf before :=
    ⟨hadds, hnotes, [], [], by simp, rfl⟩
  cases t with
  | leaf i x =>
    obtain rfl := List.mem_singleton.mp hpart
    exact hself
  | node i p children =>
    rcases List.mem_cons.mp hpart with rfl | hpart
    · exact hself
    · exact exists_leaves_of_mem_partsOf hadds.2 hnotes.2 hpart

/-- The leaves of a part are a stretch of the leaves of the whole, and the part starts after the
lengths of those before. -/
theorem exists_leaves_of_mem_partsOf {ts : List Subtree} (hadds : AllAddUp ts)
    (hnotes : AllNote count ts) {start : Extent} {part : Subtree × Extent}
    (hpart : part ∈ partsOf start ts) :
    part.1.AddsUp ∧ part.1.Notes count ∧ ∃ before after,
      leavesOf ts = before ++ part.1.leaves ++ after ∧
        part.2.bytes = start.bytes + lengthOf before := by
  cases ts with
  | nil => cases hpart
  | cons t ts =>
    rw [leavesOf]
    rcases List.mem_append.mp hpart with hpart | hpart
    · obtain ⟨hpartAdds, hpartNotes, before, after, hleaves, hstart⟩ :=
        exists_leaves_of_mem_parts hadds.1 hnotes.1 hpart
      refine ⟨hpartAdds, hpartNotes, before, after ++ leavesOf ts, ?_, hstart⟩
      rw [hleaves]
      simp only [List.append_assoc]
    · obtain ⟨hpartAdds, hpartNotes, before, after, hleaves, hstart⟩ :=
        exists_leaves_of_mem_partsOf hadds.2 hnotes.2 hpart
      refine ⟨hpartAdds, hpartNotes, t.leaves ++ before, after, ?_, ?_⟩
      · rw [hleaves]
        simp only [List.append_assoc]
      · rw [hstart, Extent.bytes_add, lengthOf_append, ← hadds.1.length_eq, length, Nat.add_assoc]

end

/-! ### Filling a text -/

/-- Whether the lengths of some subtrees are those of the pieces that a text is cut into. -/
inductive Cut : List Subtree → List Char → Prop where
  | nil : Cut [] []
  | cons {t : Subtree} {ts : List Subtree} {u v : List Char} (length : t.length = byteLength u)
      (rest : Cut ts v) : Cut (t :: ts) (u ++ v)

/-- Texts that are cut into pieces one after another are cut as a whole. -/
theorem Cut.append {ts us : List Subtree} {u v : List Char} (h : Cut ts u) (h' : Cut us v) :
    Cut (ts ++ us) (u ++ v) := by
  induction h with
  | nil => exact h'
  | cons length rest ih =>
    rw [List.append_assoc]
    exact .cons length ih

/-- A row of pieces can be cut in two anywhere, and the text is cut at the same place. -/
theorem Cut.exists_of_append {ts us : List Subtree} {w : List Char} (h : Cut (ts ++ us) w) :
    ∃ u v, w = u ++ v ∧ Cut ts u ∧ Cut us v := by
  induction ts generalizing w with
  | nil => exact ⟨[], w, rfl, .nil, h⟩
  | cons t ts ih =>
    cases h with
    | @cons _ _ u _ length rest =>
      obtain ⟨v, v', rfl, hts, hus⟩ := ih rest
      exact ⟨u ++ v, v', (List.append_assoc ..).symm, .cons length hts, hus⟩

theorem Cut.lengthOf_eq {ts : List Subtree} {u : List Char} (h : Cut ts u) :
    lengthOf ts = byteLength u := by
  induction h with
  | nil => rfl
  | @cons t ts u v length rest ih =>
    rw [byteLength_append, ← length, ← ih]
    rfl

/-- Whether some subtrees fill a text: lengths add up, the leaves are as long as the pieces the text is cut
into, and the states that are noted are below a number. -/
structure Fills (count : Nat) (ts : List Subtree) (u : List Char) : Prop where
  addUp : AllAddUp ts
  note : AllNote count ts
  cut : Cut (leavesOf ts) u

theorem fills_nil : Fills count [] [] := ⟨trivial, trivial, .nil⟩

/-- What is put behind fills the text that follows. -/
theorem Fills.append {ts us : List Subtree} {u v : List Char} (h : Fills count ts u)
    (h' : Fills count us v) : Fills count (ts ++ us) (u ++ v) where
  addUp := allAddUp_append.mpr ⟨h.addUp, h'.addUp⟩
  note := allNote_append.mpr ⟨h.note, h'.note⟩
  cut := by
    rw [leavesOf_append]
    exact h.cut.append h'.cut

/-- A leaf fills a piece of its length. -/
theorem fills_leaf {i : SubtreeInfo} {x : Bool} {u : List Char} (hlength : i.size.bytes = byteLength u)
    (hnotes : ∀ q, i.lexState = some q → q < count) : Fills count [.leaf i x] u where
  addUp := ⟨trivial, trivial⟩
  note := ⟨hnotes, trivial⟩
  cut := by
    rw [← List.append_nil u]
    exact .cons hlength .nil

/-- A stack that is taken apart leaves two texts that its parts fill, which is all that popping
needs. -/
theorem Fills.exists_of_append {ts us : List Subtree} {w : List Char}
    (h : Fills count (ts ++ us) w) : ∃ u v, w = u ++ v ∧ Fills count ts u ∧ Fills count us v := by
  obtain ⟨htsAdd, husAdd⟩ := allAddUp_append.mp h.addUp
  obtain ⟨htsNote, husNote⟩ := allNote_append.mp h.note
  have hcut := h.cut
  rw [leavesOf_append] at hcut
  obtain ⟨u, v, rfl, hts, hus⟩ := hcut.exists_of_append
  exact ⟨u, v, rfl, ⟨htsAdd, htsNote, hts⟩, ⟨husAdd, husNote, hus⟩⟩

/-- Some subtrees may be exchanged for what fills the same. -/
theorem Fills.exchange {before ts us after : List Subtree} {w : List Char}
    (h : Fills count (before ++ ts ++ after) w) (hts : ∀ u, Fills count ts u → Fills count us u) :
    Fills count (before ++ us ++ after) w := by
  obtain ⟨w, v, rfl, h, hafter⟩ := h.exists_of_append
  obtain ⟨u, u', rfl, hbefore, h⟩ := h.exists_of_append
  exact (hbefore.append (hts u' h)).append hafter

/-- Subtrees that are put together in a node fill what they filled. -/
theorem Fills.build {ts : List Subtree} {u : List Char} (h : Fills count ts u) (generation : Nat)
    (symbol : Symbol) (production : Option Nat) (parseState lookahead : Nat) (isFragile : Bool)
    (scanner : ScannerState) : Fills count
      [build generation symbol production ts parseState lookahead isFragile scanner] u where
  addUp := ⟨h.addUp.build .., trivial⟩
  note := ⟨h.note.build _ _ _ _ _ _ _, trivial⟩
  cut := by
    rw [leavesOf, leavesOf, List.append_nil]
    exact h.cut

/-- An error node fills what its children fill. -/
theorem Fills.buildError {ts : List Subtree} {u : List Char} (h : Fills count ts u)
    (generation parseState : Nat) (scanner : ScannerState) :
    Fills count [buildError generation ts parseState scanner] u :=
  h.build ..

/-- So do the children of a node that are put in its place. -/
theorem Fills.children {t : Subtree} {u : List Char} (h : Fills count [t] u)
    (hleaf : t.isLeaf = false) : Fills count t.children u := by
  cases t with
  | leaf i x => cases hleaf
  | node i p children =>
    refine ⟨h.addUp.1.2, h.note.1.2, ?_⟩
    have hcut := h.cut
    rwa [leavesOf, leavesOf, List.append_nil] at hcut

/-- Where a part of a subtree stands in the text that the subtree fills. -/
theorem Fills.exists_of_mem_parts {t : Subtree} {w : List Char} (h : Fills count [t] w)
    {part : Subtree × Extent} (hpart : part ∈ parts Extent.zero t) :
    ∃ u v v', w = u ++ v ++ v' ∧ part.2.bytes = byteLength u ∧ Fills count [part.1] v := by
  obtain ⟨hadds, hnotes, before, after, hleaves, hstart⟩ :=
    exists_leaves_of_mem_parts h.addUp.1 h.note.1 hpart
  have hcut := h.cut
  rw [leavesOf, leavesOf, List.append_nil, hleaves] at hcut
  obtain ⟨u, v', rfl, hcut, -⟩ := hcut.exists_of_append
  obtain ⟨u, v, rfl, hbefore, hv⟩ := hcut.exists_of_append
  refine ⟨u, v, v', rfl, ?_, ⟨hadds, trivial⟩, ⟨hnotes, trivial⟩, ?_⟩
  · rw [hstart, ← hbefore.lengthOf_eq]
    exact Nat.zero_add _
  · rwa [leavesOf, leavesOf, List.append_nil]

theorem Fills.length_eq {t : Subtree} {u : List Char} (h : Fills count [t] u) :
    t.length = byteLength u := by
  rw [h.addUp.1.length_eq, ← h.cut.lengthOf_eq, leavesOf, leavesOf, List.append_nil]

end Subtree

end LRWorkbench
