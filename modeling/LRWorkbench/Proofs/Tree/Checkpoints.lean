import LRWorkbench.Proofs.Tree.Spelling
import Mathlib.Data.List.Chain

/-!
# States of the scanner along a tree

Every subtree remembers the state of the scanner before it and the one after it. A row of subtrees
**threads** one state into another if each goes on from the state that the one before it left, all
the way down to the leaves, and only external tokens change it (`Subtree.Threads`). In a tree that
does so, the state that is looked up at the start of a leaf is the one the leaf was found with
(`SyntaxTree.scannerStateAt_eq`).
-/

namespace LRWorkbench

open Text

namespace Subtree

variable {t : ParseTable}

mutual

/-- Whether a subtree leads from one state of the scanner to another. -/
inductive Threads (t : ParseTable) : Subtree → ScannerState → ScannerState → Prop where
  | leaf {i : SubtreeInfo} {x : Bool}
      (keeps : t.isExternal i.symbol = false → i.scannerBefore = i.scannerAfter) :
      Threads t (.leaf i x) i.scannerBefore i.scannerAfter
  | node {i : SubtreeInfo} {p : Option Nat} {children : List Subtree}
      (each : ThreadsAll t children i.scannerBefore i.scannerAfter) :
      Threads t (.node i p children) i.scannerBefore i.scannerAfter

/-- Whether several subtrees, one after the other, lead from one state of the scanner to another. -/
inductive ThreadsAll (t : ParseTable) : List Subtree → ScannerState → ScannerState → Prop where
  | nil {a : ScannerState} : ThreadsAll t [] a a
  | cons {u : Subtree} {us : List Subtree} {a b c : ScannerState} (first : Threads t u a b)
      (rest : ThreadsAll t us b c) : ThreadsAll t (u :: us) a c

end

variable {u : Subtree} {us vs : List Subtree} {a b c : ScannerState}

theorem Threads.before_eq (h : Threads t u a b) : u.info.scannerBefore = a := by
  cases h <;> rfl

theorem Threads.after_eq (h : Threads t u a b) : u.info.scannerAfter = b := by
  cases h <;> rfl

theorem Threads.children (h : Threads t u a b) (hleaf : u.isLeaf = false) :
    ThreadsAll t u.children a b := by
  cases h with
  | leaf => cases hleaf
  | node each => exact each

theorem threadsAll_cons :
    ThreadsAll t (u :: us) a c ↔ ∃ b, Threads t u a b ∧ ThreadsAll t us b c := by
  constructor
  · intro h
    cases h with
    | cons first rest => exact ⟨_, first, rest⟩
  · rintro ⟨b, first, rest⟩
    exact .cons first rest

theorem threadsAll_append :
    ThreadsAll t (us ++ vs) a c ↔ ∃ b, ThreadsAll t us a b ∧ ThreadsAll t vs b c := by
  induction us generalizing a with
  | nil =>
    constructor
    · intro h
      exact ⟨a, .nil, h⟩
    · rintro ⟨b, hus, hvs⟩
      cases hus
      exact hvs
  | cons u us ih =>
    simp only [List.cons_append, threadsAll_cons, ih]
    constructor
    · rintro ⟨b', hu, b, hus, hvs⟩
      exact ⟨b, ⟨b', hu, hus⟩, hvs⟩
    · rintro ⟨b, ⟨b', hu, hus⟩, hvs⟩
      exact ⟨b', hu, b, hus, hvs⟩

theorem ThreadsAll.append (h : ThreadsAll t us a b) (h' : ThreadsAll t vs b c) :
    ThreadsAll t (us ++ vs) a c :=
  threadsAll_append.mpr ⟨b, h, h'⟩

theorem ThreadsAll.single (h : Threads t u a b) : ThreadsAll t [u] a b := .cons h .nil

/-- The state before several subtrees is the one that the first of them remembers. -/
theorem ThreadsAll.before_eq (h : ThreadsAll t us a b) (scanner : ScannerState)
    (hscanner : us = [] → scanner = a) :
    (us.head?.map (·.info.scannerBefore)).getD scanner = a := by
  cases h with
  | nil => exact hscanner rfl
  | cons first rest => exact first.before_eq

/-- The state behind several subtrees is the one that the last of them remembers. -/
theorem ThreadsAll.after_eq (h : ThreadsAll t us a b) (scanner : ScannerState)
    (hscanner : us = [] → scanner = b) :
    (us.getLast?.map (·.info.scannerAfter)).getD scanner = b := by
  rcases List.eq_nil_or_concat us with rfl | ⟨us, u, rfl⟩
  · exact hscanner rfl
  · rw [List.concat_eq_append] at h ⊢
    obtain ⟨b', -, hu⟩ := threadsAll_append.mp h
    obtain ⟨_, hu, hnil⟩ := threadsAll_cons.mp hu
    cases hnil
    rw [List.getLast?_concat]
    exact hu.after_eq

theorem threads_node {i : SubtreeInfo} {p : Option Nat} (hbefore : i.scannerBefore = a)
    (hafter : i.scannerAfter = b) (each : ThreadsAll t us a b) : Threads t (.node i p us) a b := by
  subst hbefore hafter
  exact .node each

/-- A node leads from where its children begin to where they end. One without children stays at the
state it was built at. -/
theorem ThreadsAll.build (h : ThreadsAll t us a b) (generation : Nat) (symbol : Symbol)
    (production : Option Nat) (parseState lookahead : Nat) (isFragile : Bool)
    {scanner : ScannerState} (hscanner : us = [] → scanner = a) :
    Threads t (build generation symbol production us parseState lookahead isFragile scanner) a b := by
  have hbefore := h.before_eq scanner hscanner
  have hafter := h.after_eq scanner fun hnil => by
    subst hnil
    cases h
    exact hscanner rfl
  exact threads_node hbefore hafter h

theorem ThreadsAll.buildError (h : ThreadsAll t us a b) (generation parseState : Nat)
    (scanner : ScannerState) (hscanner : us = [] → scanner = a) :
    Threads t (buildError generation us parseState scanner) a b :=
  h.build _ _ _ _ _ _ hscanner

mutual

/-- A part of a subtree leads from one state to another as well. -/
theorem Threads.of_mem_parts {u : Subtree} {a b : ScannerState} (h : Threads t u a b)
    {start : Extent} {part : Subtree × Extent} (hpart : part ∈ parts start u) :
    Threads t part.1 part.1.info.scannerBefore part.1.info.scannerAfter := by
  cases h with
  | leaf keeps =>
    obtain rfl := List.mem_singleton.mp hpart
    exact .leaf keeps
  | node each =>
    rcases List.mem_cons.mp hpart with rfl | hpart
    · exact .node each
    · exact each.of_mem_partsOf hpart

theorem ThreadsAll.of_mem_partsOf {us : List Subtree} {a b : ScannerState}
    (h : ThreadsAll t us a b) {start : Extent} {part : Subtree × Extent}
    (hpart : part ∈ partsOf start us) :
    Threads t part.1 part.1.info.scannerBefore part.1.info.scannerAfter := by
  cases h with
  | nil => cases hpart
  | cons first rest =>
    rcases List.mem_append.mp hpart with hpart | hpart
    · exact first.of_mem_parts hpart
    · exact rest.of_mem_partsOf hpart

end

end Subtree

namespace SyntaxTree

open Subtree

/-! ### Leaves -/

/-- Whether leaves, one after the other, lead from one state of the scanner to another, and only
external tokens change it. -/
def Threaded (t : ParseTable) : ScannerState → List Node → ScannerState → Prop
  | a, [], b => a = b
  | a, n :: rest, b =>
    n.subtree.info.scannerBefore = a ∧
      (t.isExternal n.symbol = false → n.subtree.info.scannerAfter = a) ∧
      Threaded t n.subtree.info.scannerAfter rest b

variable {t : ParseTable} {a b c : ScannerState} {front back : List Node}

theorem threaded_append :
    Threaded t a (front ++ back) c ↔ ∃ b, Threaded t a front b ∧ Threaded t b back c := by
  induction front generalizing a with
  | nil => exact ⟨fun h => ⟨a, rfl, h⟩, fun ⟨b, hb, h⟩ => by cases hb; exact h⟩
  | cons n front ih =>
    simp only [List.cons_append, Threaded, ih]
    constructor
    · rintro ⟨hbefore, hkeeps, b, hfront, hback⟩
      exact ⟨b, ⟨hbefore, hkeeps, hfront⟩, hback⟩
    · rintro ⟨b, ⟨hbefore, hkeeps, hfront⟩, hback⟩
      exact ⟨hbefore, hkeeps, b, hfront, hback⟩

mutual

/-- The leaves of a subtree lead where it leads. -/
theorem threaded_leafNodes {u : Subtree} {a b : ScannerState} (h : Threads t u a b)
    (start : Extent) (path : List Nat) : Threaded t a (leafNodes start path u) b := by
  cases h with
  | leaf keeps => exact ⟨rfl, fun hexternal => (keeps hexternal).symm, rfl⟩
  | node each => exact threaded_leafNodesOf each start path 0

theorem threaded_leafNodesOf {us : List Subtree} {a b : ScannerState} (h : ThreadsAll t us a b)
    (start : Extent) (path : List Nat) (place : Nat) :
    Threaded t a (leafNodesOf start path place us) b := by
  cases h with
  | nil => rfl
  | cons first rest =>
    exact threaded_append.mpr
      ⟨_, threaded_leafNodes first start _, threaded_leafNodesOf rest _ path _⟩

end

/-- Each leaf goes on from the state that the one before it left. -/
theorem Threaded.isChain (h : Threaded t a front b) :
    front.IsChain fun n m => m.subtree.info.scannerBefore = n.subtree.info.scannerAfter := by
  induction front generalizing a with
  | nil => exact .nil
  | cons n front ih =>
    obtain ⟨-, -, hrest⟩ := h
    cases front with
    | nil => exact .singleton n
    | cons m front => exact .cons_cons hrest.1 (ih hrest)

/-- The state behind some leaves is the one behind the last external token among them. -/
theorem Threaded.after_eq (h : Threaded t a front b) :
    (match (front.filter fun n => t.isExternal n.symbol).getLast? with
      | some last => last.subtree.info.scannerAfter
      | none => a) = b := by
  induction front generalizing a with
  | nil => exact h
  | cons n front ih =>
    obtain ⟨-, hkeeps, hrest⟩ := h
    have hmore := ih hrest
    cases hexternal : t.isExternal n.symbol with
    | false =>
      rw [List.filter_cons_of_neg (by simp [hexternal]), ← hkeeps hexternal]
      exact hmore
    | true =>
      rw [List.filter_cons_of_pos (by simp [hexternal]), List.getLast?_cons]
      cases hlast : (front.filter fun n => t.isExternal n.symbol).getLast? with
      | none =>
        rw [hlast] at hmore
        exact hmore
      | some m =>
        rw [hlast] at hmore
        exact hmore

/-- The leaves before a leaf end up to its start. -/
theorem endByte_le_of_tiles {start stop : Nat} {n : Node}
    (h : Tiles start ((front ++ n :: back).map fun m => (m.startByte, m.endByte)) stop) :
    start ≤ n.startByte ∧ ∀ m ∈ front, m.endByte ≤ n.startByte := by
  induction front generalizing start with
  | nil => exact ⟨Nat.le_of_eq h.1.symm, fun m hm => absurd hm List.not_mem_nil⟩
  | cons m front ih =>
    obtain ⟨hstart, hlt, hrest⟩ := h
    obtain ⟨hend, hall⟩ := ih hrest
    refine ⟨by omega, fun m' hm' => ?_⟩
    rcases List.mem_cons.mp hm' with rfl | hm'
    · exact hend
    · exact hall m' hm'

theorem startByte_lt_of_tiles {start stop : Nat} {n : Node}
    (h : Tiles start ((front ++ n :: back).map fun m => (m.startByte, m.endByte)) stop) :
    n.startByte < n.endByte := by
  induction front generalizing start with
  | nil => exact h.1 ▸ h.2.1
  | cons m front ih => exact ih h.2.2

/-- The leaves that end up to the start of a leaf are those before it. -/
theorem takeWhile_of_tiles {start stop : Nat} {n : Node}
    (h : Tiles start ((front ++ n :: back).map fun m => (m.startByte, m.endByte)) stop) :
    (front ++ n :: back).takeWhile (fun m => m.endByte ≤ n.startByte) = front := by
  have hle := (endByte_le_of_tiles h).2
  have hlt := startByte_lt_of_tiles h
  rw [List.takeWhile_append_of_pos (fun m hm => decide_eq_true (hle m hm)),
    List.takeWhile_cons_of_neg (by simpa using hlt), List.append_nil]

/-- The state that is looked up at the start of a leaf is the one the leaf was found with. -/
theorem scannerStateAt_eq {tree : SyntaxTree} {length : Nat} {b : ScannerState}
    (htiles : Tiles 0 (tree.leaves.map fun n => (n.startByte, n.endByte)) length)
    (hthreaded : Threaded tree.table [] tree.leaves b) {n : Node} (hn : n ∈ tree.leaves) :
    tree.scannerStateAt n.startByte = n.subtree.info.scannerBefore := by
  obtain ⟨front, back, hleaves⟩ := List.append_of_mem hn
  rw [hleaves] at htiles hthreaded
  obtain ⟨before, hfront, hbefore, -⟩ := threaded_append.mp hthreaded
  rw [scannerStateAt, hleaves, takeWhile_of_tiles htiles, hbefore]
  exact hfront.after_eq

end SyntaxTree

end LRWorkbench
