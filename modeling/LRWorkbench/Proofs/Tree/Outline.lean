import LRWorkbench.Proofs.Tree.Derivation

/-!
# Outlines of trees

The **outline** of a subtree is what one sees of it when its error nodes are taken out: symbols,
productions and shape, and the sizes of the leaves, but neither flags nor the sizes of nodes. The
extras in an error node take its place (`Subtree.outline`). What was taken out is listed with its
places by `Subtree.faultsOf`; a derivation whose flag tells of no error has none.
-/

namespace LRWorkbench

/-- What is seen of a subtree. -/
inductive Outline where
  | leaf (symbol : Symbol) (size : Extent) (isExtra : Bool)
  | node (symbol : Symbol) (production : Option Nat) (children : List Outline)
  deriving Repr

namespace Outline

/-- The production of a node. -/
def production? : Outline → Option Nat
  | leaf _ _ _ => none
  | node _ production _ => production

def children : Outline → List Outline
  | leaf _ _ _ => []
  | node _ _ children => children

end Outline

namespace Subtree

/-- The outline of an extra. -/
def extraOutline? : Subtree → Option Outline
  | leaf i true => some (.leaf i.symbol i.size true)
  | _ => none

mutual

/-- The outline of a subtree. An error node has those of the extras in it. -/
def outline : Subtree → List Outline
  | leaf i x => [.leaf i.symbol i.size x]
  | node i p children =>
    if i.symbol.isError then children.filterMap extraOutline?
    else [.node i.symbol p (outlineOf children)]

/-- The outlines of several subtrees. -/
def outlineOf : List Subtree → List Outline
  | [] => []
  | t :: ts => outline t ++ outlineOf ts

end

theorem outlineOf_eq (ts : List Subtree) : outlineOf ts = ts.flatMap outline := by
  induction ts with
  | nil => rfl
  | cons t ts ih => rw [outlineOf, List.flatMap_cons, ih]

section Build

variable (generation parseState lookahead : Nat) {symbol : Symbol} (production : Option Nat)
  (children : List Subtree) (isFragile : Bool) (scanner : ScannerState)

theorem outline_build (h : symbol.isError = false) :
    (build generation symbol production children parseState lookahead isFragile scanner).outline =
      [.node symbol production (children.flatMap outline)] := by
  rw [build, outline, ← outlineOf_eq]
  exact if_neg (by simp [h])

theorem outline_buildError : (buildError generation children parseState scanner).outline =
    children.filterMap extraOutline? := by
  rw [buildError, build, outline]
  rfl

end Build

/-- What is no error has an outline of its own. -/
theorem exists_outline {t : Subtree} (h : t.isError = false) : ∃ o, t.outline = [o] := by
  cases t with
  | leaf i x => exact ⟨_, rfl⟩
  | node i p children =>
    have hsymbol : i.symbol.isError = false := h
    exact ⟨.node i.symbol p (outlineOf children), by simp [outline, hsymbol]⟩

/-- Nodes that stand for productions have the outlines of their children below them. -/
theorem outline_eq_of_children {t : Subtree} (h : t.isError = false) (hleaf : t.isLeaf = false) :
    t.outline = [.node t.symbol t.production? (t.children.flatMap outline)] := by
  cases t with
  | leaf i x => cases hleaf
  | node i p children =>
    have hsymbol : i.symbol.isError = false := h
    simp [outline, hsymbol, outlineOf_eq, symbol, info, production?, Subtree.children]

/-! ### Error nodes and their places -/

/-- Whether a part is an error node. Leaves are none. -/
def isFault (part : Subtree × Extent) : Bool := part.1.isError && !part.1.isLeaf

/-- The error nodes in subtrees that stand in a row, with their places. -/
def faultsOf (start : Extent) (ts : List Subtree) : List (Subtree × Extent) :=
  (partsOf start ts).filter isFault

section

variable {start : Extent} {t : Subtree} {ts us : List Subtree}

theorem faultsOf_append (start : Extent) (ts us : List Subtree) :
    faultsOf start (ts ++ us) = faultsOf start ts ++ faultsOf (stopOf start ts) us := by
  rw [faultsOf, partsOf_append, List.filter_append]
  rfl

/-- Leaves are no error nodes. -/
theorem faultsOf_of_leaves (h : ∀ t ∈ ts, t.isLeaf = true) : faultsOf start ts = [] := by
  induction ts generalizing start with
  | nil => rfl
  | cons t ts ih =>
    have ht := h t (List.mem_cons_self ..)
    cases t with
    | node => cases ht
    | leaf i x =>
      rw [← List.singleton_append, faultsOf_append, ih fun t ht => h t (List.mem_cons_of_mem _ ht),
        List.append_nil, faultsOf, partsOf, parts, partsOf]
      simp [isFault, isLeaf]

theorem faultsOf_singleton (start : Extent) (t : Subtree) : faultsOf start [t] =
    (if isFault (t, start) then [(t, start)] else []) ++ faultsOf start t.children := by
  rw [faultsOf, partsOf, partsOf, List.append_nil]
  cases t with
  | leaf i x => simp [parts, isFault, isLeaf, children, faultsOf, partsOf]
  | node i p children =>
    rw [parts, List.filter_cons]
    split
    · rfl
    · rfl

section Build

variable (generation parseState lookahead : Nat) {symbol : Symbol} (production : Option Nat)
  (isFragile : Bool) (scanner : ScannerState)

theorem size_gathered (ts : List Subtree) (g : Gathered) :
    (ts.foldl Gathered.add g).size = stopOf g.size ts := by
  induction ts generalizing g with
  | nil => rfl
  | cons t ts ih => exact ih _

theorem size_build : (build generation symbol production ts parseState lookahead isFragile
    scanner).size = stopOf Extent.zero ts :=
  size_gathered ts _

/-- A node ends where its children end. -/
theorem stopOf_build : stopOf start [build generation symbol production ts parseState lookahead
    isFragile scanner] = stopOf start ts := by
  change start + (build generation symbol production ts parseState lookahead isFragile scanner).size =
    _
  rw [size_build, ← stopOf_add, Extent.add_zero]

theorem faultsOf_build (h : symbol.isError = false) : faultsOf start
    [build generation symbol production ts parseState lookahead isFragile scanner] =
      faultsOf start ts := by
  rw [faultsOf_singleton, if_neg, List.nil_append]
  · rfl
  · have hsymbol : (build generation symbol production ts parseState lookahead isFragile
        scanner).isError = false := h
    rw [isFault, hsymbol]
    exact Bool.false_ne_true

theorem faultsOf_buildError : faultsOf start [buildError generation ts parseState scanner] =
    (buildError generation ts parseState scanner, start) :: faultsOf start ts := by
  rw [faultsOf_singleton]
  rfl

end Build

/-- Where a derivation has no error, there is no error node in it. -/
theorem Derived.faultsOf_eq_nil {g : PreparedGrammar} (h : Derived g t) (herror : t.hasError = false) :
    faultsOf start [t] = [] := by
  induction h generalizing start with
  | leaf => exact faultsOf_of_leaves (by simp [isLeaf])
  | error symbol flag each => exact absurd (flag.symm.trans herror) Bool.true_eq_false.mp
  | @phrase i p children stands known flag tokens each ih =>
    have hnone (ts : List Subtree) (hts : ∀ c ∈ ts, c ∈ children) : faultsOf start ts = [] := by
      induction ts generalizing start with
      | nil => rfl
      | cons c ts ihts =>
        have hc := hts c (List.mem_cons_self ..)
        rw [← List.singleton_append, faultsOf_append, ih c hc (flag herror c hc),
          ihts fun d hd => hts d (List.mem_cons_of_mem _ hd)]
        rfl
    rw [faultsOf_singleton, if_neg, List.nil_append]
    · exact hnone children fun c hc => hc
    · have hsymbol : (node i (some p) children).isError = false := decide_eq_false known
      rw [isFault, hsymbol]
      exact Bool.false_ne_true

end

end Subtree

end LRWorkbench
