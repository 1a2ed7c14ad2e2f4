import LRWorkbench.Prepared.Basic
import LRWorkbench.Proofs.Tree.Spelling

/-!
# Derivations of a grammar

`PreparedGrammar.Derives g s sentence` says that the terminals `sentence` make up a phrase `s`. A
subtree is a **derivation** (`Subtree.Derived`) if the steps of each of its nodes, error nodes
apart, are the symbols of a production. A derivation without errors spells out a sentence: its
leaves, without the extras, derive from its symbol (`Subtree.Derived.derives`).
-/

namespace LRWorkbench

namespace PreparedGrammar

mutual

/-- Whether some terminals make up a phrase. -/
inductive Derives (g : PreparedGrammar) : Symbol → List Symbol → Prop where
  | terminal {s : Symbol} (terminal : g.isTerminal s = true) : Derives g s [s]
  | phrase {p : Nat} {rule : Production} {sentence : List Symbol}
      (production : g.productions[p]? = some rule) (each : DerivesAll g rule.symbols sentence) :
      Derives g (g.nonTerminalSymbol rule.lhs) sentence

/-- Whether some terminals make up several phrases, one after the other. -/
inductive DerivesAll (g : PreparedGrammar) : List Symbol → List Symbol → Prop where
  | nil : DerivesAll g [] []
  | cons {s : Symbol} {rest : List Symbol} {front back : List Symbol} (first : Derives g s front)
      (each : DerivesAll g rest back) : DerivesAll g (s :: rest) (front ++ back)

end

variable {g : PreparedGrammar}

/-- What holds of terminals and is passed on from the steps of a production to its phrase holds of
all derivations. -/
theorem Derives.induct
    {P : Symbol → List Symbol → Prop} {Q : List Symbol → List Symbol → Prop}
    (terminal : ∀ s, g.isTerminal s = true → P s [s])
    (phrase : ∀ (p : Nat) (rule : Production) (sentence : List Symbol),
      g.productions[p]? = some rule → g.DerivesAll rule.symbols sentence →
      Q rule.symbols sentence → P (g.nonTerminalSymbol rule.lhs) sentence)
    (nil : Q [] [])
    (cons : ∀ s rest front back, g.Derives s front → g.DerivesAll rest back → P s front →
      Q rest back → Q (s :: rest) (front ++ back)) :
    (∀ s sentence, g.Derives s sentence → P s sentence) ∧
      ∀ symbols sentence, g.DerivesAll symbols sentence → Q symbols sentence :=
  ⟨fun _ _ => @Derives.rec g (fun s v _ => P s v) (fun ss v _ => Q ss v)
    (fun {s} hs => terminal s hs) (fun {p rule v} hp each ih => phrase p rule v hp each ih) nil
    (fun {s rest front back} first each => cons s rest front back first each) _ _,
  fun _ _ => @DerivesAll.rec g (fun s v _ => P s v) (fun ss v _ => Q ss v)
    (fun {s} hs => terminal s hs) (fun {p rule v} hp each ih => phrase p rule v hp each ih) nil
    (fun {s rest front back} first each => cons s rest front back first each) _ _⟩

theorem DerivesAll.append {symbols more sentence rest : List Symbol}
    (h : g.DerivesAll symbols sentence) (h' : g.DerivesAll more rest) :
    g.DerivesAll (symbols ++ more) (sentence ++ rest) := by
  induction symbols generalizing sentence with
  | nil =>
    cases h
    exact h'
  | cons s symbols ih =>
    cases h with
    | cons first each =>
      rw [List.append_assoc]
      exact .cons first (ih each)

/-- What several phrases make up can be taken apart between them. -/
theorem DerivesAll.exists_of_append {symbols more sentence : List Symbol}
    (h : g.DerivesAll (symbols ++ more) sentence) : ∃ front back, sentence = front ++ back ∧
      g.DerivesAll symbols front ∧ g.DerivesAll more back := by
  induction symbols generalizing sentence with
  | nil => exact ⟨[], sentence, rfl, .nil, h⟩
  | cons s symbols ih =>
    cases h with
    | cons first each =>
      obtain ⟨front, back, rfl, hfront, hback⟩ := ih each
      exact ⟨_, back, (List.append_assoc ..).symm, .cons first hfront, hback⟩

end PreparedGrammar

namespace Subtree

/-- The subtrees that are steps of a production. -/
def stepsOf (children : List Subtree) : List Subtree := children.filter fun t => !t.isIgnored

/-- Whether a node stands for a production of the grammar: it has the symbol of the phrase kind, and
its children, apart from extras and errors, have the symbols of the steps. -/
def StandsFor (g : PreparedGrammar) (t : Subtree) (p : Nat) : Prop :=
  ∃ rule, g.productions[p]? = some rule ∧ t.symbol = g.nonTerminalSymbol rule.lhs ∧
    (stepsOf t.children).map (·.symbol) = rule.symbols

/-- Whether a leaf is a terminal or an extra; nodes need not be either. -/
def IsToken (g : PreparedGrammar) (t : Subtree) : Prop :=
  t.isLeaf = true → t.isExtra = true ∨ g.isTerminal t.symbol = true ∧ t.symbol ≠ .error

/-- Whether all nodes, error nodes apart, stand for their productions. Errors show in all nodes
above them. -/
inductive Derived (g : PreparedGrammar) : Subtree → Prop where
  | leaf {i : SubtreeInfo} {x : Bool} : Derived g (.leaf i x)
  | error {i : SubtreeInfo} {children : List Subtree} (symbol : i.symbol = .error)
      (flag : i.hasError = true) (each : ∀ c ∈ children, Derived g c) :
      Derived g (.node i none children)
  | phrase {i : SubtreeInfo} {p : Nat} {children : List Subtree}
      (stands : StandsFor g (.node i (some p) children) p) (known : i.symbol ≠ .error)
      (flag : i.hasError = false → ∀ c ∈ children, c.hasError = false)
      (tokens : ∀ c ∈ children, IsToken g c) (each : ∀ c ∈ children, Derived g c) :
      Derived g (.node i (some p) children)

variable {g : PreparedGrammar}

/-- The symbols of the leaves that are no extras. -/
def sentence (t : Subtree) : List Symbol := (t.leaves.filter fun t => !t.isExtra).map (·.symbol)

theorem leavesOf_eq (children : List Subtree) : leavesOf children = children.flatMap leaves := by
  induction children with
  | nil => rfl
  | cons t ts ih => rw [leavesOf, List.flatMap_cons, ih]

theorem sentence_node (i : SubtreeInfo) (p : Option Nat) (children : List Subtree) :
    sentence (.node i p children) = children.flatMap sentence := by
  rw [sentence, leaves, leavesOf_eq, List.filter_flatMap, List.map_flatMap]
  rfl

/-- What the steps among some children derive, when there are no errors. -/
theorem derivesAll_of_children {children : List Subtree}
    (hderives : ∀ c ∈ children, c.isExtra = false → g.Derives c.symbol c.sentence)
    (hextras : ∀ c ∈ children, c.isIgnored = true → c.isExtra = true)
    (hleaf : ∀ c ∈ children, c.isExtra = true → c.sentence = []) :
    g.DerivesAll ((stepsOf children).map (·.symbol)) (children.flatMap sentence) := by
  induction children with
  | nil => exact .nil
  | cons c rest ih =>
    have hrest := ih (fun d hd => hderives d (List.mem_cons_of_mem _ hd))
      (fun d hd => hextras d (List.mem_cons_of_mem _ hd))
      (fun d hd => hleaf d (List.mem_cons_of_mem _ hd))
    have hc := List.mem_cons_self (a := c) (l := rest)
    cases hignored : c.isIgnored with
    | true =>
      have hsteps : stepsOf (c :: rest) = stepsOf rest := by simp [stepsOf, hignored]
      rw [hsteps, List.flatMap_cons, hleaf c hc (hextras c hc hignored), List.nil_append]
      exact hrest
    | false =>
      have hsteps : stepsOf (c :: rest) = c :: stepsOf rest := by simp [stepsOf, hignored]
      have hextra : c.isExtra = false := (Bool.or_eq_false_iff.mp hignored).1
      rw [hsteps, List.map_cons, List.flatMap_cons]
      exact .cons (hderives c hc hextra) hrest

theorem sentence_of_isExtra {t : Subtree} (h : t.isExtra = true) : t.sentence = [] := by
  cases t with
  | leaf i x =>
    obtain rfl : x = true := h
    rfl
  | node i p children => cases h

/-- Where there are no errors, what has the symbol of error nodes is an extra. -/
theorem isExtra_of_isError {t : Subtree} (h : Derived g t) (htoken : IsToken g t)
    (herror : t.hasError = false) (hsymbol : t.symbol.isError = true) : t.isExtra = true := by
  have hsymbol : t.symbol = .error := of_decide_eq_true hsymbol
  cases h with
  | leaf =>
    rcases htoken rfl with hextra | ⟨-, hne⟩
    · exact hextra
    · exact absurd hsymbol hne
  | error symbol flag each => exact absurd (flag.symm.trans herror) (by simp)
  | phrase stands known flag tokens each => exact absurd hsymbol known

/-- A derivation without errors is a sentence of its symbol. -/
theorem Derived.derives {t : Subtree} (h : Derived g t) (herror : t.hasError = false)
    (htoken : IsToken g t) (hextra : t.isExtra = false) : g.Derives t.symbol t.sentence := by
  induction h with
  | @leaf i x =>
    obtain rfl : x = false := hextra
    refine .terminal ?_
    rcases htoken rfl with h | h
    · cases h
    · exact h.1
  | error symbol flag each =>
    rename_i i children ih
    exact absurd (flag.symm.trans herror) (by simp)
  | phrase stands known flag tokens each ih =>
    rename_i i p children
    obtain ⟨rule, hrule, hsymbol, hsteps⟩ := stands
    have herrors := flag herror
    rw [hsymbol, sentence_node]
    refine .phrase hrule ?_
    rw [← hsteps]
    refine derivesAll_of_children (fun c hc hextra => ih c hc (herrors c hc) (tokens c hc) hextra)
      (fun c hc hignored => ?_) fun c _ hextra => sentence_of_isExtra hextra
    rcases Bool.or_eq_true_iff.mp hignored with hextra | hsymbol
    · exact hextra
    · exact isExtra_of_isError (each c hc) (tokens c hc) (herrors c hc) hsymbol

/-! ### Building derivations -/

theorem hasError_foldl (ts : List Subtree) (gathered : Gathered) :
    (ts.foldl Gathered.add gathered).hasError = (gathered.hasError || ts.any (·.hasError)) := by
  induction ts generalizing gathered with
  | nil => simp
  | cons t ts ih => rw [List.foldl_cons, ih, List.any_cons, Gathered.add, Bool.or_assoc]

section Build

variable {children : List Subtree} {symbol : Symbol} {p : Nat}

theorem derived_build (hproduction : ∃ rule, g.productions[p]? = some rule ∧
      symbol = g.nonTerminalSymbol rule.lhs ∧ (stepsOf children).map (·.symbol) = rule.symbols)
    (hsymbol : symbol ≠ .error) (htokens : ∀ c ∈ children, IsToken g c)
    (heach : ∀ c ∈ children, Derived g c) (generation parseState lookahead : Nat)
    (isFragile : Bool) (scanner : ScannerState) :
    Derived g
      (build generation symbol (some p) children parseState lookahead isFragile scanner) := by
  refine .phrase hproduction hsymbol (fun herror c hc => ?_) htokens heach
  have hall := (hasError_foldl children _).symm.trans herror
  rw [Bool.or_eq_false_iff] at hall
  exact List.any_eq_false.mp hall.2 c hc |> Bool.eq_false_iff.mpr

theorem derived_buildError (heach : ∀ c ∈ children, Derived g c) (generation parseState : Nat)
    (scanner : ScannerState) : Derived g (buildError generation children parseState scanner) := by
  refine .error rfl ?_ heach
  exact (hasError_foldl children _).trans (by simp [Symbol.isError])

end Build

/-- The children of a derivation are derivations. -/
theorem Derived.of_mem_children {t c : Subtree} (h : Derived g t) (hc : c ∈ t.children) :
    Derived g c := by
  cases h with
  | leaf => cases hc
  | error _ _ each => exact each c hc
  | phrase _ _ _ _ each => exact each c hc

/-- Where a derivation tells of no error its children do not either. -/
theorem Derived.hasError_of_mem_children {t c : Subtree} (h : Derived g t)
    (herror : t.hasError = false) (hc : c ∈ t.children) : c.hasError = false := by
  cases h with
  | leaf => cases hc
  | error _ flag _ => exact nomatch flag.symm.trans herror
  | phrase _ _ flag _ _ => exact flag herror c hc

theorem Derived.isToken_of_mem_children {t c : Subtree} (h : Derived g t)
    (hsymbol : t.symbol ≠ .error) (hc : c ∈ t.children) : IsToken g c := by
  cases h with
  | leaf => cases hc
  | error symbol _ _ => exact absurd symbol hsymbol
  | phrase _ _ _ tokens _ => exact tokens c hc

mutual

/-- All parts of a derivation are derivations. -/
theorem Derived.of_mem_parts {t : Subtree} (h : Derived g t) {start : Extent}
    {part : Subtree × Extent} (hpart : part ∈ parts start t) : Derived g part.1 := by
  cases t with
  | leaf i x =>
    rw [List.mem_singleton.mp hpart]
    exact h
  | node i p children =>
    rcases List.mem_cons.mp hpart with rfl | hpart
    · exact h
    · exact derived_of_mem_partsOf children (fun c hc => h.of_mem_children hc) hpart

theorem derived_of_mem_partsOf (ts : List Subtree) (h : ∀ t ∈ ts, Derived g t) {start : Extent}
    {part : Subtree × Extent} (hpart : part ∈ partsOf start ts) : Derived g part.1 := by
  cases ts with
  | nil => cases hpart
  | cons t ts =>
    rcases List.mem_append.mp hpart with hpart | hpart
    · exact Derived.of_mem_parts (h t (List.mem_cons_self ..)) hpart
    · exact derived_of_mem_partsOf ts (fun c hc => h c (List.mem_cons_of_mem _ hc)) hpart

end

/-- A node that is no error node stands for its production. -/
theorem Derived.exists_standsFor {t : Subtree} (h : Derived g t) (hleaf : t.isLeaf = false)
    (hsymbol : t.symbol ≠ .error) : ∃ p, t.production? = some p ∧ StandsFor g t p := by
  cases h with
  | leaf => cases hleaf
  | error symbol _ _ => exact absurd symbol hsymbol
  | phrase stands _ _ _ _ => exact ⟨_, rfl, stands⟩

end Subtree

end LRWorkbench
