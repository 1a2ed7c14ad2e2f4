import LRWorkbench.Proofs.Parsing.Ending
import LRWorkbench.Proofs.Parsing.Reading
import LRWorkbench.Proofs.Parsing.Reduction
import LRWorkbench.Proofs.Tree.Outline

/-!
# Sketches of the stack

A **sketch** shows the outlines on the stack, the top first, each with the state it leads to if it
is a step; what waits is on top. An error node is shown as the extras in it, so a sketch does not
tell whether there is one. It is enough to go on with: the current state can be seen in it
(`Parser.state_eq_sketch`), and what shifting, reducing and accepting make of the stack depends on
nothing else (`sketch_shift`, `sketch_reduce`, `outline_accept`).
-/

namespace LRWorkbench.Parsing

open Lalr PreparedGrammar Subtree

/-- An outline on the stack. -/
structure Stroke where
  outline : Outline
  /-- The state it leads to, if it is a step. -/
  state? : Option Nat

/-- What is seen of a stack, the top first. -/
abbrev Sketch := List Stroke

/-! ### What can be told from a sketch -/

namespace Sketch

/-- The current state. -/
def state (sketch : Sketch) : Nat := (sketch.filterMap (·.state?)).headD 0

/-- What is ignored on top. -/
def ignored (sketch : Sketch) : Sketch := sketch.takeWhile (·.state?.isNone)

/-- The topmost step and what is below it. -/
def fromStep (sketch : Sketch) : Sketch := sketch.dropWhile (·.state?.isNone)

/-- What is seen of the entries among which there are a number of steps, and what is below. -/
def splitSteps : Nat → Sketch → Sketch × Sketch
  | 0, sketch => ([], sketch)
  | _ + 1, [] => ([], [])
  | count + 1, stroke :: sketch =>
    let (front, rest) := splitSteps (if stroke.state?.isNone then count + 1 else count) sketch
    (stroke :: front, rest)

/-- Puts the steps of a production together. -/
def reduce (t : ParseTable) (production : Nat) (sketch : Sketch) : Sketch :=
  match t.production? production with
  | none => sketch
  | some rule =>
    let (steps, rest) := splitSteps rule.length sketch.fromStep
    sketch.ignored ++ ⟨.node rule.lhs (some production) (steps.map (·.outline)).reverse,
      t.goto? rest.state rule.lhs⟩ :: rest

/-- The complete tree: what is around the topmost step goes into it. -/
def whole (symbol : Symbol) (sketch : Sketch) : List Outline :=
  match sketch.fromStep with
  | [] => []
  | stroke :: below =>
    [.node symbol stroke.outline.production? ((below.map (·.outline)).reverse ++
      (stroke.outline.children ++ (sketch.ignored.map (·.outline)).reverse))]

variable {front rest : Sketch}

theorem ignored_append (h : ∀ stroke ∈ front, stroke.state? = none) (rest : Sketch) :
    ignored (front ++ rest) = front ++ ignored rest :=
  List.takeWhile_append_of_pos fun stroke hstroke => by simp [h stroke hstroke]

theorem fromStep_append (h : ∀ stroke ∈ front, stroke.state? = none) (rest : Sketch) :
    fromStep (front ++ rest) = fromStep rest :=
  List.dropWhile_append_of_pos fun stroke hstroke => by simp [h stroke hstroke]

theorem state_append (h : ∀ stroke ∈ front, stroke.state? = none) (rest : Sketch) :
    state (front ++ rest) = state rest := by
  rw [state, List.filterMap_append, List.filterMap_eq_nil_iff.mpr h]
  rfl

theorem splitSteps_zero (sketch : Sketch) : splitSteps 0 sketch = ([], sketch) := by
  cases sketch <;> rfl

/-- Strokes without a state on the top are popped together with the first step beneath them. -/
theorem splitSteps_append (h : ∀ stroke ∈ front, stroke.state? = none) (count : Nat)
    (rest : Sketch) : splitSteps (count + 1) (front ++ rest) =
      (front ++ (splitSteps (count + 1) rest).1, (splitSteps (count + 1) rest).2) := by
  induction front with
  | nil => rfl
  | cons stroke front ih =>
    have hnone : stroke.state?.isNone = true := by simp [h stroke (List.mem_cons_self ..)]
    rw [List.cons_append, splitSteps, if_pos hnone,
      ih fun stroke hstroke => h stroke (List.mem_cons_of_mem _ hstroke)]
    rfl

/-- What is around the topmost step is what is ignored above it and what is below. -/
theorem whole_append (h : ∀ stroke ∈ front, stroke.state? = none) (symbol : Symbol) (o : Outline)
    (q : Nat) (below : Sketch) : whole symbol (front ++ ⟨o, some q⟩ :: below) =
      [.node symbol o.production? ((below.map (·.outline)).reverse ++
        (o.children ++ (front.map (·.outline)).reverse))] := by
  rw [whole, fromStep_append h, ignored_append h]
  simp [fromStep, ignored]

/-- What is ignored on top stays on top. -/
theorem reduce_append (h : ∀ stroke ∈ front, stroke.state? = none) (t : ParseTable)
    (production : Nat) (rest : Sketch) :
    reduce t production (front ++ rest) = front ++ reduce t production rest := by
  rw [reduce, reduce]
  split
  · rfl
  · dsimp only
    rw [ignored_append h, fromStep_append h, List.append_assoc]

end Sketch

/-! ### Sketches of stacks -/

namespace Stack

/-- What is seen of an entry. -/
def strokes (e : Entry) : Sketch :=
  e.subtree.outline.reverse.map fun o => ⟨o, if e.subtree.isIgnored then none else some e.state⟩

/-- What is seen of a stack. -/
def sketch (stack : Stack) : Sketch := stack.flatMap strokes

variable {e : Entry} {stack front : Stack}

theorem sketch_cons (e : Entry) (stack : Stack) : sketch (e :: stack) = strokes e ++ sketch stack :=
  List.flatMap_cons ..

theorem sketch_append (front stack : Stack) :
    sketch (front ++ stack) = sketch front ++ sketch stack :=
  List.flatMap_append ..

/-- What is ignored shows in the sketch, but leads to no state. -/
theorem strokes_of_ignored (h : e.subtree.isIgnored = true) :
    strokes e = e.subtree.outline.reverse.map (⟨·, none⟩) := by
  rw [strokes, h]
  rfl

theorem state?_of_mem_strokes (h : e.subtree.isIgnored = true) :
    ∀ stroke ∈ strokes e, stroke.state? = none := by
  intro stroke hstroke
  rw [strokes_of_ignored h] at hstroke
  obtain ⟨o, -, rfl⟩ := List.mem_map.mp hstroke
  rfl

/-- A step is a tree with one outline, so that each step is one stroke of the sketch. -/
theorem strokes_of_step (h : e.subtree.isIgnored = false) {o : Outline}
    (ho : e.subtree.outline = [o]) : strokes e = [⟨o, some e.state⟩] := by
  rw [strokes, h, ho]
  rfl

theorem exists_strokes (h : e.subtree.isIgnored = false) :
    ∃ o, e.subtree.outline = [o] ∧ strokes e = [⟨o, some e.state⟩] := by
  obtain ⟨o, ho⟩ := exists_outline (Bool.or_eq_false_iff.mp h).2
  exact ⟨o, ho, strokes_of_step h ho⟩

theorem state?_of_mem_sketch (h : ∀ e ∈ front, e.subtree.isIgnored = true) :
    ∀ stroke ∈ sketch front, stroke.state? = none := by
  intro stroke hstroke
  obtain ⟨e, he, hstroke⟩ := List.mem_flatMap.mp hstroke
  exact state?_of_mem_strokes (h e he) stroke hstroke

/-- Of ignored entries only the subtrees are seen. -/
theorem sketch_map_of_ignored (h : ∀ e ∈ front, e.subtree.isIgnored = true) {f : Entry → Entry}
    (hf : ∀ e, (f e).subtree = e.subtree) : sketch (front.map f) = sketch front := by
  rw [sketch, List.flatMap_map]
  refine List.flatMap_congr fun e he => ?_
  have hignored : (f e).subtree.isIgnored = true := by rw [hf, h e he]
  rw [strokes_of_ignored hignored, strokes_of_ignored (h e he), hf]

/-- All states of the steps are seen. -/
theorem grammarStates_eq_sketch (stack : Stack) :
    grammarStates stack = (sketch stack).filterMap (·.state?) ++ [0] := by
  rw [grammarStates_eq]
  refine congrArg (· ++ [0]) ?_
  induction stack with
  | nil => rfl
  | cons e stack ih =>
    rw [sketch_cons, List.filterMap_append, ← ih]
    cases he : e.subtree.isIgnored with
    | true =>
      rw [steps_cons_of_ignored he, List.filterMap_eq_nil_iff.mpr (state?_of_mem_strokes he),
        List.nil_append]
    | false =>
      obtain ⟨o, -, hstrokes⟩ := exists_strokes he
      rw [steps_cons_of_not_ignored he, hstrokes]
      rfl

/-- Where the steps lead from state to state the current one is seen. -/
theorem Viable.state_eq_sketch {g : PreparedGrammar} (h : Viable g stack) :
    state stack = (sketch stack).state := by
  obtain ⟨below, hbelow⟩ := h.exists_grammarStates
  rw [grammarStates_eq_sketch] at hbelow
  rw [Sketch.state]
  cases hstates : (sketch stack).filterMap (·.state?) with
  | nil =>
    rw [hstates] at hbelow
    exact (List.cons.inj hbelow).1.symm
  | cons q states =>
    rw [hstates] at hbelow
    exact (List.cons.inj hbelow).1.symm

/-- The outlines that are seen are those of the subtrees. -/
theorem outlines_sketch (stack : Stack) :
    ((sketch stack).map (·.outline)).reverse = (subtrees stack).flatMap outline := by
  induction stack with
  | nil => rfl
  | cons e stack ih =>
    have hstrokes : ((strokes e).map (·.outline)).reverse = e.subtree.outline := by
      rw [strokes, List.map_map, List.map_reverse, List.reverse_reverse]
      exact List.map_id _
    rw [sketch_cons, List.map_append, List.reverse_append, ih, subtrees_cons, List.flatMap_append,
      hstrokes, List.flatMap_singleton]

/-- Popping what is ignored takes the same part from a stack and from its sketch. -/
theorem exists_splitIgnored (found : List Entry) (stack : Stack) :
    ∃ front rest, splitIgnored found stack = (front.reverse ++ found, rest) ∧
      stack = front ++ rest ∧ (∀ e ∈ front, e.subtree.isIgnored = true) ∧
      (sketch stack).ignored = sketch front ∧ (sketch stack).fromStep = sketch rest := by
  induction stack generalizing found with
  | nil => exact ⟨[], [], rfl, rfl, fun _ he => absurd he List.not_mem_nil, rfl, rfl⟩
  | cons e stack ih =>
    cases he : e.subtree.isIgnored with
    | true =>
      obtain ⟨front, rest, hsplit, rfl, hfront, hignored, hstep⟩ := ih (e :: found)
      have hstrokes := state?_of_mem_strokes he
      refine ⟨e :: front, rest, ?_, rfl, fun e' he' => ?_, ?_, ?_⟩
      · rw [splitIgnored, if_pos he, hsplit, List.reverse_cons, List.append_assoc]
        rfl
      · rcases List.mem_cons.mp he' with rfl | he'
        · exact he
        · exact hfront e' he'
      · rw [sketch_cons, Sketch.ignored_append hstrokes, hignored, sketch_cons]
      · rw [sketch_cons, Sketch.fromStep_append hstrokes, hstep]
    | false =>
      obtain ⟨o, -, hstrokes⟩ := exists_strokes he
      refine ⟨[], e :: stack, ?_, rfl, fun _ he => absurd he List.not_mem_nil, ?_, ?_⟩
      · rw [splitIgnored, if_neg (by simp [he])]
        rfl
      · rw [sketch_cons, hstrokes]
        rfl
      · rw [sketch_cons, hstrokes]
        rfl

/-- Popping a number of steps takes the same part from a stack and from its sketch. -/
theorem exists_splitSteps (found : List Entry) (count : Nat) (stack : Stack) :
    ∃ front rest, splitSteps found count stack = (front.reverse ++ found, rest) ∧
      stack = front ++ rest ∧ (sketch stack).splitSteps count = (sketch front, sketch rest) := by
  induction stack generalizing found count with
  | nil => cases count <;> exact ⟨[], [], rfl, rfl, rfl⟩
  | cons e stack ih =>
    cases count with
    | zero => exact ⟨[], e :: stack, rfl, rfl, Sketch.splitSteps_zero _⟩
    | succ count =>
      obtain ⟨front, rest, hsplit, hstack, hsketch⟩ :=
        ih (e :: found) (if e.subtree.isIgnored then count + 1 else count)
      refine ⟨e :: front, rest, ?_, by rw [hstack]; rfl, ?_⟩
      · rw [splitSteps, hsplit, List.reverse_cons, List.append_assoc]
        rfl
      · rw [sketch_cons, sketch_cons]
        cases he : e.subtree.isIgnored with
        | true =>
          rw [he, if_pos rfl] at hsketch
          rw [Sketch.splitSteps_append (state?_of_mem_strokes he), hsketch]
        | false =>
          rw [he] at hsketch
          obtain ⟨o, -, hstrokes⟩ := exists_strokes he
          rw [hstrokes, List.singleton_append, Sketch.splitSteps]
          exact congrArg (fun split : Sketch × Sketch => (Stroke.mk o (some e.state) :: split.1,
            split.2)) hsketch

end Stack

/-- What is seen of a token. -/
def Setting.leafOutline (s : Setting) (token : Token) : Outline :=
  .leaf token.symbol (Extent.of (Text.slice token.start token.stop s.text)) token.isExtra

namespace Parser

/-- What is seen of a parser: what waits, and the stack. -/
def sketch (p : Parser) : Sketch :=
  (p.pending.reverse.flatMap fun e => e.1.outline.reverse.map fun o => ⟨o, none⟩) ++
    Stack.sketch p.stack

variable {g : PreparedGrammar} {s : Setting} {p : Parser} {token : Token}

theorem state?_of_mem_pending (p : Parser) : ∀ stroke ∈ (p.pending.reverse.flatMap fun e =>
    e.1.outline.reverse.map fun o => Stroke.mk o none), stroke.state? = none := by
  intro stroke hstroke
  obtain ⟨e, -, hstroke⟩ := List.mem_flatMap.mp hstroke
  obtain ⟨o, -, rfl⟩ := List.mem_map.mp hstroke
  rfl

/-- What waits leads to no state, so the current state is that of the topmost step in the sketch. -/
theorem Sound.state_eq_sketch (h : p.Sound g) : p.state = p.sketch.state := by
  rw [sketch, Sketch.state_append p.state?_of_mem_pending, ← h.viable.state_eq_sketch]
  rfl

/-- The states beneath, which a reduction goes back to, can be seen in the sketch too. -/
theorem grammarStates_eq_sketch (p : Parser) :
    Stack.grammarStates p.stack = p.sketch.filterMap (·.state?) ++ [0] := by
  rw [sketch, List.filterMap_append, List.filterMap_eq_nil_iff.mpr p.state?_of_mem_pending,
    List.nil_append, Stack.grammarStates_eq_sketch]

/-- It does not matter whether extras wait or are on the stack. -/
theorem Sound.sketch_flush (h : p.Sound g) : Stack.sketch p.flush.stack = p.sketch := by
  rw [Parser.flush, Stack.pushAllIgnored_eq, Stack.sketch_append, sketch, Stack.sketch, ← List.map_reverse,
    List.flatMap_map]
  refine congrArg (· ++ Stack.sketch p.stack) (List.flatMap_congr fun e he => ?_)
  exact Stack.strokes_of_ignored (h.pending e (List.mem_reverse.mp he)).2

/-! ### Tokens -/

/-- What is seen of the leaf of a token. -/
theorem outline_leaf (s : Setting) (token : Token) (parseState lexState : Nat) (isFragile : Bool) :
    (s.leaf token parseState lexState isFragile).outline = [s.leafOutline token] := rfl

/-- Shifting puts one stroke on the sketch, which tells the leaf of the token and the next state. -/
theorem Sound.sketch_shift (h : p.Sound g) (hextra : token.isExtra = false)
    (hsymbol : token.symbol.isError = false) (next : Nat) :
    Stack.sketch (p.shift s next token).stack = ⟨s.leafOutline token, some next⟩ :: p.sketch := by
  have hstep : (s.leaf token p.state next token.errorMode).isIgnored = false := by
    rw [isIgnored, Setting.leaf, Subtree.isExtra, hextra, Bool.false_or]
    exact hsymbol
  rw [← h.sketch_flush, ← List.singleton_append]
  change Stack.sketch (⟨next, s.leaf token p.state next token.errorMode, token.start⟩ ::
    p.flush.stack) = _
  rw [Stack.sketch_cons]
  exact congrArg (· ++ _)
    (Stack.strokes_of_step (e := ⟨next, s.leaf token p.state next token.errorMode, token.start⟩)
      hstep (outline_leaf ..))

theorem Sound.grammarStates_shift (h : p.Sound g) (hextra : token.isExtra = false)
    (hsymbol : token.symbol.isError = false) (next : Nat) :
    Stack.grammarStates (p.shift s next token).stack = next :: Stack.grammarStates p.stack := by
  rw [Stack.grammarStates_eq_sketch, h.sketch_shift hextra hsymbol, grammarStates_eq_sketch]
  rfl

/-! ### Phrases -/

/-- A reduction does to what is seen what the production says. -/
theorem Sound.sketch_reduce (h : p.Sound g) (hg : g.Compiles s.table) {production : Nat}
    (haction : s.table.action p.state token.symbol = .reduce production) :
    (p.reduce s production token).sketch = p.sketch.reduce s.table production := by
  obtain ⟨rule, hrule, hgoto⟩ := exists_goto_of_action h.viable hg haction
  have hsymbol : rule.lhs.isError = false := by
    obtain ⟨made, hmade, -⟩ := hg.complete_of_reduce haction
    rw [hg.production?_eq, hmade] at hrule
    obtain rfl := Option.some.inj hrule
    exact decide_eq_false (hg.nonTerminalSymbol_ne_error (hg.lhs_lt hmade))
  obtain ⟨trailing, stack, hsplit, hstack, htrailing, hignored, hstep⟩ :=
    Stack.exists_splitIgnored [] p.stack
  obtain ⟨front, rest, hsteps, rfl, hseen⟩ := Stack.exists_splitSteps [] rule.length stack
  have hviable := h.viable
  rw [hstack] at hviable
  rw [hsplit, hsteps] at hgoto
  obtain ⟨next, hnext⟩ := Option.isSome_iff_exists.mp hgoto
  have hstate : Stack.stateAbove 0 rest = Stack.state rest := by cases rest <;> rfl
  -- the stack as it is afterwards
  have hreduced : Stack.sketch (reduceAbove s production rule token 0 p.stack) =
      (Stack.sketch p.stack).reduce s.table production := by
    rw [reduceAbove, hsplit]
    dsimp only
    rw [hsteps]
    dsimp only
    rw [List.append_nil, List.append_nil, hstate, Stack.pushAllIgnored_eq, List.map_map,
      List.map_reverse, List.reverse_reverse, Stack.sketch_append, Stack.sketch_cons, Sketch.reduce,
      hrule]
    dsimp only
    rw [hstep, hseen, hignored, ← hviable.of_append.of_append.state_eq_sketch, hnext]
    dsimp only
    have hentry : Stack.strokes (entryOver s production rule token front.reverse
        (Stack.state rest) (Stack.stop rest) (stackScanner rest)) =
          [⟨.node rule.lhs (some production) ((Stack.subtrees front).flatMap outline),
            some next⟩] := by
      rw [entryOver, hnext]
      dsimp only
      refine Stack.strokes_of_step ?_ ?_
      · exact hsymbol
      · dsimp only
        rw [outline_build _ _ _ _ _ _ _ hsymbol, List.map_reverse]
        rfl
    rw [Stack.outlines_sketch, hentry]
    exact congrArg (· ++ _) (Stack.sketch_map_of_ignored htrailing fun _ => rfl)
  rw [reduce_eq hrule, sketch, sketch, Sketch.reduce_append p.state?_of_mem_pending]
  exact congrArg (_ ++ ·) hreduced

/-- The complete tree can be told from what is seen where the input is accepted. -/
theorem Sound.outline_accept (h : p.Sound g) (hg : g.Compiles s.table)
    (haction : s.table.action p.state token.symbol = .accept) :
    (p.accept s).root.outline = p.sketch.whole s.table.startSymbol := by
  obtain ⟨t, production, before, after, hstart⟩ := h.exists_accepted hg haction
  have hsymbol : t.isError = false := decide_eq_false hstart.known
  have hstartSymbol : s.table.startSymbol.isError = false := by
    rw [hg.startSymbol_eq, ← hstart.symbol]
    exact hsymbol
  -- the entries on the stack
  have hsubtrees : p.flush.stack.map (·.subtree) = after.reverse ++ t :: before.reverse := by
    rw [← List.reverse_reverse (List.map _ _)]
    change (Stack.subtrees p.flush.stack).reverse = _
    rw [hstart.subtrees, List.reverse_append, List.reverse_cons, List.append_assoc]
    rfl
  obtain ⟨front, stack, hstack, hfront, hrest⟩ := List.map_eq_append_iff.mp hsubtrees
  obtain ⟨e, rest, rfl, rfl, hbelow⟩ := List.map_eq_cons_iff.mp hrest
  have hignored : ∀ e ∈ front, e.subtree.isIgnored = true := by
    intro e he
    refine hstart.ignoredAfter _ (List.mem_reverse.mp ?_)
    rw [← hfront]
    exact List.mem_map_of_mem he
  have hstep : e.subtree.isIgnored = false := by
    have hextra : e.subtree.isExtra = false := by
      have hleaf := hstart.isLeaf
      cases hsubtree : e.subtree with
      | leaf i x =>
        rw [hsubtree] at hleaf
        cases hleaf
      | node i production children => rfl
    exact Bool.or_eq_false_iff.mpr ⟨hextra, hsymbol⟩
  have houtline := outline_eq_of_children hsymbol hstart.isLeaf
  have hseen : ∀ {ts : List Subtree} {stack : Stack}, stack.map (·.subtree) = ts.reverse →
      ((Stack.sketch stack).map (·.outline)).reverse = ts.flatMap outline := by
    intro ts stack hts
    rw [Stack.outlines_sketch, Stack.subtrees, hts, List.reverse_reverse]
  rw [Parser.accept, hstart.unwrapped]
  dsimp only
  rw [← h.sketch_flush, hstack, Stack.sketch_append, Stack.sketch_cons,
    Stack.strokes_of_step hstep houtline, List.singleton_append,
    Sketch.whole_append (Stack.state?_of_mem_sketch hignored), hseen hbelow, hseen hfront]
  change (build _ _ _ _ _ _ _ _).outline = _
  rw [outline_build _ _ _ _ _ _ _ hstartSymbol]
  simp only [Outline.production?, Outline.children, hstart.production_eq, List.flatMap_append]

end Parser

end LRWorkbench.Parsing
