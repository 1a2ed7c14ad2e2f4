import LRWorkbench.Proofs.Parsing.Reading
import Mathlib.Algebra.Ring.Nat

/-!
# What a run builds above a state

`Parser.Builds s stop q first p` says that a run which meets the token `first` in the state `q`
builds the stack of `p` above that state, and then stands where `p` does; all that it looks at on
the way lies before `stop`. What is built stands in a row from the token on, and what subtrees
remember of states and of the scanner is right for it (`Parser.Built`).
-/

namespace LRWorkbench.Parsing

open Subtree Text

mutual

/-- The leaf that a subtree begins with; none if it begins with an empty node. -/
def opening? : Subtree → Option Subtree
  | .leaf i x => some (.leaf i x)
  | .node _ _ children => openingOf? children

/-- The leaf that the first of several subtrees begins with. -/
def openingOf? : List Subtree → Option Subtree
  | [] => none
  | t :: _ => opening? t

end

namespace Stack

/-- The subtrees of the entries with their starts, in the order of the text. -/
def entries (stack : Stack) : List (Subtree × Nat) :=
  (stack.map fun e => (e.subtree, e.start)).reverse

theorem entries_cons (e : Entry) (stack : Stack) :
    entries (e :: stack) = entries stack ++ [(e.subtree, e.start)] := by
  rw [entries, List.map_cons, List.reverse_cons]
  rfl

/-- What is pushed later stands further on in the text. -/
theorem entries_append (front rest : Stack) :
    entries (front ++ rest) = entries rest ++ entries front := by
  rw [entries, List.map_append, List.reverse_append]
  rfl

/-- What waits stands behind what is on the stack. -/
theorem entries_pushAllIgnored (stack : Stack) (waiting : List (Subtree × Nat)) :
    entries (pushAllIgnored stack waiting) = entries stack ++ waiting := by
  obtain ⟨front, hfront, hentries, -⟩ := pushAllIgnored_spec stack waiting
  rw [hfront, entries_append, entries, entries, hentries, List.reverse_reverse]

end Stack

/-- Whether subtrees stand one behind the other from one place to another. -/
def LinedUp (start : Nat) : List (Subtree × Nat) → Nat → Prop
  | [], stop => start = stop
  | e :: rest, stop => e.2 = start ∧ LinedUp (start + e.1.length) rest stop

/-- Subtrees in a row are a first part in a row and the rest behind it. -/
theorem linedUp_append {start stop : Nat} {xs ys : List (Subtree × Nat)} :
    LinedUp start (xs ++ ys) stop ↔ ∃ middle, LinedUp start xs middle ∧ LinedUp middle ys stop := by
  induction xs generalizing start with
  | nil => simp [LinedUp]
  | cons e xs ih =>
    rw [List.cons_append, LinedUp, ih]
    simp only [LinedUp, and_assoc, exists_and_left]

theorem linedUp_singleton {start stop : Nat} {e : Subtree × Nat} :
    LinedUp start [e] stop ↔ e.2 = start ∧ start + e.1.length = stop :=
  Iff.rfl

/-- A row runs forward, and nothing in it starts before it does. -/
theorem LinedUp.le {start stop : Nat} {xs : List (Subtree × Nat)} (h : LinedUp start xs stop) :
    start ≤ stop ∧ ∀ e ∈ xs, start ≤ e.2 := by
  induction xs generalizing start with
  | nil => exact ⟨Nat.le_of_eq h, fun _ he => absurd he List.not_mem_nil⟩
  | cons e xs ih =>
    obtain ⟨hstart, hrest⟩ := h
    obtain ⟨hle, hall⟩ := ih hrest
    refine ⟨Nat.le_trans (Nat.le_add_right ..) hle, fun e' he' => ?_⟩
    rcases List.mem_cons.mp he' with rfl | he'
    · exact Nat.le_of_eq hstart.symm
    · exact Nat.le_trans (Nat.le_add_right ..) (hall e' he')

/-- A row is as long as its subtrees together. -/
theorem LinedUp.stop_eq {start stop : Nat} {xs : List (Subtree × Nat)} (h : LinedUp start xs stop) :
    stop = start + ((xs.map (·.1)).map (·.length)).sum := by
  induction xs generalizing start with
  | nil => exact h.symm
  | cons e xs ih =>
    rw [ih h.2, List.map_cons, List.map_cons, List.sum_cons, Nat.add_assoc]

namespace Parser

/-! ### What a node gathers from its children -/

theorem bytes_foldl_add (ts : List Subtree) (g : Gathered) :
    (ts.foldl Gathered.add g).size.bytes = g.size.bytes + (ts.map (·.length)).sum := by
  induction ts generalizing g with
  | nil => rfl
  | cons t ts ih =>
    have hsize : (g.add t).size.bytes = g.size.bytes + t.length := rfl
    rw [List.foldl_cons, ih, hsize, List.map_cons, List.sum_cons, Nat.add_assoc]

/-- A node is as long as its children together. -/
theorem length_build (generation : Nat) (symbol : Symbol) (production : Option Nat)
    (children : List Subtree) (parseState lookahead : Nat) (isFragile : Bool)
    (scanner : ScannerState) :
    (build generation symbol production children parseState lookahead isFragile scanner).length =
      (children.map (·.length)).sum :=
  (bytes_foldl_add children _).trans (Nat.zero_add _)

/-- What a node gathers is more than what each child brings: it is fragile if one of them is, and it
looks as far ahead as each of them does from where it stands. -/
theorem foldl_add_spec {start stop place : Nat} {entries : List (Subtree × Nat)} {g g' : Gathered}
    (h : LinedUp place entries stop) (hplace : place = start + g.size.bytes)
    (hg : (entries.map (·.1)).foldl Gathered.add g = g') :
    g.lookahead ≤ g'.lookahead ∧
      (g'.isFragile = false → g.isFragile = false ∧ ∀ e ∈ entries, e.1.isFragile = false) ∧
      ∀ e ∈ entries, e.2 + e.1.length + e.1.info.lookaheadBytes ≤ start + g'.lookahead := by
  induction entries generalizing place g with
  | nil =>
    obtain rfl : g = g' := hg
    exact ⟨Nat.le_refl _, fun h => ⟨h, fun _ he => absurd he List.not_mem_nil⟩,
      fun _ he => absurd he List.not_mem_nil⟩
  | cons e entries ih =>
    obtain ⟨hstart, hrest⟩ := h
    have hsize : (g.add e.1).size.bytes = g.size.bytes + e.1.length := rfl
    have hlookahead : (g.add e.1).lookahead =
        max g.lookahead (g.size.bytes + e.1.length + e.1.info.lookaheadBytes) := rfl
    obtain ⟨hle, hfragile, hall⟩ := ih (g := g.add e.1) hrest (by omega) hg
    refine ⟨by omega, fun h => ?_, fun e' he' => ?_⟩
    · obtain ⟨hadded, hothers⟩ := hfragile h
      obtain ⟨hbefore, he⟩ := Bool.or_eq_false_iff.mp hadded
      refine ⟨hbefore, fun e' he' => ?_⟩
      rcases List.mem_cons.mp he' with rfl | he'
      · exact he
      · exact hothers e' he'
    · rcases List.mem_cons.mp he' with rfl | he'
      · omega
      · exact hall e' he'

/-- The children of a calm node are calm, and so is the token that it was put together before. -/
theorem calm_of_build {start stop range : Nat} {entries : List (Subtree × Nat)} {generation : Nat}
    {symbol : Symbol} {production : Option Nat} {parseState lookahead : Nat} {isFragile : Bool}
    {scanner : ScannerState} (hentries : LinedUp start entries stop)
    (h : Calm range start (build generation symbol production (entries.map (·.1)) parseState
      lookahead isFragile scanner)) :
    isFragile = false ∧ start + lookahead ≤ range ∧ ∀ e ∈ entries, Calm range e.2 e.1 := by
  obtain ⟨hcalm, hreach⟩ := h
  obtain ⟨hle, hfragile, hall⟩ := foldl_add_spec hentries (Nat.add_zero start).symm
    (Eq.refl ((entries.map (·.1)).foldl Gathered.add
      ⟨Extent.zero, lookahead, symbol.isError, isFragile, none⟩))
  have hnode : start + ((entries.map (·.1)).foldl Gathered.add
      ⟨Extent.zero, lookahead, symbol.isError, isFragile, none⟩).lookahead ≤ range := by
    simp only [build, length, size, info] at hreach
    omega
  obtain ⟨hfirst, hothers⟩ := hfragile hcalm
  exact ⟨hfirst, by dsimp only at hle; omega, fun e he => ⟨hothers e he, Nat.le_trans (hall e he) hnode⟩⟩

/-! ### The state to look for the next token in -/

/-- The state that the token after some subtrees was looked for in, if it is known before them. -/
def lexAfter : Option Nat → List Subtree → Option Nat
  | before, [] => before
  | before, t :: ts =>
    lexAfter (if t.length > 0 && !t.isExtra then t.info.lexState else before) ts

/-- The state that a node remembers for looking further is found by going through its children. -/
theorem lexState_foldl_add (ts : List Subtree) (g : Gathered) :
    (ts.foldl Gathered.add g).lexState = lexAfter g.lexState ts := by
  induction ts generalizing g with
  | nil => rfl
  | cons t ts ih => exact ih (g.add t)

theorem lexAfter_append (before : Option Nat) (ts us : List Subtree) :
    lexAfter before (ts ++ us) = lexAfter (lexAfter before ts) us := by
  induction ts generalizing before with
  | nil => rfl
  | cons t ts ih => exact ih _

/-- What is known from the subtrees alone does not depend on what was known before. -/
theorem lexAfter_mono {before before' : Option Nat} (h : ∀ n, before = some n → before' = some n)
    {ts : List Subtree} {n : Nat} (hn : lexAfter before ts = some n) :
    lexAfter before' ts = some n := by
  induction ts generalizing before before' with
  | nil => exact h n hn
  | cons t ts ih =>
    refine ih (fun m hm => ?_) hn
    split at hm
    · rename_i ht
      rw [if_pos ht, hm]
    · rename_i ht
      rw [if_neg ht, h m hm]

/-- Empty subtrees leave open where the next token was looked for. -/
theorem lexAfter_eq_self {before : Option Nat} {ts : List Subtree} (h : ∀ t ∈ ts, t.length = 0) :
    lexAfter before ts = before := by
  induction ts with
  | nil => rfl
  | cons t ts ih =>
    have ht := h t (List.mem_cons_self ..)
    rw [lexAfter, ht]
    exact ih fun u hu => h u (List.mem_cons_of_mem _ hu)

/-- A node tells no more about the token after it than its children. -/
theorem lexAfter_node {before : Option Nat} {generation : Nat} {symbol : Symbol}
    {production : Option Nat} {children : List Subtree} {parseState lookahead : Nat}
    {isFragile : Bool} {scanner : ScannerState} {n : Nat}
    (h : lexAfter before [build generation symbol production children parseState lookahead isFragile
      scanner] = some n) : lexAfter before children = some n := by
  rw [lexAfter, lexAfter] at h
  split at h
  · have hnode := (lexState_foldl_add children _).symm.trans h
    exact lexAfter_mono (fun n hn => by cases hn) hnode
  · rename_i hempty
    have hlength : (children.map (·.length)).sum = 0 := by
      rw [length_build] at hempty
      simpa [isExtra, build] using hempty
    rw [lexAfter_eq_self fun t ht =>
      List.sum_eq_zero_iff_forall_eq_nat.mp hlength _ (List.mem_map_of_mem ht)]
    exact h

/-! ### Building above a state -/

/-- Whether a run that meets a token in a state makes a parser, as it is before it reads, of what it
builds above that state, and all tokens behind the first one are calm. -/
inductive Builds (s : Setting) (stop q : Nat) (first : Token) : Parser → Prop where
  | first {next : Nat} (action : s.table.action q first.symbol = .shift next) :
      Builds s stop q first ⟨[⟨next, s.leaf first q next first.errorMode, first.start⟩], [],
        first.stop, first.scannerAfter, none⟩
  | shift {p r : Parser} {token : Token} {next : Nat} (before : Builds s stop q first p)
      (reads : Reads s p token r) (calm : CalmToken stop token)
      (action : s.table.action p.state token.symbol = .shift next) :
      Builds s stop q first (r.shift s next token)
  | reduce {p r : Parser} {token : Token} {production : Nat} {rule : TableProduction}
      (before : Builds s stop q first p) (reads : Reads s p token r) (calm : CalmToken stop token)
      (action : s.table.action p.state token.symbol = .reduce production)
      (rule_eq : s.table.production? production = some rule) (step : Stack.steps p.stack ≠ [])
      (le : rule.length ≤ (Stack.steps p.stack).length) :
      Builds s stop q first { p with
        stack := reduceAbove s production rule token q p.stack
        lexState := some p.lookState }

/-- Whether an entry begins with a token that is met in a state, above which a node leads on. -/
structure Rooted (s : Setting) (q : Nat) (first : Token) (e : Entry) : Prop where
  opening : ∃ next, s.table.action q first.symbol = .shift next ∧
    opening? e.subtree = some (s.leaf first q next first.errorMode)
  scannerBefore : e.subtree.info.scannerBefore = first.scannerBefore
  node : e.subtree.isLeaf = false → e.subtree.isFragile = false →
    e.subtree.info.parseState = q ∧ s.table.goto? q e.subtree.symbol = some e.state

/-- What is known of what a run builds above a state. -/
structure Built (s : Setting) (q : Nat) (first : Token) (p : Parser) : Prop where
  pending : p.pending = []
  linedUp : LinedUp first.start (Stack.entries p.stack) p.position
  scanner : stackScanner p.stack = p.scanner
  lexState : ∀ n, lexAfter none (Stack.subtrees p.stack) = some n → n = p.lookState
  bottom : ∃ above e, p.stack = above ++ [e] ∧ Rooted s q first e
  place : ∃ front back, s.text = front ++ back ∧ p.position = byteLength front

variable {s : Setting} {q stop : Nat} {first token : Token} {p r : Parser} {g : PreparedGrammar}

theorem isFragile_foldl_add (ts : List Subtree) (gathered : Gathered) :
    (ts.foldl Gathered.add gathered).isFragile = (gathered.isFragile || ts.any (·.isFragile)) := by
  induction ts generalizing gathered with
  | nil => simp
  | cons t ts ih => rw [List.foldl_cons, ih, Gathered.add, List.any_cons, Bool.or_assoc]

/-- A node is fragile if it was made so or one of its children is. -/
theorem isFragile_build (generation : Nat) (symbol : Symbol) (production : Option Nat)
    (children : List Subtree) (parseState lookahead : Nat) (isFragile : Bool)
    (scanner : ScannerState) :
    (build generation symbol production children parseState lookahead isFragile scanner).isFragile =
      (isFragile || children.any (·.isFragile)) :=
  isFragile_foldl_add children _

/-- Error nodes are fragile, so nothing that has one in it is taken over. -/
theorem isFragile_buildError (generation : Nat) (children : List Subtree) (parseState : Nat)
    (scanner : ScannerState) :
    (buildError generation children parseState scanner).isFragile = true :=
  isFragile_build ..

/-- The extras that are read stand between the place and the token. -/
theorem Reads.linedUp (h : Reads s p token r) (ht : s.table.SparesEnd) {start : Nat}
    (hstart : LinedUp start p.pending p.position) {front back : List Char}
    (htext : s.text = front ++ back) (hposition : p.position = byteLength front) :
    LinedUp start r.pending token.start := by
  induction h generalizing front back with
  | @extra p r first token found isExtra rest ih =>
    subst found
    obtain ⟨piece, rest, htakes, rfl⟩ := takes_found (s := s) ht htext hposition
    refine ih ?_ htakes.text_eq (position_wait htakes)
    refine linedUp_append.mpr ⟨_, hstart, ?_⟩
    have hlength := length_leaf htakes p.state p.lookState (p.found s).errorMode
    refine linedUp_singleton.mpr ⟨?_, ?_⟩
    · rw [hposition, htakes.start_eq]
    · rw [hlength, hposition]
      exact htakes.stop_eq.symm
  | @last p token found isExtra =>
    subst found
    obtain ⟨piece, rest, htakes, rfl⟩ := takes_found (s := s) ht htext hposition
    rw [htakes.start_eq, ← hposition]
    exact hstart

/-! ### What is known of what is built -/

/-- What is known of the entry that a reduction makes of some steps. -/
structure MadeOf (s : Setting) (rule : TableProduction) (steps : List Entry) (state stop : Nat)
    (scanner : ScannerState) (e : Entry) : Prop where
  start : e.start = (steps.head?.map (·.start)).getD stop
  length : e.subtree.length = ((steps.map (·.subtree)).map (·.length)).sum
  scannerAfter : e.subtree.info.scannerAfter =
    (steps.getLast?.map (·.subtree.info.scannerAfter)).getD scanner
  lexState : ∀ before n, lexAfter before [e.subtree] = some n →
    lexAfter before (steps.map (·.subtree)) = some n
  opening : opening? e.subtree = openingOf? (steps.map (·.subtree))
  scannerBefore : e.subtree.info.scannerBefore =
    (steps.head?.map (·.subtree.info.scannerBefore)).getD scanner
  node : e.subtree.isFragile = false → e.subtree.info.parseState = state ∧
    e.subtree.symbol = rule.lhs ∧ s.table.goto? state rule.lhs = some e.state

/-- What a node over some steps remembers comes from the steps, whatever the row of the goto. -/
theorem madeOf_entryOver (s : Setting) (production : Nat) (rule : TableProduction) (token : Token)
    (steps : List Entry) (state stop : Nat) (scanner : ScannerState) :
    MadeOf s rule steps state stop scanner
      (entryOver s production rule token steps state stop scanner) := by
  have hscanner : ((steps.map (·.subtree)).getLast?.map (·.info.scannerAfter)).getD scanner =
      (steps.getLast?.map (·.subtree.info.scannerAfter)).getD scanner := by
    rw [List.getLast?_map, Option.map_map]
    rfl
  have hbefore : ((steps.map (·.subtree)).head?.map (·.info.scannerBefore)).getD scanner =
      (steps.head?.map (·.subtree.info.scannerBefore)).getD scanner := by
    cases steps <;> rfl
  rw [entryOver]
  cases hgoto : s.table.goto? state rule.lhs with
  | some next =>
    exact {
      start := rfl
      length := length_build ..
      scannerAfter := hscanner
      lexState := fun before n h => lexAfter_node h
      opening := rfl
      scannerBefore := hbefore
      node := fun _ => ⟨rfl, rfl, hgoto⟩ }
  | none =>
    exact {
      start := rfl
      length := by
        dsimp only
        rw [buildError, length_build, List.map_singleton, List.sum_singleton, length_build]
      scannerAfter := hscanner
      lexState := fun before n h => lexAfter_node (lexAfter_node h)
      opening := rfl
      scannerBefore := hbefore
      node := fun h => by
        dsimp only at h
        rw [isFragile_buildError] at h
        cases h }

/-! ### Each move builds on what was built -/

/-- The token of a shift takes a piece of the text. -/
theorem length_leaf_pos (hg : g.Compiles s.table) {q next : Nat}
    (action : s.table.action q token.symbol = .shift next) {front piece rest : List Char}
    (htakes : token.Takes s.text front piece rest) (parseState lexState : Nat) (isFragile : Bool) :
    (s.leaf token parseState lexState isFragile).length = byteLength piece ∧
      0 < byteLength piece := by
  have hend := hg.isEnd_of_shift action
  exact ⟨length_leaf htakes .., byteLength_pos.mpr (piece_ne_nil htakes hend)⟩

/-- The run begins with the leaf of the first token. -/
theorem built_first (hg : g.Compiles s.table) {next : Nat}
    (action : s.table.action q first.symbol = .shift next) {front piece rest : List Char}
    (htakes : first.Takes s.text front piece rest) (hextra : first.isExtra = false) :
    Built s q first ⟨[⟨next, s.leaf first q next first.errorMode, first.start⟩], [], first.stop,
      first.scannerAfter, none⟩ := by
  obtain ⟨hlength, hpos⟩ := length_leaf_pos hg action htakes q next first.errorMode
  have hstart := htakes.start_eq
  have hstop := htakes.stop_eq
  refine ⟨rfl, linedUp_singleton.mpr ⟨rfl, ?_⟩, rfl, fun n hn => ?_, ⟨[], _, rfl, ?_⟩, ?_⟩
  · dsimp only
    omega
  · have hleaf : ((s.leaf first q next first.errorMode).length > 0 &&
        !(s.leaf first q next first.errorMode).isExtra) = true := by
      have hextra' : (s.leaf first q next first.errorMode).isExtra = false := hextra
      rw [hlength, hextra']
      simpa using hpos
    change lexAfter none [s.leaf first q next first.errorMode] = some n at hn
    rw [lexAfter, if_pos hleaf] at hn
    exact (Option.some.inj hn).symm
  · exact ⟨⟨next, action, rfl⟩, rfl, fun hleaf => by cases hleaf⟩
  · exact ⟨front ++ piece, rest, htakes.text_eq, by rw [byteLength_append]; exact hstop⟩

/-- A shift builds on what was built. -/
theorem Built.shift (h : Built s q first p) (hg : g.Compiles s.table) (hreads : Reads s p token r)
    {next : Nat} (action : s.table.action p.state token.symbol = .shift next) :
    Built s q first (r.shift s next token) := by
  obtain ⟨front, back, htext, hposition⟩ := h.place
  have hlined := hreads.linedUp hg.sparesEnd (by rw [h.pending]; rfl) htext hposition
  obtain ⟨-, ⟨front, piece, rest, htakes⟩, -⟩ := hreads.takes hg.sparesEnd htext hposition
  obtain ⟨hstack, hscanner, hstop, hlex⟩ := hreads.behind
  obtain ⟨hlength, hpos⟩ := length_leaf_pos hg action htakes r.state next token.errorMode
  have hstart := htakes.start_eq
  have hend := htakes.stop_eq
  refine ⟨rfl, ?_, hscanner.symm, fun n hn => ?_, ?_, front ++ piece, rest, htakes.text_eq, ?_⟩
  · rw [Parser.shift, Stack.entries_cons, flush, Stack.entries_pushAllIgnored, hstack]
    refine linedUp_append.mpr ⟨_, linedUp_append.mpr ⟨_, h.linedUp, hlined⟩, ?_⟩
    refine linedUp_singleton.mpr ⟨rfl, ?_⟩
    change token.start + (s.leaf token r.state next token.errorMode).length = r.position
    omega
  · have hleaf : ((s.leaf token r.state next token.errorMode).length > 0 &&
        !(s.leaf token r.state next token.errorMode).isExtra) = true := by
      have hextra : (s.leaf token r.state next token.errorMode).isExtra = false := hreads.isExtra
      rw [hlength, hextra]
      simpa using hpos
    rw [Parser.shift, Stack.subtrees_cons, lexAfter_append, lexAfter, if_pos hleaf] at hn
    change n = (r.lexState).getD next
    rw [hlex]
    exact (Option.some.inj hn).symm
  · obtain ⟨above, e, hbottom, hrooted⟩ := h.bottom
    refine ⟨⟨next, s.leaf token r.state next token.errorMode, token.start⟩ ::
      ((r.pending.map fun x => ⟨Stack.state p.stack, x.1, x.2⟩).reverse ++ above), e, ?_, hrooted⟩
    rw [Parser.shift, flush, Stack.pushAllIgnored_eq, hstack, hbottom, List.cons_append,
      List.append_assoc]
  · rw [byteLength_append]
    exact hstop.trans hend

/-- Entries that are pushed again for another state stand where they stood. -/
theorem map_entry_replaced (state : Nat) (stack : Stack) :
    Stack.entries (stack.map fun e => ⟨state, e.subtree, e.start⟩) = Stack.entries stack := by
  rw [Stack.entries, Stack.entries, List.map_map]
  rfl

/-- They have the same subtrees. -/
theorem map_subtrees_replaced (state : Nat) (stack : Stack) :
    Stack.subtrees (stack.map fun e => ⟨state, e.subtree, e.start⟩) = Stack.subtrees stack := by
  rw [Stack.subtrees, Stack.subtrees, List.map_map]
  rfl

/-- A stack in a row stops where the row does. -/
theorem stop_of_linedUp {start stop : Nat} {stack : Stack} (h : LinedUp start (Stack.entries stack) stop)
    (hne : stack ≠ []) : Stack.stop stack = stop := by
  obtain ⟨e, rest, rfl⟩ := List.exists_cons_of_ne_nil hne
  rw [Stack.entries_cons, linedUp_append] at h
  obtain ⟨_, -, he⟩ := h
  obtain ⟨rfl, hstop⟩ := linedUp_singleton.mp he
  exact hstop

/-- What steps are put together to stands in their place. -/
theorem linedUp_replaced {start stop : Nat} {steps rest : Stack} {behind : List (Subtree × Nat)}
    {e : Entry} (h : LinedUp start (Stack.entries (steps ++ rest) ++ behind) stop)
    (hempty : steps = [] → rest ≠ [])
    (hstart : e.start = (steps.reverse.head?.map (·.start)).getD (Stack.stop rest))
    (hlength : e.subtree.length = ((Stack.subtrees steps).map (·.length)).sum) :
    LinedUp start (Stack.entries (e :: rest) ++ behind) stop := by
  rw [Stack.entries_append, linedUp_append] at h
  obtain ⟨after, h, hbehind⟩ := h
  obtain ⟨before, hrest, hsteps⟩ := linedUp_append.mp h
  have hentries : Stack.entries steps = steps.reverse.map fun e => (e.subtree, e.start) :=
    List.map_reverse.symm
  have hsubtrees : Stack.subtrees steps = steps.reverse.map (·.subtree) := List.map_reverse.symm
  rw [Stack.entries_cons]
  refine linedUp_append.mpr ⟨after, linedUp_append.mpr ⟨before, hrest, ?_⟩, hbehind⟩
  rw [linedUp_singleton, hlength, hstart, hsubtrees]
  rw [hentries] at hsteps
  refine ⟨?_, ?_⟩
  · cases hreverse : steps.reverse with
    | nil =>
      rw [hreverse] at hsteps
      exact stop_of_linedUp hrest (hempty (List.reverse_eq_nil_iff.mp hreverse))
    | cons bottom above =>
      rw [hreverse] at hsteps
      exact hsteps.1
  · rw [hsteps.stop_eq, List.map_map (g := Prod.fst)]
    rfl

/-- A reduction builds on what was built. -/
theorem Built.reduce (h : Built s q first p) (production : Nat) {rule : TableProduction}
    (token : Token) (step : Stack.steps p.stack ≠ [])
    (le : rule.length ≤ (Stack.steps p.stack).length) :
    Built s q first { p with
      stack := reduceAbove s production rule token q p.stack
      lexState := some p.lookState } := by
  obtain ⟨trailing, steps, rest, e, hfront, htrailing, hcount, -, he, hreduce⟩ :=
    reduceAbove_spec le
  have hmade := madeOf_entryOver s production rule token steps.reverse (Stack.stateAbove q rest)
    (Stack.stop rest) (stackScanner rest)
  rw [← he] at hmade
  rw [hreduce]
  -- A phrase without steps starts where the stack below it stops, so there has to be one.
  have hempty : steps = [] → rest ≠ [] := by
    rintro rfl rfl
    rw [hfront, List.append_nil, List.append_nil, Stack.steps_eq_nil htrailing] at step
    exact step rfl
  have hsubtrees : (steps.reverse.map (·.subtree)) = Stack.subtrees steps := List.map_reverse
  -- Places, the scanner's state, the lexing state, and the entry at the bottom.
  refine ⟨h.pending, ?_, ?_, fun n hn => ?_, ?_, h.place⟩
  · have hlined := h.linedUp
    rw [hfront, Stack.entries_append] at hlined
    rw [Stack.entries_append, map_entry_replaced]
    exact linedUp_replaced hlined hempty hmade.start (by rw [hmade.length, hsubtrees])
  · have hscanner := h.scanner
    rw [hfront] at hscanner
    rw [← hscanner]
    cases trailing with
    | cons top trailing => rfl
    | nil =>
      refine hmade.scannerAfter.trans ?_
      rw [List.getLast?_reverse]
      cases steps <;> rfl
  · rw [Stack.subtrees_append, Stack.subtrees_cons, map_subtrees_replaced, lexAfter_append,
      lexAfter_append] at hn
    have hlex := h.lexState n
    rw [hfront, Stack.subtrees_append, Stack.subtrees_append, lexAfter_append, lexAfter_append,
      ← hsubtrees] at hlex
    exact hlex (lexAfter_mono (fun n => hmade.lexState _ n) hn)
  · rcases List.eq_nil_or_concat rest with rfl | ⟨above, bottom, rfl⟩
    · -- the phrase takes the place of all that stands above the state
      obtain ⟨above, bottom, hbottom, hrooted⟩ := h.bottom
      rcases List.eq_nil_or_concat steps with rfl | ⟨steps, bottom', rfl⟩
      · exact absurd rfl (hempty rfl)
      rw [hfront, List.append_nil, List.concat_eq_append, ← List.append_assoc] at hbottom
      obtain ⟨-, hsame⟩ := List.append_inj' hbottom rfl
      obtain rfl := List.singleton_inj.mp hsame
      refine ⟨_, e, rfl, ?_, ?_, fun _ hfragile => ?_⟩
      · rw [hmade.opening, List.concat_eq_append, List.reverse_append, List.reverse_singleton]
        exact hrooted.opening
      · rw [hmade.scannerBefore, List.concat_eq_append, List.reverse_append,
          List.reverse_singleton]
        exact hrooted.scannerBefore
      · obtain ⟨hstate, hsymbol, hgoto⟩ := hmade.node hfragile
        rw [hsymbol]
        exact ⟨hstate, hgoto⟩
    · -- the bottom entry stays where it is
      obtain ⟨above', bottom', hbottom, hrooted⟩ := h.bottom
      rw [hfront, List.concat_eq_append, ← List.append_assoc, ← List.append_assoc] at hbottom
      obtain ⟨-, hsame⟩ := List.append_inj' hbottom rfl
      obtain rfl := List.singleton_inj.mp hsame
      exact ⟨_, bottom, by rw [List.concat_eq_append, ← List.cons_append, ← List.append_assoc],
        hrooted⟩

/-- What a run builds above a state stands in a row from the token on, and what is remembered of
states and of the scanner is right for it. -/
theorem Builds.built (h : Builds s stop q first p) (hg : g.Compiles s.table)
    {front piece rest : List Char} (htakes : first.Takes s.text front piece rest)
    (hextra : first.isExtra = false) : Built s q first p := by
  induction h with
  | first action => exact built_first hg action htakes hextra
  | shift before reads calm action ih => exact ih.shift hg reads action
  | reduce before reads calm action rule_eq step le ih => exact ih.reduce _ _ step le

end Parser

end LRWorkbench.Parsing
