import LRWorkbench.Proofs.Parsing.Mirroring

/-!
# How subtrees grow

Where nothing is taken over, what stands on the stack above some state was built there by a run that
met a token in that state (`Parser.Grows`), and so was every node that is put together
(`Parser.Regrows`), if no error was near.
-/

namespace LRWorkbench.Parsing

open Lalr PreparedGrammar Subtree Text

namespace Parser

variable {s : Setting} {token token' first : Token} {p p' built r : Parser} {g : PreparedGrammar}
  {q stop : Nat}

/-! ### Tokens that are met -/

/-- Whether a token is found at its place in a text, among the terminals of use in some state. -/
structure Met (s : Setting) (token : Token) : Prop where
  errorMode : token.errorMode = false
  isExtra : token.isExtra = false
  takes : ∃ front piece rest, token.Takes s.text front piece rest
  found : ∃ q, Lexer.nextToken s.language s.text token.start token.scannerBefore
    (s.table.validTerminals q) = token

/-- A token that is met in the text ends behind its start, and the byte behind it was looked at. -/
theorem Met.lt (h : Met s token) : token.start ≤ token.stop ∧ token.stop < token.lookaheadEnd := by
  obtain ⟨front, piece, rest, htakes⟩ := h.takes
  obtain ⟨q, hfound⟩ := h.found
  have hmode := h.errorMode
  have hstart := htakes.start_eq
  have hstop := htakes.stop_eq
  rw [htakes.text_eq, List.append_assoc, hstart] at hfound
  rw [← hfound] at hmode
  have hlt := (Lexer.spec_of_nextToken hmode).2
  rw [hfound] at hlt
  exact ⟨by omega, hlt⟩

/-- Whether a parser stands behind a token that it met, with the extras before it. -/
structure AtToken (s : Setting) (token : Token) (p : Parser) : Prop where
  met : Met s token
  pending : ∀ e ∈ p.pending, e.1.isExtra = true ∧ s.table.parts.lex.isExtra e.1.symbol = true
  position : p.position = token.stop
  scanner : p.scanner = token.scannerAfter
  lexState : p.lexState = none

/-- What is read stands behind the token that is met. -/
theorem Reads.atToken (h : Reads s p token r) (ht : s.table.SparesEnd) {front back : List Char}
    (htext : s.text = front ++ back) (hposition : p.position = byteLength front)
    (hpending : p.pending = []) (hmode : token.errorMode = false) : AtToken s token r := by
  obtain ⟨-, hscanner, hstop, hlex⟩ := h.behind
  have hextras := h.isExtra_of_mem (by rw [hpending]; exact nofun)
  exact ⟨⟨hmode, h.isExtra, (h.takes ht htext hposition).2.1,
    h.exists_nextToken ht htext hposition⟩, hextras, hstop, hscanner, hlex⟩

/-! ### Pieces of the stack -/

/-- The terminal that comes first in some subtrees, or that of the next token. -/
def nextSymbol (ts : List Subtree) (token : Token) : Symbol :=
  ((firstLeafOf? ts).map (·.symbol)).getD token.symbol

/-- Whether a stack has a piece on top of it that begins with a step and has nothing in it that was
found when every terminal was allowed. -/
structure HasFront (p : Parser) (front base : Stack) : Prop where
  stack_eq : p.stack = front ++ base
  ne_nil : front ≠ []
  bottom : ∀ e, front.getLast? = some e → e.subtree.isIgnored = false
  calm : ∀ e ∈ front, e.subtree.isFragile = false

/-- A stack that is like the piece at the top is in the state of the parser. -/
theorem HasFront.state_eq {front base stack : Stack} (h : HasFront p front base)
    (hstack : stack.map Entry.plain = front.map Entry.plain) : Stack.state stack = p.state := by
  obtain ⟨top, rest, rfl⟩ := List.exists_cons_of_ne_nil h.ne_nil
  obtain ⟨top', rest', rfl, hplain, -⟩ := List.map_eq_cons_iff.mp hstack
  rw [state, h.stack_eq]
  change top'.plain.state = top.plain.state
  rw [hplain]

/-- The bottom of a piece is no ignored subtree, so the piece has a step for a production. -/
theorem HasFront.steps_ne_nil {front base : Stack} (h : HasFront p front base) :
    Stack.steps front ≠ [] := by
  obtain ⟨bottom, hbottom⟩ := Option.ne_none_iff_exists'.mp
    (mt List.getLast?_eq_none_iff.mp h.ne_nil)
  have hmem : bottom ∈ Stack.steps front :=
    List.mem_filter.mpr ⟨List.mem_of_getLast? hbottom, by rw [h.bottom bottom hbottom]; rfl⟩
  exact List.ne_nil_of_mem hmem

/-- Whether a run that met a token builds a piece of the stack above a state, and then reads up to
the next token. -/
def Grown (s : Setting) (stop q : Nat) (front : Stack) (token : Token) (p : Parser) : Prop :=
  ∃ first built r, Met s first ∧ CalmToken stop first ∧ Builds s stop q first built ∧
    built.stack.map Entry.plain = front.map Entry.plain ∧ Reads s built token r ∧
    r.pending.map plainEntry = p.pending.map plainEntry

/-- How a piece of the stack grew. It begins with a leaf that a run met, or else the terminal that
comes first is not shifted in the state below. -/
structure Growth (s : Setting) (token : Token) (p : Parser) (front base : Stack) : Prop where
  barren : openingOf? (Stack.subtrees front) = none → ∀ next,
    s.table.action (Stack.state base)
      (nextSymbol (Stack.subtrees front ++ p.pending.map (·.1)) token) ≠ .shift next
  linedUp : openingOf? (Stack.subtrees front) ≠ none →
    ∃ start, LinedUp start (Stack.entries front ++ p.pending) token.start
  grown : openingOf? (Stack.subtrees front) ≠ none → ∀ stop,
    (∀ e ∈ front, Calm stop e.start e.subtree) → Grown s stop (Stack.state base) front token p

/-- Whether all pieces of the stack grew so. -/
def Grows (s : Setting) (token : Token) (p : Parser) : Prop :=
  ∀ front base, HasFront p front base → Growth s token p front base

/-- The first of several subtrees alone says what they begin with, even if it is empty. -/
theorem openingOf?_append (ts us : List Subtree) :
    openingOf? (ts ++ us) = if ts = [] then openingOf? us else openingOf? ts := by
  cases ts <;> rfl

/-- The first leaf is looked for in one subtree after the other. -/
theorem firstLeafOf?_append (ts us : List Subtree) :
    firstLeafOf? (ts ++ us) = (firstLeafOf? ts).or (firstLeafOf? us) := by
  induction ts with
  | nil => rfl
  | cons t ts ih => rw [List.cons_append, firstLeafOf?, firstLeafOf?, ih, Option.or_assoc]

/-- The next token becomes the first leaf behind. -/
theorem nextSymbol_append_leaf (ts us : List Subtree) {t : Subtree} (hleaf : t.isLeaf = true)
    (hsymbol : t.symbol = token.symbol) :
    nextSymbol (ts ++ t :: us) token' = nextSymbol ts token := by
  have hfirst : firstLeaf? t = some t := by
    cases t with
    | leaf => rfl
    | node => cases hleaf
  rw [nextSymbol, nextSymbol, firstLeafOf?_append, firstLeafOf?, hfirst]
  cases firstLeafOf? ts with
  | none => exact hsymbol
  | some x => rfl

/-! ### Shifting -/

/-- The entry of a token that is shifted. -/
def shiftEntry (s : Setting) (q next : Nat) (token : Token) : Entry :=
  ⟨next, s.leaf token q next token.errorMode, token.start⟩

/-- The entries of what waits. -/
def waitEntries (q : Nat) (pending : List (Subtree × Nat)) : Stack :=
  (pending.map fun e => ⟨q, e.1, e.2⟩).reverse

/-- A shift pushes what waits and then the token. -/
theorem stack_shift (s : Setting) (p : Parser) (next : Nat) (token : Token) :
    (p.shift s next token).stack =
      shiftEntry s p.state next token :: (waitEntries p.state p.pending ++ p.stack) := by
  rw [shift, flush, Stack.pushAllIgnored_eq]
  rfl

/-- What waits is ignored, so it leaves the state as it is. -/
theorem state_of_waitEntries (stack : Stack) (pending : List (Subtree × Nat)) :
    Stack.state (waitEntries (Stack.state stack) pending ++ stack) = Stack.state stack := by
  cases h : waitEntries (Stack.state stack) pending with
  | nil => rfl
  | cons e rest =>
    have he : e ∈ waitEntries (Stack.state stack) pending := by
      rw [h]
      exact List.mem_cons_self ..
    obtain ⟨x, -, rfl⟩ := List.mem_map.mp (List.mem_reverse.mp he)
    rfl

theorem subtrees_waitEntries (q : Nat) (pending : List (Subtree × Nat)) :
    Stack.subtrees (waitEntries q pending) = pending.map (·.1) := by
  rw [Stack.subtrees, waitEntries, List.map_reverse, List.reverse_reverse, List.map_map]
  rfl

theorem entries_waitEntries (q : Nat) (pending : List (Subtree × Nat)) :
    Stack.entries (waitEntries q pending) = pending := by
  rw [Stack.entries, waitEntries, List.map_reverse, List.reverse_reverse, List.map_map]
  exact List.map_id _

/-- What waits is pushed alike if it is alike. -/
theorem map_plain_waitEntries {q : Nat} {pending pending' : List (Subtree × Nat)}
    (h : pending'.map plainEntry = pending.map plainEntry) :
    (waitEntries q pending').map Entry.plain = (waitEntries q pending).map Entry.plain := by
  have hmap : ∀ pending : List (Subtree × Nat), (waitEntries q pending).map Entry.plain =
      waitEntries q (pending.map plainEntry) := by
    intro pending
    rw [waitEntries, waitEntries, List.map_reverse, List.map_map, List.map_map]
    rfl
  rw [hmap, hmap, h]

/-- A front ends with a step, so it does not end among entries that are ignored: where such entries
lie on top of a stack, it has all of them and goes on beneath. -/
theorem exists_below_of_ignored {ignored rest front base : Stack}
    (h : ignored ++ rest = front ++ base) (hignored : ∀ e ∈ ignored, e.subtree.isIgnored = true)
    (hne : front ≠ []) (hbottom : ∀ e, front.getLast? = some e → e.subtree.isIgnored = false) :
    ∃ below, front = ignored ++ below ∧ rest = below ++ base ∧ below ≠ [] := by
  obtain ⟨bottom, hlast⟩ := Option.ne_none_iff_exists'.mp (mt List.getLast?_eq_none_iff.mp hne)
  have hnot : bottom ∉ ignored := fun hmem =>
    Bool.false_ne_true ((hbottom bottom hlast).symm.trans (hignored bottom hmem))
  rcases List.append_eq_append_iff.mp h with ⟨below, rfl, rfl⟩ | ⟨tail, rfl, -⟩
  · refine ⟨below, rfl, rfl, ?_⟩
    rintro rfl
    rw [List.append_nil] at hlast
    exact hnot (List.mem_of_getLast? hlast)
  · exact absurd (List.mem_append_left _ (List.mem_of_getLast? hlast)) hnot

/-- A piece of the stack after a shift is the leaf alone or goes on below what waited. -/
theorem HasFront.of_shift {next : Nat} {front base : Stack}
    (h : HasFront p' front base) (hstack : p'.stack = (p.shift s next token).stack)
    (hignored : ∀ e ∈ p.pending, e.1.isIgnored = true) :
    token.errorMode = false ∧
      ((front = [shiftEntry s p.state next token] ∧
          base = waitEntries p.state p.pending ++ p.stack) ∨
        ∃ below, HasFront p below base ∧
          front = shiftEntry s p.state next token :: (waitEntries p.state p.pending ++ below)) := by
  have hall := h.stack_eq
  rw [hstack, stack_shift] at hall
  cases front with
  | nil => exact absurd rfl h.ne_nil
  | cons top front =>
    obtain ⟨rfl, hrest⟩ := List.cons.inj hall
    refine ⟨h.calm _ (List.mem_cons_self ..), ?_⟩
    by_cases hempty : front = []
    · subst hempty
      exact .inl ⟨rfl, hrest.symm⟩
    · right
      have hwaiting : ∀ e ∈ waitEntries p.state p.pending, e.subtree.isIgnored = true := by
        intro e he
        obtain ⟨x, hx, rfl⟩ := List.mem_map.mp (List.mem_reverse.mp he)
        exact hignored x hx
      have hlast : ∀ e, front.getLast? = some e → e.subtree.isIgnored = false := by
        intro e he
        refine h.bottom e ?_
        rw [List.getLast?_cons, he]
        rfl
      obtain ⟨below, rfl, hbelow, hne⟩ := exists_below_of_ignored hrest hwaiting hempty hlast
      refine ⟨below, ⟨hbelow, hne, fun e he => hlast e ?_, fun e he => h.calm e ?_⟩, rfl⟩
      · rw [List.getLast?_append, he]
        rfl
      · exact List.mem_cons_of_mem _ (List.mem_append_right _ he)

section

variable {next : Nat} {front back : List Char} {base below : Stack}
  (hg : g.Compiles s.table) (hat : AtToken s token p)
  (action : s.table.action p.state token.symbol = .shift next)
  (reads : Reads s (p.shift s next token) token' p')
  (htext : s.text = front ++ back) (hplace : p.position = byteLength front)

include hg hat action in
/-- The leaf of a token that is shifted reaches up to the place behind. -/
theorem linedUp_shiftEntry (q : Nat) :
    LinedUp token.start (Stack.entries [shiftEntry s q next token]) p.position := by
  obtain ⟨front, piece, rest, htakes⟩ := hat.met.takes
  have hlength := (length_leaf_pos hg action htakes q next token.errorMode).1
  refine linedUp_singleton.mpr ⟨rfl, ?_⟩
  rw [hat.position, htakes.stop_eq, ← htakes.start_eq]
  exact congrArg (token.start + ·) hlength

include hat in
/-- The leaf of a token is calm if and only if the token is. -/
theorem calm_shiftEntry_iff (q : Nat) :
    Calm stop token.start (shiftEntry s q next token).subtree ↔ CalmToken stop token := by
  obtain ⟨front, piece, rest, htakes⟩ := hat.met.takes
  exact calm_leaf_iff htakes hat.met.lt.2 q next

include hat reads in
/-- The token behind a shift is read as well by any parser that stands at the same place. -/
theorem exists_reads_of_shift {b : Parser} (hposition : b.position = token.stop)
    (hscanner : b.scanner = token.scannerAfter) (hlex : b.lookState = next) (hpending : b.pending = []) :
    ∃ r, Reads s b token' r ∧ r.pending.map plainEntry = p'.pending.map plainEntry := by
  have hlook : (p.shift s next token).lookState = next := by
    change p.lexState.getD next = next
    rw [hat.lexState]
    rfl
  obtain ⟨r, hreads, hplain⟩ := reads.congr (hposition.trans hat.position.symm)
    (hscanner.trans hat.scanner.symm) (hlex.trans hlook.symm) (by rw [hpending]; rfl)
  exact ⟨r, hreads, (plain_eq_iff.mp hplain).2.1⟩

include hg hat action reads htext hplace

/-- The leaf that a shift makes stands alone above the state. -/
theorem growth_shiftEntry (hstate : Stack.state base = p.state) :
    Growth s token' p' [shiftEntry s p.state next token] base where
  barren h := by cases h
  linedUp _ := by
    refine ⟨token.start, linedUp_append.mpr ⟨_, linedUp_shiftEntry hg hat action _, ?_⟩⟩
    exact reads.linedUp hg.sparesEnd rfl htext hplace
  grown _ stop hcalm := by
    have htoken := (calm_shiftEntry_iff hat p.state).mp (hcalm _ (List.mem_singleton_self _))
    obtain ⟨r, hreads, hpending⟩ := exists_reads_of_shift hat reads
      (b := ⟨[shiftEntry s p.state next token], [], token.stop, token.scannerAfter, none⟩)
      rfl rfl rfl rfl
    rw [hstate]
    exact ⟨token, _, r, hat.met, htoken, .first action, rfl, hreads, hpending⟩

/-- The leaf that a shift makes goes on top of a piece of the stack. -/
theorem Growth.shift (h : Growth s token p below base) (hfront : HasFront p below base) :
    Growth s token' p' (shiftEntry s p.state next token :: (waitEntries p.state p.pending ++ below))
      base := by
  have hsubtrees : Stack.subtrees (shiftEntry s p.state next token ::
      (waitEntries p.state p.pending ++ below)) = Stack.subtrees below ++ p.pending.map (·.1) ++
        [(shiftEntry s p.state next token).subtree] := by
    rw [Stack.subtrees_cons, Stack.subtrees_append, subtrees_waitEntries]
  have hentries : Stack.entries (shiftEntry s p.state next token ::
      (waitEntries p.state p.pending ++ below)) = Stack.entries below ++ p.pending ++
        Stack.entries [shiftEntry s p.state next token] := by
    rw [Stack.entries_cons, Stack.entries_append, entries_waitEntries]
    rfl
  have hne : Stack.subtrees below ≠ [] := by
    rw [Stack.subtrees, ne_eq, List.reverse_eq_nil_iff, List.map_eq_nil_iff]
    exact hfront.ne_nil
  have hopening : openingOf? (Stack.subtrees (shiftEntry s p.state next token ::
      (waitEntries p.state p.pending ++ below))) = openingOf? (Stack.subtrees below) := by
    rw [hsubtrees, List.append_assoc, openingOf?_append, if_neg hne]
  refine ⟨fun hnone next' => ?_, fun hsome => ?_, fun hsome stop hcalm => ?_⟩
  · rw [hsubtrees, List.append_assoc, List.singleton_append, nextSymbol_append_leaf _ _ rfl rfl]
    exact h.barren (hopening ▸ hnone) next'
  · obtain ⟨start, hlined⟩ := h.linedUp (hopening ▸ hsome)
    rw [hentries]
    refine ⟨start, linedUp_append.mpr ⟨_, linedUp_append.mpr ⟨_, hlined,
      linedUp_shiftEntry hg hat action _⟩, ?_⟩⟩
    exact reads.linedUp hg.sparesEnd rfl htext hplace
  · have htoken := (calm_shiftEntry_iff hat p.state).mp (hcalm _ (List.mem_cons_self ..))
    obtain ⟨first, built, r, hmet, hfirst, hbuilds, hstack, hreads, hpending⟩ :=
      h.grown (hopening ▸ hsome) stop fun e he =>
        hcalm e (List.mem_cons_of_mem _ (List.mem_append_right _ he))
    have hstate : built.state = p.state := hfront.state_eq hstack
    obtain ⟨hrstack, hrscanner, hrposition, hrlex⟩ := hreads.behind
    have hrstate : r.state = p.state := by rw [state, hrstack]; exact hstate
    obtain ⟨r', hreads', hpending'⟩ := exists_reads_of_shift hat reads (b := r.shift s next token)
      hrposition hrscanner (by change r.lexState.getD next = next; rw [hrlex]; rfl) rfl
    refine ⟨first, _, r', hmet, hfirst,
      .shift hbuilds hreads htoken (by rw [hstate]; exact action), ?_, hreads', hpending'⟩
    rw [stack_shift, hrstate, hrstack, List.map_cons, List.map_cons, List.map_append,
      List.map_append, hstack, map_plain_waitEntries hpending]

end

/-- What stands on the stack after a shift grew there. -/
theorem Grows.shift (h : Grows s token p) (hg : g.Compiles s.table)
    (hat : token.errorMode = false → AtToken s token p)
    (hignored : ∀ e ∈ p.pending, e.1.isIgnored = true) {next : Nat}
    (action : s.table.action p.state token.symbol = .shift next)
    (reads : Reads s (p.shift s next token) token' p') {front back : List Char}
    (htext : s.text = front ++ back) (hplace : p.position = byteLength front) :
    Grows s token' p' := by
  intro piece base hpiece
  obtain ⟨hmode, ⟨rfl, rfl⟩ | ⟨below, hbelow, rfl⟩⟩ := hpiece.of_shift reads.behind.1 hignored
  · exact growth_shiftEntry hg (hat hmode) action reads htext hplace (state_of_waitEntries _ _)
  · exact (h below base hbelow).shift hg (hat hmode) action reads htext hplace hbelow

/-! ### Reducing -/

/-- A piece of the stack after a reduction begins at the top with the phrase. -/
theorem HasFront.of_reduce {production : Nat} {trailing steps rest front base : Stack}
    {made : Production} {next start : Nat} {node : Subtree}
    (hr : Reduced g s p token production trailing steps rest made next start node)
    (h : HasFront (p.reduce s production token) front base)
    (hquiet : ∀ e, p.stack.head? = some e → e.subtree.isIgnored = true → token.errorMode = true) :
    token.errorMode = false ∧ trailing = [] ∧ ∃ below, rest = below ++ base ∧
      front = ⟨next, node, start⟩ :: below ∧ ∀ e ∈ steps ++ below, e.subtree.isFragile = false := by
  have hall := h.stack_eq
  rw [hr.reduce_eq, Stack.pushAllIgnored_eq] at hall
  generalize hpushed : ((trailing.reverse.map fun e => (e.subtree, e.start)).map fun e =>
    (⟨Stack.state (⟨next, node, start⟩ :: rest), e.1, e.2⟩ : Entry)).reverse = pushed at hall
  have hignored : ∀ e ∈ pushed, e.subtree.isIgnored = true := by
    intro e he
    rw [← hpushed] at he
    obtain ⟨x, hx, rfl⟩ := List.mem_map.mp (List.mem_reverse.mp he)
    exact hr.isIgnored_of_mem hx
  obtain ⟨below, rfl, hrest, hne⟩ := exists_below_of_ignored hall hignored h.ne_nil h.bottom
  obtain ⟨top, below, rfl⟩ := List.exists_cons_of_ne_nil hne
  obtain ⟨rfl, rfl⟩ := List.cons.inj hrest
  have hnode := h.calm ⟨next, node, start⟩ (List.mem_append_right _ (List.mem_cons_self ..))
  rw [hr.node_eq, isFragile_build, Bool.or_eq_false_iff] at hnode
  obtain ⟨hmode, hchildren⟩ := hnode
  -- Extras lie on top only where the next token is one of error mode, and the node that is made
  -- there is fragile.
  have htrailing : trailing = [] := by
    cases trailing with
    | nil => rfl
    | cons top trailing =>
      have hhead : p.stack.head? = some top := by rw [hr.stack_eq]; rfl
      exact absurd (hmode.symm.trans (hquiet top hhead (hr.ignored top (List.mem_cons_self ..))))
        Bool.false_ne_true
  have hempty : pushed = [] := by rw [← hpushed, htrailing]; rfl
  refine ⟨hmode, htrailing, below, rfl, by rw [hempty]; rfl, fun e he => ?_⟩
  rcases List.mem_append.mp he with he | he
  · refine Bool.eq_false_iff.mpr fun hfragile => ?_
    rw [List.any_eq_false] at hchildren
    exact hchildren e.subtree (List.mem_map_of_mem (List.mem_reverse.mpr he)) hfragile
  · exact h.calm e (List.mem_append_right _ (List.mem_cons_of_mem _ he))

section

variable {production : Nat} {steps rest base below : Stack} {made : Production} {next start : Nat}
  {node : Subtree} (hr : Reduced g s p token production [] steps rest made next start node)

include hr

/-- The children of the new node are the steps. -/
theorem Reduced.children_eq : node.children = Stack.subtrees steps := by
  rw [hr.node_eq, List.map_reverse]
  rfl

/-- The new node begins with what its steps begin with. -/
theorem Reduced.opening?_eq : opening? node = openingOf? (Stack.subtrees steps) := by
  rw [← hr.children_eq, hr.node_eq]
  rfl

/-- The first leaf of the new node is that of its steps. -/
theorem Reduced.firstLeaf?_eq : firstLeaf? node = firstLeafOf? (Stack.subtrees steps) := by
  rw [← hr.children_eq, hr.node_eq]
  rfl

/-- There are as many steps as the production has symbols. -/
theorem Reduced.length_steps : (Stack.steps steps).length = (g.tableProduction made).length := by
  have hlength := congrArg List.length hr.symbols
  rw [List.length_reverse, List.length_map] at hlength
  rw [hlength]
  simp [tableProduction, Production.symbols]

/-- The steps of a calm phrase are calm, and so is the token that comes next. -/
theorem Reduced.calm_steps {before after : Nat} (hlined : LinedUp before (Stack.entries (steps ++ below)) after)
    (hcalm : Calm stop start node) : token.errorMode = false ∧ token.lookaheadEnd ≤ stop ∧
      ∀ e ∈ steps, Calm stop e.start e.subtree := by
  rw [Stack.entries_append, linedUp_append] at hlined
  obtain ⟨middle, -, hsteps⟩ := hlined
  have hentries : Stack.entries steps = steps.reverse.map fun e => (e.subtree, e.start) :=
    List.map_reverse.symm
  have hstart : LinedUp start (Stack.entries steps) (if steps = [] then start else after) := by
    have hstart := hr.start_eq
    cases hreverse : steps.reverse with
    | nil =>
      rw [List.reverse_eq_nil_iff.mp hreverse]
      exact Eq.refl start
    | cons bottom above =>
      have hne : steps ≠ [] := by
        rintro rfl
        cases hreverse
      rw [hentries, hreverse] at hsteps
      rw [hreverse] at hstart
      rw [if_neg hne, hentries, hreverse]
      exact hstart.trans hsteps.1 ▸ hsteps
  have hnode := hr.node_eq
  rw [hnode, show steps.reverse.map (·.subtree) = (Stack.entries steps).map (·.1) by
    rw [hentries, List.map_map]; rfl] at hcalm
  obtain ⟨hmode, hlook, hchildren⟩ := calm_of_build hstart hcalm
  refine ⟨hmode, by omega, fun e he => hchildren (e.subtree, e.start) ?_⟩
  rw [hentries]
  exact List.mem_map_of_mem (List.mem_reverse.mpr he)

/-- A reduction without ignored subtrees on top puts the node in the place of the steps. -/
theorem Reduced.stack_reduce : (p.reduce s production token).stack = ⟨next, node, start⟩ :: rest := by
  rw [hr.reduce_eq]
  rfl

/-- A phrase without steps begins with no leaf, and what comes first behind it is not shifted. -/
theorem growth_empty (hk : s.language.KeepsAccount) (hat : AtToken s token p)
    (action : s.table.action p.state token.symbol = .reduce production) (hsteps : steps = []) :
    Growth s token (p.reduce s production token) [⟨next, node, start⟩] rest := by
  have hopening : openingOf? (Stack.subtrees [(⟨next, node, start⟩ : Entry)]) = none := by
    refine (hr.opening?_eq).trans ?_
    rw [hsteps]
    rfl
  have hfirst : firstLeaf? node = none := by
    rw [hr.firstLeaf?_eq, hsteps]
    rfl
  refine ⟨fun _ next' => ?_, fun h => absurd hopening h, fun h => absurd hopening h⟩
  have hpending : (p.reduce s production token).pending = p.pending := by rw [hr.reduce_eq]
  have hstate : Stack.state rest = p.state := by
    rw [state, hr.stack_eq, hsteps]
    rfl
  have hsymbol : nextSymbol (Stack.subtrees [(⟨next, node, start⟩ : Entry)] ++
      p.pending.map (·.1)) token = nextSymbol (p.pending.map (·.1)) token := by
    rw [nextSymbol, nextSymbol, firstLeafOf?_append]
    change ((((firstLeaf? node).or none).or _).map _).getD _ = _
    rw [hfirst]
    rfl
  rw [hpending, hstate, hsymbol]
  -- The next symbol is that of the token or of an extra that waits. The first is reduced on, and
  -- the second has no action at all.
  cases hwaiting : p.pending with
  | nil =>
    change s.table.action p.state token.symbol ≠ _
    rw [action]
    intro h
    cases h
  | cons entry pending =>
    obtain ⟨hextra, hspec⟩ := hat.pending entry (hwaiting ▸ List.mem_cons_self ..)
    have hleaf : firstLeaf? entry.1 = some entry.1 := by
      cases hentry : entry.1 with
      | leaf => rfl
      | node =>
        rw [hentry] at hextra
        cases hextra
    have hnext : nextSymbol ((entry :: pending).map (·.1)) token = entry.1.symbol := by
      rw [nextSymbol, List.map_cons, firstLeafOf?, hleaf]
      rfl
    rw [hnext]
    have huseless : s.table.action p.state entry.1.symbol = .error := hk.useless _ _ hspec
    rw [huseless]
    intro h
    cases h

/-- A phrase takes the place of its steps at the top of a piece of the stack. -/
theorem Growth.reduce (h : Growth s token p (steps ++ below) base)
    (hfront : HasFront p (steps ++ below) base) (hrest : rest = below ++ base)
    (action : s.table.action p.state token.symbol = .reduce production) :
    Growth s token (p.reduce s production token) (⟨next, node, start⟩ :: below) base := by
  have hopening : openingOf? (Stack.subtrees (⟨next, node, start⟩ :: below)) =
      openingOf? (Stack.subtrees (steps ++ below)) := by
    rw [Stack.subtrees_cons, Stack.subtrees_append, openingOf?_append, openingOf?_append]
    split
    · exact hr.opening?_eq
    · rfl
  have hpending : (p.reduce s production token).pending = p.pending := by rw [hr.reduce_eq]
  have hempty : steps = [] → below ≠ [] := by
    rintro rfl rfl
    exact hfront.ne_nil rfl
  have hstart : start = (steps.reverse.head?.map (·.start)).getD (Stack.stop below) := by
    rw [hr.start_eq]
    cases hreverse : steps.reverse with
    | nil =>
      obtain ⟨top, below, rfl⟩ :=
        List.exists_cons_of_ne_nil (hempty (List.reverse_eq_nil_iff.mp hreverse))
      rw [hrest]
      rfl
    | cons => rfl
  have hlength : node.length = ((Stack.subtrees steps).map (·.length)).sum := by
    rw [hr.node_eq, length_build, List.map_reverse]
    rfl
  -- Without an opening there is nothing to build; with one, entries stay lined up, and what was
  -- built is reduced like the front.
  refine ⟨fun hnone next' => ?_, fun hsome => ?_, fun hsome stop hcalm => ?_⟩
  · have hsymbol : nextSymbol (Stack.subtrees (⟨next, node, start⟩ :: below) ++
        p.pending.map (·.1)) token =
          nextSymbol (Stack.subtrees (steps ++ below) ++ p.pending.map (·.1)) token := by
      simp only [nextSymbol, Stack.subtrees_cons, Stack.subtrees_append, firstLeafOf?_append,
        firstLeafOf?, hr.firstLeaf?_eq, Option.or_none]
    rw [hpending, hsymbol]
    exact h.barren (hopening ▸ hnone) next'
  · obtain ⟨first, hlined⟩ := h.linedUp (hopening ▸ hsome)
    rw [hpending]
    exact ⟨first, linedUp_replaced hlined hempty hstart hlength⟩
  · obtain ⟨_, hlined⟩ := h.linedUp (hopening ▸ hsome)
    obtain ⟨hmode, hlook, hchildren⟩ := hr.calm_steps (linedUp_append.mp hlined).choose_spec.1
      (hcalm _ (List.mem_cons_self ..))
    have htoken : CalmToken stop token := ⟨hmode, hlook⟩
    obtain ⟨first, built, r, hmet, hfirst, hbuilds, hstack, hreads, hwaiting⟩ :=
      h.grown (hopening ▸ hsome) stop fun e he => (List.mem_append.mp he).elim (hchildren e)
        fun he => hcalm e (List.mem_cons_of_mem _ he)
    have hstate : built.state = p.state := hfront.state_eq hstack
    -- The front that was built has the same steps, so as many can be popped from it.
    have hcount : (Stack.steps built.stack).length = (Stack.steps (steps ++ below)).length := by
      rw [← List.length_map Entry.plain, ← Stack.steps_map Stack.isIgnored_entry_plain, hstack,
        Stack.steps_map Stack.isIgnored_entry_plain, List.length_map]
    have hstep := hfront.steps_ne_nil
    have hle : (g.tableProduction made).length ≤ (Stack.steps (steps ++ below)).length := by
      rw [Stack.steps_append, List.length_append, hr.length_steps]
      exact Nat.le_add_right ..
    -- The reduction takes place above the base.
    have habove : reduceAbove s production (g.tableProduction made) token (Stack.state base)
        (steps ++ below) = ⟨next, node, start⟩ :: below := by
      have hreduced := hr.stack_reduce
      rw [reduce_append hr.rule_eq hfront.stack_eq hstep hle, hrest,
        ← List.cons_append] at hreduced
      exact List.append_cancel_right hreduced
    let reduced : Parser := { built with
      stack := reduceAbove s production (g.tableProduction made) token (Stack.state base) built.stack
      lexState := some built.lookState }
    have hposition : reduced.position = built.position := rfl
    obtain ⟨r', hreads', hplain⟩ := hreads.congr hposition rfl rfl rfl
    refine ⟨first, _, r', hmet, hfirst, .reduce hbuilds hreads htoken (hstate ▸ action) hr.rule_eq
      (fun hnil => ?_) (hcount ▸ hle), ?_, hreads', ?_⟩
    · rw [hnil] at hcount
      exact hstep (List.length_eq_zero_iff.mp hcount.symm)
    · exact (plain_reduceAbove hstack rfl ..).trans (congrArg _ habove)
    · rw [(plain_eq_iff.mp hplain).2.1, hpending]
      exact hwaiting

end

/-- What stands on the stack after a reduction grew there. -/
theorem Grows.reduce (h : Grows s token p) (hg : g.Compiles s.table)
    (hk : s.language.KeepsAccount) (hviable : Stack.Viable g p.stack)
    (hat : token.errorMode = false → AtToken s token p)
    (hquiet : ∀ e, p.stack.head? = some e → e.subtree.isIgnored = true → token.errorMode = true)
    {production : Nat} (action : s.table.action p.state token.symbol = .reduce production) :
    Grows s token (p.reduce s production token) := by
  intro front base hfront
  obtain ⟨trailing, steps, rest, made, next, start, node, hr⟩ := exists_reduced hviable hg action
  obtain ⟨hmode, rfl, below, hrest, rfl, hcalm⟩ := hfront.of_reduce hr hquiet
  by_cases hempty : steps ++ below = []
  · obtain ⟨rfl, rfl⟩ := List.append_eq_nil_iff.mp hempty
    obtain rfl : rest = base := hrest
    exact growth_empty hr hk (hat hmode) action rfl
  · have hstack : p.stack = steps ++ below ++ base := by
      rw [hr.stack_eq, hrest, List.append_assoc]
      rfl
    have hbelow : HasFront p (steps ++ below) base := by
      refine ⟨hstack, hempty, fun e he => ?_, hcalm⟩
      cases below with
      | nil => exact hr.bottom e (by rwa [List.append_nil] at he)
      | cons top below =>
        refine hfront.bottom e ?_
        rw [List.getLast?_append_of_ne_nil _ (List.cons_ne_nil top below)] at he
        rw [List.getLast?_cons_cons]
        exact he
    exact (h _ base hbelow).reduce hr hbelow hrest action

end Parser

end LRWorkbench.Parsing
