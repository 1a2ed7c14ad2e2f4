import LRWorkbench.Proofs.Parsing.Filling

/-!
# What every run keeps

Two things are kept by every move, whatever the table says (`Parser.Kept.of_step`), and so hold wherever
a run gets to (`Parser.Reaches.kept`): the states that a parser has come to are rows of the table
(`Parser.InRows`), and what is on the stack and what waits fills the text up to the next token
(`Parser.FillsTo`).

The tree that a run ends with fills a beginning of the text (`Setting.Yields.fills`). It need not fill all
of it: a table may accept before the end. So what is known of an old tree is that it fills a beginning
of the old text (`Reuse.Filling`), and that is what genuine settings have (`Setting.Genuine.filling`).
-/

namespace LRWorkbench

namespace Parsing

open Subtree Text

variable {A : Type} [ByteAutomaton A]

namespace Stack

/-- Whether all states on a stack are below a number. -/
def Below (count : Nat) (stack : Stack) : Prop := ∀ e ∈ stack, e.state < count

variable {count : Nat} {stack : Stack}

/-- The state on top is a row, and so is the first state when there is nothing on the stack. -/
theorem Below.state (h : Below count stack) (hcount : 0 < count) : state stack < count := by
  cases stack with
  | nil => exact hcount
  | cons e rest => exact h e (List.mem_cons_self ..)

/-- What waits is pushed in a state that is there. -/
theorem Below.pushAllIgnored (h : Below count stack) (hcount : 0 < count)
    (entries : List (Subtree × Nat)) : Below count (pushAllIgnored stack entries) := by
  obtain ⟨front, hfront, -, hstates⟩ := pushAllIgnored_spec stack entries
  rw [hfront]
  intro e he
  rcases List.mem_append.mp he with he | he
  · rw [hstates e he]
    exact h.state hcount
  · exact h e he

theorem Below.cons (h : Below count stack) {e : Entry} (he : e.state < count) :
    Below count (e :: stack) := List.forall_mem_cons.mpr ⟨he, h⟩

end Stack

/-- What is known of an old tree: it fills a beginning of the old text, which was turned into the new
one. -/
def Reuse.Filling (s : Setting A) (r : Reuse) : Prop :=
  ∃ u v, Subtree.Fills s.table.parts.stateCount [r.root] u ∧ r.edits.Turns (u ++ v) s.text

/-- Whether that is known of the old tree of a setting, if there is one. -/
def Setting.Filling (s : Setting A) : Prop := ∀ r, s.reuse = some r → Reuse.Filling s r

namespace Parser

variable {s : Setting A} {p : Parser} {token : Token} {front back : List Char}

/-- A table has a first row. -/
theorem stateCount_pos (s : Setting A) : 0 < s.table.parts.stateCount :=
  s.table.isConsistent.stateCount_pos

/-- Whether the states that a parser has come to are rows of the table, and the leaves that are steps are
terminals. -/
structure InRows (s : Setting A) (p : Parser) : Prop where
  stack : Stack.Below s.table.parts.stateCount p.stack
  lexState : ∀ q, p.lexState = some q → q < s.table.parts.stateCount
  leaves : ∀ t ∈ p.content, t.isLeaf = true →
    t.isIgnored = true ∨ s.table.isTerminal t.symbol = true

theorem InRows.state (h : InRows s p) : p.state < s.table.parts.stateCount :=
  h.stack.state (stateCount_pos s)

/-- The state that the next token is looked for in is a row of the table. -/
theorem InRows.lexState_getD (h : InRows s p) :
    p.lexState.getD p.state < s.table.parts.stateCount := by
  cases hlex : p.lexState with
  | none => exact h.state
  | some q => exact h.lexState q hlex

/-- Whether the stack and what waits fill the text up to a place, at which the next token is looked
for. -/
structure Fills (s : Setting A) (p : Parser) (front back : List Char) : Prop where
  text_eq : s.text = front ++ back
  position_eq : p.position = byteLength front
  content : Subtree.Fills s.table.parts.stateCount p.content front

/-- Whether the stack and what waits fill the text up to the next token, behind which the parser
stands. -/
def FillsTo (s : Setting A) (token : Token) (p : Parser) : Prop :=
  ∃ front piece rest, token.Spans s.text front piece rest ∧
    Subtree.Fills s.table.parts.stateCount p.content front ∧ p.position = token.stop

/-- The start has nothing on its stack. -/
theorem inRows_start (s : Setting A) : InRows s start where
  stack := fun _ h => absurd h List.not_mem_nil
  lexState := by
    intro q h
    cases h
  leaves := fun _ h => absurd h List.not_mem_nil

/-- It has all of the text ahead. -/
theorem fills_start (s : Setting A) : Fills s start [] s.text := ⟨rfl, rfl, fills_nil⟩

/-- The leaf of a token fills the piece that the token is found in. -/
theorem fills_leaf {piece rest : List Char} (h : token.Spans s.text front piece rest)
    (parseState : Nat) {lexState : Nat} (hlex : lexState < s.table.parts.stateCount)
    (isFragile : Bool) : Subtree.Fills s.table.parts.stateCount
      [s.leaf token parseState lexState isFragile] piece := by
  refine Subtree.fills_leaf ?_ fun q hq => ?_
  · rw [h.start_eq, h.stop_eq, h.text_eq, slice_append, Extent.bytes_of]
  · obtain rfl := Option.some.inj hq
    exact hlex

/-! ### Reading tokens -/

/-- Reading leaves the stack as it is. -/
theorem InRows.readOn (h : InRows s p) (lexState fuel : Nat) :
    InRows s (readOn s lexState fuel p).2 := by
  induction fuel generalizing p with
  | zero => exact h
  | succ fuel ih =>
    rw [Parser.readOn]
    split
    · rename_i hextra
      refine ih ⟨h.stack, h.lexState, fun t ht hleaf => ?_⟩
      rw [content, List.map_append, ← List.append_assoc] at ht
      rcases List.mem_append.mp ht with ht | ht
      · exact h.leaves t ht hleaf
      · rw [List.mem_singleton.mp ht]
        exact .inl (Bool.or_eq_true_iff.mpr (.inl hextra))
    · refine ⟨h.stack, ?_, h.leaves⟩
      intro q hq
      cases hq

theorem InRows.read (h : InRows s p) : InRows s (read s p).2 := h.readOn _ _

/-- Extras that are read fill the text up to the next token. -/
theorem Fills.readOn (h : Fills s p front back) {lexState : Nat}
    (hlex : lexState < s.table.parts.stateCount) (fuel : Nat) (hfuel : byteLength back < fuel) :
    FillsTo s (readOn s lexState fuel p).1 (readOn s lexState fuel p).2 := by
  induction fuel generalizing p front back with
  | zero => exact absurd hfuel (Nat.not_lt_zero _)
  | succ fuel ih =>
    obtain ⟨piece, rest, hspans⟩ := Lexer.spans_nextToken s.language front back p.scanner
      (s.table.validTerminals lexState)
    rw [← h.text_eq, ← h.position_eq] at hspans
    rw [Parser.readOn]
    generalize Lexer.nextToken s.language s.text p.position p.scanner
      (s.table.validTerminals lexState) = token at hspans ⊢
    dsimp only
    split
    · rename_i hextra
      have hpos := byteLength_pos.mpr (hspans.extra hextra)
      have hback : back = piece ++ rest := by
        have := h.text_eq.symm.trans hspans.text_eq
        rw [List.append_assoc] at this
        exact List.append_cancel_left this
      rw [hback, byteLength_append] at hfuel
      refine ih (?_ : Fills s _ (front ++ piece) rest) (by omega)
      refine ⟨hspans.text_eq, ?_, ?_⟩
      · rw [byteLength_append]
        exact hspans.stop_eq
      · rw [Parser.content, List.map_append, ← List.append_assoc]
        exact h.content.append (fills_leaf hspans _ hlex _)
    · exact ⟨front, piece, rest, hspans, h.content, rfl⟩

/-- The next token starts behind the extras that are read. -/
theorem Fills.read (h : Fills s p front back) (hrows : InRows s p) :
    FillsTo s (read s p).1 (read s p).2 := by
  refine h.readOn hrows.lexState_getD _ ?_
  rw [Setting.length, h.text_eq, byteLength_append]
  omega

/-! ### Shifting and reducing -/

/-- Putting a subtree on the stack behind all that waits. -/
theorem InRows.push (h : InRows s p) {e : Entry} (he : e.state < s.table.parts.stateCount)
    (hleaf : e.subtree.isLeaf = true →
      e.subtree.isIgnored = true ∨ s.table.isTerminal e.subtree.symbol = true)
    {lexState : Option Nat} (hlex : ∀ q, lexState = some q → q < s.table.parts.stateCount)
    (position : Nat) (scanner : ScannerState) :
    InRows s ⟨e :: p.flush.stack, [], position, scanner, lexState⟩ where
  stack := (h.stack.pushAllIgnored (stateCount_pos s) _).cons he
  lexState := hlex
  leaves := by
    intro t ht
    rw [content, List.map_nil, List.append_nil, Stack.subtrees_cons, subtrees_flush] at ht
    rcases List.mem_append.mp ht with ht | ht
    · exact h.leaves t ht
    · rw [List.mem_singleton.mp ht]
      exact hleaf

/-- Pushing a subtree that spells the next piece of the text fills the text up to there. -/
theorem fills_push {e : Entry} {lexState : Option Nat} {scanner : ScannerState} {position : Nat}
    {piece rest : List Char} (htext : s.text = front ++ piece ++ rest)
    (hposition : position = byteLength (front ++ piece))
    (hcontent : Subtree.Fills s.table.parts.stateCount p.content front)
    (hpiece : Subtree.Fills s.table.parts.stateCount [e.subtree] piece) :
    Fills s ⟨e :: p.flush.stack, [], position, scanner, lexState⟩ (front ++ piece) rest where
  text_eq := htext
  position_eq := hposition
  content := by
    rw [content, List.map_nil, List.append_nil, Stack.subtrees_cons, subtrees_flush]
    exact hcontent.append hpiece

/-- A shift leads to a row of the table. -/
theorem InRows.shift (h : InRows s p) {next : Nat}
    (haction : s.table.action p.state token.symbol = .shift next) :
    InRows s (p.shift s next token) :=
  h.push (e := ⟨next, _, token.start⟩) (ParseTable.lt_of_action_shift haction)
    (fun _ => .inr (ParseTable.isTerminal_of_action_shift haction)) h.lexState _ _

/-- A shift fills the text up to the end of the token. -/
theorem FillsTo.shift (h : FillsTo s token p) {next : Nat}
    (hnext : next < s.table.parts.stateCount) :
    ∃ front back, Fills s (p.shift s next token) front back := by
  obtain ⟨front, piece, rest, hspans, hcontent, hposition⟩ := h
  have hstop : p.position = byteLength (front ++ piece) := by
    rw [hposition, hspans.stop_eq, byteLength_append]
  exact ⟨_, _, fills_push (e := ⟨next, _, token.start⟩) hspans.text_eq hstop hcontent
    (fills_leaf hspans _ hnext _)⟩

/-- A part of the old tree that is taken over notes a state of the table, and fills a piece of the old
text that stands in the new one. -/
theorem Reused.exists_piece {t : Subtree} {after oldStart : Nat} {r : Reuse} {piece rest : List Char}
    (h : Reused s p token t after r oldStart) (hreuse : Reuse.Filling s r)
    (hspans : token.Spans s.text front piece rest) :
    ∃ v rest', s.text = front ++ v ++ rest' ∧
      Subtree.Fills s.table.parts.stateCount [t] v := by
  obtain ⟨old, more, hold, hturns⟩ := hreuse
  obtain ⟨place, hpart, hplace⟩ := Reuse.exists_part_of_mem_candidates h.candidate
  obtain ⟨u, v, w, rfl, hstart, ht⟩ := hold.exists_of_mem_parts (mem_parts_of_mem_children hpart)
  obtain rfl : oldStart = byteLength u := hplace.symm.trans hstart
  have hlength := ht.length_eq
  have hclear := h.untouched
  rw [Reuse.isUntouched, hlength] at hclear
  rw [hspans.text_eq, List.append_assoc front, List.append_assoc u, List.append_assoc u,
    List.append_assoc v] at hturns
  obtain ⟨rest', hrest, -⟩ := (hturns.agree hspans.start_eq h.place hclear).append (by omega)
  refine ⟨v, rest', ?_, ht⟩
  rw [hspans.text_eq, List.append_assoc, hrest, List.append_assoc]

/-- A subtree that is taken over leads to the row that its goto names. -/
theorem InRows.takeOver (h : InRows s p) (hfills : FillsTo s token p)
    (hreuse : s.Filling) {t : Subtree} {after : Nat}
    (htaken : toReuse? s p token = some (t, after)) : InRows s (p.takeOver token t after) := by
  obtain ⟨r, oldStart, hreused⟩ := exists_of_toReuse htaken
  obtain ⟨front, piece, rest, hspans, -⟩ := hfills
  obtain ⟨v, rest', -, ht⟩ := hreused.exists_piece (hreuse r hreused.reuse) hspans
  refine h.push (e := ⟨after, t, token.start⟩) (ParseTable.lt_of_goto? hreused.goto) (fun hleaf => ?_)
    (fun q hq => ht.note.1.lexState hq) _ _
  rw [hreused.isLeaf] at hleaf
  cases hleaf

/-- A subtree that is taken over spells the piece of the text that it stands for. -/
theorem FillsTo.takeOver (h : FillsTo s token p)
    (hreuse : s.Filling) {t : Subtree} {after : Nat}
    (htaken : toReuse? s p token = some (t, after)) :
    ∃ front back, Fills s (p.takeOver token t after) front back := by
  obtain ⟨r, oldStart, hreused⟩ := exists_of_toReuse htaken
  obtain ⟨front, piece, rest, hspans, hcontent, -⟩ := h
  obtain ⟨v, rest', htext, ht⟩ := hreused.exists_piece (hreuse r hreused.reuse) hspans
  refine ⟨front ++ v, rest', fills_push (e := ⟨after, t, token.start⟩) htext ?_ hcontent ht⟩
  rw [hspans.start_eq, ht.length_eq, byteLength_append]

/-- What a reduction does to the subtrees: those of the steps are put together in a node, which is put
in an error node if there is no goto. -/
theorem exists_content_reduce (s : Setting A) (p : Parser) (token : Token) {production : Nat}
    {rule : TableProduction} (hrule : s.table.production? production = some rule) :
    ∃ before steps after node,
      p.content = before ++ steps ++ after ∧
      (p.reduce s production token).content = before ++ [node] ++ after ∧
      node.isLeaf = false ∧ ∀ count u,
        Subtree.Fills count (before ++ steps ++ after) u →
          Subtree.Fills count (before ++ [node] ++ after) u := by
  obtain ⟨trailing, steps, below, start, node, hstack, -, -, -, hnode, hreduce⟩ :=
    exists_of_reduce s p token hrule
  have hcontent : p.content = Stack.subtrees below ++ Stack.subtrees steps ++
      (Stack.subtrees trailing ++ p.pending.map (·.1)) := by
    rw [content, hstack, Stack.subtrees_append, Stack.subtrees_append, List.append_assoc]
  have htrailing : (trailing.reverse.map fun e => (e.subtree, e.start)).map (·.1) =
      Stack.subtrees trailing := by
    rw [List.map_map, List.map_reverse]
    rfl
  have hgroup : ∀ count u, Subtree.Fills count (Stack.subtrees below ++ Stack.subtrees steps ++
      (Stack.subtrees trailing ++ p.pending.map (·.1))) u → Subtree.Fills count
        (Stack.subtrees below ++ [node] ++ (Stack.subtrees trailing ++ p.pending.map (·.1))) u := by
    intro count u h
    rw [hnode, List.map_reverse]
    exact h.exchange fun _ h => h.build ..
  rw [hreduce]
  split
  · refine ⟨_, _, _, node, hcontent, ?_, hnode ▸ rfl, hgroup⟩
    rw [content, Stack.subtrees_pushAllIgnored, htrailing, Stack.subtrees_cons, List.append_assoc]
  · refine ⟨_, _, _, buildError s.generation [node] (Stack.state below) (stackScanner below),
      hcontent, ?_, rfl, fun count u h => (hgroup count u h).exchange fun _ h => h.buildError ..⟩
    rw [content, Stack.subtrees_pushAllIgnored, htrailing, Stack.pushIgnored, Stack.subtrees_cons,
      List.append_assoc]

/-- A reduction leads to a row. -/
theorem InRows.reduce (h : InRows s p) (production : Nat) :
    InRows s (p.reduce s production token) := by
  cases hrule : s.table.production? production with
  | none =>
    rw [Parser.reduce, hrule]
    exact h
  | some rule =>
    obtain ⟨before, steps, after, node, hcontent, hcontent', hleaf, -⟩ :=
      exists_content_reduce s p token hrule
    obtain ⟨trailing, front, below, start, node', hstack, -, -, -, -, hreduce⟩ :=
      exists_of_reduce s p token hrule
    have hbelow : Stack.Below s.table.parts.stateCount below := fun e he =>
      h.stack e (by
        rw [hstack]
        exact List.mem_append_right _ (List.mem_append_right _ he))
    refine ⟨?_, ?_, fun t ht hleaf' => ?_⟩
    · rw [hreduce]
      refine Stack.Below.pushAllIgnored ?_ (stateCount_pos s) _
      split
      · rename_i next hgoto
        exact hbelow.cons (ParseTable.lt_of_goto? hgoto)
      · exact hbelow.cons (hbelow.state (stateCount_pos s))
    · rw [hreduce]
      exact h.lexState
    · rw [hcontent'] at ht
      have hbefore : t ∈ before ++ steps ++ after → t.isIgnored = true ∨
          s.table.isTerminal t.symbol = true := fun ht => h.leaves t (hcontent ▸ ht) hleaf'
      simp only [List.mem_append, List.mem_singleton] at ht hbefore
      rcases ht with (ht | rfl) | ht
      · exact hbefore (.inl (.inl ht))
      · rw [hleaf] at hleaf'
        cases hleaf'
      · exact hbefore (.inr ht)

/-- A reduction puts together what was there. -/
theorem FillsTo.reduce (h : FillsTo s token p) (production : Nat) :
    FillsTo s token (p.reduce s production token) := by
  cases hrule : s.table.production? production with
  | none =>
    rw [Parser.reduce, hrule]
    exact h
  | some rule =>
    obtain ⟨front, piece, rest, hspans, hfills, hposition⟩ := h
    obtain ⟨before, steps, after, node, hcontent, hcontent', -, hgroup⟩ :=
      exists_content_reduce s p token hrule
    refine ⟨front, piece, rest, hspans, ?_, ?_⟩
    · rw [hcontent']
      exact hgroup _ _ (hcontent ▸ hfills)
    · obtain ⟨_, _, _, _, _, _, _, _, _, _, hreduce⟩ := exists_of_reduce s p token hrule
      rw [hreduce]
      exact hposition

/-! ### Recovery -/

/-- A token that is given up leaves the state as it is. -/
theorem InRows.giveUpToken (h : InRows s p) (token : Token) : InRows s (giveUpToken s p token) :=
  h.push (e := ⟨_, _, token.start⟩) ((h.stack.pushAllIgnored (stateCount_pos s) _).state
    (stateCount_pos s)) (fun hleaf => by cases hleaf) h.lexState _ _

/-- A token that is given up goes into an error node. -/
theorem FillsTo.giveUpToken (h : FillsTo s token p) (hrows : InRows s p) :
    ∃ front back, Fills s (giveUpToken s p token) front back := by
  obtain ⟨front, piece, rest, hspans, hcontent, hposition⟩ := h
  have hstop : p.position = byteLength (front ++ piece) := by
    rw [hposition, hspans.stop_eq, byteLength_append]
  have hstate : p.flush.state < s.table.parts.stateCount :=
    (hrows.stack.pushAllIgnored (stateCount_pos s) _).state (stateCount_pos s)
  have hleaf := fills_leaf hspans p.flush.state hstate true
  exact ⟨_, _, fills_push (e := ⟨_, _, token.start⟩) hspans.text_eq hstop hcontent
    (hleaf.buildError ..)⟩

/-- Reading ahead leaves the stack alone. -/
theorem InRows.readAheadOn (h : InRows s p) (extras : List (Subtree × Nat)) (fuel : Nat) :
    InRows s (readAheadOn s extras fuel p).2 := by
  induction fuel generalizing extras p with
  | zero => exact h
  | succ fuel ih =>
    rw [Parser.readAheadOn]
    split
    · exact ih (p := p.behind _) ⟨h.stack, h.lexState, h.leaves⟩ _
    · exact ⟨h.stack, h.lexState, h.leaves⟩

/-- Whether skipped tokens, and the extras before the next one, fill the text from a place on, up to the
next token, behind which the parser stands. -/
def FillsAhead (s : Setting A) (front : List Char) (skipped : List Ahead) (current : Ahead)
    (p : Parser) : Prop :=
  ∃ u v piece rest, (∀ q < s.table.parts.stateCount, Subtree.Fills s.table.parts.stateCount
      (skipped.flatMap (skippedSubtrees s q)) u) ∧
    Subtree.Fills s.table.parts.stateCount (current.extras.map (·.1)) v ∧
    current.token.Spans s.text (front ++ u ++ v) piece rest ∧ p.position = current.token.stop

/-- The tokens and extras that are looked at ahead stand one behind the other. -/
theorem fillsAhead_readAheadOn (skipped : List Ahead) (extras : List (Subtree × Nat))
    {u v : List Char} (back : List Char) (fuel : Nat) {p : Parser} (hrows : InRows s p)
    (hskipped : ∀ q < s.table.parts.stateCount, Subtree.Fills s.table.parts.stateCount
      (skipped.flatMap (skippedSubtrees s q)) u)
    (hextras : Subtree.Fills s.table.parts.stateCount (extras.map (·.1)) v)
    (htext : s.text = front ++ u ++ v ++ back)
    (hposition : p.position = byteLength (front ++ u ++ v)) (hfuel : byteLength back < fuel) :
    FillsAhead s front skipped (readAheadOn s extras fuel p).1 (readAheadOn s extras fuel p).2 := by
  induction fuel generalizing extras v back p with
  | zero => exact absurd hfuel (Nat.not_lt_zero _)
  | succ fuel ih =>
    obtain ⟨piece, rest, hspans⟩ := Lexer.spans_nextTokenInErrorMode s.language
      (front ++ u ++ v) back p.scanner
    rw [← htext, ← hposition] at hspans
    rw [readAheadOn]
    split
    · rename_i hextra
      have hpos := byteLength_pos.mpr (hspans.extra hextra)
      have hback : back = piece ++ rest := by
        have := htext.symm.trans hspans.text_eq
        rw [List.append_assoc _ piece rest] at this
        exact List.append_cancel_left this
      rw [hback, byteLength_append] at hfuel
      refine ih _ rest (v := v ++ piece) ⟨hrows.stack, hrows.lexState, hrows.leaves⟩ ?_ ?_ ?_
        (by omega)
      · rw [List.map_append]
        exact hextras.append (fills_leaf hspans _ hrows.state _)
      · rw [hspans.text_eq]
        simp
      · rw [← List.append_assoc, byteLength_append]
        exact hspans.stop_eq
    · exact ⟨u, v, piece, rest, hskipped, hextras, hspans, rfl⟩

/-- Looking for a recovery fills the text with what it skips. The first token it looks at has no extras
before it. -/
theorem FillsAhead.findRecovery {skipped : List Ahead} {current : Ahead} {window : Nat}
    {p p' : Parser} {r : Recovery} (h : FillsAhead s front skipped current p) (hrows : InRows s p)
    (hfirst : ((skipped ++ [current]).head?.map (·.extras)) = some [])
    (hfound : findRecovery s skipped current window p = some (r, p')) :
    FillsAhead s front r.skipped r.resume p' ∧ InRows s p' ∧
      ((r.skipped ++ [r.resume]).head?.map (·.extras)) = some [] := by
  replace hfound := finds_of_findRecovery hfound
  induction hfound with
  | here => exact ⟨h, hrows, hfirst⟩
  | @behind skipped current p _ _ _ _ ih =>
    obtain ⟨u, v, piece, rest, hskipped, hextras, hspans, hposition⟩ := h
    -- the token that was looked at is skipped as well
    have hall : ∀ q < s.table.parts.stateCount, Subtree.Fills s.table.parts.stateCount
        ((skipped ++ [current]).flatMap (skippedSubtrees s q)) (u ++ (v ++ piece)) := by
      intro q hq
      rw [List.flatMap_append, List.flatMap_singleton]
      exact (hskipped q hq).append (hextras.append (fills_leaf hspans _ hq _))
    refine ih (fillsAhead_readAheadOn (skipped ++ [current]) [] rest (s.length + 1) hrows hall
      fills_nil ?_ ?_ ?_) (hrows.readAheadOn _ _) ?_
    · rw [hspans.text_eq]
      simp
    · rw [hposition, hspans.stop_eq]
      simp only [byteLength_append, List.append_nil]
      omega
    · rw [Setting.length, hspans.text_eq]
      simp only [byteLength_append]
      omega
    · rw [List.head?_append, Option.or_of_isSome (by simp)]
      exact hfirst

/-- What getting over an error does to the subtrees: those that are given up are put together in an error
node, if there are any. -/
theorem exists_content_resume (s : Setting A) (p : Parser) {r : Recovery}
    (hfirst : ((r.skipped ++ [r.resume]).head?.map (·.extras)) = some []) :
    ∃ lost after, p.content ++
        r.skipped.flatMap (skippedSubtrees s (Stack.state (p.stack.drop r.popped))) ++
        r.resume.extras.map (·.1) = Stack.subtrees (p.stack.drop r.popped) ++ lost ++ after ∧
      (∀ t ∈ after, t ∈ p.content ∨ t ∈ r.resume.extras.map (·.1)) ∧
      ∃ error, error.isLeaf = false ∧
        ((resume s r p).2.content = Stack.subtrees (p.stack.drop r.popped) ++ lost ++ after ∧
            lost = [] ∨
          (resume s r p).2.content = Stack.subtrees (p.stack.drop r.popped) ++ [error] ++ after) ∧
        ∀ count u, Subtree.Fills count
          (Stack.subtrees (p.stack.drop r.popped) ++ lost ++ after) u →
            Subtree.Fills count (Stack.subtrees (p.stack.drop r.popped) ++ [error] ++ after) u := by
  obtain ⟨lost, hlost⟩ : ∃ lost, ((p.stack.take r.popped).reverse.map fun e =>
      (e.subtree, e.start)) ++ givenUp s (Stack.state (p.stack.drop r.popped)) p.pending r.skipped =
        lost := ⟨_, rfl⟩
  obtain ⟨waiting, hwaiting⟩ : ∃ waiting,
      (if r.skipped.isEmpty then p.pending else r.resume.extras) = waiting := ⟨_, rfl⟩
  -- What is lost stands between what is kept below and what waits above.
  have hsplit : p.content = Stack.subtrees (p.stack.drop r.popped) ++
      Stack.subtrees (p.stack.take r.popped) ++ p.pending.map (·.1) := by
    rw [content, ← Stack.subtrees_append, List.take_append_drop]
  have htaken : ((p.stack.take r.popped).reverse.map fun e => (e.subtree, e.start)).map (·.1) =
      Stack.subtrees (p.stack.take r.popped) := by
    rw [List.map_map, List.map_reverse]
    rfl
  refine ⟨lost.map (·.1), waiting.map (·.1), ?_, ?_, ?_⟩
  · rw [← hlost, ← hwaiting, hsplit, List.map_append, htaken]
    cases hr : r.skipped with
    | nil =>
      rw [hr, List.nil_append, List.head?_singleton, Option.map_some, Option.some.injEq] at hfirst
      -- nothing was skipped, so what waits goes on waiting
      simp [hfirst, givenUp]
    | cons first others =>
      rw [hr, List.cons_append, List.head?_cons, Option.map_some, Option.some.injEq] at hfirst
      rw [map_givenUp hfirst]
      simp
  · rw [← hwaiting]
    intro t ht
    split at ht
    · exact .inl (List.mem_append_right _ ht)
    · exact .inr ht
  · refine ⟨buildError s.generation (lost.map (·.1)) (Stack.state (p.stack.drop r.popped))
      r.resume.token.scannerBefore, rfl, ?_, fun count u h => h.exchange fun _ h => h.buildError ..⟩
    rw [Parser.resume, content]
    dsimp only
    rw [hlost, hwaiting]
    cases lost with
    -- Without anything lost there is no error node.
    | nil => exact .inl ⟨by simp, rfl⟩
    | cons entry rest =>
      right
      dsimp only
      rw [Stack.pushIgnored, Stack.subtrees_cons]

/-- Getting over an error goes back to a state that was there. -/
theorem InRows.resume (h : InRows s p) {r : Recovery}
    (hextras : ∀ entry ∈ r.resume.extras, entry.1.isIgnored = true)
    (hfirst : ((r.skipped ++ [r.resume]).head?.map (·.extras)) = some []) :
    InRows s (resume s r p).2 := by
  have hbelow : Stack.Below s.table.parts.stateCount (p.stack.drop r.popped) :=
    fun e he => h.stack e (List.mem_of_mem_drop he)
  obtain ⟨lost, after, -, hafter, error, herror, hcontent, -⟩ := exists_content_resume s p hfirst
  refine ⟨?_, h.lexState, fun t ht hleaf => ?_⟩
  · rw [Parser.resume]
    dsimp only
    split
    · exact hbelow
    · exact hbelow.cons (hbelow.state (stateCount_pos s))
  · have hdrop : t ∈ Stack.subtrees (p.stack.drop r.popped) → t ∈ p.content := by
      intro ht
      refine List.mem_append_left _ ?_
      rw [← List.take_append_drop r.popped p.stack, Stack.subtrees_append]
      exact List.mem_append_left _ ht
    have hkept : t ∈ Stack.subtrees (p.stack.drop r.popped) ∨ t ∈ after := by
      rcases hcontent with ⟨hcontent, rfl⟩ | hcontent
      · rw [hcontent, List.append_nil] at ht
        exact List.mem_append.mp ht
      · rw [hcontent, List.mem_append, List.mem_append, List.mem_singleton] at ht
        rcases ht with (ht | rfl) | ht
        · exact .inl ht
        · rw [herror] at hleaf
          cases hleaf
        · exact .inr ht
    rcases hkept with ht | ht
    · exact h.leaves t (hdrop ht) hleaf
    · rcases hafter t ht with ht | ht
      · exact h.leaves t ht hleaf
      · obtain ⟨entry, hentry, rfl⟩ := List.mem_map.mp ht
        exact .inl (hextras entry hentry)

/-- What is skipped to get over an error goes into an error node. -/
theorem FillsTo.resume (h : Subtree.Fills s.table.parts.stateCount p.content front)
    (hrows : InRows s p) {r : Recovery} (hr : FillsAhead s front r.skipped r.resume p)
    (hfirst : ((r.skipped ++ [r.resume]).head?.map (·.extras)) = some []) :
    FillsTo s (resume s r p).1 (resume s r p).2 := by
  obtain ⟨u, v, piece, rest, hskipped, hextras, hspans, hposition⟩ := hr
  have hstate : Stack.state (p.stack.drop r.popped) < s.table.parts.stateCount :=
    Stack.Below.state (fun e he => hrows.stack e (List.mem_of_mem_drop he)) (stateCount_pos s)
  have hall := (h.append (hskipped _ hstate)).append hextras
  obtain ⟨lost, after, heq, -, error, -, hcontent, hgroup⟩ := exists_content_resume s p hfirst
  rw [heq] at hall
  refine ⟨front ++ u ++ v, piece, rest, ⟨hspans.text_eq, hspans.start_eq, hspans.stop_eq,
    hspans.ends, hspans.extra⟩, ?_, hposition⟩
  rcases hcontent with ⟨hcontent, -⟩ | hcontent
  · rwa [hcontent]
  · rw [hcontent]
    exact hgroup _ _ hall

/-! ### Moves -/

/-- What holds wherever a run gets to. -/
structure Kept (s : Setting A) (token : Token) (p : Parser) : Prop where
  rows : InRows s p
  fills : FillsTo s token p

/-- Where all up to a place is filled, the next token is read. -/
theorem Kept.of_read (hrows : InRows s p) (hfills : ∃ front back, Fills s p front back) :
    Kept s (read s p).1 (read s p).2 := by
  obtain ⟨front, back, h⟩ := hfills
  exact ⟨hrows.read, h.read hrows⟩

/-- At the start all of this holds. -/
theorem kept_start (s : Setting A) : Kept s (read s start).1 (read s start).2 :=
  .of_read (inRows_start s) ⟨_, _, fills_start s⟩

/-- The next token has no extras before it, and fills nothing yet. -/
theorem FillsTo.fillsAhead (h : FillsTo s token p) :
    ∃ front, Subtree.Fills s.table.parts.stateCount p.content front ∧
      FillsAhead s front [] ⟨[], token⟩ p := by
  obtain ⟨front, piece, rest, hspans, hcontent, hposition⟩ := h
  exact ⟨front, hcontent, [], [], piece, rest, fun _ _ => fills_nil, fills_nil, by simpa using hspans,
    hposition⟩

/-- A move that is not the last one keeps what holds of parsers. -/
theorem Kept.of_step (hreuse : s.Filling) (h : Kept s token p)
    {token' : Token} {p' : Parser} (hmove : step s p token = .more token' p') : Kept s token' p' := by
  have hmove' := move_step s p token
  rw [hmove] at hmove'
  cases hmove' with
  | shift haction =>
    exact .of_read (h.rows.shift haction) (h.fills.shift (ParseTable.lt_of_action_shift haction))
  | takeOver _ htaken =>
    exact .of_read (h.rows.takeOver h.fills hreuse htaken) (h.fills.takeOver hreuse htaken)
  | reduce => exact ⟨h.rows.reduce _, h.fills.reduce _⟩
  | @resume r p' _ hfound =>
    obtain ⟨front, hcontent, hahead⟩ := h.fills.fillsAhead
    obtain ⟨hstack, hpending⟩ := stack_findRecovery hfound
    have hsame : p'.content = p.content := by rw [content, content, hstack, hpending]
    obtain ⟨hahead, hrows, hfirst⟩ := hahead.findRecovery h.rows rfl hfound
    obtain ⟨-, hextras, -⟩ :=
      spec_of_findRecovery (P := fun a => ∀ entry ∈ a.extras, entry.1.isIgnored = true)
        (fun p => (spec_readAhead (P := fun t => t.isIgnored = true)
          (fun _ _ hextra => Bool.or_eq_true_iff.mpr (.inl hextra)) p).1)
        hfound (fun _ h => absurd h List.not_mem_nil) (fun _ h => absurd h List.not_mem_nil)
    exact ⟨hrows.resume hextras hfirst, .resume (hsame ▸ hcontent) hrows hahead hfirst⟩
  | giveUp => exact .of_read (h.rows.giveUpToken token) (h.fills.giveUpToken h.rows)

/-- **Every run keeps it**, by induction on its moves. -/
theorem Reaches.kept (hreuse : s.Filling) (h : Reaches s token p) :
    Kept s token p := by
  induction h with
  | start => exact kept_start s
  | step _ hmove ih => exact ih.of_step hreuse hmove

/-! ### The end of a run -/

/-- Replacing the node for the start symbol by its children does not change what is filled. -/
theorem fills_unwrapStart {startSymbol : Symbol} {count : Nat} {ts : List Subtree}
    (hleaves : ∀ t ∈ ts, t.isLeaf = true → t.isIgnored = true ∨ t.symbol ≠ startSymbol)
    {u : List Char} (h : Subtree.Fills count ts u) :
    Subtree.Fills count (unwrapStart startSymbol ts).2 u := by
  induction ts generalizing u with
  | nil => exact h
  | cons t ts ih =>
    have hsplit : Subtree.Fills count ([t] ++ ts) u := h
    obtain ⟨v, v', rfl, ht, hts⟩ := hsplit.exists_of_append
    have hrest := ih (fun t ht => hleaves t (List.mem_cons_of_mem _ ht)) hts
    rw [unwrapStart]
    split
    · rename_i hstart
      simp only [Bool.and_eq_true, Bool.not_eq_true', decide_eq_true_eq] at hstart
      have hnode : t.isLeaf = false := by
        refine Bool.eq_false_iff.mpr fun hleaf => ?_
        rcases hleaves t (List.mem_cons_self ..) hleaf with hignored | hne
        · rw [hstart.1] at hignored
          cases hignored
        · exact hne hstart.2
      split
      · exact (ht.children hnode).append hts
      · exact (ht.children hnode).append hrest
    · exact ht.append hrest

/-- The tree that a run ends with is one of the text, and fills a beginning of it. -/
theorem Kept.fills_of_done (h : Kept s token p) {tree : SyntaxTree A} (hdone : step s p token = .done tree) :
    tree.language = s.language ∧ tree.text = s.text ∧
      ∃ front back, s.text = front ++ back ∧
        Subtree.Fills s.table.parts.stateCount [tree.root] front := by
  obtain ⟨front, piece, rest, hspans, hcontent, -⟩ := h.fills
  rw [← subtrees_flush] at hcontent
  -- a leaf that is a step is a terminal, so the start symbol is that of a node
  have hleaves : ∀ t ∈ Stack.subtrees p.flush.stack, t.isLeaf = true →
      t.isIgnored = true ∨ t.symbol ≠ s.table.startSymbol := by
    intro t ht hleaf
    rw [subtrees_flush] at ht
    refine (h.rows.leaves t ht hleaf).imp_right fun hterminal hstart => ?_
    rw [hstart] at hterminal
    exact Nat.lt_irrefl _ (of_decide_eq_true hterminal)
  have hmove := move_step s p token
  rw [hdone] at hmove
  refine ⟨?_, ?_, front, piece ++ rest, by rw [hspans.text_eq, List.append_assoc], ?_⟩
  · cases hmove <;> rfl
  · cases hmove <;> rfl
  cases hmove with
  | accept => exact (fills_unwrapStart hleaves hcontent).build ..
  | abandon => exact hcontent.buildError ..

end Parser

open Parsing.Parser

/-- The tree that a run ends with is one of the text, and fills a beginning of it. -/
theorem Setting.Yields.fills {s : Setting A} {tree : SyntaxTree A}
    (hreuse : s.Filling) (h : s.Yields tree) :
    tree.language = s.language ∧ tree.text = s.text ∧
      ∃ front back, s.text = front ++ back ∧
        Subtree.Fills s.table.parts.stateCount [tree.root] front := by
  obtain ⟨token, p, hreaches, hdone⟩ := h.exists_last
  exact (hreaches.kept hreuse).fills_of_done hdone

/-- The old tree of a genuine setting fills a beginning of the old text. -/
theorem Setting.Genuine.filling {l : Language A} {s : Setting A} (h : s.Genuine l) :
    s.language = l ∧ s.Filling := by
  induction h with
  | fresh text window =>
    refine ⟨rfl, fun r hr => ?_⟩
    cases hr
  | edited before yields accepted turns ih =>
    obtain ⟨hlanguage, hreuse⟩ := ih
    obtain ⟨hold, htext, front, back, hfront, hfills⟩ := yields.fills hreuse
    refine ⟨hold.trans hlanguage, fun r hr => ?_⟩
    cases hr
    refine ⟨front, back, ?_, hfront ▸ htext ▸ turns⟩
    rw [Setting.table] at hfills ⊢
    rwa [Setting.edited, hold]

end Parsing

end LRWorkbench
