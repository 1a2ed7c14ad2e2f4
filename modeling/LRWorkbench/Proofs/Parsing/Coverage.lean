import LRWorkbench.Proofs.Parsing.Derivation

/-!
# Trees cover their texts

Text flows through many hands: extras wait, tokens are shifted, entries are put together, given up
or taken over from an old tree. At each time the stack and the extras that wait spell the text up
to the next token (`Parser.Covers`), and no move loses a piece of it or changes the order
(`Covers.step`). So the leaves of a tree divide its text among themselves, and every part of it
stands where its size says (`coverage_of_genuine`).
-/

namespace LRWorkbench.Parsing

open Lalr PreparedGrammar Subtree Text

variable {A : Type} [ByteAutomaton A] {s : Setting A}

/-- The leaf of a token spells what the token takes. -/
theorem spells_leaf {token : Token} {front piece rest : List Char}
    (h : token.Takes s.text front piece rest) (hpiece : piece ≠ []) (parseState lexState : Nat)
    (isFragile : Bool) : Spells (s.leaf token parseState lexState isFragile) piece := by
  refine .leaf ?_ hpiece
  rw [h.start_eq, h.stop_eq, h.text_eq, slice_append]

theorem piece_ne_nil {token : Token} {text front piece rest : List Char}
    (h : token.Takes text front piece rest) (hend : token.isEnd = false) : piece ≠ [] := by
  intro hpiece
  rw [h.isEnd_iff.mpr hpiece] at hend
  cases hend

namespace Stack

theorem subtrees_cons (e : Entry) (stack : Stack) :
    subtrees (e :: stack) = subtrees stack ++ [e.subtree] := by
  rw [subtrees, List.map_cons, List.reverse_cons]
  rfl

theorem subtrees_append (front rest : Stack) :
    subtrees (front ++ rest) = subtrees rest ++ subtrees front := by
  rw [subtrees, List.map_append, List.reverse_append]
  rfl

theorem subtrees_pushAllIgnored (stack : Stack) (entries : List (Subtree × Nat)) :
    subtrees (pushAllIgnored stack entries) = subtrees stack ++ entries.map (·.1) := by
  obtain ⟨front, hfront, hentries, -⟩ := pushAllIgnored_spec stack entries
  have hmap : entries.map (·.1) = subtrees front := by
    rw [← List.reverse_reverse entries, ← hentries, List.map_reverse, List.map_map]
    rfl
  rw [hfront, subtrees_append, hmap]

end Stack

namespace Parser

/-- The subtrees on the stack and those that wait, in the order of the text. -/
def content (p : Parser) : List Subtree := Stack.subtrees p.stack ++ p.pending.map (·.1)

theorem subtrees_flush (p : Parser) : Stack.subtrees p.flush.stack = p.content :=
  Stack.subtrees_pushAllIgnored ..

/-- Whether the stack and what waits spell the text up to a place, at which the next token is
looked for. -/
structure Spells (s : Setting A) (p : Parser) (front back : List Char) : Prop where
  text_eq : s.text = front ++ back
  position_eq : p.position = byteLength front
  content : SpellsAll p.content front

/-- Whether the stack and what waits spell the text up to the next token, behind which the parser
stands. -/
def Covers (s : Setting A) (token : Token) (p : Parser) : Prop :=
  ∃ front piece rest, token.Takes s.text front piece rest ∧ SpellsAll p.content front ∧
    p.position = token.stop

theorem spells_start (s : Setting A) : Spells s start [] s.text where
  text_eq := rfl
  position_eq := rfl
  content := .nil

variable {p : Parser} {token : Token} {front back : List Char}

/-! ### Reading tokens -/

/-- Extras that are read are spelled out behind what there is, up to the next token. -/
theorem Spells.readOn (h : Spells s p front back) (hl : s.table.SparesEnd) (lexState fuel : Nat)
    (hfuel : byteLength back < fuel) :
    Covers s (readOn s lexState fuel p).1 (readOn s lexState fuel p).2 ∧
      p.position ≤ (readOn s lexState fuel p).1.start := by
  induction fuel generalizing p front back with
  | zero => exact absurd hfuel (Nat.not_lt_zero _)
  | succ fuel ih =>
    obtain ⟨piece, rest, htakes⟩ := Lexer.takes_nextToken (l := s.language) hl front back p.scanner
      (s.table.validTerminals lexState)
    rw [← h.text_eq, ← h.position_eq] at htakes
    rw [Parser.readOn]
    generalize Lexer.nextToken s.language s.text p.position p.scanner
      (s.table.validTerminals lexState) = token at htakes ⊢
    dsimp only
    split
    · rename_i hextra
      have hpiece := htakes.extra hextra
      have hleaf := spells_leaf (s := s) htakes hpiece p.state lexState token.errorMode
      have hback : back = piece ++ rest := by
        have := h.text_eq.symm.trans htakes.text_eq
        rw [List.append_assoc] at this
        exact List.append_cancel_left this
      have hpos := byteLength_pos.mpr hpiece
      have hstop := htakes.stop_eq
      -- the extra waits, and the parser stands behind it
      have hnext : Spells s { p.behind token with
          pending := p.pending ++ [(s.leaf token p.state lexState token.errorMode, token.start)] }
          (front ++ piece) rest := by
        refine ⟨htakes.text_eq, ?_, ?_⟩
        · rw [byteLength_append]
          exact hstop
        · rw [Parser.content, List.map_append, ← List.append_assoc]
          exact h.content.append (.single hleaf)
      rw [hback, byteLength_append] at hfuel
      obtain ⟨hcovers, hle⟩ := ih hnext (by omega)
      have hposition := h.position_eq
      exact ⟨hcovers, Nat.le_trans (by simp only [behind]; omega) hle⟩
    · exact ⟨⟨front, piece, rest, htakes, h.content, rfl⟩,
        Nat.le_of_eq (h.position_eq.trans htakes.start_eq.symm)⟩

theorem Spells.read (h : Spells s p front back) (hl : s.table.SparesEnd) :
    Covers s (read s p).1 (read s p).2 ∧ p.position ≤ (read s p).1.start := by
  refine h.readOn hl _ _ ?_
  rw [Setting.length, h.text_eq, byteLength_append]
  omega

/-! ### The stack -/

/-- A piece that is put on the stack behind all that waits is spelled out behind it. -/
theorem spells_push {e : Entry} {lexState : Option Nat} {scanner : ScannerState} {position : Nat}
    {piece rest : List Char} (htext : s.text = front ++ piece ++ rest)
    (hposition : position = byteLength (front ++ piece)) (hcontent : SpellsAll p.content front)
    (hpiece : Subtree.Spells e.subtree piece) :
    Spells s ⟨e :: p.flush.stack, [], position, scanner, lexState⟩ (front ++ piece) rest where
  text_eq := htext
  position_eq := hposition
  content := by
    rw [content, List.map_nil, List.append_nil, Stack.subtrees_cons, subtrees_flush]
    exact hcontent.append (.single hpiece)

theorem Covers.shift (h : Covers s token p) (hend : token.isEnd = false) (next : Nat) :
    ∃ front back, Spells s (p.shift s next token) front back := by
  obtain ⟨front, piece, rest, htakes, hcontent, hposition⟩ := h
  have hstop : p.position = byteLength (front ++ piece) := by
    rw [hposition, htakes.stop_eq, byteLength_append]
  exact ⟨_, _, spells_push (e := ⟨next, _, token.start⟩) htakes.text_eq hstop hcontent
    (spells_leaf htakes (piece_ne_nil htakes hend) _ _ _)⟩

theorem Covers.giveUpToken (h : Covers s token p) (hend : token.isEnd = false) :
    ∃ front back, Spells s (giveUpToken s p token) front back := by
  obtain ⟨front, piece, rest, htakes, hcontent, hposition⟩ := h
  have hstop : p.position = byteLength (front ++ piece) := by
    rw [hposition, htakes.stop_eq, byteLength_append]
  have hleaf := spells_leaf htakes (piece_ne_nil htakes hend) p.flush.state p.flush.state true
  exact ⟨_, _, spells_push (e := ⟨_, _, token.start⟩) htakes.text_eq hstop hcontent
    ((SpellsAll.single hleaf).buildError _ _ _)⟩

/-- What is known of an old tree: it spells the old text, which was turned into the new one. -/
def Reuse.Truthful (text : List Char) (r : Reuse) : Prop :=
  ∃ old, Subtree.Spells r.root old ∧ r.edits.Turns old text

/-- A part of the old tree that is taken over spells what stands in the new text. -/
theorem Covers.takeOver (h : Covers s token p)
    (hreuse : ∀ r, s.reuse = some r → Reuse.Truthful s.text r) {t : Subtree} {after : Nat}
    (htoken : toReuse? s p token = some (t, after)) :
    ∃ front back, Spells s (p.takeOver token t after) front back := by
  obtain ⟨front, piece, rest, htakes, hcontent, -⟩ := h
  obtain ⟨r, oldStart, hreused⟩ := exists_of_toReuse htoken
  obtain ⟨old, hold, hturns⟩ := hreuse r hreused.reuse
  obtain ⟨place, hpart, hplace⟩ := Reuse.exists_part_of_mem_candidates hreused.candidate
  rw [← Extent.of_nil] at hpart
  obtain ⟨u, v, w, htext, hstart, ht⟩ := hold.stands (w := []) (mem_parts_of_mem_children hpart)
  dsimp only at hstart ht
  obtain rfl : oldStart = byteLength u := by
    rw [← hplace, hstart, Extent.bytes_of]
  simp only [List.nil_append, List.append_nil] at htext
  subst htext
  have hlength := ht.length_eq
  have hclear := hreused.untouched
  rw [Reuse.isUntouched, hlength] at hclear
  rw [htakes.text_eq, List.append_assoc front, List.append_assoc u] at hturns
  obtain ⟨rest', hrest, -⟩ :=
    (hturns.agree htakes.start_eq hreused.place hclear).append (by omega)
  refine ⟨front ++ v, rest', spells_push (e := ⟨after, t, token.start⟩) ?_ ?_ hcontent ht⟩
  · rw [htakes.text_eq, List.append_assoc, hrest, List.append_assoc]
  · rw [htakes.start_eq, hlength, byteLength_append]

/-- A reduction puts together what is there. -/
theorem Covers.reduce (h : Covers s token p) (production : Nat) :
    Covers s token (p.reduce s production token) := by
  cases hrule : s.table.production? production with
  | none =>
    rw [Parser.reduce, hrule]
    exact h
  | some rule =>
    obtain ⟨front, piece, rest, htakes, hcontent, hposition⟩ := h
    obtain ⟨trailing, steps, below, start, node, hstack, -, -, -, hnode, hreduce⟩ :=
      exists_of_reduce s p token hrule
    rw [content, hstack, Stack.subtrees_append, Stack.subtrees_append] at hcontent
    obtain ⟨u, u₄, rfl, hu, hpending⟩ := spellsAll_append.mp hcontent
    obtain ⟨u, u₃, rfl, hu, htrailing⟩ := spellsAll_append.mp hu
    obtain ⟨u₁, u₂, rfl, hbelow, hsteps⟩ := spellsAll_append.mp hu
    have hspells : Subtree.Spells node u₂ := by
      rw [hnode, List.map_reverse]
      exact hsteps.build _ _ _ _ _ _ _
    rw [hreduce]
    refine ⟨_, piece, rest, htakes, ?_, hposition⟩
    refine SpellsAll.append ?_ hpending
    rw [Stack.subtrees_pushAllIgnored]
    refine SpellsAll.append ?_ ?_
    · -- with a goto or without, the node stands behind what is below
      split
      · rw [Stack.subtrees_cons]
        exact hbelow.append (.single hspells)
      · rw [Stack.pushIgnored, Stack.subtrees_cons]
        exact hbelow.append (.single ((SpellsAll.single hspells).buildError _ _ _))
    · rw [List.map_map, List.map_reverse]
      exact htrailing

/-! ### Recovery -/

/-- The subtrees that skipping a token makes. -/
def skippedSubtrees (s : Setting A) (q : Nat) (a : Ahead) : List Subtree :=
  a.extras.map (·.1) ++ [s.leaf a.token q q true]

/-- Whether skipped tokens, and the extras before the next one, are spelled out from a place on,
up to the next token, behind which the parser stands. -/
def CoversAhead (s : Setting A) (front : List Char) (skipped : List Ahead) (current : Ahead)
    (p : Parser) : Prop :=
  ∃ u v piece rest, (∀ q, SpellsAll (skipped.flatMap (skippedSubtrees s q)) u) ∧
    SpellsAll (current.extras.map (·.1)) v ∧
    current.token.Takes s.text (front ++ u ++ v) piece rest ∧ p.position = current.token.stop

theorem coversAhead_readAheadOn (hl : s.table.SparesEnd) (skipped : List Ahead)
    (extras : List (Subtree × Nat)) {u v : List Char} (back : List Char) (fuel : Nat) {p : Parser}
    (hskipped : ∀ q, SpellsAll (skipped.flatMap (skippedSubtrees s q)) u)
    (hextras : SpellsAll (extras.map (·.1)) v) (htext : s.text = front ++ u ++ v ++ back)
    (hposition : p.position = byteLength (front ++ u ++ v)) (hfuel : byteLength back < fuel) :
    CoversAhead s front skipped (readAheadOn s extras fuel p).1 (readAheadOn s extras fuel p).2 := by
  induction fuel generalizing extras v back p with
  | zero => exact absurd hfuel (Nat.not_lt_zero _)
  | succ fuel ih =>
    obtain ⟨piece, rest, htakes⟩ := Lexer.takes_nextTokenInErrorMode (l := s.language) hl
      (front ++ u ++ v) back p.scanner
    rw [← htext, ← hposition] at htakes
    rw [readAheadOn]
    split
    · rename_i hextra
      have hpiece := htakes.extra hextra
      have hleaf := spells_leaf (s := s) htakes hpiece p.state p.state true
      have hback : back = piece ++ rest := by
        have := htext.symm.trans htakes.text_eq
        rw [List.append_assoc _ piece rest] at this
        exact List.append_cancel_left this
      refine ih _ rest (v := v ++ piece) ?_ ?_ ?_ ?_
      · rw [List.map_append]
        exact hextras.append (.single hleaf)
      · rw [htakes.text_eq]
        simp
      · rw [← List.append_assoc, byteLength_append]
        exact htakes.stop_eq
      · have hpos := byteLength_pos.mpr hpiece
        rw [hback, byteLength_append] at hfuel
        omega
    · exact ⟨u, v, piece, rest, hskipped, hextras, htakes, rfl⟩

/-- Looking for a recovery spells out what it skips. The first token it looks at has no extras
before it. -/
theorem CoversAhead.findRecovery (hl : s.table.SparesEnd) {skipped : List Ahead} {current : Ahead}
    {window : Nat} {p p' : Parser} {r : Recovery} (h : CoversAhead s front skipped current p)
    (hfirst : ((skipped ++ [current]).head?.map (·.extras)) = some [])
    (hfound : findRecovery s skipped current window p = some (r, p')) :
    CoversAhead s front r.skipped r.resume p' ∧
      ((r.skipped ++ [r.resume]).head?.map (·.extras)) = some [] := by
  replace hfound := finds_of_findRecovery hfound
  induction hfound with
  | here => exact ⟨h, hfirst⟩
  | @behind skipped current p _ _ goesOn _ ih =>
    obtain ⟨u, v, piece, rest, hskipped, hextras, htakes, hposition⟩ := h
    have hpiece := piece_ne_nil htakes goesOn
    -- the token that was looked at is skipped as well
    have hall : ∀ q, SpellsAll ((skipped ++ [current]).flatMap (skippedSubtrees s q))
        (u ++ (v ++ piece)) := by
      intro q
      rw [List.flatMap_append, List.flatMap_singleton]
      exact (hskipped q).append (hextras.append (.single (spells_leaf htakes hpiece _ _ _)))
    refine ih (coversAhead_readAheadOn hl (skipped ++ [current]) [] rest (s.length + 1) hall
      .nil ?_ ?_ ?_) ?_
    · rw [htakes.text_eq]
      simp
    · rw [hposition, htakes.stop_eq]
      simp only [byteLength_append, List.append_nil]
      omega
    · rw [Setting.length, htakes.text_eq]
      simp only [byteLength_append]
      omega
    · rw [List.head?_append, Option.or_of_isSome (by simp)]
      exact hfirst

/-- The subtrees that are given up on the side of the text. -/
theorem map_givenUp {q : Nat} {pending : List (Subtree × Nat)} {first : Ahead} {rest : List Ahead}
    (hfirst : first.extras = []) : (givenUp s q pending (first :: rest)).map (·.1) =
      pending.map (·.1) ++ (first :: rest).flatMap (skippedSubtrees s q) := by
  simp only [givenUp, List.map_append, List.map_cons, List.map_flatMap, List.flatMap_cons,
    skippedSubtrees, hfirst, List.map_nil, List.nil_append, List.singleton_append]
  rfl

theorem Covers.resume (h : SpellsAll p.content front) {r : Recovery}
    (hr : CoversAhead s front r.skipped r.resume p)
    (hfirst : ((r.skipped ++ [r.resume]).head?.map (·.extras)) = some []) :
    Covers s (resume s r p).1 (resume s r p).2 := by
  obtain ⟨u, v, piece, rest, hskipped, hextras, htakes, hposition⟩ := hr
  have htoken : Token.Takes s.text (front ++ u ++ v) piece rest (Parser.resume s r p).1 :=
    ⟨htakes.text_eq, htakes.start_eq, htakes.stop_eq, htakes.isEnd_iff, htakes.ends,
      htakes.extra⟩
  have hsplit : Stack.subtrees p.stack = Stack.subtrees (p.stack.drop r.popped) ++
      Stack.subtrees (p.stack.take r.popped) := by
    rw [← Stack.subtrees_append, List.take_append_drop]
  rw [content, hsplit] at h
  obtain ⟨front, u₃, rfl, h, hpending⟩ := spellsAll_append.mp h
  obtain ⟨u₁, u₂, rfl, hbelow, hpopped⟩ := spellsAll_append.mp h
  have htaken : ((p.stack.take r.popped).reverse.map fun e => (e.subtree, e.start)).map (·.1) =
      Stack.subtrees (p.stack.take r.popped) := by
    rw [List.map_map, List.map_reverse]
    rfl
  -- the error node spells what is lost
  obtain ⟨w, w', hw, hlost, hwaiting⟩ : ∃ w w', u₂ ++ u₃ ++ u ++ v = w ++ w' ∧
      SpellsAll ((((p.stack.take r.popped).reverse.map fun e => (e.subtree, e.start)) ++
        givenUp s (Stack.state (p.stack.drop r.popped)) p.pending r.skipped).map (·.1)) w ∧
      SpellsAll ((if r.skipped.isEmpty then p.pending else r.resume.extras).map (·.1)) w' := by
    rw [List.map_append, htaken]
    cases hr : r.skipped with
    | nil =>
      rw [hr, List.nil_append, List.head?_singleton, Option.map_some, Option.some.injEq] at hfirst
      rw [hr] at hskipped
      rw [hfirst] at hextras
      cases hskipped 0
      cases hextras
      refine ⟨u₂, u₃, by simp, ?_, by simpa using hpending⟩
      rw [givenUp, List.map_nil, List.append_nil]
      exact hpopped
    | cons first others =>
      rw [hr, List.cons_append, List.head?_cons, Option.map_some, Option.some.injEq] at hfirst
      rw [hr] at hskipped
      refine ⟨u₂ ++ (u₃ ++ u), v, by simp, ?_, by simpa using hextras⟩
      rw [map_givenUp hfirst]
      exact hpopped.append (hpending.append (hskipped _))
  refine ⟨_, piece, rest, htoken, ?_, hposition⟩
  have htotal : u₁ ++ u₂ ++ u₃ ++ u ++ v = u₁ ++ w ++ w' := by
    rw [List.append_assoc u₁ w, ← hw]
    simp
  rw [htotal, content]
  refine SpellsAll.append ?_ hwaiting
  rw [Parser.resume]
  dsimp only
  split
  · rename_i hnil
    rw [hnil] at hlost
    cases hlost
    rw [List.append_nil]
    exact hbelow
  · rw [Stack.pushIgnored, Stack.subtrees_cons]
    exact hbelow.append (.single (hlost.buildError _ _ _))

/-! ### Runs -/

variable {s : Setting}

/-- No move loses a piece of the text. -/
theorem Covers.step {g : PreparedGrammar} (hg : g.Compiles s.table)
    (hreuse : ∀ r, s.reuse = some r → Reuse.Truthful s.text r) (h : Covers s token p)
    {token' : Token} {p' : Parser} (hstep : step s p token = .more token' p') :
    Covers s token' p' := by
  have hl := hg.sparesEnd
  have hmove := move_step s p token
  rw [hstep] at hmove
  cases hmove with
  | shift action fresh =>
    have hend := hg.isEnd_of_shift action
    obtain ⟨front, back, hnext⟩ := h.shift hend _
    exact (hnext.read hl).1
  | takeOver action reuse =>
    obtain ⟨front, back, hnext⟩ := h.takeOver hreuse reuse
    exact (hnext.read hl).1
  | reduce action => exact h.reduce _
  | resume action found =>
    obtain ⟨front, piece, rest, htakes, hcontent, hposition⟩ := h
    have hahead : CoversAhead s front [] ⟨[], token⟩ p :=
      ⟨[], [], piece, rest, fun _ => .nil, .nil, by simpa using htakes, hposition⟩
    obtain ⟨hnext, hfirst⟩ := hahead.findRecovery hl rfl found
    obtain ⟨hstack, hpending⟩ := stack_findRecovery found
    rw [content, ← hstack, ← hpending] at hcontent
    exact Covers.resume hcontent hnext hfirst
  | giveUp action none isEnd =>
    obtain ⟨front, back, hnext⟩ := h.giveUpToken isEnd
    exact (hnext.read hl).1

theorem Reaches.covers {g : PreparedGrammar} (hg : g.Compiles s.table)
    (hreuse : ∀ r, s.reuse = some r → Reuse.Truthful s.text r) (h : Reaches s token p) :
    Covers s token p := by
  induction h with
  | start => exact ((spells_start s).read hg.sparesEnd).1
  | step reached move ih => exact ih.step hg hreuse move

/-- What is spelled when the input ends is the whole text. -/
theorem Covers.content_of_isEnd (h : Covers s token p) (hend : token.isEnd = true) :
    SpellsAll p.content s.text := by
  obtain ⟨front, piece, rest, htakes, hcontent, -⟩ := h
  obtain rfl := htakes.isEnd_iff.mp hend
  obtain rfl := htakes.ends rfl
  rw [htakes.text_eq, List.append_nil, List.append_nil]
  exact hcontent

/-- The tree of a text spells it. -/
theorem spells_of_done {g : PreparedGrammar} (hg : g.Compiles s.table) (hsound : p.Sound g)
    (h : Covers s token p) {tree : SyntaxTree} (hdone : Parser.step s p token = .done tree) :
    tree.text = s.text ∧ Subtree.Spells tree.root s.text := by
  have hmove := move_step s p token
  rw [hdone] at hmove
  cases hmove with
  | accept action =>
    obtain ⟨-, hend⟩ := hg.complete_of_accept action
    have hcontent := h.content_of_isEnd (Token.isEnd_iff_symbol.mpr hend)
    obtain ⟨t, production, before, after, hstart⟩ := hsound.exists_accepted hg action
    rw [← subtrees_flush, hstart.subtrees] at hcontent
    obtain ⟨u, w, htext, hbefore, hcontent⟩ := spellsAll_append.mp hcontent
    obtain ⟨v, w, rfl, ht, hafter⟩ := spellsAll_cons.mp hcontent
    refine ⟨rfl, ?_⟩
    rw [Parser.accept, hstart.unwrapped, htext]
    exact (hbefore.append ((ht.children hstart.isLeaf).append hafter)).build _ _ _ _ _ _ _
  | abandon action none isEnd =>
    have hcontent := h.content_of_isEnd isEnd
    rw [← subtrees_flush] at hcontent
    exact ⟨rfl, hcontent.buildError _ _ _⟩

end Parser

/-! ### Trees -/

variable {s : Setting}

/-- What is known of the tree that a genuine setting takes subtrees from. -/
theorem Setting.Genuine.truthful {g : PreparedGrammar} {l : Language} (hg : g.Compiles l.table)
    (h : s.Genuine l) : ∀ r, s.reuse = some r → Parser.Reuse.Truthful s.text r := by
  induction h with
  | fresh text window => exact fun _ h => by cases h
  | @edited s old edits set text window before yields accepted turns ih =>
    intro r hr
    obtain rfl := Option.some.inj hr
    obtain ⟨hlanguage, hderived⟩ := before.spec hg
    obtain ⟨token, p, hreaches, hdone⟩ := yields.exists_last
    have hg' : g.Compiles s.language.table := hlanguage ▸ hg
    obtain ⟨htext, hspells⟩ := Parser.spells_of_done hg' (hreaches.sound hg' hderived).1
      (hreaches.covers hg' ih) hdone
    rw [htext] at turns
    exact ⟨_, hspells, turns⟩

/-- A tree covers its text: the leaves divide it among themselves, from the first byte to the last,
and every part, visible or not, starts and stops where its text does, also in rows and columns. -/
theorem coverage_of_genuine {grammar : Grammar} {l : Language} {s : Setting} {tree : SyntaxTree}
    (hcompile : grammar.compile = .ok l.table) (hs : s.Genuine l) (hyields : s.Yields tree) :
    tree.text = s.text ∧
      Tiles 0 (tree.leaves.map fun n => (n.startByte, n.endByte)) (byteLength s.text) ∧
      tree.leaves.flatMap (·.textIn s.text) = s.text ∧
      tree.root.length = byteLength s.text ∧
      (∀ part ∈ parts Extent.zero tree.root, part.2 = Extent.upTo s.text part.2.bytes ∧
        part.2 + part.1.size = Extent.upTo s.text (part.2.bytes + part.1.length)) ∧
      ∀ n ∈ Shown.preorder tree.shown,
        n.startPoint = (Extent.upTo s.text n.startByte).point ∧
          n.endPoint = (Extent.upTo s.text n.endByte).point := by
  obtain ⟨g, -, hg⟩ := Grammar.exists_prepared hcompile
  obtain ⟨rfl, hderived⟩ := hs.spec hg
  obtain ⟨token, p, hreaches, hdone⟩ := hyields.exists_last
  obtain ⟨htext, hspells⟩ := Parser.spells_of_done hg (hreaches.sound hg hderived).1
    (hreaches.covers hg (hs.truthful hg)) hdone
  have hparts : ∀ part ∈ parts Extent.zero tree.root, Stands s.text part.1 part.2 := by
    intro part hpart
    have := hspells.stands (u := []) (w := []) hpart
    simpa using this
  obtain ⟨htiles, hleaves⟩ := SyntaxTree.tiles_leafNodes hspells [] [] []
  simp only [List.nil_append, List.append_nil, Extent.of_nil, byteLength_nil] at htiles hleaves
  refine ⟨htext, htiles, hleaves, hspells.length_eq, fun part hpart =>
    ⟨(hparts part hpart).start_eq, (hparts part hpart).stop_eq⟩, fun n hn => ?_⟩
  have hstands := hparts _ (Shown.mem_parts_of_mem_shown hn)
  exact ⟨congrArg Extent.point hstands.start_eq, congrArg Extent.point hstands.stop_eq⟩

/-- A blank that is put into the sum `1 +1` behind the first character. -/
def blankEdit : Edit := .replace 1 0 1

/-- The tree of the sum `1  +1`, which the sum `1 +1` was edited into. -/
def sumAgain? : Option SyntaxTree :=
  (sumTree? "1 +1".toList).bind fun old =>
    Parser.runFromStart (.edited old ⟨[blankEdit]⟩ "1  +1".toList defaultWindow) 100

/-- The tree of an edited sum covers it. -/
theorem coverage_of_edited_sum : ∃ l s tree, sums.compile = .ok (Language.table l) ∧
    Setting.Genuine l s ∧ s.reuse.isSome ∧ s.text = "1  +1".toList ∧ s.Yields tree ∧
    Tiles 0 (tree.leaves.map fun n => (n.startByte, n.endByte)) 5 := by
  have hrun : sumAgain?.isSome = true := by decide +kernel
  obtain ⟨tree, htree⟩ := Option.isSome_iff_exists.mp hrun
  obtain ⟨old, hold, hagain⟩ := Option.bind_eq_some_iff.mp htree
  obtain ⟨l, hcompile, hyields⟩ := yields_of_sumTree hold
  obtain ⟨htext, -⟩ := coverage_of_genuine hcompile (.fresh "1 +1".toList defaultWindow) hyields
  replace htext : old.text = "1 +1".toList := htext
  have haccepted : EditSet.of [blankEdit] (byteLength old.text) (byteLength "1  +1".toList) =
      .ok ⟨[blankEdit]⟩ := by
    rw [htext, EditSet.of, List.mergeSort_singleton]
    rfl
  have hturns : EditSet.Turns ⟨[blankEdit]⟩ old.text "1  +1".toList := by
    rw [htext]
    exact ⟨utf8Bytes "1".toList, [], utf8Bytes " ".toList, utf8Bytes " +1".toList,
      utf8Bytes " +1".toList, by decide, by decide, by decide, by decide, by decide, rfl⟩
  have hs : (Setting.edited old ⟨[blankEdit]⟩ "1  +1".toList defaultWindow).Genuine l :=
    .edited (.fresh "1 +1".toList defaultWindow) hyields haccepted hturns
  obtain ⟨-, htiles, -⟩ := coverage_of_genuine hcompile hs ⟨100, hagain⟩
  exact ⟨l, _, tree, hcompile, hs, rfl, rfl, ⟨100, hagain⟩, htiles⟩

end LRWorkbench.Parsing
