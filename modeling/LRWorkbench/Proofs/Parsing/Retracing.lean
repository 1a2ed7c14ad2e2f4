import LRWorkbench.Proofs.Parsing.Regrowth

/-!
# A run builds what can be built

What a run builds above a state it builds whenever it meets the token in that state, whatever else
stands on the stack (`Parser.Builds.nears`).

A subtree of an old tree that no edit touched would be built at its new place (`Regrows.mirrored`). So
taking it over leads to where building it leads (`Parser.Nears.takeOver`).
-/

namespace LRWorkbench.Parsing

open Subtree Text

namespace Parser

variable {s : Setting} {token first : Token} {p q r b : Parser} {g : PreparedGrammar}
  {base : Stack} {stop : Nat}

/-- Whether a run gets to a parser, apart from the history of its subtrees. -/
def Nears (s : Setting) (token : Token) (p : Parser) : Prop :=
  ∃ q, Reaches s token q ∧ q.plain = p.plain

/-- Being near a run asks for no history. -/
theorem Nears.congr (h : Nears s token p) (hq : q.plain = p.plain) : Nears s token q := by
  obtain ⟨q', hreaches, hplain⟩ := h
  exact ⟨q', hreaches, hplain.trans hq.symm⟩

/-- A run that gets near a parser gets near the one that it moves on to, if that takes nothing
over. -/
theorem Nears.step (h : Nears s.anew token p) (hreuse : ∀ next,
      s.table.action p.state token.symbol = .shift next → toReuse? s p token = none)
    {token' : Token} {p' : Parser} (hstep : Parser.step s p token = .more token' p') :
    Nears s.anew token' p' := by
  obtain ⟨q, hreaches, hplain⟩ := h
  have halike := alike_step hplain hreuse
  rw [hstep] at halike
  cases hmove : Parser.step s.anew q token with
  | done tree =>
    rw [hmove] at halike
    cases halike
  | more token'' q' =>
    rw [hmove] at halike
    cases halike with
    | more hplain' => exact ⟨q', hreaches.step hmove, hplain'⟩

/-- A parser with more entries below its own. -/
def onto (p : Parser) (base : Stack) : Parser := { p with stack := p.stack ++ base }

/-- A parser on top of another stack looks for tokens in the state of its own. -/
theorem lookState_onto (hne : p.stack ≠ []) : (p.onto base).lookState = p.lookState := by
  obtain ⟨e, rest, hstack⟩ := List.exists_cons_of_ne_nil hne
  rw [lookState, lookState, state, state, onto, hstack]
  rfl

theorem state_onto (hne : p.stack ≠ []) : (p.onto base).state = p.state := by
  obtain ⟨e, rest, hstack⟩ := List.exists_cons_of_ne_nil hne
  rw [state, state, onto, hstack]
  rfl

/-- Without an old tree there is nothing to take over. -/
theorem toReuse?_anew (s : Setting) (p : Parser) (token : Token) :
    toReuse? s.anew p token = none := by
  rw [toReuse?]
  split <;> rfl

/-- A token is shifted onto the piece, whatever is below. -/
theorem shift_onto (hne : r.stack ≠ []) (next : Nat) (token : Token) :
    (r.onto base).shift s next token = (r.shift s next token).onto base := by
  obtain ⟨e, rest, hstack⟩ := List.exists_cons_of_ne_nil hne
  rw [shift, shift, onto, onto, flush, flush, state, state, hstack, List.cons_append,
    Stack.pushAllIgnored_append]
  rfl

/-- What is read on top of more entries is what is read without them. -/
theorem Reads.read_onto (h : Reads s b token r) (ht : s.table.SparesEnd) (hne : b.stack ≠ [])
    {front back : List Char} (htext : s.text = front ++ back)
    (hposition : b.position = byteLength front) :
    (read s (b.onto base)).1 = token ∧
      (read s (b.onto base)).2.plain = (r.onto base).plain := by
  have hplace : (b.onto base).position = b.position := rfl
  obtain ⟨r', hreads, hplain⟩ := h.congr hplace rfl (lookState_onto hne) rfl
  rw [hreads.read_eq ht htext hposition]
  refine ⟨rfl, hplain.trans ?_⟩
  rw [onto, onto, h.behind.1]

/-- What is built above a state begins with the first token. -/
theorem Built.ne_nil {q : Nat} (h : Built s q first b) : b.stack ≠ [] := by
  obtain ⟨above, e, hstack, -⟩ := h.bottom
  rw [hstack]
  exact List.append_ne_nil_of_right_ne_nil _ (List.cons_ne_nil _ _)

/-- A run gets near what is read on top of more entries. -/
theorem Reads.nears {q : Nat} (h : Reads s.anew b token r) (hbuilt : Built s.anew q first b)
    (ht : s.table.SparesEnd)
    (hb : Nears s.anew (read s.anew (b.onto base)).1 (read s.anew (b.onto base)).2) :
    Nears s.anew token (r.onto base) ∧ r.stack ≠ [] ∧ (r.onto base).state = b.state := by
  obtain ⟨front, back, htext, hposition⟩ := hbuilt.place
  obtain ⟨htoken, hplain⟩ := h.read_onto ht hbuilt.ne_nil htext hposition
  rw [htoken] at hb
  have hne : r.stack ≠ [] := by
    rw [h.behind.1]
    exact hbuilt.ne_nil
  refine ⟨hb.congr hplain.symm, hne, ?_⟩
  rw [state_onto hne, state, h.behind.1, ← state]

/-- **A run builds what can be built** above a state in which it meets the token. -/
theorem Builds.nears {q : Nat} (h : Builds s.anew stop q first b) (hg : g.Compiles s.table)
    {front piece rest : List Char} (htakes : first.Takes s.text front piece rest)
    (hextra : first.isExtra = false) (hp : Nears s.anew first p) (hstate : p.state = q)
    (hat : AtToken s.anew first p) :
    Nears s.anew (read s.anew (b.onto (waitEntries q p.pending ++ p.stack))).1
      (read s.anew (b.onto (waitEntries q p.pending ++ p.stack))).2 := by
  subst hstate
  have hmove : ∀ {token token' : Token} {p p' : Parser}, Nears s.anew token p →
      Parser.step s.anew p token = .more token' p' → Nears s.anew token' p' :=
    fun h hstep => Nears.step (s := s.anew) h (fun _ _ => toReuse?_anew ..) hstep
  generalize hbase : waitEntries p.state p.pending ++ p.stack = base
  induction h with
  | @first next action =>
    have hshift : p.shift s.anew next first = Parser.onto ⟨[shiftEntry s.anew p.state next first], [],
        first.stop, first.scannerAfter, none⟩ base := by
      rw [onto, Parser.mk.injEq, ← hbase]
      exact ⟨stack_shift .., rfl, hat.position, hat.scanner, hat.lexState⟩
    have hstep : Parser.step s.anew p first = .more (read s.anew (p.shift s.anew next first)).1
        (read s.anew (p.shift s.anew next first)).2 := by
      rw [Parser.step, action, toReuse?_anew]
    rw [hshift] at hstep
    exact hmove hp hstep
  | @shift b r token next before reads calm action ih =>
    have hbuilt := before.built (g := g) hg htakes hextra
    obtain ⟨hr, hne, hstate⟩ := reads.nears hbuilt hg.sparesEnd ih
    have hstep : Parser.step s.anew (r.onto base) token =
        .more (read s.anew ((r.shift s.anew next token).onto base)).1
          (read s.anew ((r.shift s.anew next token).onto base)).2 := by
      rw [Parser.step, hstate, action, toReuse?_anew]
      dsimp only
      rw [shift_onto hne]
    exact hmove hr hstep
  | @reduce b r token production rule before reads calm action rule_eq step le ih =>
    have hbuilt := before.built (g := g) hg htakes hextra
    obtain ⟨hr, -, hstate⟩ := reads.nears hbuilt hg.sparesEnd ih
    have hbelow : Stack.state base = p.state := by
      rw [← hbase, state, state_of_waitEntries]
    have hstack : (r.onto base).stack = b.stack ++ base := by
      rw [onto, reads.behind.1]
    have hstep : Parser.step s.anew (r.onto base) token = .more token { r.onto base with
        stack := reduceAbove s.anew production rule token p.state b.stack ++ base } := by
      rw [Parser.step, hstate, action]
      dsimp only
      rw [reduce_append rule_eq hstack step le, hbelow]
    have hnext := hmove hr hstep
    -- the token is read once more, by a parser that looks for it in the state from before
    obtain ⟨front, back, htext, hposition⟩ := hbuilt.place
    let reduced : Parser := { b with
      stack := reduceAbove s.anew production rule token p.state b.stack
      lexState := some b.lookState }
    have hplace : (reduced.onto base).position = reduced.position := rfl
    obtain ⟨r', hreads, hplain⟩ := reads.congr hplace rfl rfl rfl
    rw [hreads.read_eq hg.sparesEnd htext hposition]
    exact hnext.congr hplain

end Parser

/-! ### What subtrees have apart from their history -/

mutual

/-- Which leaf comes first is no history. -/
theorem firstLeaf?_plain (t : Subtree) : firstLeaf? t.plain = (firstLeaf? t).map plain := by
  cases t with
  | leaf i x => rfl
  | node i p children =>
    rw [plain, plainAll_eq, firstLeaf?, firstLeaf?, firstLeafOf?_plain]

theorem firstLeafOf?_plain (ts : List Subtree) :
    firstLeafOf? (ts.map plain) = (firstLeafOf? ts).map plain := by
  cases ts with
  | nil => rfl
  | cons t ts =>
    rw [List.map_cons, firstLeafOf?, firstLeafOf?, firstLeaf?_plain, firstLeafOf?_plain]
    cases firstLeaf? t <;> rfl

end

mutual

/-- The leaf that a subtree begins with is its first one. -/
theorem firstLeaf?_of_opening {t x : Subtree} (h : opening? t = some x) : firstLeaf? t = some x := by
  cases t with
  | leaf i y => exact h
  | node i p children =>
    rw [opening?] at h
    rw [firstLeaf?]
    exact firstLeafOf?_of_opening h

/-- What subtrees begin with is their first leaf, if they begin with one. -/
theorem firstLeafOf?_of_opening {ts : List Subtree} {x : Subtree} (h : openingOf? ts = some x) :
    firstLeafOf? ts = some x := by
  cases ts with
  | nil => cases h
  | cons t ts =>
    rw [openingOf?] at h
    rw [firstLeafOf?, firstLeaf?_of_opening h]
    rfl

end

mutual

/-- The parts of a subtree without its history are its parts without theirs. -/
theorem parts_plain (start : Extent) (t : Subtree) :
    parts start t.plain = (parts start t).map fun part => (part.1.plain, part.2) := by
  cases t with
  | leaf i x => rfl
  | node i p children =>
    rw [parts, List.map_cons, ← partsOf_plain, plain, plainAll_eq, parts]

theorem partsOf_plain (start : Extent) (ts : List Subtree) :
    partsOf start (ts.map plain) = (partsOf start ts).map fun part => (part.1.plain, part.2) := by
  cases ts with
  | nil => rfl
  | cons t ts =>
    rw [List.map_cons, partsOf, partsOf, parts_plain, partsOf_plain, size_plain, List.map_append]

end

namespace Parser

variable {s o : Setting} {token first : Token} {p b : Parser} {g : PreparedGrammar} {q place : Nat}
  {e : Entry}

/-- What is known of what is built if it is a single entry. -/
theorem Built.exists_entry (h : Built s q first b) (hstack : b.stack.map Entry.plain = [e]) :
    ∃ top, b.stack = [top] ∧ top.plain = e ∧ Rooted s q first top ∧ first.start = top.start ∧
      b.position = top.start + top.subtree.length := by
  obtain ⟨top, rest, htop, hplain, hrest⟩ := List.map_eq_cons_iff.mp hstack
  obtain rfl := List.map_eq_nil_iff.mp hrest
  obtain ⟨above, bottom, hbottom, hrooted⟩ := h.bottom
  obtain ⟨hstart, hstop⟩ := linedUp_singleton.mp (htop ▸ h.linedUp)
  rw [htop] at hbottom
  obtain ⟨-, hsame⟩ := List.append_inj' (List.nil_append [top] |>.trans hbottom) rfl
  obtain rfl := List.singleton_inj.mp hsame
  exact ⟨top, htop, hplain, hrooted, hstart.symm, by rw [← hstop, ← hstart]⟩

/-- A token that is found in one text is the one that was found in another text at a place from which
the texts agree as far as was looked for that one, if the two look the same. -/
theorem Met.eq_moved (h : Met s token) (hfirst : Met o first) (hlanguage : s.language = o.language)
    (hl : o.language.IsHonest) (hk : o.language.KeepsAccount) (ht : o.table.SparesEnd) {stop : Nat}
    (hcalm : CalmToken stop first) {u v front back : List Char} (htext : o.text = u ++ v)
    (hplace : first.start = byteLength u) (htext' : s.text = front ++ back)
    (hplace' : token.start = byteLength front) (hagree : Agree (stop - first.start) v back)
    (hsymbol : token.symbol = first.symbol) (hlength : token.length = first.length)
    (hscanner : token.scannerBefore = first.scannerBefore) :
    token = first.moved first.start token.start ∧ ∃ piece rest rest',
      first.Takes o.text u piece rest ∧ token.Takes s.text front piece rest' ∧
      Agree (stop - first.stop) rest rest' := by
  obtain ⟨q, hfound⟩ := hfirst.found
  obtain ⟨q', hfound'⟩ := h.found
  have htable : s.table = o.table := congrArg Language.table hlanguage
  -- Both texts are read as if nothing had been read before, from places where they agree.
  have hmirrors : Mirrors first.start token.start stop o s
      ⟨[], [], first.start, first.scannerBefore, some q⟩
      ⟨[], [], token.start, first.scannerBefore, some q⟩ u v front back := by
    refine ⟨?_, htext, htext', hplace, hplace', Nat.le_refl _, hagree⟩
    rw [plain, moved, plain, Parser.mk.injEq]
    exact ⟨rfl, rfl, by simp, rfl, rfl⟩
  have hat : Parser.found ⟨[], [], first.start, first.scannerBefore, some q⟩ o = first := hfound
  obtain ⟨hagain, piece, rest, rest', htakes, htakes', hnext⟩ :=
    hmirrors.found hlanguage hl hk ht (by rw [hat]; exact hcalm)
  rw [hat] at hagain htakes htakes' hnext
  have hstop := (hnext ⟨[], [], first.stop, [], none⟩ _ rfl rfl).agree
  have hmoved : Lexer.nextToken o.language s.text token.start token.scannerBefore
      (o.table.validTerminals q) = first.moved first.start token.start := by
    rw [← hagain, Parser.found, hscanner, hlanguage, htable]
    rfl
  have hmet : Lexer.nextToken o.language s.text token.start token.scannerBefore
      (o.table.validTerminals q') = token := by
    rw [← hlanguage, ← htable]
    exact hfound'
  have hlt := h.lt
  have hlt' := hfirst.lt
  -- The token was found in another lexing state. Where two states find one symbol and length they
  -- find one token.
  have hsame : token = first.moved first.start token.start := by
    have hsteady := hk.steady s.text token.start token.scannerBefore q q'
    rw [Setting.table] at hmoved hmet
    rw [hmoved, hmet] at hsteady
    refine hsteady hfirst.errorMode h.errorMode hsymbol ?_
    simp only [Token.length] at hlength
    simp only [Token.moved]
    omega
  exact ⟨hsame, piece, rest, rest', htakes, hsame ▸ htakes', hstop⟩

/-- A node that would grow again begins with the leaf of the token that is met. -/
theorem Regrows.exists_first {t x : Subtree} (h : Regrows o place t) (hg : g.Compiles o.table)
    (hfirstLeaf : firstLeaf? t = some x) {next : Nat}
    (action : o.table.action t.info.parseState x.symbol = .shift next) :
    ∃ first built after, Met o first ∧
      CalmToken (place + t.length + t.info.lookaheadBytes) first ∧
      Builds o (place + t.length + t.info.lookaheadBytes) t.info.parseState first built ∧
      built.stack.map Entry.plain = [⟨after, t.plain, place⟩] ∧ place = first.start ∧
      x.symbol = first.symbol ∧ x.length = first.length ∧
      t.info.scannerBefore = first.scannerBefore := by
  obtain ⟨first, built, after, hfirst, hcalm, hbuilds, hstack⟩ :=
    h.grown fun hnone => h.barren hnone x hfirstLeaf next action
  obtain ⟨u, piece, rest, htakes⟩ := hfirst.takes
  obtain ⟨top, htop, hplain, hrooted, hstart, -⟩ :=
    (hbuilds.built hg htakes hfirst.isExtra).exists_entry hstack
  obtain ⟨next', -, hopen⟩ := hrooted.opening
  obtain ⟨-, hsubtree, rfl⟩ : top.state = after ∧ top.subtree.plain = t.plain ∧
      top.start = place := Entry.mk.injEq .. ▸ hplain
  have hleaf : x.plain = (o.leaf first t.info.parseState next' first.errorMode).plain := by
    have hfirsts := firstLeaf?_plain t
    rw [← hsubtree, firstLeaf?_plain, firstLeaf?_of_opening hopen, hfirstLeaf] at hfirsts
    exact (Option.some.inj hfirsts).symm
  refine ⟨first, built, after, hfirst, hcalm, hbuilds, hstack, hstart.symm, ?_, ?_, ?_⟩
  · rw [← symbol_plain, hleaf]
    rfl
  · rw [← length_plain, hleaf, length_plain, length_leaf htakes, Token.length, htakes.start_eq,
      htakes.stop_eq, Nat.add_sub_cancel_left]
  · rw [← hrooted.scannerBefore, ← scannerBefore_plain, ← hsubtree, scannerBefore_plain]

/-- **A node grows again in the edited text** if no edit touched anything that was looked at, and the
token that is met looks like the one it begins with. -/
theorem Regrows.mirrored {t x : Subtree} {edits : EditSet} (h : Regrows o place t)
    (hg : g.Compiles o.table) (hlanguage : s.language = o.language) (hl : o.language.IsHonest)
    (hk : o.language.KeepsAccount) (hturns : edits.Turns o.text s.text)
    (hold : edits.toOld? token.start = some place)
    (hclear : edits.isClear place (place + t.length + t.info.lookaheadBytes) = true)
    (hmet : Met s token) (hfirstLeaf : firstLeaf? t = some x) (hsymbol : x.symbol = token.symbol)
    (hlength : x.length = token.length) (hscanner : t.info.scannerBefore = token.scannerBefore)
    {next : Nat} (action : o.table.action t.info.parseState token.symbol = .shift next) :
    ∃ stop built after, Builds s stop t.info.parseState token built ∧
      built.stack.map Entry.plain = [⟨after, t.plain, token.start⟩] := by
  obtain ⟨first, built, after, hfirst, hcalm, hbuilds, hstack, rfl, hsymbol', hlength', hscanner'⟩ :=
    h.exists_first hg hfirstLeaf (hsymbol ▸ action)
  obtain ⟨u, piece, rest, htakes⟩ := hfirst.takes
  obtain ⟨front, piece', rest', htakes'⟩ := hmet.takes
  rw [htakes.text_eq, htakes'.text_eq, List.append_assoc, List.append_assoc] at hturns
  rw [htakes.start_eq] at hold hclear
  have hagree := hturns.agree htakes'.start_eq hold hclear
  rw [← htakes.start_eq] at hagree
  -- the token is the first one, as far behind the edits
  obtain ⟨hsame, piece, rest, rest', htakes, htakes', hbehind⟩ := hmet.eq_moved hfirst hlanguage hl hk
    hg.sparesEnd hcalm (htakes.text_eq.trans (List.append_assoc ..)) htakes.start_eq
    (htakes'.text_eq.trans (List.append_assoc ..)) htakes'.start_eq hagree
    (hsymbol.symm.trans hsymbol') (hlength.symm.trans hlength') (hscanner.symm.trans hscanner')
  rw [hsame] at htakes'
  obtain ⟨built', _, _, _, _, hbuilds', hmirrors⟩ := hbuilds.mirrored (a := first.start)
    (b := token.start) hg hlanguage hl hk htakes htakes' hbehind (Nat.le_refl _) hfirst.isExtra
  rw [← hsame] at hbuilds'
  refine ⟨_, built', after, hbuilds', ?_⟩
  have hmoved : (built.stack.map (Entry.moved first.start token.start)).map Entry.plain =
      (built.stack.map Entry.plain).map (Entry.moved first.start token.start) := by
    rw [List.map_map, List.map_map]
    rfl
  rw [(plain_eq_iff.mp hmirrors.plain).1, moved, hmoved, hstack]
  simp [Entry.moved]

/-! ### Taking over -/

/-- Whether the tree that a setting takes subtrees from is, apart from its history, one of nodes that
would grow again in a text which the edits turn into that of the setting. -/
structure Remembers (o s : Setting) (r : Reuse) : Prop where
  language : s.language = o.language
  turns : r.edits.Turns o.text s.text
  regrow : ∃ root : Subtree, root.plain = r.root.plain ∧ AllRegrow o [] root.children

variable {r : Reuse} {t : Subtree} {after : Nat}

/-- What may be taken over would grow again. -/
theorem Remembers.exists_regrows (h : Remembers o s r) (hmem : t ∈ r.candidates place)
    (hleaf : t.isLeaf = false) (hcalm : t.isFragile = false) :
    ∃ u, u.plain = t.plain ∧ Regrows o place u := by
  obtain ⟨start, hpart, rfl⟩ := Reuse.exists_part_of_mem_candidates hmem
  obtain ⟨root, hroot, hregrow⟩ := h.regrow
  have hchildren : root.children.map Subtree.plain = r.root.children.map Subtree.plain := by
    rw [← children_plain, hroot, children_plain]
  have hplain : (t.plain, start) ∈ (partsOf Extent.zero root.children).map
      fun part => (part.1.plain, part.2) := by
    rw [← partsOf_plain, hchildren, partsOf_plain]
    exact List.mem_map_of_mem hpart
  obtain ⟨⟨u, start'⟩, hu, heq⟩ := List.mem_map.mp hplain
  obtain ⟨hsame, rfl⟩ : u.plain = t.plain ∧ start' = start := Prod.mk.injEq .. ▸ heq
  refine ⟨u, hsame, hregrow (u, start') hu ?_ ?_⟩
  · rw [← isLeaf_plain, hsame, isLeaf_plain, hleaf]
  · rw [← isFragile_plain, hsame, isFragile_plain, hcalm]

/-- It does not matter whether a state to look in is remembered. -/
theorem plain_read_lexState {front back : List Char} (ht : s.table.SparesEnd)
    (htext : s.text = front ++ back) (hposition : p.position = byteLength front) {n : Nat}
    (hlook : n = p.lookState) :
    (read s { p with lexState := some n }).1 = (read s p).1 ∧
      (read s { p with lexState := some n }).2.plain = (read s p).2.plain := by
  have hfuel : byteLength back < s.length + 1 := by
    rw [Setting.length, htext, byteLength_append]
    omega
  have hreads : Reads s p (read s p).1 (read s p).2 := reads_readOn ht htext hposition hfuel
  have hplace : { p with lexState := some n }.position = p.position := rfl
  obtain ⟨r, hreads', hplain⟩ := hreads.congr hplace rfl hlook rfl
  rw [hreads'.read_eq ht htext hposition]
  refine ⟨rfl, hplain.trans ?_⟩
  rw [← hreads.behind.1]

/-- What waits is pushed above the stack, in the state that it is in. -/
theorem flush_stack (p : Parser) : p.flush.stack = waitEntries p.state p.pending ++ p.stack :=
  Stack.pushAllIgnored_eq ..

/-- A subtree that is taken over leads to where a run gets that builds it. -/
theorem plain_read_takeOver {built : Parser} (hbuilt : Built s.anew p.state token built)
    (hstack : built.stack.map Entry.plain = [⟨after, t.plain, token.start⟩]) {oldStart next : Nat}
    (hreused : Reused s p token t next r oldStart) (ht : s.table.SparesEnd) :
    (read s.anew (built.onto (waitEntries p.state p.pending ++ p.stack))).1 =
        (read s (p.takeOver token t next)).1 ∧
      (read s.anew (built.onto (waitEntries p.state p.pending ++ p.stack))).2.plain =
        (read s (p.takeOver token t next)).2.plain := by
  obtain ⟨top, htop, hplain, hrooted, hstart, hposition⟩ := hbuilt.exists_entry hstack
  obtain ⟨rfl, hsubtree, -⟩ : top.state = after ∧ top.subtree.plain = t.plain ∧
      top.start = token.start := Entry.mk.injEq .. ▸ hplain
  obtain ⟨n, hn⟩ := Option.isSome_iff_exists.mp hreused.lexState
  -- What was built is the old subtree but for its generation, so it has all that reuse asked for.
  have hleaf : top.subtree.isLeaf = false := by
    rw [← isLeaf_plain, hsubtree, isLeaf_plain, hreused.isLeaf]
  have hcalm : top.subtree.isFragile = false := by
    rw [← isFragile_plain, hsubtree, isFragile_plain, hreused.isFragile]
  have hlength : top.subtree.length = t.length := by
    rw [← length_plain, hsubtree, length_plain]
  have hstate : top.state = next := by
    obtain ⟨-, hgoto⟩ := hrooted.node hleaf hcalm
    rw [← symbol_plain, hsubtree, symbol_plain] at hgoto
    exact Option.some.inj (hgoto.symm.trans hreused.goto)
  -- A node of some length without an extra at its end tells how its last leaf was lexed, which is
  -- how the parser goes on to lex.
  have hlook : n = built.lookState := by
    refine hbuilt.lexState n ?_
    have hextra : top.subtree.isExtra = false := by
      cases htree : top.subtree with
      | leaf => rw [htree] at hleaf; cases hleaf
      | node => rfl
    have hpos : 0 < t.length := Nat.pos_of_ne_zero hreused.length
    rw [htop]
    change lexAfter none [top.subtree] = some n
    rw [lexAfter, hlength, hextra, ← lexState_plain, hsubtree, lexState_plain, hn]
    simp [hpos, lexAfter]
  have hscanner : built.scanner = t.info.scannerAfter := by
    rw [← hbuilt.scanner, htop, ← scannerAfter_plain t, ← hsubtree, scannerAfter_plain]
    rfl
  obtain ⟨front, back, htext, hplace⟩ := hbuilt.place
  rw [← lookState_onto hbuilt.ne_nil] at hlook
  obtain ⟨htoken, hread⟩ := plain_read_lexState (s := s.anew)
    (p := built.onto (waitEntries p.state p.pending ++ p.stack)) ht htext hplace hlook
  rw [← htoken, ← hread]
  refine plain_read (plain_eq_iff.mpr ⟨?_, ?_, ?_, hscanner, hn.symm⟩)
  · rw [onto, takeOver]
    dsimp only
    rw [flush_stack, List.map_append, hstack, hstate]
    rfl
  · rw [onto, hbuilt.pending]
    rfl
  · rw [takeOver, onto]
    dsimp only
    rw [hposition, ← hstart, hlength]

/-- **What is taken over would have been built**: a run that gets near a parser which takes a subtree
over gets near what it goes on with. -/
theorem Nears.takeOver (h : Nears s.anew token p) (hr : Remembers o s r) (hg : g.Compiles o.table)
    (hl : o.language.IsHonest) (hk : o.language.KeepsAccount) (hat : AtToken s token p)
    {oldStart next : Nat} (hreused : Reused s p token t after r oldStart)
    (action : s.table.action p.state token.symbol = .shift next) :
    Nears s.anew (read s (p.takeOver token t after)).1 (read s (p.takeOver token t after)).2 := by
  have htable : s.table = o.table := congrArg Language.table hr.language
  have hat' : AtToken s.anew token p :=
    ⟨⟨hat.met.errorMode, hat.met.isExtra, hat.met.takes, hat.met.found⟩, hat.pending, hat.position,
      hat.scanner, hat.lexState⟩
  obtain ⟨u, hplain, hregrows⟩ :=
    hr.exists_regrows hreused.candidate hreused.isLeaf hreused.isFragile
  obtain ⟨x, hx, hsymbol, hlength⟩ := hreused.firstLeaf
  obtain ⟨x', hx', hsame⟩ : ∃ x', firstLeaf? u = some x' ∧ x'.plain = x.plain := by
    have hfirst := firstLeaf?_plain u
    rw [hplain, firstLeaf?_plain, hx] at hfirst
    obtain ⟨x', hx', heq⟩ := Option.map_eq_some_iff.mp hfirst.symm
    exact ⟨x', hx', heq⟩
  have hstate : u.info.parseState = p.state := by
    have hleaf : u.isLeaf = false := by rw [← isLeaf_plain, hplain, isLeaf_plain, hreused.isLeaf]
    rw [← parseState_plain hleaf, hplain, parseState_plain hreused.isLeaf, hreused.parseState]
  obtain ⟨stop, built, top, hbuilds, hstack⟩ := hregrows.mirrored (s := s.anew)
    hg hr.language hl hk hr.turns hreused.place
    (by rw [← length_plain u, ← lookaheadBytes_plain u, hplain, length_plain, lookaheadBytes_plain]
        exact hreused.untouched)
    hat'.met hx' (by rw [← symbol_plain, hsame, symbol_plain, hsymbol])
    (by rw [← length_plain, hsame, length_plain, hlength])
    (by rw [← scannerBefore_plain, hplain, scannerBefore_plain, hreused.scanner])
    (by rw [hstate, ← htable]; exact action)
  rw [hstate] at hbuilds
  rw [hplain] at hstack
  obtain ⟨front, piece, rest, htakes⟩ := hat'.met.takes
  have hg' : g.Compiles s.table := htable ▸ hg
  have hnears := hbuilds.nears hg' htakes hat.met.isExtra h rfl hat'
  have hbuilt := hbuilds.built (g := g) hg' htakes hat.met.isExtra
  obtain ⟨htoken, hread⟩ := plain_read_takeOver hbuilt hstack hreused hg'.sparesEnd
  rw [htoken] at hnears
  exact hnears.congr hread.symm

end Parser

end LRWorkbench.Parsing
