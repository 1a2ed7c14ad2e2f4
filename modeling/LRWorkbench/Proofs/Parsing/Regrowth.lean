import LRWorkbench.Proofs.Parsing.Growth

/-!
# What a tree is made of was built by runs

Every calm node in the tree of a text that is parsed for the first time, at its place, is what a run
builds that meets the first leaf of the node in the state below it (`Parser.regrow_of_done`), unless
the parser had to give up a token (`Setting.GivesUp`).
-/

namespace LRWorkbench.Parsing

open Lalr PreparedGrammar Subtree Text

/-- Whether the run of a text gives up a token, because nothing helps to get over an error. -/
def Setting.GivesUp (s : Setting) : Prop :=
  ∃ token p, Parser.Reaches s token p ∧ s.table.action p.state token.symbol = .error ∧
    Parser.findRecovery s [] ⟨[], token⟩ s.window p = none ∧ token.isEnd = false

namespace Parser

variable {s : Setting} {token token' : Token} {p p' r : Parser} {g : PreparedGrammar}
  {u w : List Char} {t : Subtree} {ts us : List Subtree}

/-! ### Nodes that would grow again -/

/-- Whether a node is what a run builds that meets its first leaf in the state below; or else it
begins with no leaf, and the terminal that comes first in it is not shifted in that state. -/
structure Regrows (s : Setting) (place : Nat) (t : Subtree) : Prop where
  barren : opening? t = none → ∀ x, firstLeaf? t = some x →
    ∀ next, s.table.action t.info.parseState x.symbol ≠ .shift next
  grown : opening? t ≠ none → ∃ first built after, Met s first ∧
    CalmToken (place + t.length + t.info.lookaheadBytes) first ∧
    Builds s (place + t.length + t.info.lookaheadBytes) t.info.parseState first built ∧
    built.stack.map Entry.plain = [⟨after, t.plain, place⟩]

/-- A node that stands alone above a state grew there. -/
theorem Growth.regrows {next start : Nat} {base : Stack}
    (h : Growth s token p [⟨next, t, start⟩] base) (hcalm : t.isFragile = false)
    (hstate : t.info.parseState = Stack.state base) : Regrows s start t where
  barren hnone x hx next' := by
    have hbarren := h.barren hnone next'
    have hsymbol : nextSymbol (Stack.subtrees [(⟨next, t, start⟩ : Entry)] ++
        p.pending.map (·.1)) token = x.symbol := by
      rw [nextSymbol, firstLeafOf?_append]
      change ((((firstLeaf? t).or none).or _).map _).getD _ = _
      rw [hx]
      rfl
    rwa [hsymbol, ← hstate] at hbarren
  grown hsome := by
    obtain ⟨first, built, r, hmet, hfirst, hbuilds, hstack, -, -⟩ :=
      h.grown hsome (start + t.length + t.info.lookaheadBytes) fun e he => by
        obtain rfl := List.mem_singleton.mp he
        exact ⟨hcalm, Nat.le_refl _⟩
    rw [← hstate] at hbuilds
    exact ⟨first, built, next, hmet, hfirst, hbuilds, hstack⟩

/-- Whether all calm nodes among subtrees that stand behind a text would grow again. -/
def AllRegrow (s : Setting) (w : List Char) (ts : List Subtree) : Prop :=
  ∀ part ∈ partsOf (Extent.of w) ts, part.1.isLeaf = false → part.1.isFragile = false →
    Regrows s part.2.bytes part.1

/-- Whether subtrees grow again is decided for a first part, and for the rest behind its text. -/
theorem allRegrow_append (h : SpellsAll ts u) :
    AllRegrow s w (ts ++ us) ↔ AllRegrow s w ts ∧ AllRegrow s (w ++ u) us := by
  rw [AllRegrow, partsOf_append, h.stopOf_eq]
  exact List.forall_mem_append

/-- A subtree grows again if a run builds it, unless it is a leaf or fragile, and if its children
do. -/
theorem allRegrow_singleton : AllRegrow s w [t] ↔
    (t.isLeaf = false → t.isFragile = false → Regrows s (byteLength w) t) ∧
      AllRegrow s w t.children := by
  have hbytes : (Extent.of w).bytes = byteLength w := Extent.bytes_of w
  rw [AllRegrow, AllRegrow, partsOf, partsOf, List.append_nil]
  cases t with
  | leaf i x =>
    rw [parts, children, partsOf]
    simp [isLeaf]
  | node i p children =>
    rw [parts, List.forall_mem_cons, hbytes]
    rfl

/-- Leaves have no parts but themselves. -/
theorem isLeaf_of_mem_partsOf {start : Extent} (h : ∀ t ∈ ts, t.isLeaf = true)
    {part : Subtree × Extent} (hpart : part ∈ partsOf start ts) : part.1.isLeaf = true := by
  induction ts generalizing start with
  | nil => exact absurd hpart List.not_mem_nil
  | cons t ts ih =>
    rw [partsOf] at hpart
    rcases List.mem_append.mp hpart with hpart | hpart
    · have ht := h t (List.mem_cons_self ..)
      cases t with
      | leaf i x =>
        rw [parts, List.mem_singleton] at hpart
        rw [hpart]
        rfl
      | node => cases ht
    · exact ih (fun t ht => h t (List.mem_cons_of_mem _ ht)) hpart

/-- The parts of several subtrees are those of a first part and of the rest. -/
theorem mem_partsOf_append {start : Extent} {part : Subtree × Extent}
    (h : part ∈ partsOf start (ts ++ us)) :
    part ∈ partsOf start ts ∨ ∃ start, part ∈ partsOf start us := by
  rw [partsOf_append] at h
  exact (List.mem_append.mp h).imp_right fun h => ⟨_, h⟩

/-- Leaves do not grow. -/
theorem AllRegrow.append_leaves (h : AllRegrow s w ts) (hus : ∀ t ∈ us, t.isLeaf = true) :
    AllRegrow s w (ts ++ us) := by
  intro part hpart hleaf
  rcases mem_partsOf_append hpart with hpart | ⟨start, hpart⟩
  · exact h part hpart hleaf
  · exact absurd (hleaf.symm.trans (isLeaf_of_mem_partsOf hus hpart)) Bool.false_ne_true

theorem allRegrow_nil (s : Setting) (w : List Char) : AllRegrow s w [] :=
  fun _ h => absurd h List.not_mem_nil

/-- An error node does not grow, but what is in it may. -/
theorem allRegrow_buildError (h : AllRegrow s w ts) (generation parseState : Nat)
    (scanner : ScannerState) : AllRegrow s w [buildError generation ts parseState scanner] := by
  refine allRegrow_singleton.mpr ⟨fun _ hcalm => ?_, h⟩
  exact absurd (hcalm.symm.trans (isFragile_buildError ..)) Bool.false_ne_true

/-! ### Behind a token -/

/-- A parser at a place of the text reads the next token there. -/
theorem Spells.reads {front back : List Char} (h : Spells s p front back) (hl : s.table.SparesEnd) :
    Reads s p (Parser.read s p).1 (Parser.read s p).2 := by
  refine reads_readOn hl h.text_eq h.position_eq ?_
  rw [Setting.length, h.text_eq, byteLength_append]
  omega

/-- What a parser reads with nothing waiting is met. -/
theorem Spells.atToken {front back : List Char} (h : Spells s p front back)
    (hl : s.table.SparesEnd) (hpending : p.pending = [])
    (hmode : (Parser.read s p).1.errorMode = false) :
    AtToken s (Parser.read s p).1 (Parser.read s p).2 :=
  (h.reads hl).atToken hl h.text_eq h.position_eq hpending hmode

/-- A token among those of use was met, wherever a run gets to. -/
theorem Reaches.atToken (hg : g.Compiles s.table)
    (hreuse : ∀ r, s.reuse = some r → Reuse.Truthful s.text r) (h : Reaches s token p)
    (hmode : token.errorMode = false) : AtToken s token p := by
  have hl := hg.sparesEnd
  induction h with
  | start => exact (spells_start s).atToken hl rfl hmode
  | @step token token' p p' reached move ih =>
    have hcovers := reached.covers hg hreuse
    have hmove := move_step s p token
    rw [move] at hmove
    cases hmove with
    | shift action fresh =>
      have hend := hg.isEnd_of_shift action
      obtain ⟨front, back, hspells⟩ := hcovers.shift hend _
      exact hspells.atToken hl rfl hmode
    | takeOver action reuse =>
      obtain ⟨front, back, hspells⟩ := hcovers.takeOver hreuse reuse
      exact hspells.atToken hl rfl hmode
    | @reduce production action =>
      obtain ⟨hmet, hpending, hposition, hscanner, hlex⟩ := ih hmode
      cases hrule : s.table.production? production with
      | none =>
        rw [Parser.reduce, hrule]
        exact ⟨hmet, hpending, hposition, hscanner, hlex⟩
      | some rule =>
        rw [reduce_eq hrule]
        exact ⟨hmet, hpending, hposition, hscanner, hlex⟩
    | resume action found => cases hmode
    | giveUp action none isEnd =>
      obtain ⟨front, back, hspells⟩ := hcovers.giveUpToken isEnd
      exact hspells.atToken hl rfl hmode

/-! ### Runs that take nothing over -/

/-- What is known wherever a run gets to that takes nothing over and gives up no token. -/
structure Steady (s : Setting) (token : Token) (p : Parser) : Prop where
  /-- Errors lie on top of the stack only until the next token is shifted. -/
  quiet : ∀ e, p.stack.head? = some e → e.subtree.isIgnored = true → token.errorMode = true
  grows : Grows s token p
  regrow : AllRegrow s [] p.content

/-- There is no piece of an empty stack. -/
theorem HasFront.of_nil {front base : Stack} (h : HasFront p front base) : p.stack ≠ [] := by
  rw [h.stack_eq]
  exact List.append_ne_nil_of_left_ne_nil h.ne_nil base

/-- What is read waits behind what was there. -/
theorem Reads.content (h : Reads s p token r) :
    ∃ extras, r.content = p.content ++ extras ∧ ∀ t ∈ extras, t.isLeaf = true := by
  induction h with
  | @extra p r first token found isExtra rest ih =>
    obtain ⟨extras, hcontent, hextras⟩ := ih
    refine ⟨s.leaf first p.state p.lookState first.errorMode :: extras, ?_, ?_⟩
    · rw [hcontent, Parser.content, Parser.content, wait, List.map_append, ← List.append_assoc,
        List.append_assoc]
      rfl
    · exact List.forall_mem_cons.mpr ⟨rfl, hextras⟩
  | last found isExtra => exact ⟨[], (List.append_nil _).symm, fun _ h => absurd h List.not_mem_nil⟩

/-- Reading a token adds only leaves, for which there is nothing to show. -/
theorem Reads.allRegrow (h : Reads s p token r) (hp : AllRegrow s [] p.content) :
    AllRegrow s [] r.content := by
  obtain ⟨extras, hcontent, hextras⟩ := h.content
  rw [hcontent]
  exact hp.append_leaves hextras

/-- The first token is read onto an empty stack, which has no piece yet. -/
theorem steady_start (hg : g.Compiles s.table) :
    Steady s (read s start).1 (read s start).2 := by
  have hspells := spells_start s
  have hreads := hspells.reads hg.sparesEnd
  have hstack : (read s start).2.stack = [] := hreads.behind.1
  refine ⟨fun e he => ?_, fun front base h => absurd hstack h.of_nil, hreads.allRegrow (allRegrow_nil s [])⟩
  rw [hstack] at he
  cases he

/-- Shifting a token, and reading the next one, keeps what stands on the stack growing again. -/
theorem Steady.shift (h : Steady s token p) (hg : g.Compiles s.table) (hsound : p.Sound g)
    (hextra : token.isExtra = false) (hcovers : Covers s token p)
    (hat : token.errorMode = false → AtToken s token p) {next : Nat}
    (action : s.table.action p.state token.symbol = .shift next) :
    Steady s (read s (p.shift s next token)).1 (read s (p.shift s next token)).2 := by
  obtain ⟨front, back, hspells⟩ := hcovers.shift (hg.isEnd_of_shift action) next
  have hreads := hspells.reads hg.sparesEnd
  refine ⟨fun e he hignored => ?_,
    h.grows.shift hg hat (fun e he => (hsound.pending e he).2) action hreads hspells.text_eq
      hspells.position_eq, hreads.allRegrow ?_⟩
  · rw [hreads.behind.1, stack_shift, List.head?_cons] at he
    obtain rfl := Option.some.inj he
    have hstep : (shiftEntry s p.state next token).subtree.isIgnored = false :=
      Bool.or_eq_false_iff.mpr ⟨hextra, hg.isError_of_shift action⟩
    exact absurd (hstep.symm.trans hignored) Bool.false_ne_true
  · have hleaf : (p.shift s next token).content =
        p.content ++ [(shiftEntry s p.state next token).subtree] := by
      rw [content, content, stack_shift, Stack.subtrees_cons, Stack.subtrees_append,
        subtrees_waitEntries]
      exact List.append_nil _
    rw [hleaf]
    exact h.regrow.append_leaves fun t ht => by rw [List.mem_singleton.mp ht]; rfl

/-- Subtrees that spell a text are as long as the text. -/
theorem sum_length_of_spellsAll (h : SpellsAll ts u) : (ts.map (·.length)).sum = byteLength u := by
  induction ts generalizing u with
  | nil =>
    cases h
    rfl
  | cons t ts ih =>
    obtain ⟨v, w, rfl, ht, hts⟩ := spellsAll_cons.mp h
    rw [List.map_cons, List.sum_cons, ht.length_eq, ih hts, byteLength_append]

section

variable {production : Nat} {trailing steps rest : Stack} {made : Production} {next start : Nat}
  {node : Subtree} (hr : Reduced g s p token production trailing steps rest made next start node)

include hr

/-- A reduction puts the node in the place of the steps and pushes what was above them again. -/
theorem Reduced.stack_eq_replaced : (p.reduce s production token).stack =
    trailing.map (fun e => ⟨next, e.subtree, e.start⟩) ++ ⟨next, node, start⟩ :: rest := by
  rw [hr.reduce_eq, Stack.pushAllIgnored_eq, List.map_map, List.map_reverse, List.reverse_reverse]
  rfl

/-- The phrase that a reduction makes would grow again. -/
theorem Reduced.regrows (hquiet : ∀ e, p.stack.head? = some e → e.subtree.isIgnored = true →
      token.errorMode = true) (hgrows : Grows s token (p.reduce s production token))
    {u v w : List Char} (hnode : Subtree.Spells node v)
    (hpending : SpellsAll (p.pending.map (·.1)) w)
    (hplace : trailing = [] → token.start = byteLength (u ++ v ++ w))
    (hcalm : node.isFragile = false) : Regrows s (byteLength u) node := by
  have hmode := hcalm
  rw [hr.node_eq, isFragile_build, Bool.or_eq_false_iff] at hmode
  obtain rfl : trailing = [] := by
    cases trailing with
    | nil => rfl
    | cons top trailing =>
      have hhead : p.stack.head? = some top := by rw [hr.stack_eq]; rfl
      exact absurd (hmode.1.symm.trans (hquiet top hhead (hr.ignored top (List.mem_cons_self ..))))
        Bool.false_ne_true
  have hfront : HasFront (p.reduce s production token) [⟨next, node, start⟩] rest := by
    refine ⟨hr.stack_reduce, List.cons_ne_nil _ _, fun e he => ?_, fun e he => ?_⟩
    · obtain rfl := Option.some.inj he
      exact hr.isIgnored
    · obtain rfl := List.mem_singleton.mp he
      exact hcalm
  have hgrowth := hgrows _ _ hfront
  have hstate : node.info.parseState = Stack.state rest := by
    rw [hr.node_eq]
    rfl
  have hregrows := hgrowth.regrows hcalm hstate
  by_cases hopening : opening? node = none
  · exact ⟨hregrows.barren, fun h => absurd hopening h⟩
  · obtain ⟨first, hlined⟩ := hgrowth.linedUp hopening
    obtain ⟨hstart, hbehind⟩ := hlined
    replace hstart : start = first := hstart
    rw [hr.reduce_eq] at hbehind
    have hstop : token.start =
        first + node.length + ((p.pending.map (·.1)).map (·.length)).sum := LinedUp.stop_eq hbehind
    have hwaiting := sum_length_of_spellsAll hpending
    have hlength := hnode.length_eq
    have htoken := hplace rfl
    rw [byteLength_append, byteLength_append] at htoken
    rwa [show start = byteLength u by omega] at hregrows

end

/-- A reduction makes one node, and its steps say how it grew. -/
theorem Steady.reduce (h : Steady s token p) (hg : g.Compiles s.table)
    (hk : s.language.KeepsAccount) (hsound : p.Sound g) (hcovers : Covers s token p)
    (hat : token.errorMode = false → AtToken s token p) {production : Nat}
    (action : s.table.action p.state token.symbol = .reduce production) :
    Steady s token (p.reduce s production token) := by
  obtain ⟨trailing, steps, rest, made, next, start, node, hr⟩ := exists_reduced hsound.viable hg action
  have hstack := hr.stack_eq_replaced
  have hgrows := h.grows.reduce hg hk hsound.viable hat h.quiet action
  have hpending : (p.reduce s production token).pending = p.pending := by rw [hr.reduce_eq]
  refine ⟨fun e he hignored => ?_, hgrows, ?_⟩
  · rw [hstack] at he
    cases trailing with
    | nil =>
      obtain rfl := Option.some.inj he
      exact absurd (hr.isIgnored.symm.trans hignored) Bool.false_ne_true
    | cons top trailing =>
      have hhead : p.stack.head? = some top := by rw [hr.stack_eq]; rfl
      exact h.quiet top hhead (hr.ignored top (List.mem_cons_self ..))
  · obtain ⟨_, piece, behind, htakes, hcontent, -⟩ := hcovers
    have hregrow := h.regrow
    rw [content, hr.stack_eq, Stack.subtrees_append, Stack.subtrees_append] at hcontent hregrow
    obtain ⟨_, u₄, rfl, hall, hwaiting⟩ := spellsAll_append.mp hcontent
    obtain ⟨_, u₃, rfl, hphrase, htrailing⟩ := spellsAll_append.mp hall
    obtain ⟨u₁, u₂, rfl, hbelow, hsteps⟩ := spellsAll_append.mp hphrase
    rw [allRegrow_append hall, allRegrow_append hphrase, allRegrow_append hbelow] at hregrow
    obtain ⟨⟨⟨hregrow₁, hregrow₂⟩, hregrow₃⟩, hregrow₄⟩ := hregrow
    have hnode : Subtree.Spells node u₂ := by
      rw [hr.node_eq, List.map_reverse]
      exact hsteps.build _ _ _ _ _ _ _
    -- The steps become the children of the node and are regrown as they were; only the node is
    -- new.
    have hchildren : AllRegrow s u₁ node.children := by
      rw [hr.node_eq, List.map_reverse]
      exact hregrow₂
    have hregrows := hr.regrows h.quiet hgrows (u := u₁) hnode hwaiting fun hnone => by
      rw [hnone] at htrailing
      cases htrailing
      rw [htakes.start_eq, List.append_nil]
    rw [content, hstack, Stack.subtrees_append, Stack.subtrees_cons, map_subtrees_replaced, hpending]
    have hspells := hbelow.append (.single hnode)
    refine (allRegrow_append (hspells.append htrailing)).mpr ⟨(allRegrow_append hspells).mpr
      ⟨(allRegrow_append hbelow).mpr ⟨hregrow₁, ?_⟩, hregrow₃⟩, hregrow₄⟩
    exact allRegrow_singleton.mpr ⟨fun _ hcalm => hregrows hcalm, hchildren⟩

/-! ### Recovery -/

/-- What is given up on the side of the text are leaves behind what waits. -/
theorem exists_of_givenUp {skipped : List Ahead} (hne : skipped ≠ [])
    (h : ∀ a ∈ skipped, ∀ e ∈ a.extras, e.1.isLeaf = true) (q : Nat)
    (pending : List (Subtree × Nat)) :
    ∃ others, (givenUp s q pending skipped).map (·.1) = pending.map (·.1) ++ others ∧
      ∀ t ∈ others, t.isLeaf = true := by
  obtain ⟨first, rest, rfl⟩ := List.exists_cons_of_ne_nil hne
  refine ⟨_, by rw [givenUp, List.map_append], fun t ht => ?_⟩
  obtain ⟨e, he, rfl⟩ := List.mem_map.mp ht
  rcases List.mem_cons.mp he with rfl | he
  · rfl
  · obtain ⟨a, ha, he⟩ := List.mem_flatMap.mp he
    rcases List.mem_append.mp he with he | he
    · exact h a (List.mem_cons_of_mem _ ha) e he
    · rw [List.mem_singleton.mp he]
      rfl

/-- To get over an error something has to be given up. -/
theorem lost_ne_nil {r : Recovery} {symbol : Symbol}
    (h : popsFor? s.table p.stack r.skipped.length symbol = some r.popped) (q : Nat) :
    ((p.stack.take r.popped).reverse.map fun e => (e.subtree, e.start)) ++
      givenUp s q p.pending r.skipped ≠ [] := by
  intro hnil
  obtain ⟨hpopped, hskipped⟩ := List.append_eq_nil_iff.mp hnil
  rw [List.map_eq_nil_iff, List.reverse_eq_nil_iff] at hpopped
  have hnone : r.skipped = [] := by
    cases hr : r.skipped with
    | nil => rfl
    | cons first rest =>
      rw [hr, givenUp] at hskipped
      exact absurd (List.append_eq_nil_iff.mp hskipped).2 (List.cons_ne_nil _ _)
  have hcheck := List.find?_some h
  have hmem := List.mem_range.mp (List.mem_of_find?_eq_some h)
  have hlength := congrArg List.length hpopped
  rw [List.length_take, List.length_nil] at hlength
  have hzero : r.popped = 0 := by omega
  simp [hnone, hzero] at hcheck

/-- A way over an error pushes an error node, which is fragile and takes nothing over. -/
theorem Steady.resume (h : Steady s token p) (hcovers : Covers s token p) {r : Recovery}
    (found : findRecovery s [] ⟨[], token⟩ s.window p = some (r, p')) :
    Steady s (resume s r p').1 (resume s r p').2 := by
  obtain ⟨hskipped, hresume, hpops⟩ := spec_of_findRecovery
    (P := fun a => ∀ e ∈ a.extras, e.1.isLeaf = true)
    (fun p => (spec_readAhead (P := fun t => t.isLeaf = true) (fun _ _ _ => rfl) p).1) found
    (fun _ h => absurd h List.not_mem_nil) fun _ h => absurd h List.not_mem_nil
  obtain ⟨hstack, hpending⟩ := stack_findRecovery found
  obtain ⟨_, _, _, -, hcontent, -⟩ := hcovers
  have hregrow := h.regrow
  rw [content, ← hstack, ← hpending] at hcontent hregrow
  rw [← hstack] at hpops
  -- The error node has something in it, be it popped entries or skipped tokens, so it stands at a
  -- place.
  have hlost := lost_ne_nil hpops (Stack.state (p'.stack.drop r.popped))
  obtain ⟨lost, rest, hsplit⟩ := List.exists_cons_of_ne_nil hlost
  have hresumed : (Parser.resume s r p').2.stack = ⟨Stack.state (p'.stack.drop r.popped),
      buildError s.generation ((lost :: rest).map (·.1)) (Stack.state (p'.stack.drop r.popped))
        r.resume.token.scannerBefore, lost.2⟩ :: p'.stack.drop r.popped := by
    rw [Parser.resume]
    dsimp only
    rw [hsplit]
    rfl
  refine ⟨fun _ _ _ => rfl, fun front base hfront => ?_, ?_⟩
  · -- an error lies on top
    have hall := hfront.stack_eq
    rw [hresumed] at hall
    cases front with
    | nil => exact absurd rfl hfront.ne_nil
    | cons top front =>
      obtain ⟨rfl, -⟩ := List.cons.inj hall
      have hcalm := hfront.calm _ (List.mem_cons_self ..)
      exact absurd (hcalm.symm.trans (isFragile_buildError ..)) Bool.false_ne_true
  · -- What is regrown is the same as before, only that the popped part has a node above it now.
    have htaken : ((p'.stack.take r.popped).reverse.map fun e => (e.subtree, e.start)).map (·.1) =
        Stack.subtrees (p'.stack.take r.popped) := by
      rw [List.map_map, List.map_reverse]
      rfl
    have hparts : Stack.subtrees p'.stack = Stack.subtrees (p'.stack.drop r.popped) ++
        Stack.subtrees (p'.stack.take r.popped) := by
      rw [← Stack.subtrees_append, List.take_append_drop]
    have hwaiting : (Parser.resume s r p').2.pending =
        if r.skipped.isEmpty then p'.pending else r.resume.extras := rfl
    rw [hparts] at hcontent hregrow
    obtain ⟨_, u₃, rfl, hall, hlater⟩ := spellsAll_append.mp hcontent
    obtain ⟨u₁, u₂, rfl, hbelow, hpopped⟩ := spellsAll_append.mp hall
    rw [allRegrow_append hall, allRegrow_append hbelow] at hregrow
    obtain ⟨⟨hregrow₁, hregrow₂⟩, hregrow₃⟩ := hregrow
    rw [content, hresumed, hwaiting, Stack.subtrees_cons, ← hsplit, List.map_append, htaken]
    -- Nothing skipped means that the next token goes on; then the extras that wait go on waiting.
    cases hr : r.skipped with
    | nil =>
      rw [givenUp, List.map_nil, List.append_nil]
      refine (allRegrow_append (hbelow.append (.single (hpopped.buildError _ _ _)))).mpr
        ⟨(allRegrow_append hbelow).mpr ⟨hregrow₁, ?_⟩, hregrow₃⟩
      exact allRegrow_buildError hregrow₂ _ _ _
    | cons first others =>
      obtain ⟨leaves, hgiven, hleaves⟩ := exists_of_givenUp (s := s) (List.cons_ne_nil first others)
        (hr ▸ hskipped) (Stack.state (p'.stack.drop r.popped)) p'.pending
      rw [hgiven]
      refine ((allRegrow_append hbelow).mpr ⟨hregrow₁, ?_⟩).append_leaves fun t ht => ?_
      · refine allRegrow_buildError ?_ _ _ _
        rw [← List.append_assoc]
        exact ((allRegrow_append hpopped).mpr ⟨hregrow₂, hregrow₃⟩).append_leaves hleaves
      · obtain ⟨e, he, rfl⟩ := List.mem_map.mp ht
        exact hresume e he

/-- Every move that takes nothing over and gives up no token keeps it so. -/
theorem Steady.step (h : Steady s token p) (hg : g.Compiles s.table)
    (hk : s.language.KeepsAccount) (hreuse : s.reuse = none) (hsound : p.Sound g)
    (hextra : token.isExtra = false) (hcovers : Covers s token p)
    (hat : token.errorMode = false → AtToken s token p)
    (hkeeps : s.table.action p.state token.symbol = .error →
      findRecovery s [] ⟨[], token⟩ s.window p = none → token.isEnd = true)
    (hstep : Parser.step s p token = .more token' p') : Steady s token' p' := by
  have hmove := move_step s p token
  rw [hstep] at hmove
  cases hmove with
  | shift action fresh => exact h.shift hg hsound hextra hcovers hat action
  | takeOver action reuse =>
    obtain ⟨_, _, hreused⟩ := exists_of_toReuse reuse
    rw [hreused.reuse] at hreuse
    cases hreuse
  | reduce action => exact h.reduce hg hk hsound hcovers hat action
  | resume action found => exact h.resume hcovers found
  | giveUp action none isEnd =>
    rw [hkeeps action none] at isEnd
    cases isEnd

/-- A run for a text that is parsed for the first time keeps all of this, move after move. -/
theorem Reaches.steady (hg : g.Compiles s.table) (hk : s.language.KeepsAccount)
    (hreuse : s.reuse = none) (hkeeps : ¬ s.GivesUp) (h : Reaches s token p) :
    Steady s token p := by
  have hnone : ∀ {P : Reuse → Prop} r, s.reuse = some r → P r := by
    intro P r hr
    rw [hreuse] at hr
    cases hr
  induction h with
  | start => exact steady_start hg
  | @step token token' p p' reached move ih =>
    obtain ⟨hsound, hextra⟩ := reached.sound hg hnone
    refine ih.step hg hk hreuse hsound hextra (reached.covers hg hnone) (reached.atToken hg hnone)
      (fun haction hfound => ?_) move
    by_contra hend
    exact hkeeps ⟨token, p, reached, haction, hfound, Bool.eq_false_iff.mpr hend⟩

/-- **What a tree is made of would grow again.** Every calm node below the root of the tree of a
text that is parsed for the first time is what a run builds at its place. -/
theorem regrow_of_done (hg : g.Compiles s.table) (hsound : p.Sound g) (h : Covers s token p)
    (hregrow : AllRegrow s [] p.content) {tree : SyntaxTree}
    (hdone : Parser.step s p token = .done tree) : AllRegrow s [] tree.root.children := by
  have hmove := move_step s p token
  rw [hdone] at hmove
  obtain ⟨_, _, _, -, hcontent, -⟩ := h
  cases hmove with
  | accept action =>
    obtain ⟨t, production, before, after, hstart⟩ := hsound.exists_accepted hg action
    rw [← subtrees_flush, hstart.subtrees] at hcontent hregrow
    obtain ⟨u, w, -, hbefore, hcontent⟩ := spellsAll_append.mp hcontent
    obtain ⟨v, w, rfl, ht, hafter⟩ := spellsAll_cons.mp hcontent
    rw [allRegrow_append hbefore, ← List.singleton_append, allRegrow_append (.single ht),
      allRegrow_singleton] at hregrow
    obtain ⟨hregrow₁, ⟨-, hregrow₂⟩, hregrow₃⟩ := hregrow
    rw [Parser.accept, hstart.unwrapped]
    exact (allRegrow_append hbefore).mpr
      ⟨hregrow₁, (allRegrow_append (ht.children hstart.isLeaf)).mpr ⟨hregrow₂, hregrow₃⟩⟩
  | abandon action none isEnd =>
    rw [← subtrees_flush] at hregrow
    exact hregrow

end Parser

end LRWorkbench.Parsing
