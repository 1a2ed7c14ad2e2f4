import LRWorkbench.Proofs.Parsing.Faults
import LRWorkbench.Proofs.Parsing.Recovery

/-!
# Where a run looks for tokens

As long as it meets no error, a run looks for a token, lets it wait if it is an extra, and otherwise
makes the reductions that the token causes and shifts it. `Parser.Looks s q` says that it looks for a
token with the parser `q`; it gets from there to the token that is found (`Looks.reaches`), and if it
accepts then its tree is without errors (`Looks.yields_accept`).
-/

namespace LRWorkbench.Parsing

open Lalr PreparedGrammar Subtree Text

namespace Parser

/-- The parser with the token next that it finds. -/
def taken (q : Parser) (s : Setting) : Parser := { q.behind (q.found s) with lexState := none }

/-- Whether a run looks for a token with a parser, and had no error before. -/
inductive Looks (s : Setting) : Parser → Prop where
  | start : Looks s start
  | wait {q : Parser} (looks : Looks s q) (isExtra : (q.found s).isExtra = true) :
      Looks s (q.wait s (q.found s))
  | shift {q p : Parser} {count next : Nat} (looks : Looks s q)
      (isExtra : (q.found s).isExtra = false)
      (reduces : Reduces s (q.found s) count (q.taken s) p)
      (action : s.table.action p.state (q.found s).symbol = .shift next) :
      Looks s (p.shift s next (q.found s))

variable {g : PreparedGrammar} {s : Setting} {q p r : Parser} {token : Token} {count : Nat}
variable {front back : List Char}

/-! ### Reductions -/

theorem ReducesTo.exists_action {p' : Parser} (h : ReducesTo s token p p') :
    ∃ production, s.table.action p.state token.symbol = .reduce production ∧
      p' = p.reduce s production token := by
  obtain ⟨production, haction, -⟩ := h.action
  exact ⟨production, haction, h.eq haction⟩

/-- Where nothing is taken over a shift is followed by reading the next token. -/
theorem step_of_shift (hfresh : s.reuse = none) {next : Nat}
    (haction : s.table.action p.state token.symbol = .shift next) : step s p token =
      .more (read s (p.shift s next token)).1 (read s (p.shift s next token)).2 := by
  have hreuse : toReuse? s p token = none := by
    rw [toReuse?, hfresh]
    split <;> rfl
  rw [step, haction, hreuse]

/-- A reduction changes nothing but the stack. -/
theorem reduce_eq_stack (s : Setting) (p : Parser) (production : Nat) (token : Token) :
    p.reduce s production token = { p with stack := (p.reduce s production token).stack } := by
  cases hrule : s.table.production? production with
  | none => rw [Parser.reduce, hrule]
  | some rule => rw [reduce_eq hrule]

theorem Reduces.eq_stack (h : Reduces s token count p r) : r = { p with stack := r.stack } := by
  induction h with
  | none p => rfl
  | more first rest ih =>
    obtain ⟨production, -, rfl⟩ := first.exists_action
    rw [ih, reduce_eq_stack]

theorem Reduces.sound (h : Reduces s token count p r) (hg : g.Compiles s.table) (hp : p.Sound g) :
    r.Sound g := by
  induction h with
  | none p => exact hp
  | more first rest ih =>
    obtain ⟨production, haction, rfl⟩ := first.exists_action
    exact ih (hp.reduce hg haction)

theorem Reduces.covers (h : Reduces s token count p r) (hp : Covers s token p) : Covers s token r := by
  induction h with
  | none p => exact hp
  | more first rest ih =>
    obtain ⟨production, -, rfl⟩ := first.exists_action
    exact ih (hp.reduce production)

theorem Reduces.reaches (h : Reduces s token count p r) (hp : Reaches s token p) :
    Reaches s token r := by
  induction h with
  | none p => exact hp
  | more first rest ih => exact ih (hp.step first.move)

/-- Reductions leave the error nodes as they are. -/
theorem Reduces.faults_eq (h : Reduces s token count p r) (hg : g.Compiles s.table) (hp : p.Sound g) :
    r.faults = p.faults := by
  induction h with
  | none p => rfl
  | more first rest ih =>
    obtain ⟨production, haction, rfl⟩ := first.exists_action
    rw [ih (hp.reduce hg haction), hp.faults_reduce hg haction]

/-! ### What is known where a token is looked for -/

/-- What waits are extras. -/
theorem Looks.isExtra_of_mem (h : Looks s q) :
    ∀ t ∈ q.pending.map (·.1), t.isLeaf = true ∧ t.isExtra = true := by
  induction h with
  | start => exact fun t ht => absurd ht List.not_mem_nil
  | wait looks isExtra ih =>
    intro t ht
    rw [Parser.wait, List.map_append] at ht
    rcases List.mem_append.mp ht with ht | ht
    · exact ih t ht
    · rw [List.mem_singleton.mp ht]
      exact ⟨rfl, isExtra⟩
  | shift => exact fun t ht => absurd ht List.not_mem_nil

theorem Sound.wait (h : q.Sound g) (hextra : (q.found s).isExtra = true) :
    (q.wait s (q.found s)).Sound g where
  viable := h.viable
  stack := h.stack
  pending := by
    intro entry hentry
    rcases List.mem_append.mp hentry with hentry | hentry
    · exact h.pending entry hentry
    · rw [List.mem_singleton.mp hentry]
      exact isPiece_leaf_extra hextra _ _ _

theorem Spells.wait (h : Spells s q front back) (ht : s.table.SparesEnd)
    (hextra : (q.found s).isExtra = true) :
    ∃ piece rest, (q.found s).Takes s.text front piece rest ∧ piece ≠ [] ∧ back = piece ++ rest ∧
      Spells s (q.wait s (q.found s)) (front ++ piece) rest := by
  obtain ⟨piece, rest, htakes, hback⟩ := takes_found ht h.text_eq h.position_eq
  have hpiece := htakes.extra hextra
  refine ⟨piece, rest, htakes, hpiece, hback, htakes.text_eq, position_wait htakes, ?_⟩
  rw [Parser.content, Parser.wait, List.map_append, ← List.append_assoc]
  exact h.content.append (.single (spells_leaf htakes hpiece _ _ _))

theorem Spells.covers_taken (h : Spells s q front back) (ht : s.table.SparesEnd) :
    Covers s (q.found s) (q.taken s) := by
  obtain ⟨piece, rest, htakes, -⟩ := takes_found ht h.text_eq h.position_eq
  exact ⟨front, piece, rest, htakes, h.content, rfl⟩

section

variable (hg : g.Compiles s.table)
include hg

theorem Looks.sound (h : Looks s q) : q.Sound g := by
  induction h with
  | start => exact sound_start
  | wait looks isExtra ih => exact ih.wait isExtra
  | shift looks isExtra reduces action ih =>
    exact (reduces.sound hg ⟨ih.viable, ih.stack, ih.pending⟩).shift hg isExtra action

theorem Looks.sound_taken (h : Looks s q) : (q.taken s).Sound g :=
  ⟨(h.sound hg).viable, (h.sound hg).stack, (h.sound hg).pending⟩

/-- There is no error node yet. -/
theorem Looks.faults_eq_nil (h : Looks s q) : q.faults = [] := by
  induction h with
  | start => rfl
  | @wait q looks isExtra ih =>
    rw [faults, content, Parser.wait, List.map_append, ← List.append_assoc, faultsOf_append_leaves]
    · exact ih
    · intro t ht
      rw [List.mem_singleton.mp ht]
      rfl
  | shift looks isExtra reduces action ih =>
    rw [faults_shift, reduces.faults_eq hg (looks.sound_taken hg)]
    exact ih

theorem Looks.spells (h : Looks s q) : ∃ front back, Spells s q front back := by
  induction h with
  | start => exact ⟨[], s.text, spells_start s⟩
  | wait looks isExtra ih =>
    obtain ⟨front, back, hspells⟩ := ih
    obtain ⟨piece, rest, -, -, -, hwait⟩ := hspells.wait hg.sparesEnd isExtra
    exact ⟨_, _, hwait⟩
  | shift looks isExtra reduces action ih =>
    obtain ⟨front, back, hspells⟩ := ih
    exact (reduces.covers (hspells.covers_taken hg.sparesEnd)).shift
      (hg.isEnd_of_shift action) _

/-- A token is found where it is looked for. -/
theorem Looks.start_eq (h : Looks s q) : (q.found s).start = q.position := by
  obtain ⟨front, back, hspells⟩ := h.spells hg
  obtain ⟨piece, rest, htakes, -⟩ := takes_found hg.sparesEnd hspells.text_eq hspells.position_eq
  rw [htakes.start_eq, hspells.position_eq]

omit hg in
/-- Without a scanner its state stays as it is at the start. -/
theorem Looks.scanner_eq (h : Looks s q) (hl : s.language.scanner = none) : q.scanner = [] := by
  induction h with
  | start => rfl
  | wait looks isExtra ih => exact (Lexer.foundWith_nextToken.scannerAfter hl).trans ih
  | @shift q p count next looks isExtra reduces action ih =>
    rw [reduces.eq_stack]
    exact (Lexer.foundWith_nextToken.scannerAfter hl).trans ih

/-- A run gets to the tokens that are read where it looks for them. -/
theorem Looks.reaches_of_reads (hfresh : s.reuse = none) (h : Looks s q) (hreads : Reads s q token r) :
    Reaches s token r := by
  induction h generalizing token r with
  | start =>
    have hread := hreads.read_eq hg.sparesEnd (spells_start s).text_eq (spells_start s).position_eq
    have hstart : Reaches s (read s Parser.start).1 (read s Parser.start).2 := .start
    rwa [hread] at hstart
  | wait looks isExtra ih => exact ih (.extra rfl isExtra hreads)
  | @shift q p count next looks isExtra reduces action ih =>
    have hreaches := reduces.reaches (ih (.last rfl isExtra))
    obtain ⟨front, back, hspells⟩ := (Looks.shift looks isExtra reduces action).spells hg
    have hread := hreads.read_eq hg.sparesEnd hspells.text_eq hspells.position_eq
    have hstep := step_of_shift hfresh action
    rw [hread] at hstep
    exact hreaches.step hstep

theorem Looks.reaches (hfresh : s.reuse = none) (h : Looks s q) (hextra : (q.found s).isExtra = false) :
    Reaches s (q.found s) (q.taken s) :=
  h.reaches_of_reads hg hfresh (.last rfl hextra)

/-- In front of what is behind the first token there is only the first token. -/
theorem Looks.eq_start_or (h : Looks s q) :
    q = Parser.start ∨ (Parser.start.found s).stop ≤ q.position := by
  induction h with
  | start => exact .inl rfl
  | @wait q looks isExtra ih =>
    obtain ⟨u, v, hspells⟩ := looks.spells hg
    obtain ⟨piece, rest, htakes, -⟩ := takes_found hg.sparesEnd hspells.text_eq hspells.position_eq
    have hstop := htakes.stop_eq
    have hposition := hspells.position_eq
    have hwait : (q.wait s (q.found s)).position = (q.found s).stop := rfl
    rcases ih with rfl | hle
    · exact .inr (Nat.le_refl _)
    · exact .inr (by omega)
  | @shift q p count next looks isExtra reduces action ih =>
    obtain ⟨u, v, hspells⟩ := looks.spells hg
    obtain ⟨piece, rest, htakes, -⟩ := takes_found hg.sparesEnd hspells.text_eq hspells.position_eq
    have hstop := htakes.stop_eq
    have hposition := hspells.position_eq
    have hshift : (p.shift s next (q.found s)).position = (q.found s).stop := by
      rw [reduces.eq_stack]
      rfl
    rcases ih with rfl | hle
    · exact .inr (Nat.le_of_eq hshift.symm)
    · exact .inr (by omega)

/-! ### Trees without errors -/

/-- Nothing that a reduction puts together tells of an error if nothing did before. -/
theorem Sound.hasError_reduce (h : p.Sound g) {production : Nat}
    (haction : s.table.action p.state token.symbol = .reduce production)
    (hclean : ∀ t ∈ p.content, t.hasError = false) :
    ∀ t ∈ (p.reduce s production token).content, t.hasError = false := by
  obtain ⟨trailing, front, rest, made, next, start, node, hreduced⟩ :=
    exists_reduced h.viable hg haction
  rw [content, hreduced.stack_eq, Stack.subtrees_append, Stack.subtrees_append] at hclean
  rw [hreduced.reduce_eq, content, Stack.subtrees_pushAllIgnored, Stack.subtrees_cons, List.map_map,
    List.map_reverse]
  intro t ht
  rcases List.mem_append.mp ht with ht | ht
  · rcases List.mem_append.mp ht with ht | ht
    · rcases List.mem_append.mp ht with ht | ht
      · exact hclean t (by simp [ht])
      · rw [List.mem_singleton.mp ht, hreduced.node_eq]
        refine (hasError_foldl _ _).trans (Bool.or_eq_false_iff.mpr ⟨?_, ?_⟩)
        · exact decide_eq_false (hg.nonTerminalSymbol_ne_error (hg.lhs_lt hreduced.made_eq))
        · refine List.any_eq_false.mpr fun c hc => Bool.eq_false_iff.mp (hclean c ?_)
          rw [List.map_reverse] at hc
          exact List.mem_append_left _ (List.mem_append_left _ (List.mem_append_right _ hc))
    · exact hclean t (List.mem_append_left _ (List.mem_append_right _ ht))
  · exact hclean t (List.mem_append_right _ ht)

theorem Reduces.hasError_eq (h : Reduces s token count p r) (hp : p.Sound g)
    (hclean : ∀ t ∈ p.content, t.hasError = false) : ∀ t ∈ r.content, t.hasError = false := by
  induction h with
  | none p => exact hclean
  | more first rest ih =>
    obtain ⟨production, haction, rfl⟩ := first.exists_action
    exact ih (hp.reduce hg haction) (hp.hasError_reduce hg haction hclean)

/-- Where a token is looked for nothing tells of an error. -/
theorem Looks.hasError_eq (h : Looks s q) : ∀ t ∈ q.content, t.hasError = false := by
  induction h with
  | start => exact fun t ht => absurd ht List.not_mem_nil
  | @wait q looks isExtra ih =>
    intro t ht
    rw [content, Parser.wait, List.map_append, ← List.append_assoc] at ht
    rcases List.mem_append.mp ht with ht | ht
    · exact ih t ht
    · rw [List.mem_singleton.mp ht]
      refine Bool.eq_false_iff.mpr fun herror => ?_
      cases (Lexer.foundWith_nextToken.isError herror).2.symm.trans isExtra
  | @shift q p count next looks isExtra reduces action ih =>
    rw [content_shift]
    intro t ht
    rcases List.mem_append.mp ht with ht | ht
    · exact reduces.hasError_eq hg (looks.sound_taken hg) ih t ht
    · rw [List.mem_singleton.mp ht]
      refine Bool.eq_false_iff.mpr fun herror => ?_
      have hsymbol : (q.found s).symbol = .error := (Lexer.foundWith_nextToken.isError herror).1
      rw [hsymbol, hg.action_error] at action
      cases action

/-- A run that accepts where it looks for a token yields a tree without errors. -/
theorem Looks.yields_accept (hfresh : s.reuse = none) (h : Looks s q)
    (hextra : (q.found s).isExtra = false) (hreduces : Reduces s (q.found s) count (q.taken s) p)
    (haction : s.table.action p.state (q.found s).symbol = .accept) :
    s.Yields (p.accept s) ∧ (p.accept s).hasError = false := by
  have hreaches := hreduces.reaches (h.reaches hg hfresh hextra)
  have hdone : run s 1 (q.found s) p = some (p.accept s) := by rw [run, Parser.step, haction]
  refine ⟨hreaches.yields hdone, ?_⟩
  have hbefore : ∀ t ∈ q.content, t.hasError = false := h.hasError_eq hg
  have hclean := hreduces.hasError_eq hg (h.sound_taken hg) hbefore
  obtain ⟨t, production, before, after, hstart⟩ :=
    (hreaches.sound_of_fresh hg hfresh).1.exists_accepted hg haction
  rw [← subtrees_flush, hstart.subtrees] at hclean
  rw [Parser.accept, hstart.unwrapped]
  refine (hasError_foldl _ _).trans (Bool.or_eq_false_iff.mpr ⟨?_, ?_⟩)
  · rw [hg.startSymbol_eq, ← hstart.symbol]
    exact decide_eq_false hstart.known
  · refine List.any_eq_false.mpr fun c hc => Bool.eq_false_iff.mp ?_
    rcases List.mem_append.mp hc with hc | hc
    · exact hclean c (List.mem_append_left _ hc)
    · rcases List.mem_append.mp hc with hc | hc
      · exact hstart.derived.hasError_of_mem_children (hclean t (by simp)) hc
      · exact hclean c (List.mem_append_right _ (List.mem_cons_of_mem _ hc))

end

end Parser

end LRWorkbench.Parsing
