import LRWorkbench.Proofs.Parsing.Viable

/-!
# Trees are derivations

Whatever a run does, the subtrees on its stack are derivations of the grammar and the stack is a
path (`Parser.Sound`); each move keeps it so (`Sound.step`). So the trees of a language are
derivations, also those that are made of parts of earlier ones (`derived_of_genuine`), and a tree
without errors spells out a sentence of the grammar.
-/

namespace LRWorkbench.Parsing

open Lalr PreparedGrammar Subtree

variable {g : PreparedGrammar} {s : Setting}

/-- Whether a subtree is a derivation that may stand on the stack. -/
structure IsPiece (g : PreparedGrammar) (t : Subtree) : Prop where
  derived : Derived g t
  token : IsToken g t

/-- An error node over derivations is a piece whatever its children are: no production has to
fit. -/
theorem isPiece_error {children : List Subtree} (heach : ∀ c ∈ children, Derived g c)
    (generation parseState : Nat) (scanner : ScannerState) :
    IsPiece g (buildError generation children parseState scanner) where
  derived := derived_buildError heach _ _ _
  token := fun h => by cases h

/-- An extra may stand anywhere. -/
theorem isPiece_leaf_extra {token : Token} (h : token.isExtra = true) (parseState lexState : Nat)
    (isFragile : Bool) :
    IsPiece g (s.leaf token parseState lexState isFragile) ∧
      (s.leaf token parseState lexState isFragile).isIgnored = true := by
  refine ⟨⟨.leaf, fun _ => .inl h⟩, ?_⟩
  rw [isIgnored, Setting.leaf, isExtra, h, Bool.true_or]

namespace Parser

/-- Whether the stack is a path and all that is on it, or waits to be, are derivations. -/
structure Sound (g : PreparedGrammar) (p : Parser) : Prop where
  viable : Stack.Viable g p.stack
  stack : ∀ e ∈ p.stack, IsPiece g e.subtree
  pending : ∀ entry ∈ p.pending, IsPiece g entry.1 ∧ entry.1.isIgnored = true

variable {p : Parser} {token : Token}

/-- A parser that has read nothing holds no trees, and the bottom of the stack is a path. -/
theorem sound_start : Sound g start where
  viable := .nil
  stack := fun _ h => absurd h List.not_mem_nil
  pending := fun _ h => absurd h List.not_mem_nil

/-! ### Reading tokens -/

/-- The extras that are read on the way wait as leaves; the token that ends the reading is none. -/
theorem Sound.readOn (h : p.Sound g) (lexState fuel : Nat) :
    (readOn s lexState fuel p).2.Sound g ∧ (readOn s lexState fuel p).1.isExtra = false := by
  induction fuel generalizing p with
  | zero => exact ⟨h, rfl⟩
  | succ fuel ih =>
    rw [Parser.readOn]
    split
    · rename_i hextra
      refine ih ⟨h.viable, h.stack, fun entry hentry => ?_⟩
      rcases List.mem_append.mp hentry with hentry | hentry
      · exact h.pending entry hentry
      · rw [List.mem_singleton.mp hentry]
        exact isPiece_leaf_extra hextra _ _ _
    · rename_i hextra
      exact ⟨⟨h.viable, h.stack, h.pending⟩, Bool.eq_false_iff.mpr hextra⟩

theorem Sound.read (h : p.Sound g) : (read s p).2.Sound g := (h.readOn _ _).1

theorem isExtra_read (h : p.Sound g) : (Parser.read s p).1.isExtra = false := (h.readOn _ _).2

/-- Extras that were found ahead may wait like others. -/
structure Ahead.Sound (g : PreparedGrammar) (a : Ahead) : Prop where
  extras : ∀ entry ∈ a.extras, IsPiece g entry.1 ∧ entry.1.isIgnored = true
  isExtra : a.token.isExtra = false

/-- What is found ahead is sound, since leaves of extras are pieces. -/
theorem sound_readAhead (p : Parser) : (readAhead s p).1.Sound g :=
  have hspec := spec_readAhead (P := fun t => IsPiece g t ∧ t.isIgnored = true)
    (fun _ _ hextra => isPiece_leaf_extra hextra _ _ _) p
  ⟨hspec.1, hspec.2⟩

/-! ### The stack -/

theorem mem_pushAllIgnored {stack : Stack} {entries : List (Subtree × Nat)} {e : Entry}
    (h : e ∈ Stack.pushAllIgnored stack entries) :
    e ∈ stack ∨ (e.subtree, e.start) ∈ entries := by
  obtain ⟨front, hfront, hentries, -⟩ := Stack.pushAllIgnored_spec stack entries
  rw [hfront] at h
  rcases List.mem_append.mp h with h | h
  · right
    rw [← List.mem_reverse, ← hentries]
    exact List.mem_map.mpr ⟨e, h, rfl⟩
  · exact .inl h

/-- The pieces that wait are extras and error nodes, which lead to no new state. -/
theorem Sound.flush (h : p.Sound g) :
    p.flush.Sound g ∧ Stack.state p.flush.stack = p.state := by
  obtain ⟨hviable, hstate⟩ := h.viable.pushAllIgnored fun entry hentry =>
    (h.pending entry hentry).2
  refine ⟨⟨hviable, fun e he => ?_, fun _ h => absurd h List.not_mem_nil⟩, hstate⟩
  rcases mem_pushAllIgnored he with he | he
  · exact h.stack e he
  · exact (h.pending _ he).1

/-- A piece may be pushed that leads on from the current state. -/
theorem Sound.push (h : p.Sound g) {e : Entry} (hpiece : IsPiece g e.subtree)
    (hstep : e.subtree.isIgnored = false) (hleads : g.Leads p.state e.subtree.symbol e.state)
    {position : Nat} {scanner : ScannerState} {lexState : Option Nat} :
    Sound g ⟨e :: p.stack, p.pending, position, scanner, lexState⟩ where
  viable := .step h.viable hstep hleads
  stack := by
    intro e' he
    rcases List.mem_cons.mp he with rfl | he
    · exact hpiece
    · exact h.stack e' he
  pending := h.pending

/-- An ignored piece may be pushed. -/
theorem Sound.pushIgnored (h : p.Sound g) {t : Subtree} (hpiece : IsPiece g t)
    (hignored : t.isIgnored = true) (start : Nat) :
    Sound g { p with stack := Stack.pushIgnored p.stack t start } where
  viable := h.viable.pushIgnored hignored
  stack := by
    intro e' he
    rcases List.mem_cons.mp he with rfl | he
    · exact hpiece
    · exact h.stack e' he
  pending := h.pending

/-- The table shifts a token only into the goto of the state, so the stack stays a path. -/
theorem Sound.shift (h : p.Sound g) (hg : g.Compiles s.table) (hextra : token.isExtra = false)
    {next : Nat} (haction : s.table.action p.state token.symbol = .shift next) :
    (p.shift s next token).Sound g := by
  obtain ⟨hflush, hstate⟩ := h.flush
  obtain ⟨hterminal, hleads⟩ := hg.leads_of_shift haction
  have hne := hg.ne_error_of_isTerminal hterminal
  refine hflush.push (e := ⟨next, s.leaf token p.state next token.errorMode, token.start⟩)
    ⟨.leaf, fun _ => .inr ⟨hterminal, hne⟩⟩ ?_ ?_
  · have herror : token.symbol.isError = false := decide_eq_false hne
    rw [isIgnored, Setting.leaf, isExtra, hextra, Bool.false_or]
    exact herror
  · rw [← hstate] at hleads
    exact hleads

/-- A part of a derivation may be taken over where it leads on. -/
theorem Sound.takeOver (h : p.Sound g) (hg : g.Compiles s.table)
    (hreuse : ∀ r, s.reuse = some r → Derived g r.root) {t : Subtree} {after : Nat}
    (htoken : toReuse? s p token = some (t, after)) : (p.takeOver token t after).Sound g := by
  obtain ⟨r, oldStart, hreused⟩ := exists_of_toReuse htoken
  obtain ⟨place, hpart, -⟩ := Reuse.exists_part_of_mem_candidates hreused.candidate
  have hderived := (hreuse r hreused.reuse).of_mem_parts (mem_parts_of_mem_children hpart)
  have hsymbol : t.symbol ≠ .error := fun heq => by
    have herror := hreused.isError
    rw [isError, heq] at herror
    cases herror
  obtain ⟨production, -, rule, hrule, hlhs, -⟩ := hderived.exists_standsFor hreused.isLeaf hsymbol
  have hgoto := hreused.goto
  rw [hlhs] at hgoto
  have hleads := hg.leads_of_goto (hg.lhs_lt hrule) hgoto
  rw [← hlhs] at hleads
  obtain ⟨hflush, hstate⟩ := h.flush
  refine hflush.push (e := ⟨after, t, token.start⟩) ⟨hderived, fun hleaf => ?_⟩ ?_ ?_
  · rw [hreused.isLeaf] at hleaf
    cases hleaf
  · have hextra : t.isExtra = false := by
      have hleaf := hreused.isLeaf
      cases t with
      | leaf => cases hleaf
      | node => rfl
    rw [isIgnored, hextra, Bool.false_or]
    exact hreused.isError
  · rw [hstate.symm] at hleads
    exact hleads

/-- The entries that a reduction puts together are those of the production's steps, and its phrase
has a goto. -/
theorem exists_goto_of_viable (h : Stack.Viable g p.stack) (hg : g.Compiles s.table)
    {production : Nat} (haction : s.table.action p.state token.symbol = .reduce production)
    {trailing front rest : Stack} (hstack : p.stack = trailing ++ (front ++ rest))
    (htrailing : ∀ e ∈ trailing, e.subtree.isIgnored = true)
    {rule : TableProduction} (hrule : s.table.production? production = some rule)
    (hcount : rule.length ≤ (Stack.steps p.stack).length →
      (Stack.steps front).length = rule.length) :
    ∃ made next, g.productions[production]? = some made ∧ rule.lhs = g.nonTerminalSymbol made.lhs ∧
      ((Stack.steps front).map (·.subtree.symbol)).reverse = made.symbols ∧
      s.table.goto? (Stack.state rest) rule.lhs = some next ∧
      g.Leads (Stack.state rest) rule.lhs next := by
  obtain ⟨made, hmade, hitem⟩ := hg.complete_of_reduce haction
  rw [hg.production?_eq, hmade] at hrule
  obtain rfl := Option.some.inj hrule
  have hsteps : Stack.steps p.stack = Stack.steps (front ++ rest) := by
    rw [hstack, Stack.steps_append, Stack.steps_eq_nil htrailing, List.nil_append]
  have hviable := h
  rw [hstack] at hviable
  -- the entries behind the last step do not change the state
  have hstate : p.state = Stack.state (front ++ rest) := by
    rw [state, h.state_eq, hviable.of_append.state_eq, Stack.path, hsteps]
    rfl
  have hlength : (g.tableProduction made).length = made.symbols.length := by
    simp [tableProduction, Production.symbols]
  rw [hstate] at hitem
  rw [hsteps, hlength] at hcount
  obtain ⟨hsymbols, next, hnext, hleads⟩ := hviable.of_append.exists_goto hg hmade hitem hcount
  exact ⟨made, next, hmade, rfl, hsymbols, hnext, hleads⟩

/-- Where the steps on the stack lead from state to state, every reduction finds a goto. -/
theorem exists_goto_of_action (h : Stack.Viable g p.stack) (hg : g.Compiles s.table)
    {production : Nat} (haction : s.table.action p.state token.symbol = .reduce production) :
    ∃ rule, s.table.production? production = some rule ∧
      (s.table.goto? (Stack.state (Stack.splitSteps [] rule.length
        (Stack.splitIgnored [] p.stack).2).2) rule.lhs).isSome := by
  obtain ⟨made, hmade, -⟩ := hg.complete_of_reduce haction
  have hrule : s.table.production? production = some (g.tableProduction made) := by
    rw [hg.production?_eq, hmade, Option.map_some]
  obtain ⟨trailing, hstack, -, htrailing⟩ :=
    Stack.splitIgnored_spec (Eq.refl (Stack.splitIgnored [] p.stack))
  obtain ⟨front, hfront, -, hcount⟩ := Stack.splitSteps_spec
    (Eq.refl (Stack.splitSteps [] (g.tableProduction made).length
      (Stack.splitIgnored [] p.stack).2))
  obtain ⟨_, next, -, -, -, hnext, -⟩ := exists_goto_of_viable h hg haction
    (hstack.trans (congrArg (trailing ++ ·) hfront)) htrailing hrule (fun hle => (hcount (by
      rwa [hstack, Stack.steps_append, Stack.steps_eq_nil htrailing, List.nil_append] at hle)).1)
  exact ⟨_, hrule, Option.isSome_of_eq_some hnext⟩

/-- What a reduction takes off a stack and what it puts in its place, where the steps on the stack
lead from state to state. -/
structure Reduced (g : PreparedGrammar) (s : Setting) (p : Parser) (token : Token)
    (production : Nat) (trailing front rest : Stack) (made : Production) (next start : Nat)
    (node : Subtree) : Prop where
  made_eq : g.productions[production]? = some made
  rule_eq : s.table.production? production = some (g.tableProduction made)
  stack_eq : p.stack = trailing ++ (front ++ rest)
  ignored : ∀ e ∈ trailing, e.subtree.isIgnored = true
  symbols : ((Stack.steps front).map (·.subtree.symbol)).reverse = made.symbols
  bottom : ∀ e, front.getLast? = some e → e.subtree.isIgnored = false
  start_eq : start = (front.reverse.head?.map (·.start)).getD (Stack.stop rest)
  node_eq : node = Subtree.build s.generation (g.nonTerminalSymbol made.lhs) (some production)
    (front.reverse.map (·.subtree)) (Stack.state rest) (token.lookaheadEnd - start)
    token.errorMode (stackScanner rest)
  isIgnored : node.isIgnored = false
  goto : s.table.goto? (Stack.state rest) (g.nonTerminalSymbol made.lhs) = some next
  viable : Stack.Viable g (⟨next, node, start⟩ :: rest)
  reduce_eq : p.reduce s production token = { p with
    stack := Stack.pushAllIgnored (⟨next, node, start⟩ :: rest)
      (trailing.reverse.map fun e => (e.subtree, e.start)) }

/-- The steps that are popped spell the right-hand side of the production, since the stack is a path
of the automaton and the item of the production is in its top state. -/
theorem exists_reduced (h : Stack.Viable g p.stack) (hg : g.Compiles s.table) {production : Nat}
    (haction : s.table.action p.state token.symbol = .reduce production) :
    ∃ trailing front rest made next start node,
      Reduced g s p token production trailing front rest made next start node := by
  obtain ⟨made, hmade, -⟩ := hg.complete_of_reduce haction
  have hrule : s.table.production? production = some (g.tableProduction made) := by
    rw [hg.production?_eq, hmade, Option.map_some]
  obtain ⟨trailing, front, rest, start, node, hstack, htrailing, hcount, hstart, hnode, hreduce⟩ :=
    exists_of_reduce s p token hrule
  obtain ⟨made', next, hmade', hlhs, hsymbols, hgoto, hleads⟩ :=
    exists_goto_of_viable h hg haction hstack htrailing hrule fun hle => (hcount hle).1
  obtain rfl := Option.some.inj (hmade.symm.trans hmade')
  have hviable := h
  rw [hstack] at hviable
  have hignored : node.isIgnored = false := by
    rw [hnode]
    exact decide_eq_false (hg.nonTerminalSymbol_ne_error (hg.lhs_lt hmade))
  have hle : (g.tableProduction made).length ≤ (Stack.steps p.stack).length := by
    have hlength := congrArg List.length hsymbols
    rw [List.length_reverse, List.length_map] at hlength
    have hmadeLength : (g.tableProduction made).length = made.symbols.length := by
      simp [tableProduction, Production.symbols]
    rw [hstack, Stack.steps_append, Stack.steps_append, List.length_append, List.length_append]
    omega
  refine ⟨trailing, front, rest, made, next, start, node, {
    made_eq := hmade
    rule_eq := hrule
    stack_eq := hstack
    ignored := htrailing
    symbols := hsymbols
    bottom := (hcount hle).2
    start_eq := hstart
    node_eq := hnode
    isIgnored := hignored
    goto := hgoto
    viable := .step hviable.of_append.of_append hignored (by rw [hnode]; exact hleads)
    reduce_eq := by rw [hreduce, hgoto] }⟩

/-- What is put back on top was ignored before. -/
theorem Reduced.isIgnored_of_mem {production : Nat} {trailing front rest : Stack}
    {made : Production} {next start : Nat} {node : Subtree}
    (h : Reduced g s p token production trailing front rest made next start node)
    {entry : Subtree × Nat}
    (hentry : entry ∈ trailing.reverse.map fun e => (e.subtree, e.start)) :
    entry.1.isIgnored = true := by
  obtain ⟨e, he, rfl⟩ := List.mem_map.mp hentry
  exact h.ignored e (List.mem_reverse.mp he)

/-- A reduction leaves a path through the states. -/
theorem viable_reduce (h : Stack.Viable g p.stack) (hg : g.Compiles s.table) {production : Nat}
    (haction : s.table.action p.state token.symbol = .reduce production) :
    Stack.Viable g (p.reduce s production token).stack := by
  obtain ⟨trailing, front, rest, made, next, start, node, hreduced⟩ := exists_reduced h hg haction
  rw [hreduced.reduce_eq]
  exact (hreduced.viable.pushAllIgnored fun _ => hreduced.isIgnored_of_mem).1

/-- The node that is made derives its production, and the state beneath it has the goto for it. -/
theorem Sound.reduce (h : p.Sound g) (hg : g.Compiles s.table) {production : Nat}
    (haction : s.table.action p.state token.symbol = .reduce production) :
    (p.reduce s production token).Sound g := by
  obtain ⟨trailing, front, rest, made, next, start, node, hreduced⟩ :=
    exists_reduced h.viable hg haction
  have hpieces := h.stack
  rw [hreduced.stack_eq] at hpieces
  have hchildren : ∀ c ∈ front.reverse.map (·.subtree), IsPiece g c := by
    intro c hc
    obtain ⟨e, he, rfl⟩ := List.mem_map.mp hc
    exact hpieces e (List.mem_append_right _ (List.mem_append_left _ (List.mem_reverse.mp he)))
  have hderived : Derived g node := by
    rw [hreduced.node_eq]
    refine derived_build ⟨made, hreduced.made_eq, rfl, ?_⟩
      (hg.nonTerminalSymbol_ne_error (hg.lhs_lt hreduced.made_eq))
      (fun c hc => (hchildren c hc).token) (fun c hc => (hchildren c hc).derived) _ _ _ _ _
    rw [← hreduced.symbols, stepsOf, List.filter_map, List.map_map, ← List.map_reverse,
      Stack.steps, List.filter_reverse]
    rfl
  refine ⟨viable_reduce h.viable hg haction, fun e he => ?_, ?_⟩
  · rw [hreduced.reduce_eq] at he
    rcases mem_pushAllIgnored he with he | he
    · rcases List.mem_cons.mp he with rfl | he
      · refine ⟨hderived, fun hleaf => ?_⟩
        rw [hreduced.node_eq] at hleaf
        cases hleaf
      · exact hpieces e (List.mem_append_right _ (List.mem_append_right _ he))
    · obtain ⟨e', he', heq⟩ := List.mem_map.mp he
      rw [← (Prod.mk.inj heq).1]
      exact hpieces e' (List.mem_append_left _ (List.mem_reverse.mp he'))
  · rw [hreduced.reduce_eq]
    exact h.pending

/-! ### Recovery -/

/-- What is skipped on the way to a place where the parse can go on is sound, and so is the place. -/
theorem sound_findRecovery {skipped : List Ahead} {current : Ahead} {window : Nat}
    {p p' : Parser} {r : Recovery}
    (h : findRecovery s skipped current window p = some (r, p'))
    (hskipped : ∀ a ∈ skipped, a.Sound g) (hcurrent : current.Sound g) :
    (∀ a ∈ r.skipped, a.Sound g) ∧ r.resume.Sound g := by
  obtain ⟨hall, hresume, -⟩ := spec_of_findRecovery sound_readAhead h hskipped hcurrent
  exact ⟨hall, hresume⟩

/-- What is given up on the side of the text is made of extras and leaves. -/
theorem derived_of_mem_givenUp {q : Nat} {pending : List (Subtree × Nat)} {skipped : List Ahead}
    (hpending : ∀ entry ∈ pending, IsPiece g entry.1 ∧ entry.1.isIgnored = true)
    (hskipped : ∀ a ∈ skipped, a.Sound g) {entry : Subtree × Nat}
    (h : entry ∈ givenUp s q pending skipped) : Derived g entry.1 := by
  cases skipped with
  | nil => cases h
  | cons first rest =>
    rw [givenUp] at h
    rcases List.mem_append.mp h with h | h
    · exact (hpending entry h).1.derived
    rcases List.mem_cons.mp h with rfl | h
    · exact .leaf
    obtain ⟨a, ha, h⟩ := List.mem_flatMap.mp h
    rcases List.mem_append.mp h with h | h
    · exact ((hskipped a (List.mem_cons_of_mem _ ha)).extras entry h).1.derived
    · rw [List.mem_singleton.mp h]
      exact .leaf

/-- What is skipped goes into one error node, whose children are derivations like any other. -/
theorem Sound.resume (h : p.Sound g) {r : Recovery} (hskipped : ∀ a ∈ r.skipped, a.Sound g)
    (hresume : r.resume.Sound g) :
    (resume s r p).2.Sound g ∧ (resume s r p).1.isExtra = false := by
  have hviable : Stack.Viable g (p.stack.drop r.popped) := by
    have hsplit := h.viable
    rw [← List.take_append_drop r.popped p.stack] at hsplit
    exact hsplit.of_append
  have hpieces : ∀ e ∈ p.stack.drop r.popped, IsPiece g e.subtree :=
    fun e he => h.stack e (List.mem_of_mem_drop he)
  have hlost : ∀ entry ∈ (p.stack.take r.popped).reverse.map (fun e => (e.subtree, e.start)) ++
      givenUp s (Stack.state (p.stack.drop r.popped)) p.pending r.skipped,
      Derived g entry.1 := by
    intro entry hentry
    rcases List.mem_append.mp hentry with hentry | hentry
    · obtain ⟨e, he, rfl⟩ := List.mem_map.mp hentry
      exact (h.stack e (List.mem_of_mem_take (List.mem_reverse.mp he))).derived
    · exact derived_of_mem_givenUp h.pending hskipped hentry
  have hpending : ∀ entry ∈ if r.skipped.isEmpty then p.pending else r.resume.extras,
      IsPiece g entry.1 ∧ entry.1.isIgnored = true := by
    split
    · exact h.pending
    · exact hresume.extras
  refine ⟨?_, hresume.isExtra⟩
  rw [Parser.resume]
  dsimp only
  split
  · exact ⟨hviable, hpieces, hpending⟩
  · rename_i first start rest hfirst
    refine Sound.pushIgnored (p := { p with
      stack := p.stack.drop r.popped
      pending := if r.skipped.isEmpty then p.pending else r.resume.extras })
      ⟨hviable, hpieces, hpending⟩ (isPiece_error (fun c hc => ?_) _ _ _) rfl start
    obtain ⟨entry, hentry, rfl⟩ := List.mem_map.mp hc
    exact hlost entry hentry

/-- A token that is given up becomes the only child of an error node on the stack. -/
theorem Sound.giveUpToken (h : p.Sound g) : (giveUpToken s p token).Sound g := by
  refine h.flush.1.pushIgnored (isPiece_error (fun c hc => ?_) _ _ _) rfl _
  rw [List.mem_singleton.mp hc]
  exact .leaf

/-! ### Runs -/

/-- Every move keeps the stack a path and all subtrees derivations. -/
theorem Sound.step (h : p.Sound g) (hg : g.Compiles s.table)
    (hreuse : ∀ r, s.reuse = some r → Derived g r.root) (hextra : token.isExtra = false)
    {token' : Token} {p' : Parser} (hstep : step s p token = .more token' p') :
    p'.Sound g ∧ token'.isExtra = false := by
  have hmove := move_step s p token
  rw [hstep] at hmove
  cases hmove with
  | shift action fresh =>
    have hnext := h.shift hg hextra action
    exact ⟨hnext.read, isExtra_read hnext⟩
  | takeOver action reuse =>
    have hnext := h.takeOver hg hreuse reuse
    exact ⟨hnext.read, isExtra_read hnext⟩
  | reduce action => exact ⟨h.reduce hg action, hextra⟩
  | resume action found =>
    obtain ⟨hskipped, hresume⟩ := sound_findRecovery (g := g) found
      (fun _ h => absurd h List.not_mem_nil) ⟨fun _ h => absurd h List.not_mem_nil, hextra⟩
    obtain ⟨hstack, hpending⟩ := stack_findRecovery found
    refine Sound.resume ⟨?_, ?_, ?_⟩ hskipped hresume
    · rw [hstack]
      exact h.viable
    · rw [hstack]
      exact h.stack
    · rw [hpending]
      exact h.pending
  | giveUp action none isEnd =>
    have hnext : (Parser.giveUpToken s p token).Sound g := h.giveUpToken
    exact ⟨hnext.read, isExtra_read hnext⟩

/-- Wherever a run gets to, the stack is a path and all subtrees are derivations. -/
theorem Reaches.sound (hg : g.Compiles s.table)
    (hreuse : ∀ r, s.reuse = some r → Derived g r.root) (h : Reaches s token p) :
    p.Sound g ∧ token.isExtra = false := by
  induction h with
  | start => exact ⟨sound_start.read, isExtra_read (g := g) sound_start⟩
  | step reached move ih => exact ih.1.step hg hreuse ih.2 move

/-- Wherever a run reduces, there is a goto for the phrase. -/
theorem Reaches.exists_goto (hg : g.Compiles s.table)
    (hreuse : ∀ r, s.reuse = some r → Derived g r.root) (h : Reaches s token p) {production : Nat}
    (haction : s.table.action p.state token.symbol = .reduce production) :
    ∃ rule, s.table.production? production = some rule ∧
      (s.table.goto? (Stack.state (Stack.splitSteps [] rule.length
        (Stack.splitIgnored [] p.stack).2).2) rule.lhs).isSome :=
  exists_goto_of_action (h.sound hg hreuse).1.viable hg haction

/-! ### The complete tree -/

/-- The node for the start symbol that is the only step among some subtrees is replaced by its
children. -/
theorem unwrapStart_eq {start : Symbol} {ts : List Subtree} {t : Subtree} {production : Nat}
    (h : stepsOf ts = [t]) (hsymbol : t.symbol = start) (hproduction : t.production? = some production) :
    ∃ before after, ts = before ++ t :: after ∧ (∀ c ∈ before, c.isIgnored = true) ∧
      (∀ c ∈ after, c.isIgnored = true) ∧
      unwrapStart start ts = (some production, before ++ (t.children ++ after)) := by
  induction ts with
  | nil => cases h
  | cons c ts ih =>
    cases hc : c.isIgnored with
    | true =>
      have hsteps : stepsOf ts = [t] := by simpa [stepsOf, hc] using h
      obtain ⟨before, after, rfl, hbefore, hafter, hunwrap⟩ := ih hsteps
      refine ⟨c :: before, after, rfl, fun d hd => ?_, hafter, ?_⟩
      · rcases List.mem_cons.mp hd with rfl | hd
        · exact hc
        · exact hbefore d hd
      · simp [unwrapStart, hc, hunwrap]
    | false =>
      have hsteps : c :: stepsOf ts = [t] := by simpa [stepsOf, hc] using h
      obtain ⟨rfl, hnil⟩ := List.cons.inj hsteps
      refine ⟨[], ts, rfl, fun _ h => absurd h List.not_mem_nil, fun d hd => ?_, ?_⟩
      · have := List.filter_eq_nil_iff.mp hnil d hd
        simpa using this
      · simp [unwrapStart, hc, hsymbol, hproduction]

theorem stepsOf_subtrees (stack : Stack) :
    stepsOf (Stack.subtrees stack) = ((Stack.steps stack).map (·.subtree)).reverse := by
  rw [stepsOf, Stack.subtrees, List.filter_reverse, List.filter_map, Stack.steps]
  rfl

/-- Where the input is accepted the only step on the stack is a node for the start symbol, which its
children take the place of. -/
structure Accepted (g : PreparedGrammar) (s : Setting) (p : Parser) (t : Subtree)
    (production : Nat) (before after : List Subtree) : Prop where
  subtrees : Stack.subtrees p.flush.stack = before ++ t :: after
  ignoredBefore : ∀ c ∈ before, c.isIgnored = true
  ignoredAfter : ∀ c ∈ after, c.isIgnored = true
  symbol : t.symbol = g.nonTerminalSymbol 0
  known : t.symbol ≠ .error
  isLeaf : t.isLeaf = false
  derived : Derived g t
  production_eq : t.production? = some production
  stands : StandsFor g t production
  unwrapped : unwrapStart s.table.startSymbol (Stack.subtrees p.flush.stack) =
    (some production, before ++ (t.children ++ after))

/-- An accepting state is reached with the start rule alone on the stack, between extras and
errors. -/
theorem Sound.exists_accepted (h : p.Sound g) (hg : g.Compiles s.table)
    (haction : s.table.action p.state token.symbol = .accept) :
    ∃ t production before after, Accepted g s p t production before after := by
  obtain ⟨hflush, hstate⟩ := h.flush
  obtain ⟨hitem, -⟩ := hg.complete_of_accept haction
  rw [← hstate, hflush.viable.state_eq] at hitem
  obtain ⟨q, hpath⟩ := hflush.viable.path.eq_of_complete hitem
  obtain ⟨e, hsteps, he⟩ := List.map_eq_singleton_iff.mp hpath
  have hsymbol : e.subtree.symbol = g.nonTerminalSymbol 0 := (Prod.mk.inj he).1
  obtain ⟨hmem, hstep⟩ := List.mem_filter.mp (hsteps ▸ List.mem_singleton_self e :
    e ∈ Stack.steps p.flush.stack)
  have hignored : e.subtree.isIgnored = false := by simpa using hstep
  have hpiece := hflush.stack e hmem
  -- a leaf would be a terminal
  have hleaf : e.subtree.isLeaf = false := by
    refine Bool.eq_false_iff.mpr fun hleaf => ?_
    rcases hpiece.token hleaf with hextra | ⟨hterminal, -⟩
    · rw [isIgnored, hextra] at hignored
      cases hignored
    · rw [hsymbol] at hterminal
      exact Nat.lt_irrefl _ (of_decide_eq_true hterminal)
  have hne : e.subtree.symbol ≠ .error := of_decide_eq_false (Bool.or_eq_false_iff.mp hignored).2
  obtain ⟨production, hproduction, hstands⟩ := hpiece.derived.exists_standsFor hleaf hne
  have hone : stepsOf (Stack.subtrees p.flush.stack) = [e.subtree] := by
    rw [stepsOf_subtrees, hsteps]
    rfl
  obtain ⟨before, after, hsubtrees, hbefore, hafter, hunwrap⟩ :=
    unwrapStart_eq hone (hsymbol.trans hg.startSymbol_eq.symm) hproduction
  exact ⟨e.subtree, production, before, after, {
    subtrees := hsubtrees
    ignoredBefore := hbefore
    ignoredAfter := hafter
    symbol := hsymbol
    known := hne
    isLeaf := hleaf
    derived := hpiece.derived
    production_eq := hproduction
    stands := hstands
    unwrapped := hunwrap }⟩

/-- The tree of a text that is accepted is a derivation from the start symbol. -/
theorem Sound.accept (h : p.Sound g) (hg : g.Compiles s.table)
    (haction : s.table.action p.state token.symbol = .accept) :
    Derived g (p.accept s).root ∧ (p.accept s).root.symbol = g.nonTerminalSymbol 0 ∧
      (p.accept s).root.isLeaf = false := by
  obtain ⟨t, production, before, after, hstart⟩ := h.exists_accepted hg haction
  obtain ⟨rule, hrule, hlhs, hchildren⟩ := hstart.stands
  have hsymbol : s.table.startSymbol = t.symbol := hg.startSymbol_eq.trans hstart.symbol.symm
  have hpieces : ∀ c ∈ before ++ t :: after, IsPiece g c := by
    rw [← hstart.subtrees]
    intro c hc
    obtain ⟨e, he, rfl⟩ := List.mem_map.mp (List.mem_reverse.mp hc)
    exact h.flush.1.stack e he
  have heach : ∀ c ∈ before ++ (t.children ++ after), IsPiece g c := by
    intro c hc
    rcases List.mem_append.mp hc with hc | hc
    · exact hpieces c (List.mem_append_left _ hc)
    rcases List.mem_append.mp hc with hc | hc
    · exact ⟨hstart.derived.of_mem_children hc,
        hstart.derived.isToken_of_mem_children hstart.known hc⟩
    · exact hpieces c (List.mem_append_right _ (List.mem_cons_of_mem _ hc))
  have hnone : ∀ {ts : List Subtree}, (∀ c ∈ ts, c.isIgnored = true) → stepsOf ts = [] :=
    fun h => List.filter_eq_nil_iff.mpr fun c hc => by simp [h c hc]
  rw [Parser.accept, hstart.unwrapped]
  refine ⟨?_, hg.startSymbol_eq, rfl⟩
  refine derived_build ⟨rule, hrule, hsymbol.trans hlhs, ?_⟩ ?_ (fun c hc => (heach c hc).token)
    (fun c hc => (heach c hc).derived) _ _ _ _ _
  · rw [stepsOf, List.filter_append, List.filter_append, ← stepsOf, ← stepsOf, ← stepsOf,
      hnone hstart.ignoredBefore, hnone hstart.ignoredAfter, List.nil_append, List.append_nil]
    exact hchildren
  · rw [hsymbol]
    exact hstart.known

/-- Everything on the stack goes under one error node, which is the root then. -/
theorem Sound.abandon (h : p.Sound g) :
    Derived g (p.abandon s).root ∧ (p.abandon s).root.symbol = .error ∧
      (p.abandon s).root.isLeaf = false := by
  refine ⟨derived_buildError (fun c hc => ?_) _ _ _, rfl, rfl⟩
  obtain ⟨e, he, rfl⟩ := List.mem_map.mp (List.mem_reverse.mp hc)
  exact (h.flush.1.stack e he).derived

end Parser

/-! ### Trees -/

/-- A move that ends a parse ends it in one of two ways, by accepting or by giving up; the root is a
derivation of the start rule or an error node. -/
theorem Parser.spec_of_done {token : Token} {p : Parser} {tree : SyntaxTree}
    (h : p.Sound g) (hg : g.Compiles s.table) (hdone : Parser.step s p token = .done tree) :
    tree.language = s.language ∧ Derived g tree.root ∧ tree.root.isLeaf = false ∧
      (tree.root.symbol = g.nonTerminalSymbol 0 ∨ tree.root.symbol = .error) := by
  have hmove := Parser.move_step s p token
  rw [hdone] at hmove
  cases hmove with
  | accept action =>
    obtain ⟨hderived, hsymbol, hleaf⟩ := h.accept hg action
    exact ⟨rfl, hderived, hleaf, .inl hsymbol⟩
  | abandon action none isEnd =>
    obtain ⟨hderived, hsymbol, hleaf⟩ := h.abandon (s := s)
    exact ⟨rfl, hderived, hleaf, .inr hsymbol⟩

/-- The language of a genuine setting, and what is known of the tree it takes subtrees from. -/
theorem Setting.Genuine.spec {l : Language} (hg : g.Compiles l.table) (h : s.Genuine l) :
    s.language = l ∧ ∀ r, s.reuse = some r → Derived g r.root := by
  induction h with
  | fresh text window => exact ⟨rfl, fun _ h => by cases h⟩
  | edited before yields accepted turns ih =>
    obtain ⟨hlanguage, hreuse⟩ := ih
    obtain ⟨token, p, hreaches, hdone⟩ := yields.exists_last
    have hg' : g.Compiles (Setting.table _) := hlanguage ▸ hg
    obtain ⟨hlanguage', hderived, -⟩ := Parser.spec_of_done (hreaches.sound hg' hreuse).1 hg' hdone
    refine ⟨hlanguage'.trans hlanguage, fun r hr => ?_⟩
    obtain rfl := Option.some.inj hr
    exact hderived

/-- What a text is parsed into is a derivation, and so is what becomes of it by edits: every node
that is no error node stands for a production, the root is one of the start symbol or an error
node, and without errors the tokens are a sentence of the grammar. No reduction ever lacks a goto. -/
theorem derivation_of_genuine {grammar : Grammar} {prepared : PreparedGrammar} {l : Language}
    {s : Setting} (hprepare : grammar.prepare = .ok prepared)
    (hcompile : grammar.compile = .ok l.table) (hs : s.Genuine l) :
    (∀ token p, Parser.Reaches s token p →
      ∀ production, s.table.action p.state token.symbol = .reduce production →
        ∃ rule, s.table.production? production = some rule ∧
          (s.table.goto? (Stack.state (Stack.splitSteps [] rule.length
            (Stack.splitIgnored [] p.stack).2).2) rule.lhs).isSome) ∧
    ∀ tree, s.Yields tree →
      (∀ part ∈ parts Extent.zero tree.root, part.1.isLeaf = false → part.1.symbol ≠ .error →
        ∃ production, part.1.production? = some production ∧
          StandsFor prepared part.1 production) ∧
      tree.root.isLeaf = false ∧
      (tree.root.symbol = prepared.nonTerminalSymbol 0 ∨ tree.root.symbol = .error) ∧
      (tree.root.hasError = false →
        prepared.Derives (prepared.nonTerminalSymbol 0) tree.root.sentence) := by
  have hg := Grammar.compiles hprepare hcompile
  obtain ⟨rfl, hreuse⟩ := hs.spec hg
  refine ⟨fun token p hreaches production haction =>
    hreaches.exists_goto hg hreuse haction, fun tree hyields => ?_⟩
  obtain ⟨token, p, hreaches, hdone⟩ := hyields.exists_last
  obtain ⟨-, hderived, hleaf, hsymbol⟩ :=
    Parser.spec_of_done (hreaches.sound hg hreuse).1 hg hdone
  refine ⟨fun part hpart hnode hne => (hderived.of_mem_parts hpart).exists_standsFor hnode hne,
    hleaf, hsymbol, fun herror => ?_⟩
  have htoken : IsToken prepared tree.root := fun h => by
    rw [hleaf] at h
    cases h
  have hextra : tree.root.isExtra = false := by
    cases hroot : tree.root with
    | leaf i x =>
      rw [hroot] at hleaf
      cases hleaf
    | node => rfl
  rcases hsymbol with hsymbol | hsymbol
  · rw [← hsymbol]
    exact hderived.derives herror htoken hextra
  · have := isExtra_of_isError hderived htoken herror (by simp [Symbol.isError, hsymbol])
    rw [hextra] at this
    cases this

/-! ### A small language -/

/-- Sums of ones: `sum → sum "+" "1" | "1"`, with blanks in between. -/
def sums : Grammar where
  name := "sums"
  rules := [("sum", .choice [.seq [.reference "sum", .literal "+", .literal "1"], .literal "1"])]
  extras := [.literal " "]
  conflicts := []
  externals := []
  word := none

/-- The tree of a sum. -/
def sumTree? (text : List Char) : Option SyntaxTree :=
  (sums.compile.toOption).bind fun t =>
    Parser.runFromStart (.fresh ⟨t, none⟩ text defaultWindow) 100

theorem yields_of_sumTree {text : List Char} {tree : SyntaxTree}
    (h : sumTree? text = some tree) : ∃ l, sums.compile = .ok (Language.table l) ∧
      (Setting.fresh l text defaultWindow).Yields tree := by
  obtain ⟨t, hcompile, hrun⟩ := Option.bind_eq_some_iff.mp h
  exact ⟨⟨t, none⟩, eq_ok_of_toOption hcompile, 100, hrun⟩

/-- The sum `1 +1` is a sentence of its grammar, as its tree shows. -/
theorem derivation_of_sum : ∃ prepared l tree, sums.prepare = .ok prepared ∧
    sums.compile = .ok (Language.table l) ∧
    (Setting.fresh l "1 +1".toList defaultWindow).Yields tree ∧ tree.root.hasError = false ∧
    prepared.Derives (prepared.nonTerminalSymbol 0) tree.root.sentence := by
  have hrun : (sumTree? "1 +1".toList).any (fun tree => !tree.root.hasError) = true := by
    decide +kernel
  obtain ⟨tree, htree, herror⟩ := (Option.any_eq_true ..).mp hrun
  have hclean : tree.root.hasError = false := by simpa using herror
  obtain ⟨l, hcompile, hyields⟩ := yields_of_sumTree htree
  obtain ⟨prepared, hprepare, -⟩ := Grammar.exists_prepared hcompile
  obtain ⟨-, htrees⟩ := derivation_of_genuine hprepare hcompile
    (.fresh "1 +1".toList defaultWindow)
  exact ⟨prepared, l, tree, hprepare, hcompile, hyields, hclean,
    (htrees tree hyields).2.2.2 hclean⟩

end LRWorkbench.Parsing
