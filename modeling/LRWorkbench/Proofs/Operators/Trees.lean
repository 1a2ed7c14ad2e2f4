import LRWorkbench.Proofs.Grammar.Compile
import LRWorkbench.Proofs.Grammar.Emit
import LRWorkbench.Proofs.Operators.Expressions
import LRWorkbench.Proofs.Operators.Rows
import LRWorkbench.Proofs.Table.Driver

/-!
# Operators nest as their levels and sides say

The table of a grammar of operators makes every sequence of atoms and operators into an expression
that obeys them, and into nothing else (`exists_builds`).

The driver has the operators that wait for their right operands on its stack, each with its left
operand (`Awaits`). Between two of them, the first did not come before the second; what an operator
is put together with before the next one is shifted, comes before that one.
-/

/-!
### Grammars of operators compile

Unless there are too many of them, every list of operators has a table (`exists_compile`): its
patterns are the texts of the operators and the expression of atoms, and no conflict stays
undecided.
-/

namespace LRWorkbench.Operators

open Lalr

variable {ops : List Operator} {atom : AtomRule}

/-! ### Patterns -/

/-- What the patterns are made from. -/
theorem map_lexicalTerminals (g : PreparedGrammar) : g.lexicalTerminals.map (·.2.1) =
    g.terminals.toList.filterMap fun t => t.definition?.map (·.1) := by
  rw [PreparedGrammar.lexicalTerminals, List.map_filterMap]
  nth_rewrite 2 [← List.zipIdx_map_fst 0 g.terminals.toList]
  rw [List.filterMap_map]
  congr 1
  funext entry
  exact Option.map_map ..

theorem sources_prepared (name : String) (ops : List Operator) (atom : AtomRule) :
    (prepared name ops atom).lexicalTerminals.map (·.2.1) =
      ops.map (·.definition.1) ++ [atom.source] := by
  rw [map_lexicalTerminals, prepared]
  simp [List.filterMap_append, Terminal.definition?, Operator.terminal, AtomRule.terminal]

/-- The texts of operators and the expression of atoms can be read. -/
theorem exists_compileAll? (ops : List Operator) (atom : AtomRule) :
    ∃ patterns, Regex.compileAll? (ops.map (·.definition.1) ++ [atom.source]) = some patterns := by
  induction ops with
  | nil =>
    refine ⟨[atom.regex], ?_⟩
    rw [List.map_nil, List.nil_append, Regex.compileAll?, List.mapM_cons, atom.parsed]
    dsimp only
    rw [if_neg (Bool.eq_false_iff.mp atom.compiles)]
    rfl
  | cons op ops ih =>
    obtain ⟨patterns, hpatterns⟩ := ih
    refine ⟨.ofText op.text.toList :: patterns, ?_⟩
    rw [Regex.compileAll?] at hpatterns
    rw [List.map_cons, List.cons_append, Regex.compileAll?, List.mapM_cons, Operator.definition,
      String.toList_ofList, Regex.parse?_escapeText]
    dsimp only
    rw [if_neg (Bool.eq_false_iff.mp (Regex.hasUnicodeLook_ofText _)), hpatterns]
    rfl

/-- The lexer gets what it needs. -/
theorem exists_lexSpec (name : String) (ops : List Operator) (atom : AtomRule) :
    ∃ lex patterns, (prepared name ops atom).lexSpec = .ok (lex, patterns) := by
  obtain ⟨regexes, hregexes⟩ := exists_compileAll? ops atom
  have hpatterns : ∃ patterns, PatternSet.ofSources?
      ((prepared name ops atom).lexicalTerminals.map (·.2.1)) = some patterns := by
    rw [sources_prepared, PatternSet.ofSources?]
    split
    · exact ⟨_, rfl⟩
    · rename_i hnone
      rw [hregexes] at hnone
      cases hnone
  obtain ⟨patterns, hpatterns⟩ := hpatterns
  rw [PreparedGrammar.lexSpec, hpatterns]
  exact ⟨_, _, rfl⟩

/-! ### The table -/

theorem ordered_prepared (name : String) (ops : List Operator) (atom : AtomRule) :
    (prepared name ops atom).Ordered where
  first := rfl
  external := by
    intro place t ht
    have hmem : t ∈ (prepared name ops atom).terminals := Array.mem_of_getElem? ht
    have hkind : t.kind ≠ .external := by
      rw [prepared, List.mem_toArray, List.mem_append, List.mem_cons, List.mem_map,
        List.mem_singleton] at hmem
      rcases hmem with (rfl | ⟨op, -, rfl⟩) | rfl <;> exact fun hkind => by cases hkind
    constructor
    · exact fun hexternal => absurd hexternal hkind
    · rintro ⟨hpos, hzero⟩
      exact absurd hzero (Nat.not_le.mpr hpos)
  externals := by simp [prepared]
  phrases := Nat.zero_lt_one
  lhs := (hasOperators_prepared name ops atom).lhs_lt
  fields := by
    intro p hp step hstep f hf
    rw [prepared, List.mem_toArray, List.mem_append, operatorProductions, List.mem_map,
      List.mem_singleton] at hp
    obtain ⟨entry, -, rfl⟩ | rfl := hp
    · rw [operatorProduction] at hstep
      simp only [List.mem_cons, List.not_mem_nil, or_false] at hstep
      rcases hstep with rfl | rfl | rfl <;> cases hf
    · rw [List.mem_singleton.mp hstep] at hf
      cases hf

theorem checkLengths_prepared (name : String) (ops : List Operator) (atom : AtomRule) :
    (prepared name ops atom).checkLengths = .ok () := by
  have hnone : (prepared name ops atom).productions.findIdx?
      (fun p => decide (65535 < p.steps.length)) = none := by
    rw [Array.findIdx?_eq_none_iff]
    intro p hp
    rw [prepared, List.mem_toArray, List.mem_append, operatorProductions, List.mem_map,
      List.mem_singleton] at hp
    obtain ⟨entry, -, rfl⟩ | rfl := hp <;> rfl
  rw [PreparedGrammar.checkLengths, hnone]

/-- **Operators have a table**, unless there are too many. -/
theorem exists_compile (name : String) (hdistinct : Distinct ops atom)
    (hcount : ops.length + 3 < 65535) :
    ∃ t, (Grammar.ofOperators name ops atom.rule).compile = .ok t ∧
      (prepared name ops atom).Compiles t := by
  have hprepare := prepare_ofOperators name hdistinct hcount
  obtain ⟨rows, hrows⟩ := (hasOperators_prepared name ops atom).exists_rows
  obtain ⟨lex, patterns, hlex⟩ := exists_lexSpec name ops atom
  obtain ⟨t, ht⟩ := (ordered_prepared name ops atom).exists_emit hrows hlex
    (checkLengths_prepared name ops atom)
  have hcompile : (Grammar.ofOperators name ops atom.rule).compile = .ok t := by
    rw [Grammar.compile, hprepare]
    change ((prepared name ops atom).automaton.rows >>= _) = _
    rw [hrows]
    exact ht
  exact ⟨t, hcompile, Grammar.compiles hprepare hcompile⟩

end LRWorkbench.Operators

namespace LRWorkbench.Operators

open Lalr Driver

/-- Atoms with operators between them. -/
def sentence (ops : List Operator) (places : List Nat) : List Symbol :=
  atomSymbol ops :: places.flatMap fun place => [operatorSymbol place, atomSymbol ops]

/-! ### The stack -/

/-- The operator whose right operand comes next. -/
def slotOf (frames : List (Expr × Nat)) : Option Nat := frames.head?.map (·.2)

/-- Whether an operator that follows is not held back by the one whose right operand comes next. -/
def Binds (ops : List Operator) (slot : Option Nat) (place : Nat) : Prop :=
  ∀ i op op', slot = some i → ops[i]? = some op → ops[place]? = some op' →
    ¬comesFirst op op'.level = true

/-- Whether an expression can be the left operand of an operator. -/
def Leads (ops : List Operator) (e : Expr) (place : Nat) : Prop :=
  ∀ i op op', e.root? = some i → ops[i]? = some op → ops[place]? = some op' →
    comesFirst op op'.level = true

/-- An operation obeys its operators if its operands do, and can be its operands. -/
theorem obeys_binary {left right : Expr} {place : Nat} {op : Operator} (hop : ops[place]? = some op)
    (hleft : left.Obeys ops) (hright : right.Obeys ops) (hleads : Leads ops left place)
    (hbinds : ∀ i, right.root? = some i → Binds ops (some place) i) :
    (Expr.binary place left right).Obeys ops :=
  .binary hop (fun i inner hi hinner => comesFirst_iff.mp (hleads i inner op hi hinner hop))
    (fun i inner hi hinner => not_comesFirst_iff.mp (hbinds i hi place op inner rfl hop hinner))
    hleft hright

/-- A stack with operators that wait for their right operands, each with its left operand, the
innermost first. -/
inductive Awaits (g : PreparedGrammar) (ops : List Operator) :
    List (Nat × ParseTree) → List (Expr × Nat) → Prop where
  | start : Awaits g ops [] []
  | operator {stack : List (Nat × ParseTree)} {frames : List (Expr × Nat)} {e : Expr}
      {q r place : Nat} (below : Awaits g ops stack frames) (opens : Opens g ops r (some place))
      (obeys : e.Obeys ops) (leads : Leads ops e place) (binds : Binds ops (slotOf frames) place) :
      Awaits g ops ((r, .leaf (operatorSymbol place)) :: (q, e.tree ops) :: stack)
        ((e, place) :: frames)

/-- The operators that have been read. -/
def readPlaces : List (Expr × Nat) → List Nat
  | [] => []
  | (e, place) :: frames => readPlaces frames ++ e.places ++ [place]

variable {g : PreparedGrammar} {ops : List Operator} {t : ParseTable}

section

variable (h : HasOperators g ops) (ht : g.Compiles t)
include h

theorem Awaits.opens {stack : List (Nat × ParseTree)} {frames : List (Expr × Nat)}
    (hawaits : Awaits g ops stack frames) : Opens g ops (stateOf stack) (slotOf frames) := by
  cases hawaits with
  | start => exact h.opens_start
  | operator _ hopens => exact hopens

include ht

/-- A phrase that begins in a state leads to one that has it. -/
theorem Opens.exists_goto? {q : Nat} {slot : Option Nat} (hopens : Opens g ops q slot) :
    ∃ r, t.goto? q (exprSymbol ops) = some r ∧ Holds g ops r slot := by
  obtain ⟨rows, hrows, -, hgotos⟩ := ht.exists_rows
  obtain ⟨r, hr, hholds⟩ := hopens.exists_goto h hrows
  exact ⟨r, by rw [← h.exprSymbol_eq, hgotos, hr], hholds⟩

theorem production?_operator {i : Nat} (hi : i < ops.length) :
    ∃ rule, t.production? i = some rule ∧ rule.length = 3 ∧ rule.lhs = exprSymbol ops := by
  rw [ht.production?_eq, h.operators i _ (List.getElem?_eq_getElem hi)]
  exact ⟨_, rfl, rfl, h.exprSymbol_eq⟩

theorem production?_atom :
    ∃ rule, t.production? ops.length = some rule ∧ rule.length = 1 ∧ rule.lhs = exprSymbol ops := by
  rw [ht.production?_eq, h.atoms]
  exact ⟨_, rfl, rfl, h.exprSymbol_eq⟩

/-- An atom becomes an expression. -/
theorem drives_atom {stack : List (Nat × ParseTree)} {frames : List (Expr × Nat)}
    (hawaits : Awaits g ops stack frames) {s : Symbol} (hs : Follows ops s) (rest : List Symbol) :
    ∃ q, t.Drives ⟨stack, atomSymbol ops :: s :: rest⟩
        ⟨(q, Expr.atom.tree ops) :: stack, s :: rest⟩ ∧ Holds g ops q (slotOf frames) := by
  obtain ⟨rows, hrows, hactions, -⟩ := ht.exists_rows
  have hopens := hawaits.opens h
  obtain ⟨r, hshift, hreduce⟩ := hopens.atom h hrows
  obtain ⟨q, hgoto, hholds⟩ := hopens.exists_goto? h ht
  obtain ⟨rule, hrule, hlength, hlhs⟩ := production?_atom h ht
  refine ⟨q, .head (ParseTable.step?_of_shift ((hactions _ _).trans hshift)) (.single ?_), hholds⟩
  exact ParseTable.step?_of_reduce [(r, .leaf (atomSymbol ops))]
    ((hactions _ _).trans (hreduce s hs)) hrule hlength (hlhs ▸ hgoto)

/-- An operator with both operands becomes an expression. -/
theorem drives_reduce {stack : List (Nat × ParseTree)} {frames : List (Expr × Nat)}
    (hawaits : Awaits g ops stack frames) {left right : Expr} {q r q' place : Nat}
    (hplace : place < ops.length) {s : Symbol} {rest : List Symbol}
    (haction : t.action q s = .reduce place) :
    ∃ q'', t.Drives
        ⟨(q, right.tree ops) :: (r, .leaf (operatorSymbol place)) :: (q', left.tree ops) :: stack,
          s :: rest⟩
        ⟨(q'', (Expr.binary place left right).tree ops) :: stack, s :: rest⟩ ∧
      Holds g ops q'' (slotOf frames) := by
  obtain ⟨q'', hgoto, hholds⟩ := (hawaits.opens h).exists_goto? h ht
  obtain ⟨rule, hrule, hlength, hlhs⟩ := production?_operator h ht hplace
  refine ⟨q'', .single ?_, hholds⟩
  exact ParseTable.step?_of_reduce
    [(q, right.tree ops), (r, .leaf (operatorSymbol place)), (q', left.tree ops)]
    haction hrule hlength (hlhs ▸ hgoto)

/-- Before an operator is shifted, the operators that come first are put together. -/
theorem exists_drives_operator {stack : List (Nat × ParseTree)} {frames : List (Expr × Nat)}
    (hawaits : Awaits g ops stack frames) {e : Expr} {q : Nat} (hobeys : e.Obeys ops)
    (hholds : Holds g ops q (slotOf frames)) {place : Nat} (hplace : place < ops.length)
    (hleads : Leads ops e place) (hbinds : ∀ i, e.root? = some i → Binds ops (slotOf frames) i)
    (rest : List Symbol) :
    ∃ stack' frames', Awaits g ops stack' frames' ∧
      t.Drives ⟨(q, e.tree ops) :: stack, operatorSymbol place :: rest⟩ ⟨stack', rest⟩ ∧
      readPlaces frames' = readPlaces frames ++ e.places ++ [place] := by
  obtain ⟨rows, hrows, hactions, -⟩ := ht.exists_rows
  induction hawaits generalizing e q with
  | start =>
    obtain ⟨r, hshift, hopens⟩ := hholds.shift_of_whole h hrows hplace
    have hfree : Binds ops (slotOf []) place := fun i _ _ hi => by cases hi
    exact ⟨_, _, .operator .start hopens hobeys hleads hfree,
      .single (ParseTable.step?_of_shift ((hactions _ _).trans hshift)), rfl⟩
  | @operator stack frames left q' r outer hbelow hopens hleft hleads' hbinds' ih =>
    have houter := hopens.known outer rfl
    have hop := List.getElem?_eq_getElem houter
    have hop' := List.getElem?_eq_getElem hplace
    obtain ⟨r', haction, hopens'⟩ := hholds.shift_of_right h hrows hop hop'
    rw [← hactions] at haction
    by_cases hfirst : comesFirst ops[outer] ops[place].level = true
    · -- the operator on the stack comes first
      rw [if_pos hfirst] at haction
      -- It is reduced, and the same question is asked of the operator beneath.
      obtain ⟨q'', hdrives, hholds'⟩ := drives_reduce h ht hbelow houter haction
      have hleads'' : Leads ops (.binary outer left e) place := by
        intro i op op' hi hopi hopplace
        obtain rfl := Option.some.inj hi
        rw [← Option.some.inj (hop.symm.trans hopi), ← Option.some.inj (hop'.symm.trans hopplace)]
        exact hfirst
      obtain ⟨stack', frames', hawaits', hdrives', hread⟩ := ih
        (obeys_binary hop hleft hobeys hleads' hbinds) hholds' hleads'' fun i hi => by
          obtain rfl := Option.some.inj hi
          exact hbinds'
      refine ⟨stack', frames', hawaits', hdrives.trans hdrives', ?_⟩
      rw [hread, readPlaces, Expr.places]
      simp
    · rw [if_neg hfirst] at haction
      refine ⟨_, _, .operator (.operator hbelow hopens hleft hleads' hbinds') hopens' hobeys hleads ?_,
        .single (ParseTable.step?_of_shift haction), rfl⟩
      intro i op op' hi hopi hopplace
      obtain rfl := Option.some.inj hi
      rw [← Option.some.inj (hop.symm.trans hopi), ← Option.some.inj (hop'.symm.trans hopplace)]
      exact hfirst

/-- At the end of the input all operators are put together, and the result is accepted. -/
theorem exists_drives_end {stack : List (Nat × ParseTree)} {frames : List (Expr × Nat)}
    (hawaits : Awaits g ops stack frames) {e : Expr} {q : Nat} (hobeys : e.Obeys ops)
    (hholds : Holds g ops q (slotOf frames))
    (hbinds : ∀ i, e.root? = some i → Binds ops (slotOf frames) i) :
    ∃ (q' : Nat) (e' : Expr), t.Drives ⟨(q, e.tree ops) :: stack, [.endOfInput]⟩
        ⟨[(q', e'.tree ops)], [.endOfInput]⟩ ∧ t.action q' .endOfInput = .accept ∧
      e'.Obeys ops ∧ e'.places = readPlaces frames ++ e.places := by
  obtain ⟨rows, hrows, hactions, -⟩ := ht.exists_rows
  induction hawaits generalizing e q with
  | start => exact ⟨q, e, .refl, (hactions _ _).trans (hholds.action_end h hrows), hobeys, rfl⟩
  | @operator stack frames left q' r outer hbelow hopens hleft hleads' hbinds' ih =>
    have houter := hopens.known outer rfl
    have haction := (hactions _ _).trans (hholds.action_end h hrows)
    obtain ⟨q'', hdrives, hholds'⟩ := drives_reduce h ht hbelow houter haction
    obtain ⟨last, e', hdrives', haccept, hobeys', hplaces⟩ := ih
      (obeys_binary (List.getElem?_eq_getElem houter) hleft hobeys hleads' hbinds) hholds'
      fun i hi => by
        obtain rfl := Option.some.inj hi
        exact hbinds'
    refine ⟨last, e', hdrives.trans hdrives', haccept, hobeys', ?_⟩
    rw [hplaces, readPlaces, Expr.places]
    simp

/-- Atoms with operators between them are read, whatever is on the stack. -/
theorem exists_drives {stack : List (Nat × ParseTree)} {frames : List (Expr × Nat)}
    (hawaits : Awaits g ops stack frames) {places : List Nat} (hplaces : ∀ i ∈ places, i < ops.length) :
    ∃ (q : Nat) (e : Expr), t.Drives ⟨stack, sentence ops places ++ [.endOfInput]⟩
        ⟨[(q, e.tree ops)], [.endOfInput]⟩ ∧ t.action q .endOfInput = .accept ∧
      e.Obeys ops ∧ e.places = readPlaces frames ++ places := by
  have hatom : ∀ i, Expr.atom.root? = some i → Binds ops (slotOf frames) i :=
    fun i hi => by cases hi
  induction places generalizing stack frames with
  | nil =>
    obtain ⟨q, hdrives, hholds⟩ := drives_atom h ht hawaits (.inl rfl) []
    obtain ⟨q', e, hdrives', haccept, hobeys, hread⟩ :=
      exists_drives_end h ht hawaits .atom hholds hatom
    exact ⟨q', e, hdrives.trans hdrives', haccept, hobeys, hread⟩
  | cons place places ih =>
    have hplace := hplaces place (List.mem_cons_self ..)
    obtain ⟨q, hdrives, hholds⟩ := drives_atom h ht hawaits (.inr ⟨place, hplace, rfl⟩)
      (sentence ops places ++ [.endOfInput])
    obtain ⟨stack', frames', hawaits', hdrives', hread⟩ := exists_drives_operator h ht hawaits .atom
      hholds hplace (fun i _ _ hi => by cases hi) hatom (sentence ops places ++ [.endOfInput])
    obtain ⟨q', e, hdrives'', haccept, hobeys, hread'⟩ :=
      ih hawaits' (fun i hi => hplaces i (List.mem_cons_of_mem _ hi)) fun i hi => by cases hi
    refine ⟨q', e, hdrives.trans (hdrives'.trans hdrives''), haccept, hobeys, ?_⟩
    rw [hread', hread, Expr.places]
    simp

end

/-! ### Grammars of operators -/

/-- The names of the symbols are the texts of the operators, and `atom`. -/
theorem symbolName_eq {name : String} {atom : AtomRule} (ht : (prepared name ops atom).Compiles t) :
    (∀ i op, ops[i]? = some op → t.symbolName (operatorSymbol i) = op.text) ∧
      t.symbolName (atomSymbol ops) = "atom" := by
  have hterminals : (prepared name ops atom).terminals = (⟨"end", .endOfInput, false⟩ ::
      (ops.map Operator.terminal ++ [atom.terminal])).toArray := rfl
  obtain ⟨rows, lex, patterns, -, -, hparts⟩ := ht.parts_eq
  have hsymbols : ∀ (s : Symbol) (terminal : Terminal), s.isError = false →
      (prepared name ops atom).terminals[s.index]? = some terminal →
      t.symbolName s = terminal.name := by
    intro s terminal hs hterminal
    have hlt := (Array.getElem?_eq_some_iff.mp hterminal).choose
    rw [ParseTable.symbolName, if_neg (Bool.eq_false_iff.mp hs), hparts,
      PreparedGrammar.tableParts, Array.getElem?_append_left (by rwa [Array.size_map]),
      Array.getElem?_map, hterminal]
    rfl
  have hcount := ht.wellFormed.count
  rw [PreparedGrammar.symbolCount, hterminals, List.size_toArray, List.length_cons,
    List.length_append, List.length_map, List.length_singleton] at hcount
  constructor
  · intro i op hop
    have hi := (List.getElem?_eq_some_iff.mp hop).choose
    refine hsymbols _ op.terminal ?_ ?_
    · exact decide_eq_false fun heq => absurd (congrArg Symbol.index heq)
        (show i + 1 ≠ 65535 by omega)
    · rw [hterminals, List.getElem?_toArray, operatorSymbol, List.getElem?_cons_succ,
        List.getElem?_append_left (by rwa [List.length_map]), List.getElem?_map, hop]
      rfl
  · refine hsymbols _ atom.terminal ?_ ?_
    · exact decide_eq_false fun heq => absurd (congrArg Symbol.index heq)
        (show ops.length + 1 ≠ 65535 by omega)
    · rw [hterminals, List.getElem?_toArray, atomSymbol, List.getElem?_cons_succ,
        List.getElem?_append_right (by rw [List.length_map]), List.length_map, Nat.sub_self]
      rfl

/-- **Declared precedence means what it says.** A grammar of operators compiles, unless there are too
many, and its table makes every sequence of atoms with operators between them into one tree: an
expression that obeys the operators. -/
theorem exists_builds {atom : AtomRule} (name : String) (hdistinct : Distinct ops atom)
    (hcount : ops.length + 3 < 65535) :
    ∃ t, (Grammar.ofOperators name ops atom.rule).compile = .ok t ∧
      (∀ i op, ops[i]? = some op → t.symbolName (operatorSymbol i) = op.text) ∧
      t.symbolName (atomSymbol ops) = "atom" ∧
      ∀ places, (∀ i ∈ places, i < ops.length) → ∃ e : Expr, e.places = places ∧ e.Obeys ops ∧
        ∀ tree, t.Builds (sentence ops places) tree ↔ tree = e.tree ops := by
  obtain ⟨t, hcompile, ht⟩ := exists_compile name hdistinct hcount
  have h := hasOperators_prepared name ops atom
  obtain ⟨hoperators, hatom⟩ := symbolName_eq ht
  refine ⟨t, hcompile, hoperators, hatom, fun places hplaces => ?_⟩
  obtain ⟨q, e, hdrives, haccept, hobeys, hread⟩ := exists_drives h ht .start hplaces
  refine ⟨e, hread, hobeys, fun tree => ⟨fun hbuilds => ?_, ?_⟩⟩
  · exact hbuilds.unique ⟨q, hdrives, haccept⟩
  · rintro rfl
    exact ⟨q, hdrives, haccept⟩

/-- Sums and products. -/
def arithmetic : List Operator := [⟨"+", 1, .left⟩, ⟨"*", 2, .left⟩]

/-- Numbers. -/
def number : AtomRule where
  rule := .pattern "[0-9]+" none
  source := "(?:[0-9]+)"
  precedence := 0
  regex := .repeated (.chars ⟨[(48, 57)], by decide⟩) 1 none
  isLexical := rfl
  pattern := eq_ok_of_toOption (by decide +kernel)
  parsed := by decide +kernel
  compiles := rfl

/-- A product is an operand of a sum. -/
theorem exists_builds_arithmetic :
    ∃ t, (Grammar.ofOperators "arithmetic" arithmetic number.rule).compile = .ok t ∧
      ∀ tree, t.Builds (sentence arithmetic [0, 1]) tree ↔
        tree = (Expr.binary 0 .atom (.binary 1 .atom .atom)).tree arithmetic := by
  have hdistinct : Distinct arithmetic number :=
    ⟨by decide, by decide, by decide +kernel⟩
  obtain ⟨t, hcompile, -, -, hbuilds⟩ := exists_builds "arithmetic" hdistinct (by decide)
  obtain ⟨e, hplaces, hobeys, htree⟩ := hbuilds [0, 1] (by decide)
  have hproduct : Expr.Obeys arithmetic (.binary 0 .atom (.binary 1 .atom .atom)) := by
    refine .binary rfl (fun i inner hi => (by cases hi)) (fun i inner hi hinner => ?_) .atom
      (.binary rfl (fun i inner hi => (by cases hi)) (fun i inner hi => (by cases hi)) .atom .atom)
    obtain rfl := Option.some.inj hi
    obtain rfl := Option.some.inj hinner
    exact .inl (by decide)
  rw [hobeys.unique hproduct hplaces] at htree
  exact ⟨t, hcompile, htree⟩

/-- The letter `x`. -/
def letter : AtomRule where
  rule := .literal "x"
  source := "x"
  precedence := 0
  regex := .ofText ['x']
  isLexical := rfl
  pattern := eq_ok_of_toOption (by decide +kernel)
  parsed := by decide +kernel
  compiles := rfl

/-- More operators than there are numbers for symbols: a character each. -/
def tooMany : List Operator :=
  (List.range 65532).map fun i => ⟨String.singleton (Char.ofNat (65536 + i)), 0, .left⟩

/-- There is no table where there are too many operators, nor where atoms ask for the words of all
alphabets. -/
theorem not_compile_tooMany : (1 ≤ tooMany.length ∧ Distinct tooMany letter ∧
      ¬∃ t, (Grammar.ofOperators "many" tooMany letter.rule).compile = .ok t) ∧
    ¬∃ t, (Grammar.ofOperators "words" arithmetic (.pattern "\\ba" none)).compile = .ok t := by
  have hchar : ∀ i < 65532, (Char.ofNat (65536 + i)).toNat = 65536 + i := by
    intro i hi
    have hvalid : (65536 + i).isValidChar := .inr ⟨by omega, by omega⟩
    rw [Char.ofNat, dif_pos hvalid]
    rfl
  have hdistinct : Distinct tooMany letter := by
    constructor
    · intro op hop
      obtain ⟨i, -, rfl⟩ := List.mem_map.mp hop
      exact fun h => by simpa using congrArg String.toList h
    · rw [tooMany, List.map_map]
      refine List.Nodup.map_on (fun i hi j hj heq => ?_) List.nodup_range
      have heq : Char.ofNat (65536 + i) = Char.ofNat (65536 + j) := by
        simpa using congrArg String.toList heq
      have hnat := congrArg Char.toNat heq
      rw [hchar i (List.mem_range.mp hi), hchar j (List.mem_range.mp hj)] at hnat
      omega
    · intro op hop
      obtain ⟨i, hi, rfl⟩ := List.mem_map.mp hop
      have hne : (CharSet.singleton 'x').contains (Char.ofNat (65536 + i)) = false := by
        simp [CharSet.contains, CharSet.containsCode, CharSet.singleton, hchar i (List.mem_range.mp hi)]
        omega
      simp [letter, Regex.matchesAll, Regex.run, Regex.ofText, Regex.residuals, hne]
  refine ⟨⟨by simp [tooMany], hdistinct, ?_⟩, ?_⟩
  · rintro ⟨t, ht⟩
    obtain ⟨count, hprepare⟩ := prepare_eq_error "many" hdistinct (by simp [tooMany])
    obtain ⟨prepared, hprepared, -⟩ := Grammar.exists_prepared ht
    rw [hprepare] at hprepared
    cases hprepared
  · rintro ⟨t, ht⟩
    have hnone : (Grammar.ofOperators "words" arithmetic
        (.pattern "\\ba" none)).compile.toOption.isNone = true := by
      decide +kernel
    rw [ht] at hnone
    cases hnone

end LRWorkbench.Operators
