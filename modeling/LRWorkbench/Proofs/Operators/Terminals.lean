import LRWorkbench.Prepared.Vocabulary
import LRWorkbench.Proofs.Lalr.Closure
import LRWorkbench.Proofs.Prepared.WellFormed
import LRWorkbench.Proofs.Regex.Literal

/-!
# Grammars of binary operators

`Grammar.ofOperators` is the grammar of expressions that are made of atoms and of binary operators,
each with a level of precedence and a side on which it nests. Its terminals are the end of the
input, the operators in order and the token of atoms (`Operators.terminals_ofOperators`).
-/

namespace LRWorkbench

open Vocabulary

/-- A binary operator: its text, its level of precedence and the side on which it nests. -/
structure Operator where
  text : String
  level : Int
  side : Assoc
  deriving DecidableEq, Repr

/-- A token rule, with what it is defined by and the expression that is read as. -/
structure AtomRule where
  rule : Rule
  source : String
  precedence : Int
  regex : Regex
  isLexical : rule.isLexical = true
  pattern : rule.tokenPattern "atom" = .ok (source, precedence)
  parsed : Regex.parse? source.toList = some regex
  /-- The lexer can do without the words of all alphabets. -/
  compiles : regex.hasUnicodeLook = false

namespace Operator

/-- The text of the operator between two expressions. -/
def rule (op : Operator) : Rule :=
  .prec (some op.side) op.level (.seq [.reference "expr", .literal op.text, .reference "expr"])

/-- What the token of the operator is defined by. -/
def definition (op : Operator) : String × Int := (String.ofList (Regex.escapeText op.text.toList), 0)

/-- The token of the operator. -/
def terminal (op : Operator) : Terminal :=
  ⟨op.text, .lexical op.definition.1 op.definition.2 (some op.text), false⟩

end Operator

/-- The token of atoms. -/
def AtomRule.terminal (atom : AtomRule) : Terminal :=
  ⟨"atom", .lexical atom.source atom.precedence atom.rule.literalBody?, true⟩

/-- The grammar `expr = expr op expr | … | atom`. -/
def Grammar.ofOperators (name : String) (ops : List Operator) (atom : Rule) : Grammar where
  name := name
  rules := [("expr", .choice (ops.map Operator.rule ++ [.reference "atom"])), ("atom", atom)]
  extras := []
  conflicts := []
  externals := []
  word := none

/-- Whether operators can be told from each other and from atoms. -/
structure Distinct (ops : List Operator) (atom : AtomRule) : Prop where
  nonempty : ∀ op ∈ ops, op.text ≠ ""
  nodup : (ops.map (·.text)).Nodup
  unmatched : ∀ op ∈ ops, atom.regex.matchesAll op.text.toList = false

namespace Operators

variable {name : String} {ops : List Operator} {atom : AtomRule}

/-! ### Names -/

theorem ruleIndex?_expr (atom : Rule) : (Grammar.ofOperators name ops atom).ruleIndex? "expr" = some 0 := rfl

theorem ruleIndex?_atom (atom : Rule) : (Grammar.ofOperators name ops atom).ruleIndex? "atom" = some 1 := rfl

/-- The definition of a token starts with the text of its expression. -/
theorem patternText_of_tokenPattern {r : Rule} {owner : String} {definition : String × Int}
    (h : r.tokenPattern owner = .ok definition) : r.patternText owner = .ok definition.1 := by
  rw [Rule.tokenPattern] at h
  obtain ⟨text, htext, h⟩ := bind_eq_ok.mp h
  rw [htext]
  split at h
  · cases h
  · split at h
    · cases h
    · cases h
      rfl

theorem references_atom (atom : AtomRule) : atom.rule.references = [] :=
  Rule.references_of_tokenPattern atom.pattern

theorem references_rules (ops : List Operator) :
    Rule.referencesOf (ops.map Operator.rule) = ops.flatMap fun _ => ["expr", "expr"] := by
  induction ops with
  | nil => rfl
  | cons op ops ih =>
    rw [List.map_cons, Rule.referencesOf, ih]
    rfl

theorem referencesOf_append (rs rs' : List Rule) :
    Rule.referencesOf (rs ++ rs') = Rule.referencesOf rs ++ Rule.referencesOf rs' := by
  induction rs with
  | nil => rfl
  | cons r rs ih => simp [Rule.referencesOf, ih]

/-- An expression refers to expressions and atoms. -/
theorem mem_references {r : String}
    (h : r ∈ (Rule.choice (ops.map Operator.rule ++ [.reference "atom"])).references) :
    r = "expr" ∨ r = "atom" := by
  rw [Rule.references, referencesOf_append, references_rules] at h
  rcases List.mem_append.mp h with h | h
  · obtain ⟨_, -, h⟩ := List.mem_flatMap.mp h
    left
    simpa using h
  · right
    simpa [Rule.referencesOf, Rule.references] using h

theorem atom_mem_references (ops : List Operator) :
    "atom" ∈ (Rule.choice (ops.map Operator.rule ++ [.reference "atom"])).references := by
  rw [Rule.references, referencesOf_append]
  exact List.mem_append_right _ (List.mem_singleton_self _)

/-- The names of the grammar fit together. -/
theorem checkNames_ofOperators (name : String) (ops : List Operator) (atom : AtomRule) :
    (Grammar.ofOperators name ops atom.rule).checkNames = .ok () := by
  have hexpr : (Grammar.ofOperators name ops atom.rule).undefinedIn?
      (.choice (ops.map Operator.rule ++ [.reference "atom"])) = none := by
    rw [Grammar.undefinedIn?, List.find?_eq_none]
    intro r hr
    rcases mem_references hr with rfl | rfl <;> simp [Grammar.defines, ruleIndex?_expr, ruleIndex?_atom]
  have hatom : (Grammar.ofOperators name ops atom.rule).undefinedIn? atom.rule = none := by
    rw [Grammar.undefinedIn?, references_atom]
    rfl
  have hreferences : (Grammar.ofOperators name ops atom.rule).checkReferences
      (Grammar.ofOperators name ops atom.rule).rules = .ok () := by
    simp only [Grammar.ofOperators, Grammar.checkReferences]
    simp only [Grammar.ofOperators] at hexpr hatom
    rw [hexpr, hatom]
  change ((Grammar.ofOperators name ops atom.rule).checkReferences
      (Grammar.ofOperators name ops atom.rule).rules >>= fun _ => Except.ok ()) = _
  rw [hreferences]
  rfl

/-! ### The rules -/

/-- Both rules are used. -/
theorem mem_usedRules (name : String) (ops : List Operator) (atom : AtomRule) {i : Nat} (hi : i < 2) :
    i ∈ (Grammar.ofOperators name ops atom.rule).usedRules := by
  have hout : ∀ i, 2 ≤ i → (Grammar.ofOperators name ops atom.rule).uses i = [] := by
    intro i hi
    have hnone : (Grammar.ofOperators name ops atom.rule).rules[i]? = none :=
      List.getElem?_eq_none hi
    rw [Grammar.uses, hnone]
  have hroot : 0 ∈ (Grammar.ofOperators name ops atom.rule).usedRules :=
    Graph.mem_reachFrom_of_root (List.mem_singleton_self 0)
  have huses : 1 ∈ (Grammar.ofOperators name ops atom.rule).uses 0 :=
    List.mem_append_left _ (List.mem_filterMap.mpr ⟨"atom", atom_mem_references ops, rfl⟩)
  obtain rfl | rfl : i = 0 ∨ i = 1 := by omega
  · exact hroot
  · exact Graph.mem_reachFrom_of_step hout hroot huses

theorem isLexicalAt_one (name : String) (ops : List Operator) (atom : AtomRule) :
    (Grammar.ofOperators name ops atom.rule).isLexicalAt 1 = true := atom.isLexical

theorem tokenRules_ofOperators (name : String) (ops : List Operator) (atom : AtomRule) :
    (Grammar.ofOperators name ops atom.rule).tokenRules
      (Grammar.ofOperators name ops atom.rule).usedRules = [1] := by
  have hzero : (Grammar.ofOperators name ops atom.rule).isLexicalAt 0 = false := rfl
  have hone := isLexicalAt_one name ops atom
  change [0, 1].filter _ = [1]
  simp [hzero, hone, mem_usedRules name ops atom (i := 1)]

theorem phraseRules_ofOperators (name : String) (ops : List Operator) (atom : AtomRule) :
    (Grammar.ofOperators name ops atom.rule).phraseRules
      (Grammar.ofOperators name ops atom.rule).usedRules = [0] := by
  have hzero : (Grammar.ofOperators name ops atom.rule).isLexicalAt 0 = false := rfl
  have hone := isLexicalAt_one name ops atom
  change [0, 1].filter _ = [0]
  simp [hzero, hone, mem_usedRules name ops atom (i := 0)]

/-! ### Definitions of tokens -/

/-- Operators are defined by their escaped texts. -/
theorem tokenPattern_literal {text : String} (h : text ≠ "") (owner : String) :
    (Rule.literal text).tokenPattern owner =
      .ok (String.ofList (Regex.escapeText text.toList), 0) := by
  obtain ⟨c, cs, htext⟩ : ∃ c cs, text.toList = c :: cs := by
    cases hlist : text.toList with
    | nil => exact absurd (String.toList_eq_nil_iff.mp hlist) h
    | cons c cs => exact ⟨c, cs, rfl⟩
  obtain ⟨n, hn, hpos⟩ := Regex.minLength_ofText c cs
  have hlength : (Regex.ofText text.toList).minLength ≠ some 0 := by
    rw [htext, hn]
    exact fun hzero => Nat.ne_of_gt hpos (Option.some.inj hzero)
  rw [Rule.tokenPattern, Rule.patternText]
  dsimp only [bind, Except.bind]
  rw [String.toList_ofList, Regex.parse?_escapeText]
  exact if_neg hlength

/-- Two operators have one definition only if they have one text, since escaping keeps texts
apart. -/
theorem definition_injective {op op' : Operator} (h : op.definition = op'.definition) :
    op.text = op'.text :=
  String.toList_inj.mp (Regex.escapeText_inj (String.ofList_inj.mp (congrArg Prod.fst h)))

/-- Where atoms are defined by the text of an operator, they match it. -/
theorem ne_definition {op : Operator} (hunmatched : atom.regex.matchesAll op.text.toList = false) :
    op.definition.1 ≠ atom.source := by
  intro heq
  have hparsed := atom.parsed
  rw [← heq, Operator.definition, String.toList_ofList, Regex.parse?_escapeText] at hparsed
  rw [← Option.some.inj hparsed, Regex.matchesAll_ofText] at hunmatched
  cases hunmatched

/-- A token rule that is just a text is defined by the text. -/
theorem patternText_of_literalBody? {text : String} (owner : String) (r : Rule)
    (h : r.literalBody? = some text) :
    r.patternText owner = .ok (String.ofList (Regex.escapeText text.toList)) := by
  cases r with
  | literal body =>
    obtain rfl : body = text := Option.some.inj h
    rfl
  | prec assoc level content =>
    rw [Rule.patternText]
    exact patternText_of_literalBody? owner content h
  | _ => cases h

/-- No rule is just the text of an operator. -/
theorem textRule?_ofOperators {op : Operator}
    (hunmatched : atom.regex.matchesAll op.text.toList = false) :
    (Grammar.ofOperators name ops atom.rule).textRule? op.text = none := by
  rw [Grammar.textRule?, List.findIdx?_eq_none_iff]
  intro entry hentry
  rcases List.mem_cons.mp hentry with rfl | hentry
  · rfl
  · rw [List.mem_singleton.mp hentry]
    refine decide_eq_false fun hbody => ne_definition hunmatched ?_
    have hsource := patternText_of_tokenPattern atom.pattern
    rw [patternText_of_literalBody? "atom" atom.rule hbody] at hsource
    exact Except.ok.inj hsource

/-! ### The vocabulary -/

/-- What is known of the vocabulary when some operators have their tokens. -/
structure Known (done : List Operator) (v : Vocabulary) : Prop where
  terminals : v.terminals.toList = ⟨"end", .endOfInput, false⟩ :: done.map Operator.terminal
  named : v.named = []
  found : ∀ i op, done[i]? = some op → v.definedAs? op.definition = some ⟨i + 1⟩
  unfound : ∀ definition, (∀ op ∈ done, op.definition ≠ definition) →
    v.definedAs? definition = none

/-- Before the first operator the vocabulary has the end of the input only. -/
theorem known_initial : Known [] (Vocabulary.initial []) where
  terminals := rfl
  named := rfl
  found := fun _ _ h => by cases h
  unfound := fun _ _ => rfl

/-- The next operator gets the number behind the operators that are known. -/
theorem Known.nextSymbol_eq {done : List Operator} {v : Vocabulary} (h : Known done v) :
    v.nextSymbol = ⟨done.length + 1⟩ := by
  have hsize := congrArg List.length h.terminals
  rw [Array.length_toList, List.length_cons, List.length_map] at hsize
  rw [nextSymbol, hsize]

/-- A terminal that is added is found by its definition, and the others are found as before. -/
theorem definedAs?_push {v : Vocabulary} {t : Terminal} {definition : String × Int}
    (ht : t.definition? = some definition) (hnew : v.definedAs? definition = none)
    (other : String × Int) : (v.push t).definedAs? other =
      if other = definition then some v.nextSymbol else v.definedAs? other := by
  have hindex : (v.push t).index = v.index.insert definition v.nextSymbol := by
    rw [Vocabulary.push, ht]
  rw [definedAs?, hindex]
  split
  · rename_i heq
    rw [heq, TerminalIndex.find?_insert_self, ← definedAs?, hnew, Option.none_or]
  · rename_i hne
    exact TerminalIndex.find?_insert_of_ne hne ..

/-- An operator with a new definition is known from then on. -/
theorem Known.push {done : List Operator} {v : Vocabulary} (h : Known done v) {op : Operator}
    (hnew : ∀ op' ∈ done, op'.definition ≠ op.definition) :
    Known (done ++ [op]) (v.push op.terminal) where
  terminals := by
    rw [Vocabulary.push, Array.toList_push, h.terminals, List.map_append]
    rfl
  named := h.named
  found := by
    intro i op' hi
    have hdefinition : op.terminal.definition? = some op.definition := rfl
    rw [definedAs?_push hdefinition (h.unfound _ hnew)]
    rcases Nat.lt_or_ge i done.length with hlt | hge
    · rw [List.getElem?_append_left hlt] at hi
      rw [if_neg (hnew op' (List.mem_of_getElem? hi)), h.found i op' hi]
    · rw [List.getElem?_append_right hge] at hi
      obtain ⟨k, rfl⟩ := Nat.exists_eq_add_of_le hge
      rw [Nat.add_sub_cancel_left] at hi
      cases k with
      | zero =>
        obtain rfl : op = op' := Option.some.inj hi
        rw [if_pos rfl, h.nextSymbol_eq]
      | succ k => cases hi
  unfound := by
    intro definition hother
    have hdefinition : op.terminal.definition? = some op.definition := rfl
    rw [definedAs?_push hdefinition (h.unfound _ hnew), if_neg]
    · exact h.unfound _ fun op' hop' => hother op' (List.mem_append_left _ hop')
    · exact Ne.symm (hother op (List.mem_append_right _ (List.mem_singleton_self op)))

/-- The definitions of tokens: the atoms have a rule of their own. -/
abbrev definitions (atom : AtomRule) : TokenDefinitions := [(1, (atom.source, atom.precedence))]

/-- An operator gets the next terminal. -/
theorem addPhrase_rule {v : Vocabulary} {op : Operator} (hnonempty : op.text ≠ "")
    (hunmatched : atom.regex.matchesAll op.text.toList = false)
    (hnew : v.definedAs? op.definition = none) :
    addPhrase (Grammar.ofOperators name ops atom.rule) (definitions atom) "expr" v op.rule =
      .ok (v.push op.terminal) := by
  have hreference : ∀ v, addPhrase (Grammar.ofOperators name ops atom.rule) (definitions atom)
      "expr" v (.reference "expr") = .ok v := fun _ => rfl
  have hliteral : addPhrase (Grammar.ofOperators name ops atom.rule) (definitions atom) "expr" v
      (.literal op.text) = .ok (v.push op.terminal) := by
    rw [addPhrase, addInline, Vocabulary.textRule?, textRule?_ofOperators hunmatched,
      Option.filter_none]
    dsimp only
    rw [addAnonymous, tokenPattern_literal hnonempty]
    dsimp only
    rw [← Operator.definition, hnew]
    rfl
  rw [Operator.rule, addPhrase, addPhrase, addPhrases, hreference]
  dsimp only
  rw [addPhrases, hliteral]
  dsimp only
  rw [addPhrases, hreference]
  rfl

/-- The operators get their terminals one after the other. -/
theorem addPhrases_rules (name : String) (hdistinct : Distinct ops atom) (rest : List Rule) {done more : List Operator}
    (hops : ops = done ++ more) {v : Vocabulary} (h : Known done v) :
    ∃ v', Known ops v' ∧
      addPhrases (Grammar.ofOperators name ops atom.rule) (definitions atom) "expr" v
          (more.map Operator.rule ++ rest) =
        addPhrases (Grammar.ofOperators name ops atom.rule) (definitions atom) "expr" v' rest := by
  induction more generalizing done v with
  | nil => exact ⟨v, by rwa [hops, List.append_nil], rfl⟩
  | cons op more ih =>
    have hop : op ∈ ops := hops ▸ List.mem_append_right _ (List.mem_cons_self ..)
    have hnew : ∀ op' ∈ done, op'.definition ≠ op.definition := by
      intro op' hop' heq
      have hnodup := hdistinct.nodup
      rw [hops, List.map_append, List.map_cons] at hnodup
      have hnot := (List.nodup_append.mp hnodup).2.2
      exact hnot op'.text (List.mem_map_of_mem hop') op.text (List.mem_cons_self ..)
        (definition_injective heq)
    obtain ⟨v', hv', heq⟩ := ih (by rw [hops, List.append_assoc]; rfl) (h.push hnew)
    refine ⟨v', hv', ?_⟩
    rw [List.map_cons, List.cons_append, addPhrases,
      addPhrase_rule (hdistinct.nonempty op hop) (hdistinct.unmatched op hop) (h.unfound _ hnew)]
    exact heq

/-- What is known of the vocabulary when the atoms have their token too. -/
structure Complete (ops : List Operator) (atom : AtomRule) (v : Vocabulary) : Prop where
  terminals : v.terminals.toList =
    ⟨"end", .endOfInput, false⟩ :: ops.map Operator.terminal ++ [atom.terminal]
  named : v.named = [(1, ⟨ops.length + 1⟩)]
  found : ∀ i op, ops[i]? = some op → v.definedAs? op.definition = some ⟨i + 1⟩

/-- The token of atoms comes last, with a definition that no operator has. -/
theorem Known.addNamed (name : String) (hdistinct : Distinct ops atom) {v : Vocabulary} (h : Known ops v) :
    Complete ops atom (addNamed (Grammar.ofOperators name ops atom.rule) (definitions atom) v 1) := by
  have hnone : v.terminalOf? 1 = none := by
    rw [terminalOf?, h.named]
    rfl
  have hadd : Vocabulary.addNamed (Grammar.ofOperators name ops atom.rule) (definitions atom) v 1 =
      { v.push atom.terminal with named := v.named ++ [(1, v.nextSymbol)] } := by
    rw [Vocabulary.addNamed, hnone]
    rfl
  rw [hadd]
  constructor
  · dsimp only
    rw [Vocabulary.push, Array.toList_push, h.terminals]
  · dsimp only
    rw [h.named, h.nextSymbol_eq]
    rfl
  · have hne : ∀ op ∈ ops, op.definition ≠ (atom.source, atom.precedence) := fun op hop heq =>
      ne_definition (hdistinct.unmatched op hop) (congrArg Prod.fst heq)
    intro i op hi
    have hpush := definedAs?_push (t := atom.terminal) rfl (h.unfound _ hne) op.definition
    rw [if_neg (hne op (List.mem_of_getElem? hi)), h.found i op hi] at hpush
    exact hpush

/-- **The terminals of a grammar of operators** are the end of the input, the operators and the
atoms. -/
theorem terminals_ofOperators (name : String) (hdistinct : Distinct ops atom) :
    ∃ v, Complete ops atom v ∧
      (Grammar.ofOperators name ops atom.rule).terminals
          (Grammar.ofOperators name ops atom.rule).usedRules =
        if 65535 ≤ ops.length + 2 then .error (.tooManySymbols (ops.length + 2))
        else .ok ⟨v, definitions atom, [], none⟩ := by
  obtain ⟨v, hv, hphrases⟩ := addPhrases_rules name hdistinct [.reference "atom"]
    (List.nil_append ops).symm known_initial
  have hcomplete := hv.addNamed name hdistinct
  refine ⟨_, hcomplete, ?_⟩
  have hdefined : (Grammar.ofOperators name ops atom.rule).defineTokens [] [1] =
      .ok (definitions atom) := by
    change (atom.rule.tokenPattern "atom" >>= _) = _
    rw [atom.pattern]
    rfl
  have hphrase : addPhrase (Grammar.ofOperators name ops atom.rule) (definitions atom) "expr"
      (Vocabulary.initial []) (.choice (ops.map Operator.rule ++ [.reference "atom"])) =
        .ok (addNamed (Grammar.ofOperators name ops atom.rule) (definitions atom) v 1) := by
    rw [addPhrase, hphrases, addPhrases, addPhrase, ruleIndex?_atom]
    dsimp only
    rw [if_pos (isLexicalAt_one name ops atom)]
    rfl
  have hrules : (Vocabulary.initial []).addPhraseRules (Grammar.ofOperators name ops atom.rule)
      (definitions atom) [0] =
        .ok (addNamed (Grammar.ofOperators name ops atom.rule) (definitions atom) v 1) := by
    have hzero : (Grammar.ofOperators name ops atom.rule).rules[0]? =
        some ("expr", .choice (ops.map Operator.rule ++ [.reference "atom"])) := rfl
    rw [addPhraseRules, hzero]
    dsimp only
    rw [hphrase]
    rfl
  -- The atom's rule is seen twice: in the phrase and among the rules. The second time it is known.
  have hagain : ∀ v', Complete ops atom v' →
      addNamed (Grammar.ofOperators name ops atom.rule) (definitions atom) v' 1 = v' := by
    intro v' hv'
    rw [addNamed, terminalOf?, hv'.named]
    rfl
  have hsize := congrArg List.length hcomplete.terminals
  rw [Array.length_toList, List.length_append, List.length_cons, List.length_map,
    List.length_singleton] at hsize
  rw [Grammar.terminals, tokenRules_ofOperators, phraseRules_ofOperators, hdefined]
  change (Vocabulary.addPhraseRules _ _ (Vocabulary.initial []) [0] >>= _) = _
  rw [hrules]
  -- Only what is known of the vocabulary matters from here on.
  generalize addNamed (Grammar.ofOperators name ops atom.rule) (definitions atom) v 1 = w
    at hcomplete hsize ⊢
  change (if 65535 ≤ (addNamed (Grammar.ofOperators name ops atom.rule) (definitions atom) w
      1).terminals.size then Except.error (GrammarError.tooManySymbols (addNamed
        (Grammar.ofOperators name ops atom.rule) (definitions atom) w 1).terminals.size)
    else Except.ok (Terminals.mk (addNamed (Grammar.ofOperators name ops atom.rule)
      (definitions atom) w 1) (definitions atom) [] none)) = _
  rw [hagain w hcomplete, hsize]

end Operators

end LRWorkbench
