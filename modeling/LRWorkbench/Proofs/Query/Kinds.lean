import LRWorkbench.Proofs.Grammar.Compile
import LRWorkbench.Proofs.Parsing.Run
import LRWorkbench.Proofs.Prepared.Names
import LRWorkbench.Proofs.Query.Lexing
import LRWorkbench.Proofs.Query.Recognition
import LRWorkbench.Query.Matching

/-!
# Asking for the kind of a node

A name leads to the first symbol that bears it, whether that shows in trees or not. So a query for the
kind of a node is understood, but it finds the node **iff no symbol before the kind bears its name**
(`Grammar.bind?_kindQuery`). Kinds with names are told apart by them, and so are texts that no other
token is named after (`Grammar.symbolFor?_symbolName`). The end of the input is such another token: it
is the first symbol and is named `end`, so no query finds the literal (`Grammar.not_found_blocks`).
-/

/-!
### Asking for one kind

A query may ask for the nodes of one kind and nothing else: by a name in parentheses (`ofText_asked`) or
by a text between quotes (`ofText_quotation`).
-/

namespace LRWorkbench.Query

open Text

/-- The query for the nodes of a kind that is named. -/
def asked (name : String) : List Char := '(' :: (name.toList ++ [')'])

/-! ### Reading -/

theorem lex_asked {name : String} (h : isName name = true) :
    lex (asked name) = [⟨.parenOpen, 0, ['(']⟩, ⟨nameKind name, 1, name.toList⟩,
      ⟨.parenClose, 1 + byteLength name.toList, [')']⟩] := by
  obtain ⟨c, cs, hname, -, -⟩ := exists_of_isName h
  have hword := lexeme?_name h (by decide : isNameChar ')' = false) []
  have hopen : lexeme? ('(' :: (c :: (cs ++ [')']))) = some (.parenOpen, ['('], c :: (cs ++ [')'])) :=
    rfl
  have hclose : lexeme? [')'] = some (.parenClose, [')'], []) := rfl
  rw [hname, List.cons_append] at hword
  rw [lex, asked, hname, List.cons_append, List.length_cons, List.length_cons, List.length_append,
    lexFrom_cons hopen, lexFrom_cons hword, List.length_singleton, lexFrom_cons hclose]
  rw [List.filter_cons_of_pos rfl, List.filter_cons_of_pos (by exact decide_eq_true (isToken_name h).means),
    List.filter_cons_of_pos rfl, lexFrom_nil]
  rfl

/-- A name in parentheses is read as a node of its kind, an underscore as a node of any kind. -/
theorem parse_asked {name : String} (h : isName name = true) : ∃ own all,
    parse (asked name) = ([.mk (.node (if name = "_" then none else some ⟨name, own⟩) [] []) [] all],
      []) := by
  refine ⟨Token.span ⟨nameKind name, 1, name.toList⟩, parse_of_form ?_⟩
  rw [lex_asked h]
  exact .node rfl (spells_name name 1) .nil rfl

theorem lex_quotation (text : String) :
    lex (quotation text) = [⟨.stringLiteral, 0, quotation text⟩] := by
  have hstring := lexeme?_quotation text []
  rw [List.append_nil] at hstring
  rw [lex]
  change (lexFrom (_ + 1) 0 ('"' :: (text.toList.flatMap quotedChar ++ ['"']))).filter _ = _
  rw [lexFrom_cons hstring, List.filter_cons_of_pos rfl, lexFrom_nil]
  rfl

/-- A text between quotes is read as the text it stands for. -/
theorem parse_quotation (text : String) : ∃ own all,
    parse (quotation text) = ([.mk (.text ⟨text, own⟩) [] all], []) := by
  refine ⟨Token.span ⟨.stringLiteral, 0, quotation text⟩, parse_of_form ?_⟩
  have hform : SpellsForm [⟨.stringLiteral, 0, quotation text⟩] (.text ⟨String.ofList text.toList,
      Token.span ⟨.stringLiteral, 0, quotation text⟩⟩) := .text rfl (unescape_quotation text)
  rw [String.ofList_toList] at hform
  rwa [lex_quotation]

/-! ### Names -/

section

variable {t : ParseTable} {symbol : Symbol}

/-- A query of one pattern without captures, whose names the table knows. -/
theorem ofText_of_parse {source : List Char} {written : FormSyntax} {span : Span} {form : PatternForm}
    (hparse : parse source = ([.mk written [] span], []))
    (hform : Resolve.form t span written ⟨[], []⟩ = (some form, ⟨[], []⟩)) :
    ofText t source = .ok ⟨[.mk form []], []⟩ := by
  have hpattern : Resolve.pattern t (.mk written [] span) ⟨[], []⟩ = (some (.mk form []), ⟨[], []⟩) := by
    rw [Resolve.pattern, bind_apply, hform]
    rfl
  have hall : ([PatternSyntax.mk written [] span].filterMapM (Resolve.pattern t)).run ⟨[], []⟩ =
      ([.mk form []], ⟨[], []⟩) := by
    rw [List.filterMapM_cons]
    change (Resolve.pattern t (.mk written [] span) >>= fun p => _) _ = _
    rw [bind_apply, hpattern]
    rfl
  rw [ofText, hparse]
  dsimp only
  rw [hall]
  rfl

/-- The pattern for nodes of a kind that is named. -/
def namedPattern (name : String) (symbol : Symbol) : Pattern :=
  .mk (.node (if name = "_" then none else some symbol) [] []) []

theorem kind_apply {name : String} (hsymbol : t.symbolFor? name true = some symbol)
    (hvisible : t.isVisible symbol = true) (span own : Span) (s : Naming) :
    Resolve.kind t span (some ⟨name, own⟩) true s = (some (some symbol), s) := by
  rw [Resolve.kind]
  dsimp only
  split
  case isTrue =>
    rw [Resolve.named, hsymbol]
    dsimp only
    rw [if_pos hvisible]
    rfl
  case isFalse h =>
    obtain rfl := not_not.mp h
    obtain rfl := Option.some.inj hsymbol
    rfl

theorem ofText_asked {name : String} (h : isName name = true)
    (hsymbol : t.symbolFor? name true = some symbol) (hvisible : t.isVisible symbol = true) :
    ofText t (asked name) = .ok ⟨[namedPattern name symbol], []⟩ := by
  obtain ⟨own, all, hparse⟩ := parse_asked h
  refine ofText_of_parse hparse ?_
  rw [Resolve.form]
  split
  case isTrue => rfl
  case isFalse =>
    simp only [List.isEmpty_nil, Bool.and_self, bind_apply, kind_apply hsymbol hvisible]
    rfl

theorem ofText_quotation {text : String} (hsymbol : t.symbolFor? text false = some symbol) :
    ofText t (quotation text) = .ok ⟨[.mk (.anonymous symbol) []], []⟩ := by
  obtain ⟨own, all, hparse⟩ := parse_quotation text
  refine ofText_of_parse hparse ?_
  rw [Resolve.form, bind_apply, Resolve.anonymous, hsymbol]
  rfl

/-! ### Matches -/

/-- A name in parentheses finds the nodes of its kind, an underscore every node that is named. -/
theorem bind?_namedPattern {name : String} {s : Shown} (hnamed : s.node.isNamed t = true) :
    ((namedPattern name symbol).bind? t s []).isSome = true ↔
      name = "_" ∨ s.node.symbol = symbol := by
  have hnode : (namedPattern name symbol).bind? t s [] =
      if isNodeOf t (if name = "_" then none else some symbol) [] s then some [] else none := by
    rw [namedPattern, Pattern.bind?, Pattern.tryAt, PatternForm.tryAt]
    cases isNodeOf t (if name = "_" then none else some symbol) [] s <;> rfl
  rw [hnode, isNodeOf, hnamed]
  by_cases hany : name = "_"
  · simp [hany]
  · simp [hany]

/-- A text between quotes finds the nodes of its kind. -/
theorem bind?_anonymous {s : Shown} (hnamed : s.node.isNamed t = false) :
    ((Pattern.mk (.anonymous symbol) []).bind? t s []).isSome = true ↔ s.node.symbol = symbol := by
  rw [Pattern.bind?, Pattern.tryAt, PatternForm.tryAt, hnamed]
  cases hsymbol : decide (s.node.symbol = symbol) with
  | true => exact iff_of_true rfl (of_decide_eq_true hsymbol)
  | false => exact iff_of_false Bool.false_ne_true (of_decide_eq_false hsymbol)

end

end LRWorkbench.Query

namespace LRWorkbench

/-- The query for the nodes of the same kind as a node. -/
def Node.kindQuery (t : ParseTable) (n : Node) : List Char :=
  if n.isNamed t then Query.asked (n.kind t) else Query.quotation (n.kind t)

namespace Grammar

/-- Whether the name of a kind that shows, or its text if it has no name, leads to that kind. -/
inductive Tells : Bool → String → Prop
  | name {name : String} : name ≠ "ERROR" → Tells true name
  | text {text : String} : Plain text → Tells false text

variable {g : Grammar} {t : ParseTable}

/-! ### Names lead to symbols -/

theorem symbolInfos_eq (h : g.compile = .ok t) :
    ∃ prepared, g.prepare = .ok prepared ∧ t.parts.symbols = prepared.symbolInfos := by
  obtain ⟨prepared, hprepare, hcompiles⟩ := exists_prepared h
  obtain ⟨rows, lex, patterns, -, -, hparts⟩ := hcompiles.parts_eq
  refine ⟨prepared, hprepare, ?_⟩
  rw [hparts]
  rfl

section

variable {s : Symbol} {info : SymbolInfo}

theorem exists_info (hvisible : t.isVisible s = true) (herror : s.isError = false) :
    ∃ info, t.parts.symbols[s.index]? = some info ∧ info.isVisible = true ∧
      t.symbolName s = info.name ∧ t.isNamed s = info.isNamed := by
  rw [ParseTable.isVisible, herror, Bool.false_or] at hvisible
  rw [ParseTable.symbolName, ParseTable.isNamed, herror]
  cases hinfo : t.parts.symbols[s.index]? with
  | none =>
    rw [hinfo] at hvisible
    cases hvisible
  | some info =>
    rw [hinfo] at hvisible
    exact ⟨info, rfl, hvisible, rfl, rfl⟩

/-- Only `ERROR` leads past the symbols of a table. -/
theorem symbolFor?_eq {name : String} {named : Bool} (h : named = true → name ≠ "ERROR") :
    t.symbolFor? name named = (t.parts.symbols.findIdx? fun info =>
      info.name = name && info.isNamed = named).map Symbol.mk := by
  rw [ParseTable.symbolFor?, if_neg]
  rw [Bool.and_eq_true, decide_eq_true_eq]
  exact fun hand => h hand.1 hand.2

/-- A name leads to the first symbol that bears it. -/
theorem symbolFor?_of_first (hinfo : t.parts.symbols[s.index]? = some info)
    (herror : info.isNamed = true → info.name ≠ "ERROR")
    (hfirst : ∀ place info', t.parts.symbols[place]? = some info' → info'.name = info.name →
      info'.isNamed = info.isNamed → place ≤ s.index → place = s.index) :
    t.symbolFor? info.name info.isNamed = some s := by
  rw [symbolFor?_eq herror, Option.map_eq_some_iff]
  refine ⟨s.index, Array.findIdx?_eq_some_iff_getElem.mpr ?_, rfl⟩
  obtain ⟨hlt, hget⟩ := Array.getElem?_eq_some_iff.mp hinfo
  refine ⟨hlt, by rw [hget]; simp, fun place hplace hbears => ?_⟩
  rw [Bool.and_eq_true, decide_eq_true_eq, decide_eq_true_eq] at hbears
  have hat := hfirst place _ (Array.getElem?_eq_getElem (hplace.trans hlt)) hbears.1 hbears.2
    hplace.le
  exact absurd hat hplace.ne

/-- **The name of a kind that shows leads to it**, unless something else may bear the name. -/
theorem symbolFor?_symbolName (h : g.compile = .ok t) (hvisible : t.isVisible s = true)
    (herror : s.isError = false) (htells : Tells (t.isNamed s) (t.symbolName s)) :
    t.symbolFor? (t.symbolName s) (t.isNamed s) = some s := by
  obtain ⟨prepared, hprepare, hsymbols⟩ := symbolInfos_eq h
  obtain ⟨info, hinfo, hshows, hname, hnamed⟩ := exists_info hvisible herror
  rw [hname, hnamed] at htells ⊢
  have hat := hsymbols ▸ hinfo
  refine symbolFor?_of_first hinfo ?_ fun place info' hinfo' hname' hnamed' hle => ?_
  · intro his
    rw [his] at htells
    cases htells with
    | name hne => exact hne
  · have hat' := hsymbols ▸ hinfo'
    cases his : info.isNamed with
    | true => exact eq_of_isNamed hprepare hat hat' his (hnamed'.trans his) hname' hshows hle
    | false =>
      rw [his] at htells
      cases htells with
      | text hplain => exact eq_of_plain hprepare hat hat' his (hnamed'.trans his) hname' hplain

/-- The name of a kind that shows leads to a kind that shows if it is named. -/
theorem exists_symbolFor? (h : g.compile = .ok t) (hvisible : t.isVisible s = true)
    (herror : s.isError = false) : ∃ found, t.symbolFor? (t.symbolName s) (t.isNamed s) = some found ∧
      (t.isNamed s = true → t.isVisible found = true) := by
  cases hnamed : t.isNamed s with
  | true =>
    by_cases hname : t.symbolName s = "ERROR"
    · refine ⟨.error, ?_, fun _ => rfl⟩
      rw [hname]
      rfl
    · have hfound := symbolFor?_symbolName h hvisible herror (by rw [hnamed]; exact .name hname)
      rw [hnamed] at hfound
      exact ⟨s, hfound, fun _ => hvisible⟩
  | false =>
    obtain ⟨info, hinfo, -, hname, his⟩ := exists_info hvisible herror
    rw [symbolFor?_eq fun hnot => absurd hnot Bool.false_ne_true]
    cases hfind : t.parts.symbols.findIdx? fun info => info.name = t.symbolName s &&
        info.isNamed = false with
    | some place => exact ⟨⟨place⟩, rfl, nofun⟩
    | none =>
      have hnot := Array.findIdx?_eq_none_iff.mp hfind info (Array.mem_of_getElem? hinfo)
      rw [hname, his.symm.trans hnamed, decide_eq_true rfl, decide_eq_true rfl] at hnot
      cases hnot

end

/-! ### Queries find nodes -/

/-- **A query for the kind of a node is understood, and it finds the node iff the name of the kind leads
to the kind.** It does so unless something else may bear the name. -/
theorem bind?_kindQuery (h : g.compile = .ok t) :
    (∀ s, t.isVisible s = true → s.isError = false → Tells (t.isNamed s) (t.symbolName s) →
      t.symbolFor? (t.symbolName s) (t.isNamed s) = some s) ∧
    ∀ s : Shown, s.node.isVisible t = true → s.node.isError = false →
      (s.node.isNamed t = true → Query.isName (s.node.kind t) = true) →
      ∃ p, Query.ofText t (s.node.kindQuery t) = .ok ⟨[p], []⟩ ∧
        ((p.bind? t s []).isSome = true ↔
          t.symbolFor? (s.node.kind t) (s.node.isNamed t) = some s.node.symbol) := by
  refine ⟨fun s => symbolFor?_symbolName h, fun s hvisible herror hname => ?_⟩
  have hsame : s.node.isNamed t = t.isNamed s.node.symbol := by
    rw [Node.isNamed, herror, Bool.and_false]
    rfl
  obtain ⟨found, hfound, hshows⟩ := exists_symbolFor? h hvisible herror
  rw [← hsame] at hfound hshows
  have hfound : t.symbolFor? (s.node.kind t) (s.node.isNamed t) = some found := hfound
  rw [hfound, Option.some_inj, Node.kindQuery]
  cases hnamed : s.node.isNamed t with
  | true =>
    rw [hnamed] at hfound
    refine ⟨_, Query.ofText_asked (hname hnamed) hfound (hshows hnamed), ?_⟩
    rw [Query.bind?_namedPattern hnamed, @eq_comm _ found]
    -- an underscore finds every node, but as a kind it also leads to its own symbol
    refine or_iff_right_of_imp fun hany => ?_
    have htells : Tells (t.isNamed s.node.symbol) (t.symbolName s.node.symbol) := by
      rw [← hsame, hnamed]
      refine .name ?_
      change s.node.kind t ≠ "ERROR"
      rw [hany]
      decide
    have hown := symbolFor?_symbolName h hvisible herror htells
    rw [← hsame, hnamed] at hown
    exact Option.some.inj (hown.symm.trans hfound)
  | false =>
    rw [hnamed] at hfound
    refine ⟨_, Query.ofText_quotation hfound, ?_⟩
    rw [Query.bind?_anonymous hnamed, eq_comm]

/-- Blocks, each between `begin` and `end`, one in the other. -/
def blocks : Grammar where
  name := "blocks"
  rules := [("block", .seq [.literal "begin", .zeroOrMore (.reference "block"), .literal "end"])]
  extras := [.pattern " " none]
  conflicts := []
  externals := []
  word := none

/-- What the text `begin end` is parsed into: a `block` of the two words. -/
theorem exists_block : ∃ t tree opening closing, blocks.compile = .ok t ∧
    (Parsing.Setting.fresh ⟨t, none⟩ "begin end".toList Parsing.defaultWindow).Yields tree ∧
    tree.hasError = false ∧ tree.shown.children = [opening, closing] ∧
    opening.node.isVisible t = true ∧ opening.node.isError = false ∧
    opening.node.isNamed t = false ∧ opening.node.kind t = "begin" ∧
    closing.node.isVisible t = true ∧ closing.node.isError = false ∧
    closing.node.isNamed t = false ∧ closing.node.kind t = "end" ∧
    t.symbolFor? "end" false = some .endOfInput ∧ closing.node.symbol ≠ .endOfInput ∧
    ∃ q, Query.ofText t (Query.quotation "end") = .ok q ∧
      (Query.matchesAt q t tree.shown).toList.isEmpty = true := by
  have hrun : (blocks.compile.toOption).any (fun t =>
      (Parsing.Parser.runFromStart (.fresh ⟨t, none⟩ "begin end".toList Parsing.defaultWindow)
        100).any fun tree => !tree.hasError && tree.shown.children.length == 2 &&
      tree.shown.children[0]?.any fun opening => tree.shown.children[1]?.any fun closing =>
        opening.node.isVisible t && !opening.node.isError && !opening.node.isNamed t &&
        opening.node.kind t == "begin" && closing.node.isVisible t && !closing.node.isError &&
        !closing.node.isNamed t && closing.node.kind t == "end" &&
        t.symbolFor? "end" false == some .endOfInput && closing.node.symbol != .endOfInput &&
        (Query.ofText t (Query.quotation "end")).toOption.any fun q =>
          (Query.matchesAt q t tree.shown).toList.isEmpty) = true := by
    decide +kernel
  obtain ⟨t, ht, hrun⟩ := (Option.any_eq_true ..).mp hrun
  obtain ⟨tree, htree, hrun⟩ := (Option.any_eq_true ..).mp hrun
  rw [Bool.and_eq_true, Bool.and_eq_true, Bool.not_eq_true', beq_iff_eq] at hrun
  obtain ⟨⟨herror, hlength⟩, hrun⟩ := hrun
  obtain ⟨opening, closing, hchildren⟩ := List.length_eq_two.mp hlength
  simp only [hchildren, List.getElem?_cons_zero, List.getElem?_cons_succ, Option.any_some,
    Bool.and_eq_true, Bool.not_eq_true', beq_iff_eq, bne_iff_ne] at hrun
  obtain ⟨⟨⟨⟨⟨⟨⟨⟨⟨⟨hopens, hopening⟩, hunnamed⟩, hbegin⟩, hcloses⟩, hclosing⟩, hunnamed'⟩, hend⟩,
    hfirst⟩, hne⟩, hquery⟩ := hrun
  obtain ⟨q, hq, hnone⟩ := (Option.any_eq_true ..).mp hquery
  exact ⟨t, tree, opening, closing, eq_ok_of_toOption ht, ⟨100, htree⟩, herror, hchildren, hopens,
    hopening, hunnamed, hbegin, hcloses, hclosing, hunnamed', hend, hfirst, hne, q,
    eq_ok_of_toOption hq, hnone⟩

/-- The query for `begin` finds the node. -/
theorem bind?_kindQuery_begin : ∃ t s p, blocks.compile = .ok t ∧ s.node.isVisible t = true ∧
    s.node.isError = false ∧ s.node.kind t = "begin" ∧
    Query.ofText t (s.node.kindQuery t) = .ok ⟨[p], []⟩ ∧ (p.bind? t s []).isSome = true := by
  obtain ⟨t, -, opening, -, ht, -, -, -, hvisible, herror, hunnamed, hbegin, -⟩ := exists_block
  obtain ⟨hleads, hfinds⟩ := bind?_kindQuery ht
  have hsymbol : t.isNamed opening.node.symbol = false := by
    rwa [Node.isNamed, herror, Bool.and_false] at hunnamed
  have htells : Tells (t.isNamed opening.node.symbol) (t.symbolName opening.node.symbol) := by
    have hname : t.symbolName opening.node.symbol = "begin" := hbegin
    rw [hsymbol, hname]
    exact .text (plain_of_notMem (by decide) (by decide))
  obtain ⟨p, hquery, hfound⟩ := hfinds opening hvisible herror fun hnamed =>
    absurd (hunnamed.symm.trans hnamed) Bool.false_ne_true
  have hleads := hleads opening.node.symbol hvisible herror htells
  rw [hsymbol, ← hunnamed] at hleads
  exact ⟨t, opening, p, ht, hvisible, herror, hbegin, hquery, hfound.mpr hleads⟩

/-- The text `end` leads to the end of the input. The query for it is understood, but finds nothing in
a tree that has it. -/
theorem not_found_blocks : ∃ t tree s q, blocks.compile = .ok t ∧
    (Parsing.Setting.fresh ⟨t, none⟩ "begin end".toList Parsing.defaultWindow).Yields tree ∧
    tree.hasError = false ∧ s ∈ tree.shown.children ∧ s.node.isVisible t = true ∧
    s.node.isError = false ∧ s.node.kind t = "end" ∧ s.node.isNamed t = false ∧
    t.symbolFor? (s.node.kind t) (s.node.isNamed t) ≠ some s.node.symbol ∧
    Query.ofText t (s.node.kindQuery t) = .ok q ∧ (Query.matchesAt q t tree.shown).toList = [] := by
  obtain ⟨t, tree, opening, closing, ht, htree, hvalid, hchildren, -, -, -, -, hvisible, herror,
    hunnamed, hend, hfirst, hne, q, hquery, hnone⟩ := exists_block
  refine ⟨t, tree, closing, q, ht, htree, hvalid, ?_, hvisible, herror, hend, hunnamed, ?_, ?_,
    List.isEmpty_iff.mp hnone⟩
  · rw [hchildren]
    exact List.mem_cons_of_mem _ (List.mem_singleton_self _)
  · rw [hend, hunnamed, hfirst]
    exact fun heq => hne (Option.some.inj heq).symm
  · rwa [Node.kindQuery, hunnamed, hend]

end Grammar

end LRWorkbench
