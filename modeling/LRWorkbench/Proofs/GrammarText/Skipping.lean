import LRWorkbench.Proofs.GrammarText.Gaps

/-!
# Skipped text is refused

The parser passes over tokens in gaps, which it reports, and in directives that nobody knows, which
are reported when the statements are read. There the name of a directive stands without its sign, and
it is the lexer that sees to it that there is one sign and a name behind it (`text_of_directive`).
Reading goes on behind what is wrong, but takes no report back (`Read.Keeps`).

**Main statement.** `Grammar.refuses_skipped`: a text of which tokens were passed over is refused, and
if there is a gap in its tree, parsing has reported an error.
-/

namespace LRWorkbench

namespace GrammarText

/-! ### Directives that nobody knows -/

/-- The directives of grammar texts. -/
def knownDirectives : List String := ["@grammar", "@word", "@externals", "@extras", "@conflicts"]

/-- Whether a statement is a directive that nobody knows. The parser passes over its tokens. -/
def Tree.isUnknownDirective : Tree → Bool
  | .node .directiveDecl children =>
    (token? .directive children).any fun t => String.ofList t.text ∉ knownDirectives
  | _ => false

/-! ### Cutting off directives -/

/-- Of the ways to cut off a token, only a sign with a name behind it gives a directive. -/
theorem sign?_ne_directive (c : Char) : sign? c ≠ some .directive := by
  simp [sign?, ite_eq_iff]

theorem lexWord_ne_directive (cs : List Char) : (lexWord cs).1 ≠ .directive := by
  rw [lexWord]
  dsimp only
  repeat' split
  all_goals exact TokenKind.noConfusion

theorem lexString_ne_directive (cs : List Char) : (lexString cs).1 ≠ .directive := by
  rw [lexString]
  dsimp only
  split <;> exact TokenKind.noConfusion

theorem lexRegex?_ne_directive (cs : List Char) (cut) (h : lexRegex? cs = some cut) :
    cut.1 ≠ .directive := by
  rw [lexRegex?] at h
  dsimp only at h
  repeat' split at h
  all_goals cases h <;> exact TokenKind.noConfusion

/-- A directive is cut off with its sign and a name. -/
theorem exists_of_lexeme?_directive {cs text rest : List Char}
    (h : lexeme? cs = some (.directive, text, rest)) :
    ∃ c name, text = '@' :: c :: name ∧ isLetter c = true := by
  cases cs with
  | nil => cases h
  | cons c cs =>
    unfold lexeme? at h
    dsimp only at h
    split at h
    case h_1 kind hsign =>
      cases h
      exact absurd hsign (sign?_ne_directive c)
    case h_2 =>
    split at h
    · exact absurd (congrArg Prod.fst (Option.some.inj h)) (lexWord_ne_directive _)
    split at h
    · cases h
    split at h
    · cases h
    split at h
    · exact absurd (congrArg Prod.fst (Option.some.inj h)) (lexString_ne_directive _)
    split at h
    case h_1 => cases h
    case h_2 => split at h <;> cases h
    case h_3 d cs' _ _ =>
      split at h
      case isTrue hletter =>
        cases h
        exact ⟨_, _, rfl, hletter⟩
      case isFalse => cases h
    case h_4 => cases h
    case h_5 => exact absurd rfl (lexRegex?_ne_directive _ _ h)
    case h_6 => cases h

/-- Characters that fit nowhere make no directive. -/
theorem mem_of_mem_consGarbage {t : Token} {start : Nat} {c : Char} {ts : List Token}
    (ht : t ∈ consGarbage start c ts) (hkind : t.kind = .directive) : t ∈ ts := by
  have hgarbage {text : List Char} : t ≠ ⟨.garbage, start, text⟩ := by
    rintro rfl
    cases hkind
  cases ts with
  | nil => exact absurd (List.mem_singleton.mp ht) hgarbage
  | cons u us =>
    rw [consGarbage] at ht
    split at ht
    · exact List.mem_cons_of_mem _ (List.mem_of_ne_of_mem hgarbage ht)
    · exact List.mem_of_ne_of_mem hgarbage ht

/-- So every directive of a text has its sign and a name. -/
theorem exists_of_mem_lexFrom {t : Token} (hkind : t.kind = .directive) {fuel start : Nat}
    {cs : List Char} (ht : t ∈ lexFrom fuel start cs) :
    ∃ c name, t.text = '@' :: c :: name ∧ isLetter c = true := by
  induction fuel generalizing start cs with
  | zero => cases ht
  | succ fuel ih =>
    cases cs with
    | nil => cases ht
    | cons c cs =>
      rw [lexFrom] at ht
      split at ht
      case h_1 kind text rest hlexeme =>
        rcases List.mem_cons.mp ht with rfl | ht
        · obtain rfl : kind = .directive := hkind
          exact exists_of_lexeme?_directive hlexeme
        · exact ih ht
      case h_2 => exact ih (mem_of_mem_consGarbage ht hkind)

/-- The text of a directive with a name is an at sign and its name, also where its end is cut off. -/
theorem text_of_directive {source : List Char} {t : Token} (ht : t ∈ lex source)
    (hkind : t.kind = .directive) (hname : directiveName t ≠ "") :
    String.ofList t.text = "@" ++ directiveName t := by
  obtain ⟨u, hu, rfl⟩ := List.mem_map.mp ht
  have hdirective : u.kind = .directive := hkind
  obtain ⟨c, name, htext, hletter⟩ := exists_of_mem_lexFrom hdirective hu
  have hsign : c ≠ '@' := by
    rintro rfl
    cases hletter
  -- without the letter behind the sign there would be no name
  obtain ⟨rest, hclipped⟩ : ∃ rest, u.clipped.text = '@' :: c :: rest := by
    have hfitting : u.clipped.text = Text.fitting (maxOffset - u.start) ('@' :: c :: name) := by
      rw [← htext]
      rfl
    rw [Text.fitting, Text.fitting] at hfitting
    split at hfitting
    · split at hfitting
      · exact ⟨_, hfitting⟩
      · rw [directiveName, hfitting] at hname
        exact absurd rfl hname
    · rw [directiveName, hfitting] at hname
      exact absurd rfl hname
  have hletters : directiveName u.clipped = String.ofList (c :: rest) := by
    rw [directiveName, hclipped, List.dropWhile_cons_of_pos (by simp),
      List.dropWhile_cons_of_neg (by simpa using hsign)]
  rw [hletters, hclipped, ← List.singleton_append, String.ofList_append]

/-- The tokens right below a node are among its leaves. -/
theorem Tree.mem_leavesOf_of_mem_tokens {t : Token} {ts : List Tree} (h : t ∈ tokens ts) :
    t ∈ leavesOf ts := by
  induction ts with
  | nil => cases h
  | cons tree ts ih =>
    rw [leavesOf, List.mem_append]
    cases tree with
    | leaf u =>
      rcases List.mem_cons.mp h with rfl | h
      · exact .inl (List.mem_singleton_self t)
      · exact .inr (ih h)
    | node kind children => exact .inr (ih h)

/-- So are the leaves of its children. -/
theorem Tree.leaves_subset_leavesOf {t : Tree} {ts : List Tree} (h : t ∈ ts) :
    t.leaves ⊆ leavesOf ts := by
  obtain ⟨front, back, rfl⟩ := List.append_of_mem h
  rw [leavesOf_append, leavesOf]
  simp

/-! ### Reading takes no report back -/

/-- A step that takes no report back. -/
def Read.Keeps {α : Type} (p : Read α) : Prop := ∀ s, s.reported ⊆ (p s).2.reported

namespace Read

variable {α β : Type} {p : Read α} {f : α → Read β}

theorem keeps_pure (a : α) : Keeps (pure a) := fun s => List.Subset.refl s.reported

theorem keeps_get : Keeps (get : Read Reading) := fun s => List.Subset.refl s.reported

/-- A step that leaves the reports alone keeps them. -/
theorem keeps_modify {g : Reading → Reading} (h : ∀ s, (g s).reported = s.reported) :
    Keeps (modify g : Read Unit) := fun s => by
  rw [modify_apply, h]
  exact List.Subset.refl s.reported

/-- Steps one after the other take no report back. -/
theorem Keeps.bind (hp : p.Keeps) (hf : ∀ a, (f a).Keeps) : (p >>= f).Keeps := fun s =>
  List.Subset.trans (hp s) (hf _ _)

/-- Nor does a step that goes one way or another. -/
theorem Keeps.ite {c : Prop} [Decidable c] {p q : Read α} (hp : p.Keeps) (hq : q.Keeps) :
    (if c then p else q).Keeps := by
  split
  · exact hp
  · exact hq

theorem keeps_report (d : Diagnostic) : (report d).Keeps := fun s => List.subset_cons_self d s.reported

/-- A level out of range is reported, and reading goes on. -/
theorem keeps_levelOf (t : Option Token) : (levelOf t).Keeps := by
  cases t with
  | none => exact keeps_pure _
  | some t =>
    rw [levelOf]
    split
    · exact keeps_pure _
    · exact (keeps_report _).bind fun _ => keeps_pure _

theorem keeps_breakUnless (isWhole : Bool) : (breakUnless isWhole).Keeps := keeps_modify fun _ => rfl

/-- So is a literal that cannot be resolved. -/
theorem keeps_literalOf (t : Token) : (literalOf t).Keeps := by
  unfold literalOf
  refine (keeps_breakUnless _).bind fun _ => ?_
  dsimp only
  split
  · exact keeps_pure _
  · exact (keeps_report _).bind fun _ => keeps_pure _

mutual

/-- Reading a rule takes no report back, by induction on the tree. -/
theorem keeps_ruleOf? : ∀ t : Tree, (ruleOf? t).Keeps
  | .leaf _ => keeps_pure _
  | .node kind children => by
    have hrules := keeps_rulesOf children
    have hfirst := keeps_firstRule children
    unfold ruleOf?
    cases kind
    case alt => exact Keeps.bind hrules fun _ => keeps_pure _
    case seq =>
      refine Keeps.bind hrules fun rs => ?_
      split <;> exact keeps_pure _
    case quantified =>
      refine Keeps.bind hfirst fun inner => ?_
      split
      · exact keeps_pure _
      · repeat' split
        all_goals exact keeps_pure _
    case group => exact Keeps.bind hfirst fun _ => keeps_pure _
    case field =>
      refine Keeps.bind hfirst fun value => ?_
      split <;> exact keeps_pure _
    case prec => exact Keeps.bind (keeps_levelOf _) fun _ => Keeps.bind hfirst fun _ => keeps_pure _
    case tokenCall => exact Keeps.bind hfirst fun _ => keeps_pure _
    case str =>
      dsimp only
      split
      · exact keeps_pure _
      · exact Keeps.bind (keeps_literalOf _) fun _ => keeps_pure _
    case regex =>
      dsimp only
      split
      · exact keeps_pure _
      · exact Keeps.bind (keeps_breakUnless _) fun _ => keeps_pure _
    case ref =>
      dsimp only
      split <;> exact keeps_pure _
    all_goals exact keeps_pure _

theorem keeps_rulesOf : ∀ ts : List Tree, (rulesOf ts).Keeps
  | [] => keeps_pure _
  | t :: ts => by
    unfold rulesOf
    refine Keeps.bind (keeps_ruleOf? t) fun r => ?_
    cases r with
    | some r => exact Keeps.bind (keeps_rulesOf ts) fun _ => keeps_pure _
    | none => exact keeps_rulesOf ts

theorem keeps_firstRule : ∀ ts : List Tree, (firstRule ts).Keeps
  | [] => keeps_pure _
  | t :: ts => by
    unfold firstRule
    refine Keeps.bind (keeps_ruleOf? t) fun r => ?_
    cases r with
    | some r => exact keeps_pure _
    | none => exact keeps_firstRule ts

end

/-- Reading a directive adds to what was read and to the reports. -/
theorem keeps_readDirective (children : List Tree) : (readDirective children).Keeps := by
  unfold readDirective
  split
  · exact keeps_pure _
  dsimp only
  split
  · exact Keeps.bind (keeps_report _) fun _ => keeps_pure _
  refine Keeps.bind keeps_get fun s => ?_
  -- with or without a warning that there was such a directive before, it is taken in
  split
  on_goal 1 => refine Keeps.bind (keeps_report _) fun _ => ?_
  all_goals
    refine Keeps.bind (keeps_modify fun _ => rfl) fun _ => ?_
    split
    · split
      · exact keeps_modify fun _ => rfl
      · exact keeps_pure _
    · exact keeps_modify fun _ => rfl
    · exact keeps_modify fun _ => rfl
    · exact Keeps.bind (keeps_rulesOf children) fun _ => keeps_modify fun _ => rfl
    · exact keeps_modify fun _ => rfl

/-- So does reading a rule. -/
theorem keeps_readRule (children : List Tree) : (readRule children).Keeps := by
  unfold readRule
  split
  · exact keeps_pure _
  dsimp only
  refine Keeps.bind keeps_get fun s => ?_
  split
  · exact keeps_report _
  · exact Keeps.bind (keeps_modify fun _ => rfl) fun _ =>
      Keeps.bind (keeps_firstRule children) fun _ => keeps_modify fun _ => rfl

/-- So does reading all statements. -/
theorem keeps_readStatements (ts : List Tree) : (readStatements ts).Keeps := by
  induction ts using readStatements.induct with
  | case1 => exact keeps_pure _
  | case2 children ts ih =>
    rw [readStatements]
    exact (keeps_readDirective _).bind fun _ => ih
  | case3 children ts ih =>
    rw [readStatements]
    exact (keeps_readRule _).bind fun _ => ih
  | case4 t ts hdirective hrule ih =>
    rw [readStatements]
    · exact ih
    · exact hdirective
    · exact hrule

end Read

/-- A directive that nobody knows is reported where it is read. -/
theorem exists_error_of_readDirective {children : List Tree} {keyword : Token}
    (hkeyword : Tree.token? .directive children = some keyword)
    (hunknown : directiveName keyword ∉ ["grammar", "word", "externals", "extras", "conflicts"])
    (s : Reading) : ∃ d ∈ (readDirective children s).2.reported, d.isError = true := by
  unfold readDirective
  rw [hkeyword]
  dsimp only
  rw [if_pos hunknown]
  exact ⟨_, List.mem_cons_self .., rfl⟩

/-- So it is reported when all statements are read, whatever they are. -/
theorem exists_error_of_readStatements {children : List Tree} {keyword : Token}
    (hkeyword : Tree.token? .directive children = some keyword)
    (hunknown : directiveName keyword ∉ ["grammar", "word", "externals", "extras", "conflicts"])
    {ts : List Tree} (h : .node .directiveDecl children ∈ ts) (s : Reading) :
    ∃ d ∈ (readStatements ts s).2.reported, d.isError = true := by
  induction ts using readStatements.induct generalizing s with
  | case1 => cases h
  | case2 other ts ih =>
    rw [readStatements, bind_apply]
    rcases List.mem_cons.mp h with heq | h
    · obtain rfl : children = other := (Tree.node.inj heq).2
      obtain ⟨d, hd, herror⟩ := exists_error_of_readDirective hkeyword hunknown s
      exact ⟨d, Read.keeps_readStatements ts _ hd, herror⟩
    · exact ih h _
  | case3 other ts ih =>
    rw [readStatements, bind_apply]
    rcases List.mem_cons.mp h with heq | h
    · cases heq
    · exact ih h _
  | case4 t ts hdirective hrule ih =>
    have htail := List.mem_of_ne_of_mem (fun heq => hdirective children heq.symm) h
    rw [readStatements]
    · exact ih htail s
    · exact hdirective
    · exact hrule

/-- Whether some tokens of a text were passed over: in a gap anywhere, or in a directive that nobody
knows. -/
def Tree.skips : Tree → Bool
  | .leaf _ => false
  | .node kind statements =>
    hasGap (.node kind statements) || statements.any isUnknownDirective

/-- A directive that nobody knows is reported when it is read. -/
theorem exists_error_of_isUnknownDirective {source : List Char} {statements : List Tree}
    (htree : (parse source).tree = .node .root statements) {t : Tree} (ht : t ∈ statements)
    (h : t.isUnknownDirective = true) :
    ∃ d ∈ (meaning (parse source).tree).2, d.isError = true := by
  unfold Tree.isUnknownDirective at h
  split at h
  case h_1 children =>
    obtain ⟨keyword, hkeyword, hunknown⟩ := (Option.any_eq_true ..).mp h
    have hfind : (Tree.tokens children).find? (fun t => t.kind = .directive) = some keyword := hkeyword
    have hkind : keyword.kind = .directive := by simpa using List.find?_some hfind
    have hmem : keyword ∈ lex source := by
      rw [← leaves_tree, htree]
      refine Tree.leaves_subset_leavesOf ht (Tree.mem_leavesOf_of_mem_tokens ?_)
      exact List.mem_of_find?_eq_some hfind
    have hname : directiveName keyword ∉ ["grammar", "word", "externals", "extras", "conflicts"] := by
      intro hknown
      refine of_decide_eq_true hunknown ?_
      have hne : directiveName keyword ≠ "" := by
        intro hempty
        rw [hempty] at hknown
        revert hknown
        decide
      rw [text_of_directive hmem hkind hne]
      exact List.mem_map_of_mem (f := ("@" ++ ·)) hknown
    obtain ⟨d, hd, herror⟩ := exists_error_of_readStatements hkeyword hname ht
      (.start defaultName)
    refine ⟨d, ?_, herror⟩
    rw [htree]
    exact List.mem_reverse.mpr hd
  case h_2 => cases h

end GrammarText

open GrammarText

/-- A text with an error is refused. -/
theorem Grammar.exists_malformedText {source : List Char} {d : Diagnostic}
    (hd : d ∈ (parse source).diagnostics ++ (meaning (parse source).tree).2)
    (herror : d.isError = true) : ∃ ds, ofText source = .error (.malformedText ds) := by
  have hcount : Diagnostic.errorCount ((parse source).diagnostics ++
      (meaning (parse source).tree).2) ≠ 0 := by
    intro hnone
    exact List.countP_eq_zero.mp hnone d hd herror
  exact ⟨_, if_neg hcount⟩

/-- A text that is refused where the program does not stop at it is not read where it may. -/
theorem Grammar.ofText?_ne_ok {source : List Char} {ds : List Diagnostic}
    (h : ofText source = .error (.malformedText ds)) (g : Grammar) :
    ofText? source ≠ some (.ok g) := by
  have hgrammar : (parse source).grammar = .error (.malformedText ds) := h
  rw [ofText?, parse?]
  intro heq
  split at heq
  · cases heq
  · rw [Option.bind_eq_bind, Option.bind_some, hgrammar] at heq
    split at heq <;> cases heq

/-- **Skipped text is refused.** If there is a gap in the tree of a text, parsing has reported an error,
and a text of which anything was passed over is not read as a grammar. -/
theorem Grammar.refuses_skipped (source : List Char) :
    ((parse source).tree.hasGap = true → ∃ d ∈ (parse source).diagnostics, d.isError = true) ∧
    ((parse source).tree.skips = true → (∃ ds, ofText source = .error (.malformedText ds)) ∧
      ∀ g, ofText? source ≠ some (.ok g)) := by
  refine ⟨exists_error_of_hasGap, fun hskips => ?_⟩
  have hfound : ∃ d ∈ (parse source).diagnostics ++ (meaning (parse source).tree).2,
      d.isError = true := by
    cases htree : (parse source).tree with
    | leaf t =>
      rw [htree] at hskips
      cases hskips
    | node kind statements =>
      obtain rfl : NodeKind.root = kind := (Tree.node.inj htree).1
      rw [htree, Tree.skips, Bool.or_eq_true] at hskips
      rcases hskips with hgap | hdirective
      · obtain ⟨d, hd, herror⟩ := exists_error_of_hasGap (htree ▸ hgap)
        exact ⟨d, List.mem_append_left _ hd, herror⟩
      · obtain ⟨t, ht, hunknown⟩ := List.any_eq_true.mp hdirective
        obtain ⟨d, hd, herror⟩ := exists_error_of_isUnknownDirective htree ht hunknown
        exact ⟨d, List.mem_append_right _ (htree ▸ hd), herror⟩
  obtain ⟨d, hd, herror⟩ := hfound
  obtain ⟨ds, hds⟩ := exists_malformedText hd herror
  exact ⟨⟨ds, hds⟩, ofText?_ne_ok hds⟩

/-- In `prec(* a)` the star is passed over. It stands where the level is missing, so only that is
reported. In a directive that nobody knows parsing reports nothing at all. -/
theorem Grammar.refuses_skipped_star :
    (parse "x = prec(* a);".toList).tree.hasGap = true ∧
    (parse "x = prec(* a);".toList).diagnostics.map (·.kind) = [.expectedInteger] ∧
    (∃ d ∈ (parse "x = prec(* a);".toList).diagnostics, d.isError = true) ∧
    (∃ ds, ofText "x = prec(* a);".toList = .error (.malformedText ds)) ∧
    (parse "@skip a b;".toList).diagnostics = [] ∧
    ∃ ds, ofText "@skip a b;".toList = .error (.malformedText ds) := by
  have hgap : (parse "x = prec(* a);".toList).tree.hasGap = true := by decide +kernel
  obtain ⟨hreports, hrefuses⟩ := refuses_skipped "x = prec(* a);".toList
  obtain ⟨-, hrefuses'⟩ := refuses_skipped "@skip a b;".toList
  exact ⟨hgap, by decide +kernel, hreports hgap, (hrefuses (by decide +kernel)).1,
    by decide +kernel, (hrefuses' (by decide +kernel)).1⟩

end LRWorkbench
