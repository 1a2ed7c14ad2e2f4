import LRWorkbench.Proofs.Parsing.Faults
import LRWorkbench.Proofs.Parsing.Retracing
import LRWorkbench.Proofs.Parsing.Upkeep

/-!
# A text that is parsed again

When an edited text is parsed again, subtrees of the old tree are taken over. In a language that keeps
account of what it looks at (`Language.KeepsAccount`) the run stands where that of the fresh text
stands, move after move, only that several moves of the fresh run may be one here
(`Parser.Reaches.nears`).

**Main statement.** `same_of_unbroken`: what becomes of a tree by edits is the tree of the fresh text,
as long as the parser never had to give up a token in the texts before.

Most languages do not keep account, though: the token behind a subtree settles what is reduced, and
the subtree accounts for what was looked at to find that token, but not for the extras before it. So
a subtree may be taken over where the text behind it is read in another way (`not_same_lookouts`).
-/

namespace LRWorkbench.Parsing

open Subtree Text

namespace Parser

variable {s o : Setting} {token : Token} {p : Parser} {g : PreparedGrammar} {r : Reuse}

/-- Before it takes anything over a run stands where that of the fresh text stands. -/
theorem nears_start (s : Setting) : Nears s.anew (read s start).1 (read s start).2 := by
  obtain ⟨htoken, hplain⟩ := plain_read (s := s) (Eq.refl start.plain)
  exact htoken ▸ ⟨_, .start, hplain⟩

/-- **A run that takes subtrees over gets nowhere else** than the run of the fresh text. -/
theorem Reaches.nears (h : Reaches s token p) (hg : g.Compiles o.table) (hl : o.language.IsHonest)
    (hk : o.language.KeepsAccount) (hr : Remembers o s r) (hreuse : s.reuse = some r)
    (htruthful : Reuse.Truthful s.text r) : Nears s.anew token p := by
  have htable : s.table = o.table := congrArg Language.table hr.language
  have hg' : g.Compiles s.table := htable ▸ hg
  have htruth : ∀ r', s.reuse = some r' → Reuse.Truthful s.text r' := by
    intro r' hr'
    obtain rfl := Option.some.inj (hreuse.symm.trans hr')
    exact htruthful
  induction h with
  | start => exact nears_start s
  | @step token token' p p' reached move ih =>
    have hmove := move_step s p token
    have hmoved := move
    rw [move] at hmove
    cases hmove with
    | takeOver action reuse =>
      obtain ⟨r', oldStart, hreused⟩ := exists_of_toReuse reuse
      obtain rfl := Option.some.inj (hreuse.symm.trans hreused.reuse)
      exact ih.takeOver hr hg hl hk (reached.atToken hg' htruth hreused.errorMode) hreused action
    | shift action fresh => exact ih.step (fun _ _ => fresh) hmoved
    | reduce action => exact ih.step (fun _ hshift => nomatch action.symm.trans hshift) hmoved
    | resume action found => exact ih.step (fun _ hshift => nomatch action.symm.trans hshift) hmoved
    | giveUp action none isEnd =>
      exact ih.step (fun _ hshift => nomatch action.symm.trans hshift) hmoved

/-- A run ends where one gets that is near its last move. -/
theorem Nears.exists_yields (h : Nears s.anew token p) {tree : SyntaxTree}
    (hdone : Parser.step s p token = .done tree) :
    ∃ fresh, s.anew.Yields fresh ∧ fresh.root.plain = tree.root.plain := by
  obtain ⟨q, hreaches, hplain⟩ := h
  have hmove := move_step s p token
  rw [hdone] at hmove
  have hreuse : ∀ next, s.table.action p.state token.symbol = .shift next →
      toReuse? s p token = none := by
    intro next hshift
    cases hmove with
    | accept action => exact nomatch action.symm.trans hshift
    | abandon action => exact nomatch action.symm.trans hshift
  have halike := alike_step hplain hreuse
  rw [hdone] at halike
  cases hlast : Parser.step s.anew q token with
  | more token' q' =>
    rw [hlast] at halike
    cases halike
  | done fresh =>
    rw [hlast] at halike
    cases halike with
    | done hsame =>
      have hrun : run s.anew 1 token q = some fresh := by
        rw [run, hlast]
      exact ⟨fresh, hreaches.yields hrun, hsame⟩

end Parser

variable {g : PreparedGrammar} {l : Language} {s : Setting}

/-- The settings of texts that are parsed, or parsed again after edits, where no text but the last one
made the parser give up a token when it was fresh. A token is given up when no way on is found within
the window. A node that is reduced before the next token remembers neither that nor how far the search
looked, so it may be taken over where the search ends in another way. -/
inductive Setting.Unbroken (l : Language) : Setting → Prop where
  | fresh (text : List Char) (window : Nat) : Unbroken l (.fresh l text window)
  | edited {s : Setting} {old : SyntaxTree} {edits : List Edit} {set : EditSet} {text : List Char}
      {window : Nat} (before : Unbroken l s) (keeps : ¬ s.anew.GivesUp) (yields : s.Yields old)
      (accepted : EditSet.of edits (byteLength old.text) (byteLength text) = .ok set)
      (turns : set.Turns old.text text) : Unbroken l (.edited old set text window)

/-- A parser that meets no error gives up no token. -/
theorem not_givesUp_of_clean (hg : g.Compiles s.table) (hreuse : s.reuse = none) {tree : SyntaxTree}
    (hyields : s.Yields tree) (hclean : tree.hasError = false) : ¬ s.GivesUp := by
  rintro ⟨token, p, hreaches, haction, -⟩
  exact hreaches.action_ne_error hg hreuse hyields hclean haction

/-- An unbroken chain of edits is one of truthful edits. -/
theorem Setting.Unbroken.genuine (h : s.Unbroken l) : s.Genuine l := by
  induction h with
  | fresh text window => exact .fresh text window
  | edited before keeps yields accepted turns ih => exact .edited ih yields accepted turns

/-- The subtrees of the tree of a fresh text would grow again. -/
theorem allRegrow_of_yields {o : Setting} (hg : g.Compiles o.table) (hk : o.language.KeepsAccount)
    (hreuse : o.reuse = none) (hkeeps : ¬ o.GivesUp) {tree : SyntaxTree} (hyields : o.Yields tree) :
    Parser.AllRegrow o [] tree.root.children := by
  obtain ⟨token, p, hreaches, hdone⟩ := hyields.exists_last
  have hsteady := hreaches.steady hg hk hreuse hkeeps
  exact Parser.regrow_of_done hg (hreaches.sound_of_fresh hg hreuse).1
    (hreaches.covers_of_fresh hg hreuse) hsteady.regrow hdone

/-- A tree that is parsed again is, apart from its history, that of the fresh text. -/
theorem Setting.Unbroken.exists_plain (hg : g.Compiles l.table) (hl : l.IsHonest)
    (hk : l.KeepsAccount) (hs : s.Unbroken l) {tree : SyntaxTree} (hyields : s.Yields tree) :
    ∃ fresh, s.anew.Yields fresh ∧ fresh.root.plain = tree.root.plain := by
  induction hs generalizing tree with
  | fresh text window => exact ⟨tree, hyields, rfl⟩
  | @edited s old edits set text window before keeps yields accepted turns ih =>
    obtain ⟨fresh, hfresh, hplain⟩ := ih yields
    obtain ⟨hlanguage, hfilling⟩ := before.genuine.filling
    obtain ⟨hsame, htext, -⟩ := yields.fills hfilling
    have hs : (Setting.edited old set text window).Genuine l :=
      .edited before.genuine yields accepted turns
    have hremembers : Parser.Remembers s.anew (.edited old set text window) ⟨old.root, set⟩ := {
      language := hsame
      turns := htext ▸ turns
      regrow := ⟨fresh.root, hplain,
        allRegrow_of_yields (hlanguage ▸ hg) (hlanguage ▸ hk) rfl keeps hfresh⟩ }
    obtain ⟨token, p, hreaches, hdone⟩ := hyields.exists_last
    exact (hreaches.nears (hlanguage ▸ hg) (hlanguage ▸ hl) (hlanguage ▸ hk) hremembers rfl
      (hs.truthful hg _ rfl)).exists_yields hdone

/-- **What is parsed again looks like what is parsed for the first time.** In a language that keeps
account, a text that was reached by edits gets the tree that a fresh parse gives it. -/
theorem same_of_unbroken {grammar : Grammar} (hcompile : grammar.compile = .ok l.table)
    (hl : l.IsHonest) (hk : l.KeepsAccount) (hs : s.Unbroken l) {tree : SyntaxTree}
    (hyields : s.Yields tree) :
    ∃ fresh, (Setting.fresh l s.text s.window).Yields fresh ∧ tree.root.same fresh.root = true := by
  obtain ⟨g, -, hg⟩ := Grammar.exists_prepared hcompile
  obtain ⟨fresh, hfresh, hplain⟩ := hs.exists_plain hg hl hk hyields
  obtain ⟨hlanguage, -⟩ := hs.genuine.filling
  rw [Setting.anew, hlanguage] at hfresh
  exact ⟨fresh, hfresh, same_of_plain_eq hplain.symm⟩

/-- The language of sums keeps account. -/
theorem keepsAccount_sums {t : ParseTable} (hcompile : sums.compile = .ok t) :
    (Language.mk t none).KeepsAccount := by
  have hrun : (sums.compile.toOption).any (fun t =>
      !t.patterns.looksBehind && t.parts.lex.word.isNone && t.parts.lex.keywords.isEmpty &&
        t.patterns.patterns.all Regex.isChars && (List.range t.terminalCount).all fun i =>
          !t.parts.lex.isExtra ⟨i⟩ || (List.range t.parts.stateCount).all fun q =>
            t.action q ⟨i⟩ = .error) = true := by
    decide +kernel
  rw [hcompile] at hrun
  simp only [Except.toOption, Option.any_some, Bool.and_eq_true, Bool.not_eq_true',
    Option.isNone_iff_eq_none, List.isEmpty_iff, List.all_eq_true, List.mem_range] at hrun
  obtain ⟨⟨⟨⟨hbefore, hword⟩, hkeywords⟩, hchars⟩, huseless⟩ := hrun
  obtain ⟨g, -, hg⟩ := Grammar.exists_prepared hcompile
  refine Language.keepsAccount_of_sparesExtras (l := ⟨t, none⟩) hg rfl hbefore {
    useless := fun q s hs => ?_
    word := fun s hs => ?_
    keyword := fun text s hs => ?_
    examined_le := fun valid before text c hc _ =>
      Nat.le_of_eq (Lexer.examined_scanPatterns_of_isChars hchars hc) }
  · rcases Nat.lt_or_ge q t.parts.stateCount with hq | hq
    · cases hterminal : t.isTerminal s with
      | false => rw [ParseTable.action, hterminal]; rfl
      | true =>
        have hsome := huseless s.index (of_decide_eq_true hterminal)
        rw [show (Symbol.mk s.index) = s from rfl, hs, Bool.not_true, Bool.false_or,
          List.all_eq_true] at hsome
        exact of_decide_eq_true (hsome q (List.mem_range.mpr hq))
    · exact ParseTable.action_of_le hq s
  · cases hword.symm.trans hs
  · rw [LexSpec.keyword?, hkeywords] at hs
    cases hs

/-- A further number at the end of the sum `1 +1`. -/
def addendEdit : Edit := .replace 4 0 3

/-- The tree of the sum `1 +1 +1`, which the sum `1 +1` was edited into, if some node of it is one of
the old tree. -/
def longerSum? : Option SyntaxTree :=
  (sumTree? "1 +1".toList).bind fun old => if old.hasError then none else
    (Parser.runFromStart (.edited old ⟨[addendEdit]⟩ "1 +1 +1".toList defaultWindow) 100).filter
      fun tree => (parts Extent.zero tree.root).any fun part =>
        !part.1.isLeaf && part.1.info.generation = 0

/-- A sum that was made longer is parsed again with what was there, and looks as if it were new. -/
theorem same_of_longer_sum : ∃ l s tree fresh, sums.compile = .ok (Language.table l) ∧
    l.KeepsAccount ∧ Setting.Unbroken l s ∧ s.text = "1 +1 +1".toList ∧ s.Yields tree ∧
    (∃ part ∈ parts Extent.zero tree.root, part.1.isLeaf = false ∧ part.1.info.generation = 0) ∧
    (Setting.fresh l s.text s.window).Yields fresh ∧ tree.root.same fresh.root = true := by
  have hrun : longerSum?.isSome = true := by decide +kernel
  obtain ⟨tree, htree⟩ := Option.isSome_iff_exists.mp hrun
  obtain ⟨old, hold, hagain⟩ := Option.bind_eq_some_iff.mp htree
  obtain ⟨t, ht, hfirst⟩ := Option.bind_eq_some_iff.mp hold
  have hcompile : sums.compile = .ok t := eq_ok_of_toOption ht
  have hyields : (Setting.fresh ⟨t, none⟩ "1 +1".toList defaultWindow).Yields old := ⟨100, hfirst⟩
  split at hagain
  · cases hagain
  rename_i hclean
  obtain ⟨hagain, hkept⟩ := Option.filter_eq_some_iff.mp hagain
  obtain ⟨part, hpart, hkept⟩ := List.any_eq_true.mp hkept
  rw [Bool.and_eq_true, Bool.not_eq_true', decide_eq_true_eq] at hkept
  have hgenuine := Setting.Genuine.fresh (l := ⟨t, none⟩) "1 +1".toList defaultWindow
  obtain ⟨htext, -⟩ := coverage_of_genuine hcompile hgenuine hyields
  replace htext : old.text = "1 +1".toList := htext
  have haccepted : EditSet.of [addendEdit] (byteLength old.text) (byteLength "1 +1 +1".toList) =
      .ok ⟨[addendEdit]⟩ := by
    rw [htext, EditSet.of, List.mergeSort_singleton]
    rfl
  have hturns : EditSet.Turns ⟨[addendEdit]⟩ old.text "1 +1 +1".toList := by
    rw [htext]
    exact ⟨utf8Bytes "1 +1".toList, [], utf8Bytes " +1".toList, [], [], by decide, by decide, rfl,
      rfl, rfl, rfl⟩
  obtain ⟨g, -, hg⟩ := Grammar.exists_prepared hcompile
  have hkeeps : ¬ (Setting.fresh ⟨t, none⟩ "1 +1".toList defaultWindow).GivesUp :=
    not_givesUp_of_clean hg rfl hyields (Bool.eq_false_iff.mpr hclean)
  have hs : (Setting.edited old ⟨[addendEdit]⟩ "1 +1 +1".toList defaultWindow).Unbroken ⟨t, none⟩ :=
    .edited (.fresh "1 +1".toList defaultWindow) hkeeps hyields haccepted hturns
  have hk := keepsAccount_sums hcompile
  have hhonest : (Language.mk t none).IsHonest := by
    intro x hx
    cases hx
  obtain ⟨fresh, hfresh, hsame⟩ := same_of_unbroken hcompile hhonest hk hs ⟨100, hagain⟩
  exact ⟨_, _, tree, fresh, hcompile, hk, hs, rfl, ⟨100, hagain⟩, ⟨part, hpart, hkept⟩, hfresh,
    hsame⟩

/-- Two readings of an `a`, told apart by what follows it. What looks like the first one as far as
`b  d` may turn out to be followed by one long extra. -/
def lookouts : Grammar where
  name := "lookouts"
  rules := [
    ("s", .choice [.seq [.reference "x", .literal "b", .literal "d"],
      .seq [.reference "y", .literal "c"]]),
    ("x", .seq [.literal "a"]),
    ("y", .seq [.literal "a"])]
  extras := [.literal " ", .literal " b  !"]
  conflicts := []
  externals := []
  word := none

def lookoutEdits : EditSet := ⟨[.ofBytes 5 6 7]⟩

/-- The subtree for `x` is taken over, though the text behind it is no longer read as before. -/
theorem not_same_lookouts : ∃ l old tree fresh, lookouts.compile = .ok (Language.table l) ∧
    l.IsHonest ∧ l.table.patterns.looksBehind = false ∧
    (Setting.fresh l "a b  d".toList defaultWindow).Yields old ∧
    EditSet.of [.ofBytes 5 6 7] (Text.byteLength old.text) (Text.byteLength "a b  !c".toList) =
      .ok lookoutEdits ∧
    lookoutEdits.Turns old.text "a b  !c".toList ∧
    (Setting.edited old lookoutEdits "a b  !c".toList defaultWindow).Yields tree ∧
    (Setting.fresh l "a b  !c".toList defaultWindow).Yields fresh ∧
    tree.root.same fresh.root = false := by
  have hrun : (lookouts.compile.toOption).any (fun t =>
      (Parser.runFromStart (.fresh ⟨t, none⟩ "a b  d".toList defaultWindow) 100).any fun old =>
      (Parser.runFromStart (.edited old lookoutEdits "a b  !c".toList defaultWindow) 100).any
        fun tree =>
      (Parser.runFromStart (.fresh ⟨t, none⟩ "a b  !c".toList defaultWindow) 100).any fun fresh =>
        !t.patterns.looksBehind && decide (old.text = "a b  d".toList) &&
          !tree.root.same fresh.root) = true := by
    decide +kernel
  obtain ⟨t, ht, hrun⟩ := (Option.any_eq_true ..).mp hrun
  obtain ⟨old, hold, hrun⟩ := (Option.any_eq_true ..).mp hrun
  obtain ⟨tree, htree, hrun⟩ := (Option.any_eq_true ..).mp hrun
  obtain ⟨fresh, hfresh, hrun⟩ := (Option.any_eq_true ..).mp hrun
  simp only [Bool.and_eq_true, Bool.not_eq_true', decide_eq_true_eq] at hrun
  obtain ⟨⟨hbehind, htext⟩, hsame⟩ := hrun
  have hhonest : (Language.mk t none).IsHonest := by
    intro x hx
    cases hx
  refine ⟨⟨t, none⟩, old, tree, fresh, eq_ok_of_toOption ht, hhonest, hbehind, ⟨100, hold⟩, ?_, ?_,
    ⟨100, htree⟩, ⟨100, hfresh⟩, hsame⟩
  · rw [htext]
    decide +kernel
  · rw [htext]
    exact ⟨Text.utf8Bytes "a b  ".toList, Text.utf8Bytes "d".toList, Text.utf8Bytes "!c".toList, [],
      [], by decide, by decide, rfl, rfl, rfl, rfl⟩

end LRWorkbench.Parsing
