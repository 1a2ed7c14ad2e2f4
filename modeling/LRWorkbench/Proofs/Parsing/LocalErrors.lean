import LRWorkbench.Proofs.Parsing.Skipping

/-!
# Errors stay local

A character that nobody knows is put into a text that was parsed without errors. If the tokens around
it are found as before (`Stray`) and the parser goes on with the one behind it (`Harmless`) the rest of
the tree stays as it is: there is one error node, which holds the character and the extras before it,
and without it the tree is the one of the text without the character (`staysLocal_of_harmless`).

The run of the text with the character gets to it like the run of the other text, skips it, and from
there on both do the same (`Reaches.exists_like`), the one some bytes further on.
-/

namespace LRWorkbench.Parsing

open Lalr PreparedGrammar Subtree Text

/-- Whether a setting is for a text that has one character more. -/
structure Inserted (s s' : Setting) (front : List Char) (c : Char) (back : List Char) : Prop where
  language_eq : s'.language = s.language
  scanner : s.language.scanner = none
  reuse : s.reuse = none
  reuse' : s'.reuse = none
  text_eq : s.text = front ++ back
  text_eq' : s'.text = front ++ c :: back

section

variable {s s' : Setting} {front back : List Char} {c : Char} (h : Inserted s s' front c back)
include h

theorem Inserted.scanner' : s'.language.scanner = none := h.language_eq ▸ h.scanner

theorem Inserted.text_eq_append : s'.text = front ++ [c] ++ back := by
  rw [h.text_eq', List.append_assoc]
  rfl

theorem Inserted.compiles {g : PreparedGrammar} (hg : g.Compiles s.table) : g.Compiles s'.table :=
  Setting.compiles h.language_eq hg

/-- Behind the character stands what stood there before. -/
theorem Inserted.exists_behind {u v : List Char} (htext : s.text = u ++ v)
    (hlt : byteLength front < byteLength u) :
    ∃ u', s'.text = u' ++ v ∧ u'.getLast? = u.getLast? ∧
      byteLength u' = byteLength u + c.utf8Size := by
  obtain ⟨w, rfl, rfl⟩ := exists_of_append_eq_append (h.text_eq.symm.trans htext) (by omega)
  have hw : w ≠ [] := by
    rintro rfl
    rw [List.append_nil] at hlt
    exact absurd hlt (Nat.lt_irrefl _)
  refine ⟨front ++ c :: w, ?_, ?_, ?_⟩
  · rw [h.text_eq', List.append_assoc]
    rfl
  · rw [List.getLast?_append, List.getLast?_append, List.getLast?_cons,
      List.getLast?_eq_some_getLast hw]
    rfl
  · simp only [byteLength_append, byteLength_cons]
    omega

end

namespace Parser

variable {g : PreparedGrammar} {s s' : Setting} {p p' q q' : Parser} {token token' : Token}
variable {front back : List Char} {c : Char}

/-! ### Behind the character -/

section

variable (hin : Inserted s s' front c back) (hg : g.Compiles s.table) {tree : SyntaxTree}
  (hyields : s.Yields tree) (hclean : tree.hasError = false)
include hin hg hyields hclean

/-- Behind the character both runs go on alike. -/
theorem Reaches.step_like (h : Reaches s token p) (h' : Reaches s' token' p')
    (hlike : Like c.utf8Size p p') (htoken : LikeToken s s' c.utf8Size token token')
    (hle : byteLength front ≤ token.start) {token₂ : Token} {p₂ : Parser}
    (hmove : Parser.step s p token = .more token₂ p₂) :
    ∃ token₂' p₂', Parser.step s' p' token' = .more token₂' p₂' ∧ Like c.utf8Size p₂ p₂' ∧
      LikeToken s s' c.utf8Size token₂ token₂' ∧ byteLength front ≤ token₂.start ∧
        p₂'.faults = p'.faults := by
  have hg' := hin.compiles hg
  obtain ⟨hsound, hextra⟩ := h.sound_of_fresh hg hin.reuse
  obtain ⟨hsound', -⟩ := h'.sound_of_fresh hg' hin.reuse'
  have hsame := hlike.action_eq hin.language_eq hsound hsound' htoken
  have hnext := h.step hmove
  have hkind := move_step s p token
  rw [hmove] at hkind
  cases hkind with
  | @reduce production action =>
    have action' := hsame.trans action
    have hmove' : Parser.step s' p' token' = .more token' (p'.reduce s' production token') := by
      rw [Parser.step, action']
    exact ⟨token', _, hmove', hlike.reduce hg hin.language_eq hsound hsound' htoken action, htoken, hle,
      hsound'.faults_reduce hg' action'⟩
  | @shift next action fresh =>
    have action' := hsame.trans action
    have hcovers := h.covers_of_fresh hg hin.reuse
    have hend := hg.isEnd_of_shift action
    obtain ⟨u, v, hspells⟩ := hcovers.shift hend next
    have hreads := hspells.reads hg.sparesEnd
    have hposition : p.position = byteLength u := hspells.position_eq
    have hpast : byteLength front < byteLength u := by
      have hlt := (hcovers.lt_stop hend).2
      omega
    obtain ⟨u', htext', hlast, hlength⟩ := hin.exists_behind hspells.text_eq hpast
    -- no run without errors reads what is not known, so both read the same
    have herror : (read s (p.shift s next token)).1.isError = false := by
      refine Bool.eq_false_iff.mpr fun herror => ?_
      refine hnext.action_ne_error hg hin.reuse hyields hclean ?_
      rw [hreads.symbol_eq_error herror, hg.action_error]
    have hshift := hlike.shift hsound hsound' htoken hextra (hg.isError_of_shift action) next
    obtain ⟨token₂, r, hreads', htoken₂, hlike₂⟩ := hshift.reads hin.language_eq hin.scanner hg
      (hsound.shift hg hextra action)
      (hsound'.shift hg' (htoken.isExtra_eq.trans hextra) action')
      hspells.text_eq htext' hlast hlength hposition hreads herror
    have hposition' : (p'.shift s' next token').position = byteLength u' := by
      rw [hshift.position_eq, hspells.position_eq, hlength]
    have hmove' := step_of_shift hin.reuse' action'
    rw [hreads'.read_eq hg'.sparesEnd htext' hposition'] at hmove'
    refine ⟨token₂, r, hmove', hlike₂, htoken₂, ?_, hreads'.faults_eq.trans (faults_shift ..)⟩
    have hread := (hspells.read hg.sparesEnd).2
    rw [hspells.position_eq] at hread
    omega
  | takeOver action reuse =>
    obtain ⟨r, oldStart, hreused⟩ := exists_of_toReuse reuse
    cases hin.reuse.symm.trans hreused.reuse
  | resume action found => exact absurd action (h.action_ne_error hg hin.reuse hyields hclean)
  | giveUp action none isEnd => exact absurd action (h.action_ne_error hg hin.reuse hyields hclean)

/-- Behind the character both runs end alike. -/
theorem Reaches.done_like (h : Reaches s token p) (h' : Reaches s' token' p')
    (hlike : Like c.utf8Size p p') (htoken : LikeToken s s' c.utf8Size token token')
    {made : SyntaxTree} (hdone : Parser.step s p token = .done made) :
    ∃ made', Parser.step s' p' token' = .done made' ∧ made'.root.outline = made.root.outline ∧
      faultsOf Extent.zero [made'.root] = p'.faults := by
  have hg' := hin.compiles hg
  obtain ⟨hsound, -⟩ := h.sound_of_fresh hg hin.reuse
  obtain ⟨hsound', -⟩ := h'.sound_of_fresh hg' hin.reuse'
  have hkind := move_step s p token
  rw [hdone] at hkind
  cases hkind with
  | accept action =>
    have action' := (hlike.action_eq hin.language_eq hsound hsound' htoken).trans action
    have hdone' : Parser.step s' p' token' = .done (p'.accept s') := by rw [Parser.step, action']
    refine ⟨p'.accept s', hdone', ?_,
      hsound'.faultsOf_accept hg' (h'.covers_of_fresh hg' hin.reuse') action'⟩
    rw [hsound'.outline_accept hg' action', hsound.outline_accept hg action, hlike.sketch_eq,
      Setting.table_eq hin.language_eq]
  | abandon action none isEnd => exact absurd action (h.action_ne_error hg hin.reuse hyields hclean)

/-- Behind the character both runs do the same. -/
theorem Reaches.exists_like (h : Reaches s token p) (h' : Reaches s' token' p')
    (hlike : Like c.utf8Size p p') (htoken : LikeToken s s' c.utf8Size token token')
    (hle : byteLength front ≤ token.start) {fuel : Nat} (hrun : run s fuel token p = some tree) :
    ∃ tree', s'.Yields tree' ∧ tree'.root.outline = tree.root.outline ∧
      faultsOf Extent.zero [tree'.root] = p'.faults := by
  induction fuel generalizing token token' p p' with
  | zero => cases hrun
  | succ fuel ih =>
    rw [run] at hrun
    split at hrun
    · rename_i made hdone
      obtain rfl := Option.some.inj hrun
      obtain ⟨made', hdone', houtline, hfaults⟩ :=
        h.done_like hin hg hyields hclean h' hlike htoken hdone
      have hrun' : run s' 1 token' p' = some made' := by rw [run, hdone']
      exact ⟨made', h'.yields hrun', houtline, hfaults⟩
    · rename_i token₂ p₂ hmove
      obtain ⟨token₂', p₂', hmove', hlike₂, htoken₂, hle₂, hfaults⟩ :=
        h.step_like hin hg hyields hclean h' hlike htoken hle hmove
      obtain ⟨tree', hyields', houtline, hall⟩ :=
        ih (h.step hmove) (h'.step hmove') hlike₂ htoken₂ hle₂ hrun
      exact ⟨tree', hyields', houtline, hall.trans hfaults⟩

end

/-! ### The character -/

/-- The token behind a character, found while every terminal is allowed. -/
def tokenBehind (s' : Setting) (front : List Char) (c : Char) : Token :=
  Lexer.nextTokenInErrorMode s'.language s'.text (byteLength (front ++ [c])) []

/-- Whether a character that is put where a run looks for a token leaves alone what stands around
it. -/
structure Stray (s s' : Setting) (front : List Char) (c : Char) (q : Parser) : Prop where
  looks : Looks s q
  place : q.position = byteLength front
  isExtra : (q.found s).isExtra = false
  /-- The tokens and extras before it are found again. -/
  before : ∀ p, Looks s p → (p.found s).start < byteLength front →
    (p.found s).Again 0 (p.found s')
  /-- No terminal matches at it. -/
  nothing : Lexer.lex s'.language s'.text (byteLength front) [] (Lexer.allTerminals s'.table) true =
    none
  /-- Behind it the same terminal is found, and it is as long as it was. -/
  symbol_eq : (tokenBehind s' front c).symbol = (q.found s).symbol
  stop_eq : (tokenBehind s' front c).stop = (q.found s).stop + c.utf8Size

/-- Whether the parser goes on with the token behind such a character. -/
structure Harmless (s s' : Setting) (front : List Char) (c : Char) (q : Parser) : Prop
    extends Stray s s' front c q where
  /-- It is no extra, also while every terminal is allowed. -/
  notExtra : (tokenBehind s' front c).isExtra = false
  /-- It is shifted or accepted after no more reductions than are tried. -/
  few : ∃ count < 4096, ∃ p, Reduces s (q.found s) count (q.taken s) p ∧ TakesUp s p (q.found s)

/-- Whether an error node at a place holds extras of which the outlines are known, and behind them a
character that was skipped. -/
def HoldsSkipped (fault : Subtree × Extent) (extras : List Outline) (front : List Char) (c : Char) :
    Prop :=
  ∃ before leaf, fault.1.children = before ++ [leaf] ∧ before.flatMap outline = extras ∧
    stopOf fault.2 before = Extent.of front ∧ leaf.outline = [.leaf .error (Extent.of [c]) false]

/-- Whether a tree stays as it is up to one error node, which holds a character that was put where a
run looks for a token, and the extras right before it. -/
def StaysLocal (s' : Setting) (front : List Char) (c : Char) (q : Parser) (tree : SyntaxTree) : Prop :=
  ∃ tree' fault, s'.Yields tree' ∧ faultsOf Extent.zero [tree'.root] = [fault] ∧
    HoldsSkipped fault ((q.pending.map (·.1)).flatMap outline) front c ∧
    tree'.root.outline = tree.root.outline

/-! ### Checking it -/

/-- Finds out whether a token is found again. -/
def isAgain (ahead : Nat) (token token' : Token) : Bool :=
  token'.symbol = token.symbol && token'.isExtra = token.isExtra &&
    token'.start = token.start + ahead && token'.stop = token.stop + ahead

theorem again_of_isAgain {ahead : Nat} (h : isAgain ahead token token' = true) :
    token.Again ahead token' := by
  simp only [isAgain, Bool.and_eq_true, decide_eq_true_eq] at h
  exact ⟨h.1.1.1, h.1.1.2, h.1.2, h.2⟩

/-- Finds out whether a character leaves alone what stands behind it. -/
def isStray (s s' : Setting) (front : List Char) (c : Char) (q : Parser) : Bool :=
  q.position = byteLength front && !(q.found s).isExtra &&
    (Lexer.lex s'.language s'.text (byteLength front) [] (Lexer.allTerminals s'.table) true).isNone &&
    (tokenBehind s' front c).symbol = (q.found s).symbol &&
    (tokenBehind s' front c).stop = (q.found s).stop + c.utf8Size

theorem stray_of_isStray (hlooks : Looks s q) (hbefore : ∀ p, Looks s p →
      (p.found s).start < byteLength front → (p.found s).Again 0 (p.found s'))
    (h : isStray s s' front c q = true) : Stray s s' front c q := by
  simp only [isStray, Bool.and_eq_true, decide_eq_true_eq, Bool.not_eq_true',
    Option.isNone_iff_eq_none] at h
  obtain ⟨⟨⟨⟨hplace, hextra⟩, hnothing⟩, hsymbol⟩, hstop⟩ := h
  exact ⟨hlooks, hplace, hextra, hbefore, hnothing, hsymbol, hstop⟩

/-- Finds out whether a character is stray behind an extra that the text begins with. -/
def isStrayBehindExtra (s s' : Setting) (front : List Char) (c : Char) : Bool :=
  (start.found s).isExtra && (start.found s).stop = byteLength front &&
    isAgain 0 (start.found s) (start.found s') && isStray s s' front c (start.wait s (start.found s))

theorem stray_of_isStrayBehindExtra (hg : g.Compiles s.table)
    (h : isStrayBehindExtra s s' front c = true) :
    Stray s s' front c (start.wait s (start.found s)) := by
  simp only [isStrayBehindExtra, Bool.and_eq_true, decide_eq_true_eq] at h
  obtain ⟨⟨⟨hextra, hstop⟩, hagain⟩, hstray⟩ := h
  refine stray_of_isStray (.wait .start hextra) (fun p hp hlt => ?_) hstray
  rcases hp.eq_start_or hg with rfl | hle
  · exact again_of_isAgain hagain
  · rw [hp.start_eq hg] at hlt
    omega

theorem harmless_of_canResume (hg : g.Compiles s.table) (h : Stray s s' front c q)
    (hextra : (tokenBehind s' front c).isExtra = false)
    (hfollows : canResume s.table (q.found s).symbol maxReductions (Stack.grammarStates q.stack) =
      true) : Harmless s s' front c q :=
  ⟨h, hextra, (canResume_iff_reduces (p := q.taken s) hg maxReductions
    (h.looks.sound_taken hg).viable).mp hfollows⟩

/-! ### Getting over it -/

theorem Harmless.symbol_ne_error (h : Harmless s s' front c q) (hg : g.Compiles s.table) :
    (q.found s).symbol ≠ .error := by
  intro hsymbol
  obtain ⟨-, -, p, -, htakes⟩ := h.few
  rw [TakesUp, hsymbol, hg.action_error] at htakes
  rcases htakes with ⟨next, hnext⟩ | haccept
  · cases hnext
  · cases haccept

section

variable (h : Harmless s s' front c q) (hin : Inserted s s' front c back) (hg : g.Compiles s.table)
include h hin hg

/-- Some terminal matches behind the character, unless the text ends there. -/
theorem Harmless.isSome_lex (hback : back ≠ []) : (Lexer.lex s'.language (front ++ [c] ++ back)
    (byteLength (front ++ [c])) [] (Lexer.allTerminals s'.language.table) true).isSome := by
  have hmode := (Lexer.nextToken_eq_getD s'.language (front ++ [c]) hback []
    (Lexer.allTerminals s'.language.table)).2
  have hsymbol := h.symbol_eq
  rw [tokenBehind, hin.text_eq_append, hmode] at hsymbol
  rw [← Option.ne_none_iff_isSome]
  intro hnone
  rw [hnone] at hsymbol
  exact h.symbol_ne_error hg hsymbol.symm

/-- The character is skipped. -/
theorem Harmless.exists_found (hlike : LikeApart 0 q q') (hscanner : q'.scanner = []) :
    (q'.found s').symbol = .error ∧ (q'.found s').isExtra = false ∧
      (q'.found s').scannerAfter = [] ∧ (q'.found s').Takes s'.text front [c] back := by
  have hposition : q'.position = byteLength front := hlike.position_eq.trans h.place
  have hnothing := h.nothing
  rw [hin.text_eq'] at hnothing
  obtain ⟨token, hfound, hsymbol, hstart, hstop, hextra, hafter⟩ :=
    Lexer.nextToken_of_stray hin.scanner' hnothing (h.isSome_lex hin hg) q'.lookState
  have heq : q'.found s' = token := by
    rw [Parser.found, hin.text_eq', hposition, hscanner]
    exact hfound
  rw [heq]
  refine ⟨hsymbol, hextra, hafter, hin.text_eq_append, hstart, ?_, ?_, fun hnil => ?_,
    fun _ => List.cons_ne_nil _ _⟩
  · rw [hstop, byteLength_append]
  · rw [Token.isEnd_iff_symbol, hsymbol]
    exact iff_of_false (by decide) (List.cons_ne_nil _ _)
  · cases hnil

/-- Once it is skipped, an error node holds it and the extras before it. -/
theorem Harmless.holdsSkipped (hlike : LikeApart 0 q q') (hlooks' : Looks s' q') (next : Token) :
    HoldsSkipped (errorAround s' (q'.taken s') (q'.found s') next,
      stopOf Extent.zero (Stack.subtrees (q'.taken s').stack))
      ((q.pending.map (·.1)).flatMap outline) front c := by
  obtain ⟨hsymbol, hextra, -, htakes⟩ :=
    h.exists_found hin hg hlike (hlooks'.scanner_eq hin.scanner')
  obtain ⟨u, v, hspells⟩ := hlooks'.spells (hin.compiles hg)
  obtain ⟨rfl, -⟩ := eq_of_append_eq_append (hspells.text_eq.symm.trans hin.text_eq')
    (hspells.position_eq.symm.trans (hlike.position_eq.trans h.place))
  refine ⟨q'.pending.map (·.1), s'.leaf (q'.found s') q'.state q'.state true, rfl, ?_, ?_, ?_⟩
  · rw [List.flatMap_def, List.flatMap_def, List.map_map, List.map_map]
    exact congrArg List.flatten hlike.pending_eq
  · have hstop := hspells.content.stopOf_eq (w := [])
    rw [Parser.content, stopOf, List.foldl_append] at hstop
    exact hstop
  · rw [outline_leaf, Setting.leafOutline, hsymbol, hextra, htakes.start_eq, htakes.stop_eq,
      htakes.text_eq, slice_append]

/-- The token is found again behind the character. -/
theorem Harmless.again : (q.found s).Again c.utf8Size (tokenBehind s' front c) where
  symbol_eq := h.symbol_eq
  isExtra_eq := h.notExtra.trans h.isExtra.symm
  start_eq := by
    obtain ⟨piece, rest, htakes⟩ := Lexer.takes_nextTokenInErrorMode (l := s'.language)
      (hin.compiles hg).sparesEnd (front ++ [c]) back []
    rw [tokenBehind, hin.text_eq_append, htakes.start_eq, h.looks.start_eq hg, h.place, byteLength_append]
    rfl
  stop_eq := h.stop_eq

/-- The token that is found again behind the character looks alike. -/
theorem Harmless.likeToken (hagain : (q.found s).Again c.utf8Size token') :
    LikeToken s s' c.utf8Size (q.found s) token' := by
  obtain ⟨u, v, hspells⟩ := h.looks.spells hg
  obtain ⟨piece, rest, htakes, rfl⟩ := takes_found hg.sparesEnd hspells.text_eq hspells.position_eq
  obtain ⟨rfl, rfl⟩ := eq_of_append_eq_append (hspells.text_eq.symm.trans hin.text_eq)
    (hspells.position_eq.symm.trans h.place)
  have htext' : s'.text = u ++ [c] ++ piece ++ rest := by
    rw [hin.text_eq']
    simp
  exact .of_again hagain htakes htext' (byteLength_append ..)

omit hin in
/-- The token that is found again behind the character can follow. -/
theorem Harmless.canResume_eq (hlike : LikeApart 0 q q') : canResume s.table (q.found s).symbol
    maxReductions (Stack.grammarStates (q'.taken s').stack) = true := by
  have hstates : Stack.grammarStates q'.stack = Stack.grammarStates q.stack := by
    rw [grammarStates_eq_sketch, grammarStates_eq_sketch, hlike.sketch_eq]
  change canResume _ _ _ (Stack.grammarStates q'.stack) = true
  rw [hstates]
  exact (canResume_iff_reduces (p := q.taken s) hg maxReductions (h.looks.sound_taken hg).viable).mpr
    h.few

/-- **The run gets over the character.** -/
theorem Harmless.exists_skip (hwindow : 1 ≤ s'.window) : ∃ token' p' fault, Reaches s' token' p' ∧
    Like c.utf8Size (q.taken s) p' ∧ LikeToken s s' c.utf8Size (q.found s) token' ∧
      p'.faults = [fault] ∧ HoldsSkipped fault ((q.pending.map (·.1)).flatMap outline) front c := by
  have hl' := hin.scanner'
  have hg' := hin.compiles hg
  obtain ⟨q', hlooks', hlike⟩ := Looks.exists_like hg hin.language_eq hin.scanner hin.text_eq
    hin.text_eq' h.before h.looks (Nat.le_of_eq h.place)
  obtain ⟨hsymbol, hextra, hafter, htakes⟩ :=
    h.exists_found hin hg hlike (hlooks'.scanner_eq hl')
  -- the token behind the character is the one that was found
  have hbehind : (q'.taken s').foundBehind s' = tokenBehind s' front c := by
    have hposition : (q'.taken s').position = byteLength (front ++ [c]) := by
      rw [byteLength_append]
      exact htakes.stop_eq
    rw [foundBehind, hposition, tokenBehind]
    exact congrArg _ hafter
  have hagain := h.again hin hg
  rw [← hbehind] at hagain
  have hfollows := h.canResume_eq hg hlike
  rw [← Setting.table_eq hin.language_eq, ← hagain.symbol_eq] at hfollows
  obtain ⟨place, hstep⟩ :=
    step_of_skip hg' hsymbol hwindow (hagain.isExtra_eq.trans h.isExtra) hfollows
  have hpending := hlooks'.isExtra_of_mem
  have hreaches := hlooks'.reaches hg' hin.reuse' hextra
  refine ⟨_, _, _, hreaches.step hstep, ⟨?_, hagain.stop_eq, ?_, rfl⟩,
    h.likeToken hin hg ⟨hagain.symbol_eq, hagain.isExtra_eq, hagain.start_eq, hagain.stop_eq⟩,
    faults_skip (hlooks'.faults_eq_nil hg') hpending place, h.holdsSkipped hin hg hlike hlooks' _⟩
  · exact (sketch_skip hpending hextra place).trans hlike.sketch_eq
  · have hq := h.looks.scanner_eq hin.scanner
    exact ((Lexer.foundWith_nextTokenInErrorMode.scannerAfter hl').trans hafter).trans
      ((Lexer.foundWith_nextToken.scannerAfter hin.scanner).trans hq).symm

end

end Parser

/-- **Errors stay local.** A character is put where a run without errors looks for a token that is no
extra. If it leaves alone what stands around it, and the parser goes on with the token, the tree of the
new text has one error node, which holds the character and the extras right before it; without it the
tree is that of the old text. -/
theorem staysLocal_of_harmless {grammar : Grammar} {l : Language}
    (hcompile : grammar.compile = .ok l.table) (hl : l.scanner = none) {front back : List Char}
    {c : Char} {window window' : Nat} (hwindow : 1 ≤ window') {tree : SyntaxTree} {q : Parser}
    (hyields : (Setting.fresh l (front ++ back) window).Yields tree) (hclean : tree.hasError = false)
    (hharmless : Parser.Harmless (.fresh l (front ++ back) window)
      (.fresh l (front ++ c :: back) window') front c q) :
    Parser.StaysLocal (.fresh l (front ++ c :: back) window') front c q tree := by
  obtain ⟨g, -, hg⟩ := Grammar.exists_prepared hcompile
  have hin : Inserted (.fresh l (front ++ back) window) (.fresh l (front ++ c :: back) window') front c
    back := ⟨rfl, hl, rfl, rfl, rfl, rfl⟩
  obtain ⟨token', p', fault, hreaches', hlike, htoken, hfaults, hholds⟩ :=
    hharmless.exists_skip hin hg hwindow
  have hreaches := hharmless.looks.reaches hg rfl hharmless.isExtra
  obtain ⟨fuel, hrun⟩ := hreaches.exists_run hyields
  have hle : byteLength front ≤ (q.found (.fresh l (front ++ back) window)).start := by
    rw [hharmless.looks.start_eq hg, hharmless.place]
  obtain ⟨tree', hyields', houtline, hall⟩ :=
    hreaches.exists_like hin hg hyields hclean hreaches' hlike htoken hle hrun
  exact ⟨tree', fault, hyields', hall.trans hfaults, hholds, houtline⟩

/-- The character that is put behind the blank in ` 1+1` stays in an error node with the blank. -/
theorem staysLocal_sum : ∃ l tree q, sums.compile = .ok (Language.table l) ∧ l.scanner = none ∧
    (Setting.fresh l ([' '] ++ "1+1".toList) 1).Yields tree ∧ tree.hasError = false ∧
    Parser.Harmless (.fresh l ([' '] ++ "1+1".toList) 1) (.fresh l ([' '] ++ '?' :: "1+1".toList) 1)
      [' '] '?' q ∧
    Parser.StaysLocal (.fresh l ([' '] ++ '?' :: "1+1".toList) 1) [' '] '?' q tree := by
  have hrun : (sums.compile.toOption).any (fun t =>
      let s := Setting.fresh ⟨t, none⟩ ([' '] ++ "1+1".toList) 1
      let s' := Setting.fresh ⟨t, none⟩ ([' '] ++ '?' :: "1+1".toList) 1
      let q := Parser.start.wait s (Parser.start.found s)
      (Parser.runFromStart s 100).any (fun tree => !tree.hasError) &&
        Parser.isStrayBehindExtra s s' [' '] '?' && !(Parser.tokenBehind s' [' '] '?').isExtra &&
        Parser.canResume t (q.found s).symbol Parser.maxReductions (Stack.grammarStates q.stack)) =
      true := by
    decide +kernel
  obtain ⟨t, ht, hcheck⟩ := (Option.any_eq_true ..).mp hrun
  simp only [Bool.and_eq_true, Bool.not_eq_true'] at hcheck
  obtain ⟨⟨⟨htree, hstray⟩, hextra⟩, hfollows⟩ := hcheck
  obtain ⟨tree, hyields, hclean⟩ := (Option.any_eq_true ..).mp htree
  rw [Bool.not_eq_true'] at hclean
  have hcompile : sums.compile = .ok t := eq_ok_of_toOption ht
  obtain ⟨g, -, hg⟩ := Grammar.exists_prepared hcompile
  have hharmless := Parser.harmless_of_canResume hg (Parser.stray_of_isStrayBehindExtra hg hstray)
    hextra hfollows
  exact ⟨⟨t, none⟩, tree, _, hcompile, rfl, ⟨100, hyields⟩, hclean, hharmless,
    staysLocal_of_harmless hcompile rfl (Nat.le_refl 1) ⟨100, hyields⟩ hclean hharmless⟩

/-! ### Errors that spread -/

/-- Whether a stray character that is put into a text changes more of the tree than that there is an
error node for it. -/
def Spreads (l : Language) (front : List Char) (c : Char) (back : List Char) (window : Nat) : Prop :=
  ∃ tree q, (Setting.fresh l (front ++ back) window).Yields tree ∧ tree.hasError = false ∧
    Parser.Stray (.fresh l (front ++ back) window) (.fresh l (front ++ c :: back) window) front c q ∧
    ¬ Parser.StaysLocal (.fresh l (front ++ c :: back) window) front c q tree

/-- `phrase → line "b" | "b"` and `line → "\n" "a" | "\n"`, with line breaks in between. -/
def lines : Grammar where
  name := "lines"
  rules := [("phrase", .seq [.choice [.reference "line", .blank], .literal "b"]),
    ("line", .seq [.literal "\n", .choice [.literal "a", .blank]])]
  extras := [.literal "\n"]
  conflicts := []
  externals := []
  word := none

/-- The line break makes a line, but behind a stray character it is an extra. -/
theorem spreads_lines : ∃ l, lines.compile = .ok (Language.table l) ∧ l.scanner = none ∧
    Spreads l [] '?' "\nb".toList 1 := by
  have hrun : (lines.compile.toOption).any (fun t =>
      let s := Setting.fresh ⟨t, none⟩ ([] ++ "\nb".toList) 1
      let s' := Setting.fresh ⟨t, none⟩ ([] ++ '?' :: "\nb".toList) 1
      Parser.isStray s s' [] '?' Parser.start &&
        (Parser.runFromStart s 100).any fun tree => !tree.hasError &&
          (Parser.runFromStart s' 100).any fun tree' =>
            tree'.root.outline.map (·.production?) ≠ tree.root.outline.map (·.production?)) = true := by
    decide +kernel
  obtain ⟨t, ht, hcheck⟩ := (Option.any_eq_true ..).mp hrun
  obtain ⟨hstray, htrees⟩ := Bool.and_eq_true_iff.mp hcheck
  obtain ⟨tree, hyields, htrees⟩ := (Option.any_eq_true ..).mp htrees
  obtain ⟨hclean, htree'⟩ := Bool.and_eq_true_iff.mp htrees
  obtain ⟨tree', hyields', hne⟩ := (Option.any_eq_true ..).mp htree'
  rw [Bool.not_eq_true'] at hclean
  refine ⟨⟨t, none⟩, eq_ok_of_toOption ht, rfl, tree, Parser.start, ⟨100, hyields⟩, hclean,
    Parser.stray_of_isStray .start (fun _ _ hlt => absurd hlt (Nat.not_lt_zero _)) hstray, ?_⟩
  rintro ⟨other, fault, ⟨fuel, hother⟩, -, -, houtline⟩
  obtain rfl := Parser.run_unique hother hyields'
  rw [houtline] at hne
  exact absurd rfl (of_decide_eq_true hne)

/-! ### Many reductions -/

/-- Whether a table, before a terminal, makes phrases of nothing, each of two of the one before it. The
phrases up to a number can be made in a place of that number. -/
structure Doubles (t : ParseTable) (symbol : Symbol) (levels : Nat) (place : Nat → Nat)
    (made : Nat → Nat → Nat) : Prop where
  nothing : ∀ j ≤ levels, t.afterReduction? symbol [place j] = some [made 0 j, place j]
  first : ∀ i j, i < j → j ≤ levels → made i j = place i
  second : ∀ i j, i < j → j ≤ levels →
    t.afterReduction? symbol [made i i, place i, place j] = some [made (i + 1) j, place j]

/-- Each phrase takes twice as many reductions as the one before it, and one more. -/
theorem Doubles.afterReductions? {t : ParseTable} {symbol : Symbol} {levels : Nat} {place : Nat → Nat}
    {made : Nat → Nat → Nat} (h : Doubles t symbol levels place made) {i j : Nat} (hij : i ≤ j)
    (hj : j ≤ levels) :
    t.afterReductions? symbol (2 ^ (i + 1) - 1) [place j] = some [made i j, place j] := by
  induction i generalizing j with
  | zero =>
    change (t.afterReduction? symbol [place j]).bind _ = _
    rw [h.nothing j hj]
    rfl
  | succ i ih =>
    have hcount : 2 ^ (i + 1 + 1) - 1 = (2 ^ (i + 1) - 1) + ((2 ^ (i + 1) - 1) + 1) := by
      have hpos := Nat.one_le_two_pow (n := i + 1)
      rw [Nat.pow_succ]
      omega
    have hsecond := ParseTable.afterReductions?_append (ih (Nat.le_refl i) (by omega)) [place j]
    rw [hcount, ParseTable.afterReductions?_add, ih (by omega) hj, h.first i j hij hj, Option.bind_some,
      ParseTable.afterReductions?_add]
    rw [List.cons_append, List.nil_append] at hsecond
    rw [hsecond, Option.bind_some, List.cons_append, List.cons_append, List.nil_append]
    change (t.afterReduction? symbol _).bind _ = _
    rw [h.second i j hij hj]
    rfl

/-- `phrase → e12 "a"`, `e(i+1) → e(i) e(i)` and `e0 → ε`. -/
def hollow : Grammar where
  name := "hollow"
  rules := ("phrase", .seq [.reference "_e12", .literal "a"]) :: ("_e0", .blank) ::
    (List.range 12).map fun i => ("_e" ++ toString (i + 1),
      .seq [.reference ("_e" ++ toString i), .reference ("_e" ++ toString i)])
  extras := [.literal " "]
  conflicts := []
  externals := []
  word := none

/-- The states of the table of `hollow` where the phrases up to a number can be made. -/
def hollowPlace (j : Nat) : Nat := if j = 12 then 0 else j + 2

/-- The state behind a phrase that is made in a place. -/
def hollowMade (i j : Nat) : Nat := if i < j then i + 2 else if i = 12 then 14 else i + 15

/-- Finds out whether a table is like the one of `hollow`. -/
def isHollow (t : ParseTable) (symbol : Symbol) : Bool :=
  (List.range 13).all (fun j =>
    t.afterReduction? symbol [hollowPlace j] = some [hollowMade 0 j, hollowPlace j] &&
      (List.range j).all fun i =>
        t.afterReduction? symbol [hollowMade i i, hollowPlace i, hollowPlace j] =
          some [hollowMade (i + 1) j, hollowPlace j]) &&
  t.action 14 symbol = .shift 27 && t.afterReduction? .endOfInput [27, 14, 0] = some [1, 0] &&
  t.action 1 .endOfInput = .accept

theorem doubles_of_isHollow {t : ParseTable} {symbol : Symbol} (h : isHollow t symbol = true) :
    Doubles t symbol 12 hollowPlace hollowMade := by
  simp only [isHollow, Bool.and_eq_true, decide_eq_true_eq, List.all_eq_true, List.mem_range] at h
  obtain ⟨⟨⟨hphrases, -⟩, -⟩, -⟩ := h
  refine ⟨fun j hj => (hphrases j (by omega)).1, fun i j hij hj => ?_,
    fun i j hij hj => (hphrases j (by omega)).2 i hij⟩
  rw [hollowMade, if_pos hij, hollowPlace, if_neg (by omega)]

namespace Parser

variable {g : PreparedGrammar} {s : Setting} {q : Parser}

/-- The phrases of nothing and the letter behind them are parsed without errors. -/
theorem Looks.yields_hollow (hg : g.Compiles s.table) (hfresh : s.reuse = none) (h : Looks s q)
    (hstack : q.stack = []) (hextra : (q.found s).isExtra = false)
    (hlast : (q.found s).stop = s.length) (hhollow : isHollow s.table (q.found s).symbol = true) :
    ∃ tree, s.Yields tree ∧ tree.hasError = false := by
  have hphrases := (doubles_of_isHollow hhollow).afterReductions? (Nat.le_refl 12) (Nat.le_refl 12)
  simp only [isHollow, Bool.and_eq_true, decide_eq_true_eq] at hhollow
  obtain ⟨⟨⟨-, hshift⟩, hreduce⟩, haccept⟩ := hhollow
  -- the letter is shifted behind them
  have hstates : Stack.grammarStates (q.taken s).stack = [hollowPlace 12] := by
    change Stack.grammarStates q.stack = _
    rw [hstack]
    rfl
  rw [← hstates] at hphrases
  obtain ⟨p, hreduces, hp⟩ := exists_reduces hg (h.sound_taken hg) hphrases
  have hsound := hreduces.sound hg (h.sound_taken hg)
  have haction : s.table.action p.state (q.found s).symbol = .shift 27 := by
    rw [hsound.state_eq_of_grammarStates hp]
    exact hshift
  have hnext := Looks.shift h hextra hreduces haction
  -- and the input is accepted at its end
  obtain ⟨r, hr⟩ : ∃ r, r = p.shift s 27 (q.found s) := ⟨_, rfl⟩
  rw [← hr] at hnext
  have hfound : r.found s = Lexer.endToken s.length r.scanner := by
    have hposition : r.position = s.length := by
      rw [← hlast, hr, hreduces.eq_stack]
      rfl
    rw [Parser.found, Lexer.nextToken, hposition]
    exact if_pos (Nat.le_refl _)
  have hsymbol := hg.isError_of_shift haction
  have hstates : Stack.grammarStates (r.taken s).stack = [27, 14, 0] := by
    change Stack.grammarStates r.stack = _
    rw [hr, hsound.grammarStates_shift hextra hsymbol, hp, hstates]
    rfl
  have hafter : s.table.afterReductions? (r.found s).symbol 1 (Stack.grammarStates (r.taken s).stack) =
      some [1, 0] := by
    rw [hstates, hfound]
    exact congrArg (Option.bind · _) hreduce
  obtain ⟨p', hreduces', hp'⟩ := exists_reduces hg (hnext.sound_taken hg) hafter
  have haction' : s.table.action p'.state (r.found s).symbol = .accept := by
    rw [(hreduces'.sound hg (hnext.sound_taken hg)).state_eq_of_grammarStates hp', hfound]
    exact haccept
  have hnone : (r.found s).isExtra = false := by rw [hfound]; rfl
  exact ⟨_, hnext.yields_accept hg hfresh hnone hreduces' haction'⟩

/-- Where no way is found to go on behind a skipped token, the extras before it stay outside of the
error node. -/
theorem Looks.not_staysLocal (hg : g.Compiles s.table) (hfresh : s.reuse = none) (h : Looks s q)
    (hextra : (q.found s).isExtra = false) (hsymbol : (q.found s).symbol = .error)
    (hnone : findRecovery s [] ⟨[], q.found s⟩ s.window (q.taken s) = none) {front : List Char}
    {c : Char} {other : Parser} (hextras : (other.pending.map (·.1)).flatMap outline ≠ [])
    (tree : SyntaxTree) : ¬ StaysLocal s front c other tree := by
  rintro ⟨tree', fault, hyields, hfaults, ⟨before, leaf, hchildren, houtlines, -, -⟩, -⟩
  have hreaches := h.reaches hg hfresh hextra
  have hend : (q.found s).isEnd = false := by
    rw [Token.isEnd, hsymbol]
    rfl
  have hstep : Parser.step s (q.taken s) (q.found s) =
      .more (read s (giveUpToken s (q.taken s) (q.found s))).1
        (read s (giveUpToken s (q.taken s) (q.found s))).2 := by
    rw [Parser.step, hsymbol, hg.action_error]
    dsimp only
    rw [recover, hnone]
    dsimp only
    rw [hend]
    rfl
  -- the error node comes into the tree as it is
  have hnext := hreaches.step hstep
  obtain ⟨fuel, hrun⟩ := hnext.exists_run hyields
  have hsubset := (hnext.faults_subset_of_run hg hfresh hrun).1
  obtain ⟨u, v, hspells⟩ := (hreaches.covers_of_fresh hg hfresh).giveUpToken hend
  rw [(hspells.reads hg.sparesEnd).faults_eq, faults_giveUpToken, hfaults] at hsubset
  have hfault := List.mem_singleton.mp (hsubset (List.mem_append_right _ (List.mem_singleton_self _)))
  rw [← hfault] at hchildren
  -- and there is but one subtree in it
  have hlength := congrArg List.length hchildren
  rw [List.length_append] at hlength
  have hbefore : before = [] := List.eq_nil_of_length_eq_zero (Nat.succ.inj hlength).symm
  rw [hbefore] at houtlines
  exact hextras houtlines.symm

end Parser

/-- The letter could follow behind a stray character, but only after more reductions than are tried. -/
theorem spreads_hollow : ∃ l, hollow.compile = .ok (Language.table l) ∧ l.scanner = none ∧
    Spreads l [' '] '?' ['a'] 1 := by
  have hrun : (hollow.compile.toOption).any (fun t =>
      let s := Setting.fresh ⟨t, none⟩ ([' '] ++ ['a']) 1
      let s' := Setting.fresh ⟨t, none⟩ ([' '] ++ '?' :: ['a']) 1
      let q := Parser.start.wait s (Parser.start.found s)
      let q' := Parser.start.wait s' (Parser.start.found s')
      Parser.isStrayBehindExtra s s' [' '] '?' && isHollow t (q.found s).symbol &&
        (q.found s).stop = 2 && (Parser.start.found s').isExtra &&
        (q'.found s').symbol = .error && !(q'.found s').isExtra &&
        !((q'.taken s').foundBehind s').isExtra &&
        ((q'.taken s').foundBehind s').symbol = (q.found s).symbol) = true := by
    rw [Grammar.compile_eq_listed]
    decide +kernel
  obtain ⟨t, ht, hcheck⟩ := (Option.any_eq_true ..).mp hrun
  simp only [Bool.and_eq_true, Bool.not_eq_true', decide_eq_true_eq] at hcheck
  obtain ⟨⟨⟨⟨⟨⟨⟨hstray, hhollow⟩, hstop⟩, hwaits⟩, hsymbol⟩, hextra⟩, hahead⟩, hnext⟩ := hcheck
  have hcompile : hollow.compile = .ok t := eq_ok_of_toOption ht
  obtain ⟨g, -, hg⟩ := Grammar.exists_prepared hcompile
  have hstray := Parser.stray_of_isStrayBehindExtra hg hstray
  obtain ⟨tree, hyields, hclean⟩ :=
    hstray.looks.yields_hollow hg rfl rfl hstray.isExtra hstop hhollow
  refine ⟨⟨t, none⟩, hcompile, rfl, tree, _, hyields, hclean, hstray, ?_⟩
  have hphrases := (doubles_of_isHollow hhollow).afterReductions? (Nat.le_refl 12) (Nat.le_refl 12)
  refine (Parser.Looks.wait .start hwaits).not_staysLocal hg rfl hextra hsymbol
    (Parser.findRecovery_eq_none hg hsymbol rfl hahead ?_) (by exact List.cons_ne_nil _ _) tree
  -- the stack is empty, so nothing can be taken off
  rw [hnext]
  refine List.find?_eq_none.mpr fun popped hpopped => ?_
  obtain rfl : popped = 0 := Nat.lt_one_iff.mp (List.mem_range.mp hpopped)
  have hrefused := Parser.canResume_eq_false hphrases
    (show Parser.maxReductions ≤ 2 ^ (12 + 1) - 1 by decide)
  rw [Bool.and_eq_true, not_and]
  intro _
  rw [Bool.not_eq_true]
  exact hrefused

/-- Not every stray character is harmless: the token behind it may be an extra while every terminal is
allowed, or cause more reductions than are tried. -/
theorem stray_spreads :
    (∃ l, lines.compile = .ok (Language.table l) ∧ l.scanner = none ∧
      Spreads l [] '?' "\nb".toList 1) ∧
    ∃ l, hollow.compile = .ok (Language.table l) ∧ l.scanner = none ∧ Spreads l [' '] '?' ['a'] 1 :=
  ⟨spreads_lines, spreads_hollow⟩

end LRWorkbench.Parsing
