import LRWorkbench.Proofs.Lexing.Stray
import LRWorkbench.Proofs.Parsing.Lookups
import LRWorkbench.Proofs.Parsing.Sketch

/-!
# Parsers that look alike

Two parsers in two texts look alike if the same is seen of them, one a number of bytes further on
(`Parser.Like`). They stay alike if they find tokens of which the same is seen: both let extras wait,
reduce and shift in the same way.

So if the tokens in front of a place are found again in another text with the same beginning, the run
of that text gets to the place as well, and looks alike there (`Looks.exists_like`). And where the same
text follows the same is read (`LikeApart.reads`).
-/

namespace LRWorkbench

/-- Whether a token is found again, a number of bytes further on. -/
structure Token.Again (ahead : Nat) (token token' : Token) : Prop where
  symbol_eq : token'.symbol = token.symbol
  isExtra_eq : token'.isExtra = token.isExtra
  start_eq : token'.start = token.start + ahead
  stop_eq : token'.stop = token.stop + ahead

namespace Parsing

open Lalr PreparedGrammar Subtree Text

/-- Settings of one language have one table. -/
theorem Setting.table_eq {s s' : Setting} (hlanguage : s'.language = s.language) :
    s'.table = s.table :=
  congrArg Language.table hlanguage

theorem Setting.compiles {g : PreparedGrammar} {s s' : Setting}
    (hlanguage : s'.language = s.language) (hg : g.Compiles s.table) : g.Compiles s'.table :=
  table_eq hlanguage ▸ hg

/-- Whether the same is seen of two tokens, one a number of bytes further on. -/
structure LikeToken (s s' : Setting) (ahead : Nat) (token token' : Token) : Prop where
  outline_eq : s'.leafOutline token' = s.leafOutline token
  stop_eq : token'.stop = token.stop + ahead

section

variable {s s' : Setting} {ahead : Nat} {token token' : Token}

theorem LikeToken.symbol_eq (h : LikeToken s s' ahead token token') :
    token'.symbol = token.symbol := by
  have heq := h.outline_eq
  rw [Setting.leafOutline, Setting.leafOutline] at heq
  injection heq

theorem LikeToken.isExtra_eq (h : LikeToken s s' ahead token token') :
    token'.isExtra = token.isExtra := by
  have heq := h.outline_eq
  rw [Setting.leafOutline, Setting.leafOutline] at heq
  injection heq

/-- What is found again and takes the same piece of the text looks alike. -/
theorem LikeToken.of_again (h : token.Again ahead token')
    {front piece rest front' rest' : List Char} (htakes : token.Takes s.text front piece rest)
    (htext' : s'.text = front' ++ piece ++ rest') (hfront' : byteLength front' = byteLength front + ahead) :
    LikeToken s s' ahead token token' where
  outline_eq := by
    have hslice : slice token'.start token'.stop s'.text = slice token.start token.stop s.text := by
      rw [htakes.text_eq, htakes.start_eq, htakes.stop_eq, slice_append, htext', h.start_eq,
        h.stop_eq, htakes.start_eq, htakes.stop_eq, Nat.add_right_comm, ← hfront', slice_append]
    rw [Setting.leafOutline, Setting.leafOutline, hslice, h.symbol_eq, h.isExtra_eq]
  stop_eq := h.stop_eq

end

namespace Parser

/-- Whether the same is seen of two parsers, one a number of bytes further on. -/
structure Like (ahead : Nat) (p p' : Parser) : Prop where
  sketch_eq : p'.sketch = p.sketch
  position_eq : p'.position = p.position + ahead
  scanner_eq : p'.scanner = p.scanner
  lexState_eq : p'.lexState = p.lexState

/-- Whether the same is seen of the stacks of two parsers, and also of what waits. -/
structure LikeApart (ahead : Nat) (p p' : Parser) : Prop extends Like ahead p p' where
  stack_eq : Stack.sketch p'.stack = Stack.sketch p.stack
  pending_eq : p'.pending.map (·.1.outline) = p.pending.map (·.1.outline)

variable {g : PreparedGrammar} {s s' : Setting} {ahead : Nat} {p p' q q' r : Parser}
variable {token token' : Token} {count : Nat} {u u' v : List Char}

theorem sketch_eq_of_apart (hstack : Stack.sketch p'.stack = Stack.sketch p.stack)
    (hpending : p'.pending.map (·.1.outline) = p.pending.map (·.1.outline)) :
    p'.sketch = p.sketch := by
  have hseen (p : Parser) : p.sketch = ((p.pending.map (·.1.outline)).reverse.flatMap fun os =>
      os.reverse.map fun o => ⟨o, none⟩) ++ Stack.sketch p.stack := by
    rw [sketch, ← List.map_reverse, List.flatMap_map]
  rw [hseen, hseen, hstack, hpending]

/-! ### What is done alike -/

theorem Like.state_eq (h : Like ahead p p') (hp : p.Sound g) (hp' : p'.Sound g) :
    p'.state = p.state := by
  rw [hp.state_eq_sketch, hp'.state_eq_sketch, h.sketch_eq]

/-- The same is done with the same token. -/
theorem Like.action_eq (hlanguage : s'.language = s.language) (h : Like ahead p p') (hp : p.Sound g)
    (hp' : p'.Sound g) (htoken : LikeToken s s' ahead token token') :
    s'.table.action p'.state token'.symbol = s.table.action p.state token.symbol := by
  rw [Setting.table_eq hlanguage, h.state_eq hp hp', htoken.symbol_eq]

theorem LikeApart.lookState_eq (h : LikeApart ahead q q') (hq : q.Sound g) (hq' : q'.Sound g) :
    q'.lookState = q.lookState := by
  rw [lookState, lookState, h.lexState_eq, h.toLike.state_eq hq hq']

theorem LikeApart.wait (h : LikeApart ahead q q') (hl : s.language.scanner = none)
    (hl' : s'.language.scanner = none) (htoken : LikeToken s s' ahead (q.found s) (q'.found s')) :
    LikeApart ahead (q.wait s (q.found s)) (q'.wait s' (q'.found s')) := by
  have hpending : (q'.wait s' (q'.found s')).pending.map (·.1.outline) =
      (q.wait s (q.found s)).pending.map (·.1.outline) := by
    rw [Parser.wait, Parser.wait, List.map_append, List.map_append, h.pending_eq]
    refine congrArg (_ ++ ·) ?_
    rw [List.map_singleton, List.map_singleton, outline_leaf, outline_leaf, htoken.outline_eq]
  refine ⟨⟨sketch_eq_of_apart h.stack_eq hpending, htoken.stop_eq, ?_, h.lexState_eq⟩, h.stack_eq,
    hpending⟩
  exact (Lexer.foundWith_nextToken.scannerAfter hl').trans
    (h.scanner_eq.trans (Lexer.foundWith_nextToken.scannerAfter hl).symm)

theorem LikeApart.taken (h : LikeApart ahead q q') (hl : s.language.scanner = none)
    (hl' : s'.language.scanner = none) (htoken : LikeToken s s' ahead (q.found s) (q'.found s')) :
    LikeApart ahead (q.taken s) (q'.taken s') := by
  refine ⟨⟨h.sketch_eq, htoken.stop_eq, ?_, rfl⟩, h.stack_eq, h.pending_eq⟩
  exact (Lexer.foundWith_nextToken.scannerAfter hl').trans
    (h.scanner_eq.trans (Lexer.foundWith_nextToken.scannerAfter hl).symm)

theorem Like.shift (h : Like ahead p p') (hp : p.Sound g) (hp' : p'.Sound g)
    (htoken : LikeToken s s' ahead token token') (hextra : token.isExtra = false)
    (hsymbol : token.symbol.isError = false) (next : Nat) :
    LikeApart ahead (p.shift s next token) (p'.shift s' next token') := by
  have hstack : Stack.sketch (p'.shift s' next token').stack =
      Stack.sketch (p.shift s next token).stack := by
    rw [hp.sketch_shift hextra hsymbol, hp'.sketch_shift (htoken.isExtra_eq.trans hextra)
      (by rwa [htoken.symbol_eq]), htoken.outline_eq, h.sketch_eq]
  exact ⟨⟨sketch_eq_of_apart hstack rfl, h.position_eq, h.scanner_eq, h.lexState_eq⟩, hstack, rfl⟩

section

variable (hg : g.Compiles s.table) (hlanguage : s'.language = s.language)
include hg hlanguage

theorem Like.reduce (h : Like ahead p p') (hp : p.Sound g) (hp' : p'.Sound g)
    (htoken : LikeToken s s' ahead token token') {production : Nat}
    (haction : s.table.action p.state token.symbol = .reduce production) :
    Like ahead (p.reduce s production token) (p'.reduce s' production token') := by
  have haction' := (h.action_eq hlanguage hp hp' htoken).trans haction
  refine ⟨?_, ?_, ?_, ?_⟩
  · rw [hp.sketch_reduce hg haction, hp'.sketch_reduce (Setting.compiles hlanguage hg) haction',
      h.sketch_eq, Setting.table_eq hlanguage]
  · rw [reduce_eq_stack, reduce_eq_stack s]
    exact h.position_eq
  · rw [reduce_eq_stack, reduce_eq_stack s]
    exact h.scanner_eq
  · rw [reduce_eq_stack, reduce_eq_stack s]
    exact h.lexState_eq

theorem Like.reduces (h : Like ahead p p') (hp : p.Sound g) (hp' : p'.Sound g)
    (htoken : LikeToken s s' ahead token token') (hreduces : Reduces s token count p r) :
    ∃ r', Reduces s' token' count p' r' ∧ Like ahead r r' ∧ r'.Sound g := by
  have hg' := Setting.compiles hlanguage hg
  induction hreduces generalizing p' with
  | none p => exact ⟨p', .none p', h, hp'⟩
  | more first rest ih =>
    obtain ⟨production, haction, rfl⟩ := first.exists_action
    have haction' := (h.action_eq hlanguage hp hp' htoken).trans haction
    obtain ⟨r', hreduces', hr⟩ := ih (h.reduce hg hlanguage hp hp' htoken haction)
      (hp.reduce hg haction) (hp'.reduce hg' haction')
    exact ⟨r', .more (reducesTo_of_action hp'.viable hg' haction') hreduces', hr⟩

end

/-! ### The text before a place -/

/-- A token before a place is found alike in a text with the same beginning, if it is found again. -/
theorem Looks.likeToken (hg : g.Compiles s.table) (hlanguage : s'.language = s.language)
    {front back back' : List Char} (htext : s.text = front ++ back) (htext' : s'.text = front ++ back')
    (h : Looks s q) (h' : Looks s' q') (hlike : LikeApart 0 q q')
    (hagain : (q.found s).start < byteLength front → (q.found s).Again 0 (q.found s'))
    (hend : (q.found s).isEnd = false) (hle : (q.found s).stop ≤ byteLength front) :
    LikeToken s s' 0 (q.found s) (q'.found s') := by
  have hg' := Setting.compiles hlanguage hg
  obtain ⟨u, v, hspells⟩ := h.spells hg
  obtain ⟨piece, rest, htakes, -⟩ := takes_found hg.sparesEnd hspells.text_eq hspells.position_eq
  have hpos := byteLength_pos.mpr (piece_ne_nil htakes hend)
  have hstart := htakes.start_eq
  have hstop := htakes.stop_eq
  -- the other parser stands at the same place in the same state, so it finds the same there
  have hsame : q'.found s' = q.found s' := by
    rw [Parser.found, Parser.found, hlike.position_eq, hlike.scanner_eq,
      hlike.lookState_eq (h.sound hg) (h'.sound hg'), Nat.add_zero]
  obtain ⟨w, rfl, -⟩ := exists_of_append_eq_append (htakes.text_eq.symm.trans htext) (by
    rw [byteLength_append]
    omega)
  rw [List.append_assoc] at htext'
  rw [hsame]
  exact .of_again (hagain (by omega)) htakes htext' rfl

/-- If the tokens before a place are found again in another text with the same beginning, the run of
that text gets as far. -/
theorem Looks.exists_like (hg : g.Compiles s.table) (hlanguage : s'.language = s.language)
    (hl : s.language.scanner = none) {front back back' : List Char} (htext : s.text = front ++ back)
    (htext' : s'.text = front ++ back') (hagain : ∀ q, Looks s q →
      (q.found s).start < byteLength front → (q.found s).Again 0 (q.found s')) (h : Looks s q)
    (hle : q.position ≤ byteLength front) : ∃ q', Looks s' q' ∧ LikeApart 0 q q' := by
  have hg' := Setting.compiles hlanguage hg
  have hl' : s'.language.scanner = none := hlanguage ▸ hl
  have ht := hg.sparesEnd
  induction h with
  | start => exact ⟨Parser.start, .start, ⟨⟨rfl, rfl, rfl, rfl⟩, rfl, rfl⟩⟩
  | @wait q looks isExtra ih =>
    obtain ⟨u, v, hspells⟩ := looks.spells hg
    obtain ⟨piece, rest, htakes, hpiece, -, -⟩ := hspells.wait ht isExtra
    have hend : (q.found s).isEnd = false :=
      Bool.eq_false_iff.mpr fun hend => hpiece (htakes.isEnd_iff.mp hend)
    have hposition := hspells.position_eq
    have hstop := htakes.stop_eq
    have hwait : (q.wait s (q.found s)).position = (q.found s).stop := rfl
    obtain ⟨q', hlooks', hlike⟩ := ih (by omega)
    have htoken := looks.likeToken hg hlanguage htext htext' hlooks' hlike (hagain q looks) hend (hwait ▸ hle)
    exact ⟨_, .wait hlooks' (htoken.isExtra_eq.trans isExtra), hlike.wait hl hl' htoken⟩
  | @shift q p count next looks isExtra reduces action ih =>
    obtain ⟨u, v, hspells⟩ := looks.spells hg
    obtain ⟨piece, rest, htakes, -⟩ := takes_found ht hspells.text_eq hspells.position_eq
    have hsymbol := hg.isError_of_shift action
    have hend := hg.isEnd_of_shift action
    have hstop := htakes.stop_eq
    have hposition : (p.shift s next (q.found s)).position = (q.found s).stop := by
      rw [reduces.eq_stack]
      rfl
    rw [hposition] at hle
    obtain ⟨q', hlooks', hlike⟩ := ih (by rw [hspells.position_eq]; omega)
    have htoken := looks.likeToken hg hlanguage htext htext' hlooks' hlike (hagain q looks) hend hle
    -- the same reductions lead to the same shift
    have htaken := looks.sound_taken hg
    obtain ⟨p', reduces', hp, hsound'⟩ := (hlike.taken hl hl' htoken).toLike.reduces hg hlanguage htaken
      (hlooks'.sound_taken hg') htoken reduces
    have hsound := reduces.sound hg htaken
    have action' := (hp.action_eq hlanguage hsound hsound' htoken).trans action
    exact ⟨_, .shift hlooks' (htoken.isExtra_eq.trans isExtra) reduces' action',
      hp.shift hsound hsound' htoken isExtra hsymbol next⟩

/-! ### The text behind a place -/

section

variable (hlanguage : s'.language = s.language) (hl : s.language.scanner = none)
  (htext : s.text = u ++ v) (htext' : s'.text = u' ++ v) (hlast : u'.getLast? = u.getLast?)
  (hlength : byteLength u' = byteLength u + ahead)
include hlanguage hl htext htext' hlast hlength

/-- What is found in a text is found as well where the same text follows. -/
theorem LikeApart.found (h : LikeApart ahead q q') (hg : g.Compiles s.table) (hq : q.Sound g)
    (hq' : q'.Sound g) (hposition : q.position = byteLength u)
    (herror : (q.found s).isError = false) : LikeToken s s' ahead (q.found s) (q'.found s') := by
  obtain ⟨piece, rest, htakes, rfl⟩ := takes_found hg.sparesEnd htext hposition
  have hmoved : q'.found s' = (q.found s).moved (byteLength u) (byteLength u') := by
    rw [Parser.found, htext, hposition] at herror
    rw [Parser.found, Parser.found, Setting.table_eq hlanguage, hlanguage, htext, htext', h.position_eq, h.scanner_eq,
      h.lookState_eq hq hq', hposition, ← hlength]
    exact Lexer.nextToken_behind hl hlast herror
  have hstart := htakes.start_eq
  have hstop := htakes.stop_eq
  have hagain : (q.found s).Again ahead (q'.found s') := by
    rw [hmoved]
    exact ⟨rfl, rfl, by simp only [Token.moved]; omega, by simp only [Token.moved]; omega⟩
  rw [← List.append_assoc] at htext'
  exact .of_again hagain htakes htext' hlength

end

/-- What is read in a text is read as well where the same text follows. -/
theorem LikeApart.reads (hlanguage : s'.language = s.language) (hl : s.language.scanner = none)
    (hg : g.Compiles s.table) (h : LikeApart ahead q q') (hq : q.Sound g) (hq' : q'.Sound g)
    (htext : s.text = u ++ v) (htext' : s'.text = u' ++ v) (hlast : u'.getLast? = u.getLast?)
    (hlength : byteLength u' = byteLength u + ahead) (hposition : q.position = byteLength u)
    (hreads : Reads s q token r) (herror : token.isError = false) :
    ∃ token' r', Reads s' q' token' r' ∧ LikeToken s s' ahead token token' ∧ Like ahead r r' := by
  have hl' : s'.language.scanner = none := hlanguage ▸ hl
  induction hreads generalizing q' u u' v with
  | @extra q r first token found isExtra rest ih =>
    subst found
    have hknown : (q.found s).isError = false := by
      refine Bool.eq_false_iff.mpr fun herror => ?_
      have hnone := (Lexer.foundWith_nextToken.isError herror).2
      exact nomatch hnone.symm.trans isExtra
    have htoken := h.found hlanguage hl htext htext' hlast hlength hg hq hq' hposition hknown
    have hextra := htoken.isExtra_eq.trans isExtra
    obtain ⟨piece, back, htakes, rfl⟩ := takes_found hg.sparesEnd htext hposition
    -- both stand behind the extra
    have hbehind : s'.text = (u' ++ piece) ++ back := by rw [htext', List.append_assoc]
    have hlast : (u' ++ piece).getLast? = (u ++ piece).getLast? := by
      rw [List.getLast?_append, List.getLast?_append, hlast]
    have hlength : byteLength (u' ++ piece) = byteLength (u ++ piece) + ahead := by
      rw [byteLength_append, byteLength_append]
      omega
    obtain ⟨token', r', hreads', hlike⟩ := ih (h.wait hl hl' htoken) (hq.wait isExtra)
      (hq'.wait hextra) htakes.text_eq hbehind hlast hlength (position_wait htakes) herror
    exact ⟨token', r', .extra rfl hextra hreads', hlike⟩
  | @last q token found isExtra =>
    subst found
    have htoken := h.found hlanguage hl htext htext' hlast hlength hg hq hq' hposition herror
    exact ⟨_, _, .last rfl (htoken.isExtra_eq.trans isExtra), htoken, (h.taken hl hl' htoken).toLike⟩

end Parser

end Parsing

end LRWorkbench
