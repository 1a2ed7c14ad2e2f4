import LRWorkbench.Proofs.Lexing.Account
import LRWorkbench.Proofs.Parsing.Coverage
import LRWorkbench.Proofs.Parsing.Plain

/-!
# What reading depends on

`Parser.Reads s p token r` says that the parser `p` reads up to `token` and then is `r`. What is
read depends on the place, the scanner and the state to look in, but not on the rest of the stack
(`Reads.congr`), and only on the text that was looked at: at a place of another text that looks
alike so far the same is read again (`Reads.moved`).
-/

namespace LRWorkbench.Parsing

open Subtree Text

/-- An entry as far behind one place as it was behind another. -/
def Entry.moved (a b : Nat) (e : Entry) : Entry := { e with start := b + (e.start - a) }

namespace Parser

variable {s s' : Setting} {p p' r r' : Parser} {token token' : Token} {front back : List Char}

/-- The state to look for the next token in. -/
def lookState (p : Parser) : Nat := p.lexState.getD p.state

/-- The next token, which may be an extra. -/
def found (p : Parser) (s : Setting) : Token :=
  Lexer.nextToken s.language s.text p.position p.scanner (s.table.validTerminals p.lookState)

/-- Lets an extra wait. -/
def wait (s : Setting) (p : Parser) (token : Token) : Parser :=
  { p.behind token with
    pending := p.pending ++ [(s.leaf token p.state p.lookState token.errorMode, token.start)] }

/-- Whether a parser reads up to a token and then is another one. -/
inductive Reads (s : Setting) : Parser → Token → Parser → Prop where
  | extra {p r : Parser} {first token : Token} (found : p.found s = first)
      (isExtra : first.isExtra = true) (rest : Reads s (p.wait s first) token r) : Reads s p token r
  | last {p : Parser} {token : Token} (found : p.found s = token) (isExtra : token.isExtra = false) :
      Reads s p token { p.behind token with lexState := none }

theorem Reads.unique (h : Reads s p token r) (h' : Reads s p token' r') :
    token' = token ∧ r' = r := by
  induction h with
  | extra found isExtra rest ih =>
    subst found
    cases h' with
    | extra found' isExtra' rest' =>
      subst found'
      exact ih rest'
    | last found' isExtra' =>
      subst found'
      rw [isExtra] at isExtra'
      cases isExtra'
  | last found isExtra =>
    subst found
    cases h' with
    | extra found' isExtra' rest' =>
      subst found'
      rw [isExtra] at isExtra'
      cases isExtra'
    | last found' isExtra' => exact ⟨found'.symm, by rw [found']⟩

theorem takes_found (hl : s.table.SparesEnd) (htext : s.text = front ++ back)
    (hposition : p.position = byteLength front) :
    ∃ piece rest, (p.found s).Takes s.text front piece rest ∧ back = piece ++ rest := by
  obtain ⟨piece, rest, htakes⟩ := Lexer.takes_nextToken (l := s.language) hl front back p.scanner
    (s.table.validTerminals p.lookState)
  rw [← htext, ← hposition] at htakes
  have hback := htext.symm.trans htakes.text_eq
  rw [List.append_assoc] at hback
  exact ⟨piece, rest, htakes, List.append_cancel_left hback⟩

theorem spec_found (htext : s.text = front ++ back) (hposition : p.position = byteLength front)
    (hmode : (p.found s).errorMode = false) :
    (p.found s).isError = false ∧ (p.found s).stop < (p.found s).lookaheadEnd := by
  rw [found, htext, hposition] at hmode ⊢
  exact Lexer.spec_of_nextToken hmode

theorem readOn_lookState (s : Setting) (p : Parser) (fuel : Nat) :
    readOn s p.lookState (fuel + 1) p =
      if (p.found s).isExtra then readOn s p.lookState fuel (p.wait s (p.found s))
      else (p.found s, { p.behind (p.found s) with lexState := none }) := by
  rw [readOn]
  rfl

theorem position_wait {piece rest : List Char}
    (htakes : (p.found s).Takes s.text front piece rest) :
    (p.wait s (p.found s)).position = byteLength (front ++ piece) := by
  rw [byteLength_append]
  exact htakes.stop_eq

theorem reads_readOn (hl : s.table.SparesEnd) (htext : s.text = front ++ back)
    (hposition : p.position = byteLength front) {fuel : Nat} (hfuel : byteLength back < fuel) :
    Reads s p (readOn s p.lookState fuel p).1 (readOn s p.lookState fuel p).2 := by
  induction fuel generalizing p front back with
  | zero => exact absurd hfuel (Nat.not_lt_zero _)
  | succ fuel ih =>
    obtain ⟨piece, rest, htakes, rfl⟩ := takes_found (s := s) hl htext hposition
    rw [readOn_lookState]
    split
    · rename_i hextra
      have hpos := byteLength_pos.mpr (htakes.extra hextra)
      rw [byteLength_append] at hfuel
      exact .extra rfl hextra (ih htakes.text_eq (position_wait htakes) (by omega))
    · rename_i hextra
      exact .last rfl (Bool.eq_false_iff.mpr hextra)

/-- What is read is what the parser reads. -/
theorem Reads.read_eq (h : Reads s p token r) (hl : s.table.SparesEnd)
    (htext : s.text = front ++ back) (hposition : p.position = byteLength front) :
    read s p = (token, r) := by
  have hfuel : byteLength back < s.length + 1 := by
    rw [Setting.length, htext, byteLength_append]
    omega
  obtain ⟨htoken, hr⟩ := h.unique (reads_readOn hl htext hposition hfuel)
  exact Prod.ext htoken hr

/-- Reading leaves the stack alone, and the parser stands right behind the token. -/
theorem Reads.behind (h : Reads s p token r) :
    r.stack = p.stack ∧ r.scanner = token.scannerAfter ∧ r.position = token.stop ∧
      r.lexState = none := by
  induction h with
  | extra found isExtra rest ih => exact ih
  | last found isExtra => exact ⟨rfl, rfl, rfl, rfl⟩

/-- The stack counts only for the state to look in. -/
theorem Reads.congr (h : Reads s p token r) (hposition : p'.position = p.position)
    (hscanner : p'.scanner = p.scanner) (hlook : p'.lookState = p.lookState)
    (hpending : p'.pending.map plainEntry = p.pending.map plainEntry) :
    ∃ r', Reads s p' token r' ∧ r'.plain = Parser.plain { r with stack := p'.stack } := by
  induction h generalizing p' with
  | @extra p r first token found isExtra rest ih =>
    have hfound : p'.found s = first := by
      rw [← found, Parser.found, Parser.found, hposition, hscanner, hlook]
    have hwait : (p'.wait s first).pending.map plainEntry =
        (p.wait s first).pending.map plainEntry := by
      rw [wait, wait, List.map_append, List.map_append, hpending, hlook]
      rfl
    have hposition' : (p'.wait s first).position = (p.wait s first).position := rfl
    have hscanner' : (p'.wait s first).scanner = (p.wait s first).scanner := rfl
    obtain ⟨r', hreads, hplain⟩ := ih hposition' hscanner' hlook hwait
    exact ⟨r', .extra hfound isExtra hreads, hplain⟩
  | @last p token found isExtra =>
    have hfound : p'.found s = token := by
      rw [← found, Parser.found, Parser.found, hposition, hscanner, hlook]
    exact ⟨_, .last hfound isExtra, plain_eq_iff.mpr ⟨rfl, hpending, rfl, rfl, rfl⟩⟩

/-! ### The extras before a token -/

theorem Reads.isExtra (h : Reads s p token r) : token.isExtra = false := by
  induction h with
  | extra found isExtra rest ih => exact ih
  | last found isExtra => exact isExtra

/-- What is read and not known has the error symbol. -/
theorem Reads.symbol_eq_error (h : Reads s p token r) (herror : token.isError = true) :
    token.symbol = .error := by
  induction h with
  | extra found isExtra rest ih => exact ih herror
  | last found isExtra =>
    subst found
    exact (Lexer.foundWith_nextToken.isError herror).1

theorem takes_wait {first : Token} (found : p.found s = first) (hl : s.table.SparesEnd)
    (htext : s.text = front ++ back) (hposition : p.position = byteLength front) :
    ∃ front back, s.text = front ++ back ∧ (p.wait s first).position = byteLength front ∧
      p.position ≤ (p.wait s first).position := by
  subst found
  obtain ⟨piece, rest, htakes, rfl⟩ := takes_found (s := s) hl htext hposition
  refine ⟨front ++ piece, rest, htakes.text_eq, position_wait htakes, ?_⟩
  rw [position_wait htakes, hposition, byteLength_append]
  exact Nat.le_add_right ..

/-- What is read lies behind the place. -/
theorem Reads.takes (h : Reads s p token r) (hl : s.table.SparesEnd)
    (htext : s.text = front ++ back) (hposition : p.position = byteLength front) :
    p.position ≤ token.start ∧ (∃ front piece rest, token.Takes s.text front piece rest) ∧
      (token.errorMode = false → token.stop < token.lookaheadEnd) := by
  induction h generalizing front back with
  | @extra p r first token found isExtra rest ih =>
    obtain ⟨front, back, htext, hplace, hle⟩ := takes_wait found hl htext hposition
    obtain ⟨hstart, hspec⟩ := ih htext hplace
    exact ⟨Nat.le_trans hle hstart, hspec⟩
  | @last p token found isExtra =>
    subst found
    obtain ⟨piece, rest, htakes, rfl⟩ := takes_found (s := s) hl htext hposition
    refine ⟨?_, ⟨front, piece, rest, htakes⟩, fun hmode => (spec_found htext hposition hmode).2⟩
    rw [htakes.start_eq, hposition]

/-- What is read is a token at its place. -/
theorem Reads.exists_nextToken (h : Reads s p token r) (hl : s.table.SparesEnd)
    (htext : s.text = front ++ back) (hposition : p.position = byteLength front) :
    ∃ q, Lexer.nextToken s.language s.text token.start token.scannerBefore
      (s.table.validTerminals q) = token := by
  induction h generalizing front back with
  | @extra p r first token found isExtra rest ih =>
    obtain ⟨front, back, htext, hplace, -⟩ := takes_wait found hl htext hposition
    exact ih htext hplace
  | @last p token found isExtra =>
    subst found
    obtain ⟨piece, rest, htakes, -⟩ := takes_found (s := s) hl htext hposition
    refine ⟨p.lookState, ?_⟩
    rw [htakes.start_eq, ← hposition, Parser.found, Lexer.foundWith_nextToken.scannerBefore]

/-- What waits are extras. -/
theorem Reads.isExtra_of_mem (h : Reads s p token r)
    (hpending : ∀ e ∈ p.pending, e.1.isExtra = true ∧ s.table.parts.lex.isExtra e.1.symbol = true) :
    ∀ e ∈ r.pending, e.1.isExtra = true ∧ s.table.parts.lex.isExtra e.1.symbol = true := by
  induction h with
  | @extra p r first token found isExtra rest ih =>
    refine ih fun e he => ?_
    rcases List.mem_append.mp he with he | he
    · exact hpending e he
    · obtain rfl := List.mem_singleton.mp he
      subst found
      exact ⟨isExtra, Lexer.foundWith_nextToken.isExtra isExtra⟩
  | last found isExtra => exact hpending

/-! ### Reading the same at another place -/

/-- Whether a subtree at a place was built from tokens that the parser had a use for and all that was
looked at lies before the end of a range. -/
def Calm (stop place : Nat) (t : Subtree) : Prop :=
  t.isFragile = false ∧ place + t.length + t.info.lookaheadBytes ≤ stop

/-- Whether a token was of use and all that was looked at lies before the end of a range. -/
structure CalmToken (stop : Nat) (token : Token) : Prop where
  errorMode : token.errorMode = false
  lookaheadEnd_le : token.lookaheadEnd ≤ stop

/-- A subtree that waits, as far behind one place as it was behind another. -/
def movedEntry (a b : Nat) (entry : Subtree × Nat) : Subtree × Nat := (entry.1, b + (entry.2 - a))

/-- A parser as far behind one place as it was behind another. -/
def moved (a b : Nat) (p : Parser) : Parser :=
  { p with
    stack := p.stack.map (Entry.moved a b)
    pending := p.pending.map (movedEntry a b)
    position := b + (p.position - a) }

/-- Whether a parser in one text does what another did in another text: from their places on the
texts agree up to the end of a range of the old text. -/
structure Mirrors (a b stop : Nat) (s s' : Setting) (p p' : Parser)
    (front back front' back' : List Char) : Prop where
  plain : p'.plain = (p.moved a b).plain
  text_eq : s.text = front ++ back
  text_eq' : s'.text = front' ++ back'
  position_eq : p.position = byteLength front
  position_eq' : p'.position = byteLength front'
  le : a ≤ p.position
  agree : Agree (stop - p.position) back back'

variable {a b stop : Nat} {front' back' piece rest : List Char}

theorem length_leaf (htakes : token.Takes s.text front piece rest) (parseState lexState : Nat)
    (isFragile : Bool) : (s.leaf token parseState lexState isFragile).length = byteLength piece := by
  change (Extent.of (slice token.start token.stop s.text)).bytes = byteLength piece
  rw [htakes.start_eq, htakes.stop_eq, htakes.text_eq, slice_append, Extent.bytes_of]

/-- The leaf of a token is calm if the token is. -/
theorem calm_leaf_iff (htakes : token.Takes s.text front piece rest)
    (hstop : token.stop < token.lookaheadEnd) (parseState lexState : Nat) :
    Calm stop token.start (s.leaf token parseState lexState token.errorMode) ↔
      CalmToken stop token := by
  have hlength := length_leaf htakes parseState lexState token.errorMode
  have hstart := htakes.start_eq
  have hend := htakes.stop_eq
  have hreach : token.start + (s.leaf token parseState lexState token.errorMode).length +
      (s.leaf token parseState lexState token.errorMode).info.lookaheadBytes =
        token.lookaheadEnd := by
    change token.start + _ + (token.lookaheadEnd - token.stop) = _
    omega
  rw [Calm, hreach]
  exact ⟨fun h => ⟨h.1, h.2⟩, fun h => ⟨h.1, h.2⟩⟩

/-- The same piece of the text makes the same leaf. -/
theorem plain_leaf_moved {front' rest' : List Char} (htakes : token.Takes s.text front piece rest)
    (htakes' : (token.moved a b).Takes s'.text front' piece rest') (ha : a ≤ token.start)
    (parseState parseState' lexState : Nat) (isFragile : Bool) :
    (s'.leaf (token.moved a b) parseState' lexState isFragile).plain =
      (s.leaf token parseState lexState isFragile).plain := by
  have hslice : ∀ {s : Setting} {token : Token} {front rest : List Char},
      token.Takes s.text front piece rest → slice token.start token.stop s.text = piece := by
    intro s token front rest htakes
    rw [htakes.start_eq, htakes.stop_eq, htakes.text_eq, slice_append]
  have hstart := htakes.start_eq
  have hstop := htakes.stop_eq
  have hlook : (token.moved a b).lookaheadEnd - (token.moved a b).stop =
      token.lookaheadEnd - token.stop := by
    simp only [Token.moved]
    omega
  rw [Setting.leaf, Setting.leaf, hslice htakes, hslice htakes', hlook]
  rfl

theorem lookState_moved (a b : Nat) (p : Parser) : (p.moved a b).lookState = p.lookState := by
  obtain ⟨stack, pending, position, scanner, lexState⟩ := p
  cases stack <;> rfl

theorem lookState_eq (h : p'.plain = p.plain) : p'.lookState = p.lookState := by
  rw [lookState, lookState, state_eq h, (plain_eq_iff.mp h).2.2.2.2]

section

variable (hlanguage : s'.language = s.language) (hl : s.language.IsHonest)
  (hk : s.language.KeepsAccount) (ht : s.table.SparesEnd)

include hlanguage hl hk ht

/-- A calm token is found again, and so the parser stands at alike places again behind it. -/
theorem Mirrors.found (h : Mirrors a b stop s s' p p' front back front' back')
    (hcalm : CalmToken stop (p.found s)) :
    p'.found s' = (p.found s).moved a b ∧ ∃ piece rest rest',
      (p.found s).Takes s.text front piece rest ∧
      ((p.found s).moved a b).Takes s'.text front' piece rest' ∧
      ∀ q q' : Parser, q'.plain = (q.moved a b).plain → q.position = (p.found s).stop →
        Mirrors a b stop s s' q q' (front ++ piece) rest (front' ++ piece) rest' := by
  obtain ⟨hplain, htext, htext', hposition, hposition', ha, hagree⟩ := h
  obtain ⟨hmode, hle⟩ := hcalm
  obtain ⟨piece, rest, htakes, rfl⟩ := takes_found ht htext hposition
  obtain ⟨-, hlt⟩ := spec_found htext hposition hmode
  obtain ⟨-, -, hmoved, hscanner, -⟩ := plain_eq_iff.mp hplain
  replace hmoved : p'.position = b + (p.position - a) := hmoved
  have hlook : p'.lookState = p.lookState := (lookState_eq hplain).trans (lookState_moved a b p)
  have hstart := htakes.start_eq
  have hstop := htakes.stop_eq
  have hbefore : Lexer.BeforeAlike s.language front.getLast? front'.getLast? := fun hbehind =>
    absurd (hk.before.symm.trans hbehind) Bool.false_ne_true
  -- The lexer looks no further than the texts agree, so it finds the same token at both places.
  have hagain : p'.found s' = (p.found s).moved a b := by
    have hlooked : Agree ((p.found s).lookaheadEnd - byteLength front) (piece ++ rest) back' := by
      rw [← hposition]
      exact hagree.mono (Nat.sub_le_sub_right hle _)
    rw [Parser.found, htext, hposition] at hmode hlooked
    have hfound := Lexer.nextToken_eq hl ht hbefore hmode hlooked
    rw [← htext, ← hposition, ← htext', ← hposition'] at hfound
    have htable : s'.table = s.table := congrArg Language.table hlanguage
    rw [Parser.found, hlanguage, htable, hlook, hscanner]
    refine hfound.trans ?_
    change (p.found s).moved _ _ = _
    simp only [Token.moved, Token.mk.injEq, true_and, and_true]
    omega
  have hfits : byteLength piece ≤ stop - p.position := by omega
  -- The token lies within what agrees, so its text stands at the other place too.
  obtain ⟨rest', rfl, hrest⟩ := hagree.append hfits
  refine ⟨hagain, piece, rest, rest', htakes, ?_, fun q q' hq hqstop => ?_⟩
  · refine ⟨?_, ?_, ?_, htakes.isEnd_iff, fun hpiece => ?_, htakes.extra⟩
    · rw [htext', List.append_assoc]
    · change b + ((p.found s).start - a) = _
      omega
    · change b + ((p.found s).stop - a) = _
      omega
    · -- at the end of one text the other ends as well
      rw [htakes.ends hpiece] at hrest
      exact hrest.eq_nil (by omega)
  · have hqposition : q'.position = b + (q.position - a) := (plain_eq_iff.mp hq).2.2.1
    refine ⟨hq, htakes.text_eq, ?_, ?_, ?_, ?_, ?_⟩
    · rw [htext', List.append_assoc]
    · rw [hqstop, hstop, byteLength_append]
    · rw [byteLength_append]
      omega
    · omega
    · rwa [show stop - q.position = stop - p.position - byteLength piece by omega]

/-- What is read before a calm token, and the token, are read again. -/
theorem Reads.mirrored (h : Reads s p token r)
    (hp : Mirrors a b stop s s' p p' front back front' back') (hcalm : CalmToken stop token) :
    ∃ r' front back front' back', Reads s' p' (token.moved a b) r' ∧
      Mirrors a b stop s s' r r' front back front' back' ∧
      ∀ parseState parseState' lexState isFragile,
        (s'.leaf (token.moved a b) parseState' lexState isFragile).plain =
          (s.leaf token parseState lexState isFragile).plain := by
  induction h generalizing p' front back front' back' with
  | @extra p r first token found isExtra reads ih =>
    subst found
    -- the token lies behind the extra, so what was looked at for that lies before the end as well
    obtain ⟨hmode, hnear⟩ := hk.extras s.text p.position p.scanner p.lookState isExtra
    obtain ⟨_, _, htext, hplace, -⟩ := takes_wait (Eq.refl _) ht hp.text_eq hp.position_eq
    obtain ⟨hbehind, ⟨_, piece, _, htakes⟩, hlast⟩ := reads.takes ht htext hplace
    have hfirst : CalmToken stop (p.found s) := by
      refine ⟨hmode, ?_⟩
      have hstart := htakes.start_eq
      have hstop := htakes.stop_eq
      have hwait : (p.wait s (p.found s)).position = (p.found s).stop := rfl
      have hlt := hlast hcalm.errorMode
      have hend := hcalm.lookaheadEnd_le
      change (p.found s).lookaheadEnd ≤ (p.found s).stop + 1 at hnear
      omega
    obtain ⟨hagain, piece, rest, rest', htakes, htakes', hnext⟩ := hp.found hlanguage hl hk ht hfirst
    obtain ⟨hstack, hpending, -, -, hlex⟩ := plain_eq_iff.mp hp.plain
    have hstart : a ≤ (p.found s).start := by
      rw [htakes.start_eq, ← hp.position_eq]
      exact hp.le
    have hleaf := plain_leaf_moved htakes htakes' hstart p.state p'.state p.lookState
      (p.found s).errorMode
    have hlook : p'.lookState = p.lookState := (lookState_eq hp.plain).trans (lookState_moved a b p)
    have hwait : (p'.wait s' ((p.found s).moved a b)).plain =
        ((p.wait s (p.found s)).moved a b).plain := by
      refine plain_eq_iff.mpr ⟨hstack, ?_, rfl, rfl, hlex⟩
      simp only [wait, moved, List.map_append, List.map_cons, List.map_nil, hlook, plainEntry,
        movedEntry]
      exact congrArg₂ (· ++ ·) hpending
        (congrArg (fun t => [(t, b + ((p.found s).start - a))]) hleaf)
    obtain ⟨r', _, _, _, _, hreads, hr⟩ := ih (hnext _ _ hwait rfl) hcalm
    exact ⟨r', _, _, _, _, .extra hagain isExtra hreads, hr⟩
  | @last p token found isExtra =>
    subst found
    obtain ⟨hagain, piece, rest, rest', htakes, htakes', hnext⟩ := hp.found hlanguage hl hk ht hcalm
    obtain ⟨hstack, hpending, -, -, -⟩ := plain_eq_iff.mp hp.plain
    have hstart : a ≤ (p.found s).start := by
      rw [htakes.start_eq, ← hp.position_eq]
      exact hp.le
    refine ⟨_, _, _, _, _, .last hagain isExtra, hnext _ _ (plain_eq_iff.mpr ?_) rfl,
      plain_leaf_moved htakes htakes' hstart⟩
    exact ⟨hstack, hpending, rfl, rfl, rfl⟩

end

end Parser

end LRWorkbench.Parsing
