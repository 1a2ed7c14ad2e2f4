import LRWorkbench.Proofs.Grammar.Compile
import LRWorkbench.Proofs.Lexing.Bytewise

/-!
# The lexer depends on what it looked at

Patterns report how far they had to read. A text that agrees as far gives the same matches and the
same report (`PatternSet.scan_eq`). So a token is found again, as far from its place as before,
wherever the text behind the place agrees up to the end of what was looked at
(`Lexer.nextToken_moved`); an external scanner has to be **honest** about what it looked at
(`ExternalScanner.IsHonest`).

There is one thing that a token depends on and does not account for: the character before it. It
matters only to patterns that look behind, such as those for the start of a line
(`Lexer.not_moved_anchored`).
-/

namespace LRWorkbench

open Text

namespace PatternSet

namespace Live

variable {before : Option Char} {c d : Char} {live : Live}

/-- The least number with a property is the least with another that holds of the same ones up to
it. -/
theorem find?_eq_of_le {f f' : Nat → Bool} {l : List Nat} {n : Nat} (h : l.find? f = some n)
    (hl : l.Pairwise (· ≤ ·)) (hf : ∀ m ∈ l, m ≤ n → f' m = f m) : l.find? f' = some n := by
  induction l with
  | nil => cases h
  | cons m l ih =>
    rw [List.find?_cons] at h ⊢
    split at h
    · rename_i hm
      obtain rfl := Option.some.inj h
      rw [hf m (List.mem_cons_self ..) (Nat.le_refl m), hm]
    · rename_i hm
      have hle := (List.pairwise_cons.mp hl).1 n (List.mem_of_find?_eq_some h)
      rw [hf m (List.mem_cons_self ..) hle, hm]
      exact ih h (List.pairwise_cons.mp hl).2 fun m' hm' => hf m' (List.mem_cons_of_mem _ hm')

/-- Where no pattern can go on within a character, none can within another that begins alike. -/
theorem lostWithin_eq {n : Nat} (hlive : live.IsAscii) (hlost : live.lostWithin before c = some n)
    (hsize : d.utf8Size = c.utf8Size)
    (hcode : ∀ m, 0 < m → m ≤ n →
      d.toNat / Nat.pow 2 (6 * (c.utf8Size - m)) = c.toNat / Nat.pow 2 (6 * (c.utf8Size - m))) :
    live.lostWithin before d = some n := by
  obtain ⟨hpos, hlt⟩ := lt_of_lostWithin hlost
  have halike : Regex.LooksLike d c := Regex.Alike.looksLike ⟨by omega, by omega⟩
  refine find?_eq_of_le hlost (by decide) fun m hm hmn => ?_
  have hm' : 0 < m := by
    simp only [List.mem_cons, List.not_mem_nil, or_false] at hm
    omega
  have hsharing : sharing d m = sharing c m := by
    rw [sharing, sharing, hsize, hcode m hm' hmn]
  rw [hsize, hsharing, canRead_congr halike hlive]

end Live

variable {before : Option Char} {place : Nat} {live : Live} {text text' : List Char}

theorem lt_examined_scanOn (before : Option Char) (place : Nat) (live : Live) (text : List Char) :
    place < (scanOn before place live text).examined := by
  induction text generalizing before place live with
  | nil => exact Nat.lt_succ_self place
  | cons c cs ih =>
    have hpos := c.utf8Size_pos
    rw [scanOn]
    split
    · rename_i n hn
      exact Nat.lt_add_of_pos_right (Live.lt_of_lostWithin hn).1
    · dsimp only
      split
      · exact Nat.lt_add_of_pos_right hpos
      · exact Nat.lt_of_le_of_lt (Nat.le_add_right ..) (ih ..)

/-- A text that agrees as far as another was read gives what that gives. -/
theorem scanOn_eq (hlive : live.IsAscii)
    (h : Agree ((scanOn before place live text).examined - place) text text') :
    scanOn before place live text' = scanOn before place live text := by
  induction text generalizing before place live text' with
  | nil =>
    rw [h.eq_nil (by rw [scanOn]; exact Nat.sub_pos_of_lt (Nat.lt_succ_self place))]
  | cons c cs ih =>
    rw [scanOn] at h ⊢
    split at h
    · -- the character is only begun, and all that begin like it are as good
      rename_i n hn
      dsimp only at h
      rw [Nat.add_sub_cancel_left] at h
      obtain ⟨hpos, hlt⟩ := Live.lt_of_lostWithin hn
      obtain ⟨d, ds, rfl, hsize, hcode⟩ := h.exists_cons hpos hlt
      have halike : Regex.LooksLike d c := Regex.Alike.looksLike ⟨by omega, by omega⟩
      rw [scanOn, Live.lostWithin_eq hlive hn hsize hcode, Live.accepting_congr halike hlive]
    · rename_i hn
      dsimp only at h ⊢
      -- Whether the scan goes on or not, it has looked at the whole character.
      have hread : c.utf8Size ≤
          (if ((live.next before c).isEmpty ||
              !((live.accepting before (some c)).map (·, place)).isEmpty && decide (c.utf8Size = 1) &&
                (live.next before c).isStuck (some c)) = true then
            (⟨(live.accepting before (some c)).map (·, place), place + c.utf8Size⟩ : Scan)
          else
            ⟨(live.accepting before (some c)).map (·, place) ++
              (scanOn (some c) (place + c.utf8Size) (live.next before c) cs).found,
              (scanOn (some c) (place + c.utf8Size) (live.next before c) cs).examined⟩).examined -
            place := by
        split
        · exact Nat.le_of_eq (Nat.add_sub_cancel_left ..).symm
        · have := lt_examined_scanOn (some c) (place + c.utf8Size) (live.next before c) cs
          dsimp only
          omega
      obtain ⟨ds, rfl, hrest⟩ := h.cons hread
      rw [scanOn, hn]
      dsimp only
      split
      · rfl
      · rename_i hgo
        rw [if_neg hgo] at hrest
        dsimp only at hrest
        rw [Nat.sub_sub] at hrest
        rw [ih (Live.isAscii_next hlive) hrest]

/-- A text that agrees as far as another was read gives what that gives. -/
theorem scan_eq {p : PatternSet} (h : Agree ((p.scan before place text).examined - place) text text') :
    p.scan before place text' = p.scan before place text :=
  scanOn_eq p.isAscii_patterns h

/-- Whether some pattern depends on the character before it. -/
def looksBehind (p : PatternSet) : Bool := p.patterns.any Regex.looksBehind

theorem mem_of_mem_start {number : Nat} {patterns : List Regex}
    {entry : Nat × List Regex} (hentry : entry ∈ Live.start number patterns) {r : Regex}
    (hr : r ∈ entry.2) : r ∈ patterns := by
  induction patterns generalizing number with
  | nil => cases hentry
  | cons first rest ih =>
    rcases List.mem_cons.mp hentry with rfl | hentry
    · rw [List.mem_singleton.mp hr]
      exact List.mem_cons_self ..
    · exact List.mem_cons_of_mem _ (ih hentry)

/-- What patterns that do not look behind match depends on nothing before it. -/
theorem scan_eq_of_before {p : PatternSet} (before' : Option Char)
    (h : p.looksBehind = false) : p.scan before place text = p.scan before' place text :=
  scanOn_eq_of_blindTo (fun _ hentry r hr =>
    Regex.blindTo_of_looksBehind
      (Bool.eq_false_iff.mpr (List.any_eq_false.mp h r (mem_of_mem_start hentry hr))) before before') text

end PatternSet

/-! ### Scanners -/

/-- Whether a scanner reports truthfully how far it looked: its report depends on no byte behind,
and it never takes more bytes than there are. -/
structure ExternalScanner.IsHonest (x : ExternalScanner) : Prop where
  depends : ∀ (u v : List Char) (state : ScannerState) (valid : List Bool) (n : Nat),
    (x.scan u state valid).examined = some n → Agree n u v →
      x.scan v state valid = x.scan u state valid
  consumed_le : ∀ (u : List Char) (state : ScannerState) (valid : List Bool),
    (x.scan u state valid).consumed ≤ byteLength u

/-- How far behind its place a report looked, in a text of some length. -/
def ScanResult.reach (r : ScanResult) (length : Nat) : Nat :=
  match r.examined with
  | some examined => max 1 (min examined (length + 1))
  | none => length + 1

namespace ExternalScanner.IsHonest

variable {x : ExternalScanner} {u v : List Char} {state : ScannerState} {valid : List Bool}

/-- What an honest scanner takes ends at a character in one text if it does so in another one that
it cannot tell apart: it takes no character of which it has not seen the first byte. -/
theorem isBoundary_eq (hx : x.IsHonest) {n : Nat}
    (hn : (x.scan u state valid).examined = some n) (hle : n ≤ byteLength u) (h : Agree n u v) :
    isBoundary (x.scan u state valid).consumed v = isBoundary (x.scan u state valid).consumed u := by
  rcases Nat.lt_or_ge n (x.scan u state valid).consumed with hlt | hge
  · -- it takes more than it has seen, so it has seen a character begin
    obtain ⟨seen, rest, rfl, hcut⟩ := exists_cut hle
    rcases hcut with rfl | ⟨c, cs, rfl, hseen, hwithin⟩
    · have hfits := hx.consumed_le seen state valid
      rw [hx.depends _ _ state valid _ hn (agree_append_left (Nat.le_refl _) rest)] at hfits
      omega
    · have hbegun : n ≤ byteLength (seen ++ [c]) := by
        rw [byteLength_append, byteLength_cons]
        omega
      have hfits := hx.consumed_le (seen ++ [c]) state valid
      rw [hx.depends _ _ state valid n hn (by simpa using agree_append_left hbegun cs),
        byteLength_append, byteLength_cons, byteLength_nil] at hfits
      obtain ⟨w, rfl, hrest⟩ := h.append hseen.le
      obtain ⟨d, ds, rfl, hsize, -⟩ := hrest.exists_cons (by omega) (by omega)
      obtain ⟨m, hm⟩ := Nat.exists_eq_add_of_le (hseen.trans hlt).le
      rw [hm] at hfits ⊢
      rw [isBoundary_append, isBoundary_append, isBoundary_cons (by omega) (by omega),
        isBoundary_cons (by omega) (by omega), hsize]
  · exact h.isBoundary_eq hge

/-- Where the text agrees as far as an honest scanner looked it reports the same and looks as far,
and the token that it reports ends at a character in both texts or in none. -/
theorem scan_eq (hx : x.IsHonest) (h : Agree ((x.scan u state valid).reach (byteLength u)) u v) :
    x.scan v state valid = x.scan u state valid ∧
      (x.scan u state valid).reach (byteLength v) = (x.scan u state valid).reach (byteLength u) ∧
      isBoundary (x.scan u state valid).consumed v =
        isBoundary (x.scan u state valid).consumed u := by
  have hsame : u = v → x.scan v state valid = x.scan u state valid ∧
      (x.scan u state valid).reach (byteLength v) = (x.scan u state valid).reach (byteLength u) ∧
      isBoundary (x.scan u state valid).consumed v =
        isBoundary (x.scan u state valid).consumed u := by
    rintro rfl
    exact ⟨rfl, rfl, rfl⟩
  rw [ScanResult.reach] at h
  split at h
  · rename_i n hn
    rcases Nat.lt_or_ge (byteLength u) n with hlt | hle
    · exact hsame (h.eq (by omega)).symm
    · have hagree : Agree n u v := h.mono (by omega)
      refine ⟨hx.depends u v state valid n hn hagree, ?_, hx.isBoundary_eq hn hle hagree⟩
      simp only [ScanResult.reach, hn, hagree.min_length]
  · exact hsame (h.eq (Nat.lt_succ_self _)).symm

end ExternalScanner.IsHonest

/-- Whether the scanner of a language, if there is one, is honest. -/
def Language.IsHonest (l : Language) : Prop := ∀ x, l.scanner = some x → x.IsHonest

/-- A token found as far behind one place as it was behind another. -/
def Token.moved (a b : Nat) (token : Token) : Token :=
  { token with
    start := b + (token.start - a)
    stop := b + (token.stop - a)
    lookaheadEnd := b + (token.lookaheadEnd - a) }

namespace Lexer

variable {l : Language} {front back front' back' : List Char} {state : ScannerState}
  {valid : TerminalSet} {errorMode : Bool} {token : Token}

/-- What becomes of a report of the scanner. -/
def tokenOf (l : Language) (front back : List Char) (state : ScannerState) (valid : TerminalSet)
    (errorMode : Bool) (r : ScanResult) : Option Token :=
  (r.token.bind l.table.externalSymbol?).bind fun s =>
    if r.consumed = 0 || byteLength back < r.consumed || !isBoundary r.consumed back ||
        !valid.contains s then
      none
    else
      some {
        symbol := s
        start := byteLength front
        stop := byteLength front + r.consumed
        lookaheadEnd := byteLength front + max (r.reach (byteLength back)) (r.consumed + 1)
        isExtra := isExtraHere l.table valid errorMode s
        isError := false
        errorMode := errorMode
        scannerBefore := state
        scannerAfter := r.state }

/-- The scanner is asked if one of its tokens is of use. -/
theorem scanExternal_append :
    scanExternal l (front ++ back) (byteLength front) state valid errorMode =
      match l.scanner with
      | none => (none, byteLength front)
      | some x =>
        if !(l.table.externalTokens.map valid.contains).any id then (none, byteLength front)
        else
          let r := x.scan back state (l.table.externalTokens.map valid.contains)
          (tokenOf l front back state valid errorMode r,
            byteLength front + r.reach (byteLength back)) := by
  simp only [scanExternal]
  cases l.scanner with
  | none => rfl
  | some x =>
    dsimp only
    split
    · rfl
    simp only [seek_append, byteLength_append, Nat.add_sub_cancel_left, isBoundary_append,
      Nat.add_lt_add_iff_left, tokenOf]
    generalize x.scan back state (l.table.externalTokens.map valid.contains) = r
    have hexamined : r.reach (byteLength back) = (match r.examined with
        | some examined => max 1 (min examined (byteLength back + 1))
        | none => byteLength back + 1) := rfl
    rw [hexamined]
    cases r.token.bind l.table.externalSymbol? with
    | none => cases r.examined <;> rfl
    | some s =>
      simp only [Option.bind_some]
      split
      · cases r.examined <;> rfl
      · cases r.examined <;> simp only [Prod.mk.injEq, Option.some.injEq, Token.mk.injEq, true_and,
          and_true] <;> omega

/-- An honest scanner reports the same where the text agrees as far as it looked. -/
theorem scanExternal_eq (hl : l.IsHonest)
    (h : Agree ((scanExternal l (front ++ back) (byteLength front) state valid errorMode).2 -
      byteLength front) back back') (front' : List Char) :
    scanExternal l (front' ++ back') (byteLength front') state valid errorMode =
      ((scanExternal l (front ++ back) (byteLength front) state valid errorMode).1.map
          (Token.moved (byteLength front) (byteLength front')),
        byteLength front' + ((scanExternal l (front ++ back) (byteLength front) state valid
          errorMode).2 - byteLength front)) := by
  rw [scanExternal_append] at h ⊢
  rw [scanExternal_append]
  cases hscanner : l.scanner with
  | none => simp
  | some x =>
    rw [hscanner] at h
    dsimp only at h ⊢
    split
    · simp
    rename_i hflags
    rw [if_neg hflags] at h
    dsimp only at h ⊢
    rw [Nat.add_sub_cancel_left] at h ⊢
    obtain ⟨hscan, hlength, hconsumed⟩ := (hl x hscanner).scan_eq h
    have hfits := (hl x hscanner).consumed_le back state (l.table.externalTokens.map valid.contains)
    have hfits' := (hl x hscanner).consumed_le back' state
      (l.table.externalTokens.map valid.contains)
    rw [hscan] at hfits' ⊢
    rw [hlength]
    generalize x.scan back state (l.table.externalTokens.map valid.contains) = r
      at h hlength hconsumed hfits hfits' ⊢
    rw [Prod.mk.injEq]
    refine ⟨?_, rfl⟩
    -- what it reports fits into both texts
    simp only [tokenOf, Nat.not_lt.mpr hfits, Nat.not_lt.mpr hfits', hconsumed, hlength]
    cases r.token.bind l.table.externalSymbol? with
    | none => rfl
    | some s =>
      simp only [Option.bind_some]
      split
      · rfl
      · simp [Token.moved]

/-- The best candidate is the best one that stands for a match of the patterns. -/
theorem fst_scanPatterns (t : ParseTable) (valid : TerminalSet) (before : Option Char) (text : List Char) :
    (scanPatterns t valid before text).1 = Candidate.best
      ((t.patterns.scan before 0 text).found.filterMap (candidate? t.parts.lex valid text)) := by
  rw [scanPatterns, PatternSet.scan_eq_scan]

/-- A match stands for the same terminal where the text agrees beyond it. -/
theorem scanPatterns_eq {t : ParseTable} {before : Option Char}
    (h : Agree (scanPatterns t valid before back).2 back back') :
    scanPatterns t valid before back' = scanPatterns t valid before back := by
  simp only [scanPatterns, PatternSet.scan_eq_scan] at h ⊢
  rw [PatternSet.scan_eq (by rwa [Nat.sub_zero])]
  rw [Prod.mk.injEq]
  refine ⟨congrArg Candidate.best (List.filterMap_congr fun found hfound => ?_), rfl⟩
  rw [← PatternSet.scan_eq_scan] at h hfound
  have hlt := (ByteAutomaton.readsWithin_scan ..).found_lt found hfound
  obtain ⟨pattern, length⟩ := found
  simp only [candidate?]
  rw [h.takeBytes_eq (Nat.le_of_lt hlt)]

theorem examined_le_of_scanExternal {examined : Nat}
    (h : scanExternal l (front ++ back) (byteLength front) state valid errorMode =
      (some token, examined)) :
    examined ≤ token.lookaheadEnd ∧ token.errorMode = errorMode ∧ token.isError = false ∧
      token.stop < token.lookaheadEnd := by
  rw [scanExternal_append] at h
  split at h
  · cases h
  split at h
  · cases h
  obtain ⟨htoken, rfl⟩ := Prod.mk.inj h
  obtain ⟨s, -, hs⟩ := Option.bind_eq_some_iff.mp htoken
  split at hs
  · cases hs
  · obtain rfl := Option.some.inj hs
    exact ⟨by dsimp only; omega, rfl, rfl, by dsimp only; omega⟩

/-- The best candidate is a match, which ends before the place up to which the text was read. -/
theorem lt_of_scanPatterns {t : ParseTable} {before : Option Char} {c : Candidate}
    (h : (scanPatterns t valid before back).1 = some c) :
    c.length < (scanPatterns t valid before back).2 := by
  obtain ⟨⟨pattern, length⟩, hfound, hc⟩ := List.mem_filterMap.mp (Candidate.mem_of_best h)
  have hlt := (ByteAutomaton.readsWithin_scan ..).found_lt _ hfound
  simp only [candidate?] at hc
  split at hc
  · cases hc
  split at hc
  · cases hc
  obtain ⟨s, -, rfl⟩ := Option.map_eq_some_iff.mp hc
  exact hlt

/-- The lexer always looks behind the end of a token. -/
theorem spec_of_lex
    (h : lex l (front ++ back) (byteLength front) state valid errorMode = some token) :
    token.errorMode = errorMode ∧ token.isError = false ∧ token.stop < token.lookaheadEnd := by
  simp only [lex] at h
  split at h
  · rename_i found examined hfound
    obtain rfl := Option.some.inj h
    exact (examined_le_of_scanExternal hfound).2
  · obtain ⟨c, hc, rfl⟩ := Option.map_eq_some_iff.mp h
    have hlt := lt_of_scanPatterns hc
    exact ⟨rfl, rfl, by dsimp only; omega⟩

/-- Whether what stands before a place looks the same, to patterns that look there, as what stands
before another. -/
def BeforeAlike (l : Language) (before before' : Option Char) : Prop :=
  l.table.patterns.looksBehind = true → before' = before

theorem scanPatterns_eq_of_before {before before' : Option Char}
    (h : BeforeAlike l before before') (text : List Char) :
    scanPatterns l.table valid before' text = scanPatterns l.table valid before text := by
  by_cases hbehind : l.table.patterns.looksBehind = true
  · rw [h hbehind]
  · rw [scanPatterns, scanPatterns, PatternSet.scan_eq_scan, PatternSet.scan_eq_scan,
      PatternSet.scan_eq_of_before before (Bool.eq_false_iff.mpr hbehind)]

/-- A token is found again where the text agrees as far as the lexer looked. -/
theorem lex_eq (hl : l.IsHonest) (hbefore : BeforeAlike l front.getLast? front'.getLast?)
    (hlex : lex l (front ++ back) (byteLength front) state valid errorMode = some token)
    (h : Agree (token.lookaheadEnd - byteLength front) back back') :
    lex l (front' ++ back') (byteLength front') state valid errorMode =
      some (token.moved (byteLength front) (byteLength front')) := by
  simp only [lex] at hlex ⊢
  cases hexternal : scanExternal l (front ++ back) (byteLength front) state valid errorMode with
  | mk found examined =>
    rw [hexternal] at hlex
    have hle : examined ≤ token.lookaheadEnd := by
      cases found with
      | some found =>
        obtain rfl := Option.some.inj hlex
        exact (examined_le_of_scanExternal hexternal).1
      | none =>
        obtain ⟨c, -, rfl⟩ := Option.map_eq_some_iff.mp hlex
        exact Nat.le_max_left ..
    have hlooked : Agree ((scanExternal l (front ++ back) (byteLength front) state valid
        errorMode).2 - byteLength front) back back' := by
      rw [hexternal]
      exact h.mono (by dsimp only; omega)
    have hagain := scanExternal_eq hl hlooked front'
    rw [hexternal] at hagain
    rw [hagain]
    cases found with
    | some found =>
      obtain rfl := Option.some.inj hlex
      rfl
    | none =>
      dsimp only [Option.map_none] at hlex ⊢
      rw [seek_append] at hlex ⊢
      obtain ⟨c, hc, rfl⟩ := Option.map_eq_some_iff.mp hlex
      have hscan : scanPatterns l.table valid front.getLast? back' =
          scanPatterns l.table valid front.getLast? back :=
        scanPatterns_eq (h.mono (by dsimp only; omega))
      dsimp only
      rw [scanPatterns_eq_of_before hbefore, hscan, hc]
      simp only [Option.map_some, Token.moved, Option.some.injEq, Token.mk.injEq, true_and,
        and_true]
      omega

/-- Where the text goes on, a token is found among the terminals of use or in error mode. -/
theorem lex_of_nextToken (hback : back ≠ [])
    (hmode : (nextToken l (front ++ back) (byteLength front) state valid).errorMode = false) :
    lex l (front ++ back) (byteLength front) state valid false =
      some (nextToken l (front ++ back) (byteLength front) state valid) := by
  have hlt := byteLength_pos.mpr hback
  have hgo : ¬ byteLength (front ++ back) ≤ byteLength front := by
    rw [byteLength_append]
    omega
  rw [nextToken, if_neg hgo] at hmode ⊢
  cases hlex : lex l (front ++ back) (byteLength front) state valid false with
  | some token => rfl
  | none =>
    rw [hlex, Option.getD_none, nextTokenInErrorMode, if_neg hgo] at hmode
    cases herror : lex l (front ++ back) (byteLength front) state (allTerminals l.table) true with
    | some token =>
      rw [herror, Option.getD_some, (spec_of_lex herror).1] at hmode
      cases hmode
    | none =>
      rw [herror] at hmode
      cases hmode

/-- A token that was found among the terminals of use is no piece that no pattern matches. -/
theorem spec_of_nextToken
    (hmode : (nextToken l (front ++ back) (byteLength front) state valid).errorMode = false) :
    (nextToken l (front ++ back) (byteLength front) state valid).isError = false ∧
      (nextToken l (front ++ back) (byteLength front) state valid).stop <
        (nextToken l (front ++ back) (byteLength front) state valid).lookaheadEnd := by
  by_cases hback : back = []
  · rw [hback, List.append_nil, nextToken, if_pos (Nat.le_refl _)]
    exact ⟨rfl, Nat.lt_succ_self _⟩
  · exact (spec_of_lex (lex_of_nextToken hback hmode)).2

/-- A token that was found among the terminals of use is found again where the text agrees as far
as the lexer looked. -/
theorem nextToken_eq (hl : l.IsHonest) (ht : l.table.SparesEnd)
    (hbefore : BeforeAlike l front.getLast? front'.getLast?)
    (hmode : (nextToken l (front ++ back) (byteLength front) state valid).errorMode = false)
    (h : Agree ((nextToken l (front ++ back) (byteLength front) state valid).lookaheadEnd -
      byteLength front) back back') :
    nextToken l (front' ++ back') (byteLength front') state valid =
      (nextToken l (front ++ back) (byteLength front) state valid).moved (byteLength front)
        (byteLength front') := by
  by_cases hback : back = []
  · subst hback
    have hend : ∀ u : List Char, nextToken l (u ++ []) (byteLength u) state valid =
        endToken (byteLength u) state := by
      intro u
      rw [nextToken, List.append_nil, if_pos (Nat.le_refl _)]
    rw [hend] at h ⊢
    obtain rfl := h.eq_nil (by simp [endToken])
    rw [hend]
    simp [Token.moved, endToken]
  · have hagain := lex_eq hl hbefore (lex_of_nextToken hback hmode) h
    obtain ⟨-, -, piece, rest, rfl, hpiece, -⟩ := exists_of_lex ht hagain
    have hpos := byteLength_pos.mpr hpiece
    rw [nextToken, if_neg (by simp only [byteLength_append]; omega), hagain, Option.getD_some]

theorem charBefore_append (front back : List Char) :
    charBefore (byteLength front) (front ++ back) = front.getLast? := by
  rw [charBefore, takeBytes_append, Option.getD_some]

/-- Texts agree behind two places if their bytes from there on are the same. -/
theorem agree_of_getElem? {n : Nat} (h : ∀ i < n,
    (utf8Bytes (front ++ back))[byteLength front + i]? =
      (utf8Bytes (front' ++ back'))[byteLength front' + i]?) : Agree n back back' := by
  intro i hi
  have hbytes : ∀ u v : List Char, (utf8Bytes (u ++ v))[byteLength u + i]? = (utf8Bytes v)[i]? := by
    intro u v
    rw [utf8Bytes_append, List.getElem?_append_right (by rw [length_utf8Bytes]; omega),
      length_utf8Bytes, Nat.add_sub_cancel_left]
  rw [← hbytes front back, h i hi, hbytes]

/-- **Lexing is local.** A token that is found among the terminals of use is found again, with all
that belongs to it, at any place of any text where the same bytes follow up to the end of what was
looked at, the end of a text being like a byte. Patterns that look behind have to see the same
character before. -/
theorem nextToken_moved {grammar : Grammar} {l : Language}
    (hcompile : grammar.compile = .ok l.table) (hl : l.IsHonest) {text text' : List Char}
    {place place' : Nat} (hplace : isBoundary place text) (hplace' : isBoundary place' text')
    {state : ScannerState} {valid : TerminalSet}
    (hmode : (nextToken l text place state valid).errorMode = false)
    (hbefore : BeforeAlike l (charBefore place text) (charBefore place' text'))
    (hsame : ∀ i < (nextToken l text place state valid).lookaheadEnd - place,
      (utf8Bytes text)[place + i]? = (utf8Bytes text')[place' + i]?) :
    nextToken l text' place' state valid =
      (nextToken l text place state valid).moved place place' := by
  obtain ⟨prepared, -, hcompiles⟩ := Grammar.exists_prepared hcompile
  obtain ⟨front, back, rfl, rfl⟩ := isBoundary_iff.mp hplace
  obtain ⟨front', back', rfl, rfl⟩ := isBoundary_iff.mp hplace'
  rw [charBefore_append, charBefore_append] at hbefore
  exact nextToken_eq hl hcompiles.sparesEnd hbefore hmode (agree_of_getElem? hsame)

/-- Tags, of which the scanner finds the beginning, and words. -/
def tags : Grammar where
  name := "tags"
  rules := [
    ("text", .oneOrMore (.choice [.reference "tag", .reference "word"])),
    ("word", .pattern "[a-z]+" none)]
  extras := []
  conflicts := []
  externals := ["tag"]
  word := none

/-- Takes the bracket that a tag begins with, and counts tags in its state. -/
def tagScanner : ExternalScanner where
  version := ExternalScanner.currentVersion
  scan text state _ :=
    if text.head? = some '<' then ⟨some 0, 1, 1 :: state, some 1⟩ else .noMatch (some 1)

theorem isHonest_tagScanner : tagScanner.IsHonest where
  depends u v state valid n hn h := by
    have hbegins : ∀ {u v : List Char}, Agree 1 u v → u.head? = some '<' → v.head? = some '<' := by
      intro u v h hu
      obtain ⟨rest, rfl⟩ := List.head?_eq_some_iff.mp hu
      obtain ⟨w, rfl, -⟩ := h.cons (Nat.le_refl _)
      rfl
    have hone : n = 1 := by
      simp only [tagScanner] at hn
      split at hn <;> exact (Option.some.inj hn).symm
    subst hone
    simp only [tagScanner, propext ⟨hbegins h.symm, hbegins h⟩]
  consumed_le u state valid := by
    simp only [tagScanner]
    split
    · rename_i hu
      obtain ⟨rest, rfl⟩ := List.head?_eq_some_iff.mp hu
      exact Nat.le_add_right ..
    · exact Nat.zero_le _

/-- The tag in `<ab` is found again in `x<a`. -/
theorem nextToken_moved_tag : ∃ l, tags.compile = .ok (Language.table l) ∧
    l.scanner = some tagScanner ∧ l.IsHonest ∧
    isBoundary 0 "<ab".toList ∧ isBoundary 1 "x<a".toList ∧
    (nextToken l "<ab".toList 0 [] (allTerminals l.table)).errorMode = false ∧
    BeforeAlike l (charBefore 0 "<ab".toList) (charBefore 1 "x<a".toList) ∧
    (∀ i < (nextToken l "<ab".toList 0 [] (allTerminals l.table)).lookaheadEnd - 0,
      (utf8Bytes "<ab".toList)[0 + i]? = (utf8Bytes "x<a".toList)[1 + i]?) ∧
    nextToken l "x<a".toList 1 [] (allTerminals l.table) =
      (nextToken l "<ab".toList 0 [] (allTerminals l.table)).moved 0 1 := by
  have hrun : (tags.compile.toOption).any (fun t =>
      let token := nextToken ⟨t, some tagScanner⟩ "<ab".toList 0 [] (allTerminals t)
      !token.errorMode && decide (token.lookaheadEnd = 2) && !t.patterns.looksBehind) = true := by
    decide +kernel
  obtain ⟨t, ht, hcheck⟩ := (Option.any_eq_true ..).mp hrun
  simp only [Bool.and_eq_true, Bool.not_eq_true', decide_eq_true_eq] at hcheck
  obtain ⟨⟨hmode, hend⟩, hbehind⟩ := hcheck
  have hcompile : tags.compile = .ok t := eq_ok_of_toOption ht
  have hhonest : (Language.mk t (some tagScanner)).IsHonest := by
    rintro x ⟨⟩
    exact isHonest_tagScanner
  have hbefore : BeforeAlike ⟨t, some tagScanner⟩ (charBefore 0 "<ab".toList)
      (charBefore 1 "x<a".toList) := by
    intro h
    rw [hbehind] at h
    cases h
  have hsame : ∀ i < (nextToken ⟨t, some tagScanner⟩ "<ab".toList 0 []
      (allTerminals t)).lookaheadEnd - 0,
      (utf8Bytes "<ab".toList)[0 + i]? = (utf8Bytes "x<a".toList)[1 + i]? := by
    rw [hend]
    decide
  exact ⟨⟨t, some tagScanner⟩, hcompile, rfl, hhonest, by decide, by decide, hmode, hbefore, hsame,
    nextToken_moved hcompile hhonest (by decide) (by decide) hmode hbefore hsame⟩

/-- An `a` at the start of the text. -/
def anchored : Grammar where
  name := "anchored"
  rules := [
    ("line", .oneOrMore (.reference "first")),
    ("first", .pattern "^a" none)]
  extras := []
  conflicts := []
  externals := []
  word := none

/-- The first `a` of `aaa` looks at two bytes, which are there behind the second place too, but
nothing is found there. -/
theorem not_moved_anchored : ∃ l, anchored.compile = .ok (Language.table l) ∧ l.IsHonest ∧
    isBoundary 0 "aaa".toList ∧ isBoundary 1 "aaa".toList ∧
    (nextToken l "aaa".toList 0 [] (allTerminals l.table)).errorMode = false ∧
    (∀ i < (nextToken l "aaa".toList 0 [] (allTerminals l.table)).lookaheadEnd - 0,
      (utf8Bytes "aaa".toList)[0 + i]? = (utf8Bytes "aaa".toList)[1 + i]?) ∧
    (nextToken l "aaa".toList 1 [] (allTerminals l.table)).symbol ≠
      (nextToken l "aaa".toList 0 [] (allTerminals l.table)).symbol := by
  have hrun : (anchored.compile.toOption).any (fun t =>
      let token := nextToken ⟨t, none⟩ "aaa".toList 0 [] (allTerminals t)
      !token.errorMode && decide (token.lookaheadEnd = 2) &&
        decide ((nextToken ⟨t, none⟩ "aaa".toList 1 [] (allTerminals t)).symbol ≠ token.symbol))
      = true := by
    decide +kernel
  obtain ⟨t, ht, hcheck⟩ := (Option.any_eq_true ..).mp hrun
  simp only [Bool.and_eq_true, Bool.not_eq_true', decide_eq_true_eq] at hcheck
  obtain ⟨⟨hmode, hend⟩, hne⟩ := hcheck
  have hhonest : (Language.mk t none).IsHonest := by
    intro x hx
    cases hx
  refine ⟨⟨t, none⟩, eq_ok_of_toOption ht, hhonest, by decide, by decide, hmode, ?_, hne⟩
  dsimp only
  rw [hend]
  decide

end Lexer

end LRWorkbench
