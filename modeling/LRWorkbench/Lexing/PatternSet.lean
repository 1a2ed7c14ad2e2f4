import LRWorkbench.Lexing.Automaton
import LRWorkbench.Regex.Parser
import LRWorkbench.Wire.Basic

/-!
# Several patterns at once

A `PatternSet` reads a text from some place and reports **every pattern that matches from there,
with every place a match ends at**. What is in the game is what is left of each pattern that can still
match.

It is an automaton over bytes. Between two characters its state is what is in the game; within a character
of several bytes, what is in the game and how the character begins. A match is noticed with the first byte
behind it, so that conditions on the next character can be judged: they cannot tell characters of several
bytes apart.

`PatternSet.scan` says what comes of that character by character (`PatternSet.scan_eq_scan`). It stops as soon
as no pattern can go on, which may be noticed within a character; where a match was just noticed it also
looks whether any byte at all leads on.
-/

namespace LRWorkbench

/-- Reads patterns; `none` if one is malformed or asks for the words of all alphabets, which bytes
alone do not show. -/
def Regex.compileAll? (sources : List String) : Option (List Regex) :=
  sources.mapM fun s =>
    match Regex.parse? s.toList with
    | some r => if r.hasUnicodeLook then none else some r
    | none => none

/-- Patterns, numbered from zero. -/
structure PatternSet where
  sources : List String
  patterns : List Regex
  compiled : Regex.compileAll? sources = some patterns
  deriving DecidableEq

namespace PatternSet

/-- The set of some patterns, if they are well-formed. -/
def ofSources? (sources : List String) : Option PatternSet :=
  match h : Regex.compileAll? sources with
  | some patterns => some ⟨sources, patterns, h⟩
  | none => none

/-- For each pattern still in the game, its number and what may follow. -/
abbrev Live := List (Nat × List Regex)

namespace Live

/-- All patterns from their start. -/
def start (number : Nat) : List Regex → Live
  | [] => []
  | r :: rs => (number, [r]) :: start (number + 1) rs

/-- The patterns that match up to a place. -/
def accepting (before after : Option Char) (live : Live) : List Nat :=
  live.filterMap fun (number, rests) =>
    if rests.any fun r => r.nullable before after then some number else none

/-- What is left of the patterns after a character. -/
def next (before : Option Char) (c : Char) (live : Live) : Live :=
  live.filterMap fun (number, rests) =>
    match (rests.flatMap fun r => r.residuals before c).eraseDups with
    | [] => none
    | rests => some (number, rests)

/-- Whether some pattern can read a character with a code between two. -/
def canRead (before after : Option Char) (lo hi : Nat) (live : Live) : Bool :=
  live.any fun (_, rests) => rests.any fun r => r.canStart before after lo hi

/-- Whether a next character from some ranges would lead on, be it that it notices a match. -/
def leadsOn (before : Option Char) (live : Live) (sample : Char) (ranges : List (Nat × Nat)) :
    Bool :=
  !(live.accepting before (some sample)).isEmpty ||
    ranges.any fun (lo, hi) => live.canRead before (some sample) lo hi

/-- Whether no next byte leads on. Conditions cannot tell the characters of one group apart: line
ends, returns, characters of words, others of one byte, and those of several bytes. -/
def isStuck (before : Option Char) (live : Live) : Bool :=
  !(live.leadsOn before '\n' [(10, 10)] || live.leadsOn before '\r' [(13, 13)] ||
    live.leadsOn before 'a' [(48, 57), (65, 90), (95, 95), (97, 122)] ||
    live.leadsOn before ' ' [(0, 9), (11, 12), (14, 47), (58, 64), (91, 94), (96, 96), (123, 127)] ||
    live.leadsOn before 'é' [(128, 1114111)])

/-- The codes of the characters whose encoding has the length of a given character's and begins
with the same `n` bytes. -/
def sharing (c : Char) (n : Nat) : Nat × Nat :=
  let free := Nat.pow 2 (6 * (c.utf8Size - n))
  let lo := c.toNat / free * free
  let least := if c.utf8Size = 2 then 0x80 else if c.utf8Size = 3 then 0x800 else 0x10000
  (max lo least, lo + free - 1)

/-- The number of bytes of a character after which, before it is complete, no pattern can go
on. -/
def lostWithin (before : Option Char) (c : Char) (live : Live) : Option Nat :=
  [1, 2, 3].find? fun n =>
    n < c.utf8Size && !live.canRead before (some c) (sharing c n).1 (sharing c n).2

end Live

/-- Reads on at a place of the text. -/
def scanOn (before : Option Char) (place : Nat) (live : Live) : List Char → Scan
  | [] => ⟨(live.accepting before none).map (·, place), place + 1⟩
  | c :: cs =>
    let found := (live.accepting before (some c)).map (·, place)
    match live.lostWithin before c with
    | some n => ⟨found, place + n⟩
    | none =>
      let rest := live.next before c
      if rest.isEmpty || (!found.isEmpty && c.utf8Size = 1 && rest.isStuck (some c)) then
        ⟨found, place + c.utf8Size⟩
      else
        let more := scanOn (some c) (place + c.utf8Size) rest cs
        ⟨found ++ more.found, more.examined⟩

/-- Reads a text from a place on, given the character before. -/
def scan (p : PatternSet) (before : Option Char) (place : Nat) (text : List Char) : Scan :=
  scanOn before place (Live.start 0 p.patterns) text

/-! ### The automaton -/

/-- A character of which some bytes were read. -/
structure Begun where
  /-- The number of its bytes. -/
  size : Nat
  /-- The number of its bytes still to come. -/
  missing : Nat
  /-- What its code begins with. -/
  code : Nat
  deriving DecidableEq, Repr

namespace Begun

/-- The codes of the characters that begin so. -/
def range (b : Begun) : Nat × Nat :=
  let free := Nat.pow 2 (6 * b.missing)
  let least := if b.size = 2 then 0x80 else if b.size = 3 then 0x800 else 0x10000
  (max (b.code * free) least, b.code * free + free - 1)

/-- The character of several bytes that a byte begins. -/
def ofFirst? (b : UInt8) : Option Begun :=
  if b < 0xC2 then none
  else if b < 0xE0 then some ⟨2, 1, b.toNat - 0xC0⟩
  else if b < 0xF0 then some ⟨3, 2, b.toNat - 0xE0⟩
  else if b < 0xF5 then some ⟨4, 3, b.toNat - 0xF0⟩
  else none

/-- The same character with one more byte. -/
def more? (b : Begun) (next : UInt8) : Option Begun :=
  if 0x80 ≤ next ∧ next < 0xC0 then some ⟨b.size, b.missing - 1, 64 * b.code + (next.toNat - 0x80)⟩
  else none

end Begun

/-- A state between two bytes. -/
structure ByteState where
  /-- The character before what is in the game. -/
  before : Option Char
  live : Live
  /-- The character that has begun behind it. -/
  begun : Option Begun
  /-- The patterns noticed to match with the last byte. -/
  noticed : List Nat
  deriving DecidableEq, Repr

namespace ByteState

/-- With nothing in the game. -/
def lost (noticed : List Nat) : ByteState := ⟨none, [], none, noticed⟩

/-- A character that conditions cannot tell from those that a byte belongs to. -/
def seenAs (b : UInt8) : Char := if b < 0x80 then Char.ofNat b.toNat else 'é'

/-- Behind a further character. -/
def behind (s : ByteState) (c : Char) (noticed : List Nat) : ByteState :=
  ⟨some c, s.live.next s.before c, none, noticed⟩

/-- Within a character, if some pattern can read one that begins so. -/
def within (s : ByteState) (noticed : List Nat) : Option Begun → ByteState
  | none => lost noticed
  | some b =>
    if b.missing = 0 then
      if b.code.isValidChar then s.behind (Char.ofNat b.code) noticed else lost noticed
    else if s.live.canRead s.before (some 'é') b.range.1 b.range.2 then
      ⟨s.before, s.live, some b, noticed⟩
    else lost noticed

/-- The state behind a further byte. -/
def next (s : ByteState) (b : UInt8) : ByteState :=
  match s.begun with
  | none =>
    let noticed := s.live.accepting s.before (some (seenAs b))
    if b < 0x80 then s.behind (seenAs b) noticed else s.within noticed (Begun.ofFirst? b)
  | some begun => s.within [] (begun.more? b)

/-- The state behind the end of the text. -/
def nextAtEnd (s : ByteState) : ByteState :=
  lost (if s.begun.isNone then s.live.accepting s.before none else [])

def isMatch (s : ByteState) : Bool := !s.noticed.isEmpty

def isDead (s : ByteState) : Bool := s.live.isEmpty && s.noticed.isEmpty

end ByteState

/-- A set of patterns as an automaton. It starts behind any byte and never gives up. -/
instance : ByteAutomaton PatternSet where
  State := ByteState
  patternCount p := p.patterns.length
  start? p before := some ⟨before.map ByteState.seenAs, Live.start 0 p.patterns, none, []⟩
  next _ := ByteState.next
  nextAtEnd _ := ByteState.nextAtEnd
  isSpecial _ s := s.isMatch || s.isDead
  isMatch _ := ByteState.isMatch
  isDead _ := ByteState.isDead
  isQuit _ _ := false
  matched _ := ByteState.noticed

/-! ### The binary form -/

/-- What the binary form begins with. -/
def mark : List UInt8 := "PATTERNS".toUTF8.toList

/-- The bytes of a set: a mark and its patterns. -/
def toBytes (p : PatternSet) : List UInt8 :=
  mark ++ Wire.encodeList Wire.encodeString p.sources

/-- Reads the bytes of a set, which must be all there is. -/
def ofBytes? (bytes : List UInt8) : Option PatternSet := do
  let (front, rest) ← Wire.splitBytes mark.length bytes
  if front ≠ mark then none
  let (sources, rest) ← Wire.decodeList Wire.decodeString rest
  if rest ≠ [] then none
  ofSources? sources

end PatternSet

end LRWorkbench
