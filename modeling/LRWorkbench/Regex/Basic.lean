import LRWorkbench.Unicode.Lookup
import LRWorkbench.Unicode.Folding

/-!
# Regular expressions

A regular expression describes pieces of a text, seen **in their surroundings**: conditions such
as the end of a line depend on the characters before and after a place.

- `Regex.nullable` tells whether the empty piece matches at a place;
- `Regex.residuals` lists what may follow after one character is read. They are partial
  derivatives: together they match exactly the continuations of the character;
- `Regex.canStart` tells whether a character with a code in a range can be read next;
- `Regex.minLength` is the least number of bytes of a match, where it is known.
-/

namespace LRWorkbench

namespace Regex

/-- Which characters count as parts of words. -/
inductive WordKind where
  | ascii
  | unicode
  deriving DecidableEq, Repr

/-- A condition on the place between two characters. -/
inductive Look where
  | textStart
  | textEnd
  | lineStart
  | lineEnd
  /-- The start of a line where carriage returns end lines too. -/
  | anyLineStart
  /-- The end of a line where carriage returns end lines too. -/
  | anyLineEnd
  | boundary (words : WordKind)
  | notBoundary (words : WordKind)
  | wordStart (words : WordKind)
  | wordEnd (words : WordKind)
  | wordStartHalf (words : WordKind)
  | wordEndHalf (words : WordKind)
  deriving DecidableEq, Repr

end Regex

/-- A regular expression. -/
inductive Regex where
  /-- The empty piece. -/
  | empty
  /-- One character of a set. -/
  | chars (set : CharSet)
  /-- The empty piece, where a condition holds. -/
  | look (condition : Regex.Look)
  | seq (first second : Regex)
  | alt (first second : Regex)
  /-- At least and, if so given, at most a number of times. -/
  | repeated (content : Regex) (least : Nat) (most : Option Nat)
  deriving DecidableEq, Repr, Inhabited

namespace Regex

/-- The digits, letters and the underscore of ASCII. -/
def asciiWord : CharSet := CharSet.ofRanges [(0x30, 0x39), (0x41, 0x5A), (0x5F, 0x5F), (0x61, 0x7A)]

/-- Whether there is a character and it is part of a word. -/
def WordKind.has (words : WordKind) : Option Char → Bool
  | none => false
  | some c =>
    match words with
    | .ascii => asciiWord.contains c
    | .unicode => Unicode.word.contains c

/-- Whether a condition holds between two characters, or at an end of the text. -/
def Look.holds (before after : Option Char) : Look → Bool
  | textStart => before.isNone
  | textEnd => after.isNone
  | lineStart => before.isNone || before = some '\n'
  | lineEnd => after.isNone || after = some '\n'
  | anyLineStart =>
    before.isNone || before = some '\n' || (before = some '\r' && after ≠ some '\n')
  | anyLineEnd =>
    after.isNone || after = some '\r' || (after = some '\n' && before ≠ some '\r')
  | boundary w => w.has before != w.has after
  | notBoundary w => w.has before == w.has after
  | wordStart w => !w.has before && w.has after
  | wordEnd w => w.has before && !w.has after
  | wordStartHalf w => !w.has before
  | wordEndHalf w => !w.has after

/-- Whether a condition looks at words of all alphabets. -/
def Look.isUnicode : Look → Bool
  | boundary w | notBoundary w | wordStart w | wordEnd w | wordStartHalf w | wordEndHalf w =>
    w = .unicode
  | _ => false

/-- Whether the empty piece between two characters matches. -/
def nullable (before after : Option Char) : Regex → Bool
  | empty => true
  | chars _ => false
  | look l => l.holds before after
  | seq a b => a.nullable before after && b.nullable before after
  | alt a b => a.nullable before after || b.nullable before after
  | repeated r least _ => least = 0 || r.nullable before after

/-- Whether some condition on places occurs. -/
def hasLook : Regex → Bool
  | empty | chars _ => false
  | look _ => true
  | seq a b | alt a b => a.hasLook || b.hasLook
  | repeated r _ _ => r.hasLook

/-- Whether some condition on words of all alphabets occurs. -/
def hasUnicodeLook : Regex → Bool
  | empty | chars _ => false
  | look l => l.isUnicode
  | seq a b | alt a b => a.hasUnicodeLook || b.hasUnicodeLook
  | repeated r _ _ => r.hasUnicodeLook

/-- One expression after another. -/
def followedBy : Regex → Regex → Regex
  | empty, b => b
  | a, b => seq a b

/-- How often the content of a repetition may be passed over before a character is read. Where
only the surroundings make it match nothing, each number leaves a different rest. -/
def skips (before : Option Char) (c : Char) (content : Regex) (least : Nat) : List Nat :=
  if content.hasLook && content.nullable before (some c) then List.range (max least 1) else [0]

/-- What may follow after a character, which `before` precedes, is read. -/
def residuals (before : Option Char) (c : Char) : Regex → List Regex
  | empty => []
  | chars s => if s.contains c then [empty] else []
  | look _ => []
  | seq a b =>
    (a.residuals before c).map (fun r => r.followedBy b) ++
      (if a.nullable before (some c) then b.residuals before c else [])
  | alt a b => a.residuals before c ++ b.residuals before c
  | repeated r least most =>
    if most = some 0 then []
    else
      (skips before c r least).flatMap fun k =>
        (r.residuals before c).map fun x =>
          x.followedBy (repeated r (least - 1 - k) (most.map fun m => m - 1 - k))

/-- Whether a set of ranges holds a code between two. -/
def meets (lo hi : Nat) : List (Nat × Nat) → Bool
  | [] => false
  | (a, b) :: rest => (a ≤ hi && lo ≤ b) || meets lo hi rest

/-- Whether a character with a code between two can be read next. -/
def canStart (before after : Option Char) (lo hi : Nat) : Regex → Bool
  | empty => false
  | chars s => meets lo hi s.ranges
  | look _ => false
  | seq a b =>
    a.canStart before after lo hi || (a.nullable before after && b.canStart before after lo hi)
  | alt a b => a.canStart before after lo hi || b.canStart before after lo hi
  | repeated r _ most => most ≠ some 0 && r.canStart before after lo hi

/-- The least number of bytes of a match. It is unknown when a part matches nothing at all, even
if another alternative does match. -/
def minLength : Regex → Option Nat
  | empty => some 0
  | chars s =>
    match s.ranges with
    | [] => none
    | (lo, _) :: _ => some (Char.ofNat lo).utf8Size
  | look _ => some 0
  | seq a b =>
    match a.minLength, b.minLength with
    | some m, some n => some (m + n)
    | _, _ => none
  | alt a b =>
    match a.minLength, b.minLength with
    | some m, some n => some (min m n)
    | _, _ => none
  | repeated r least _ => r.minLength.map (least * ·)

/-- The rests after reading a text that `before` precedes. -/
def run (before : Option Char) : List Char → List Regex → List Regex
  | [], rs => rs
  | c :: cs, rs => run (some c) cs (rs.flatMap (fun r => r.residuals before c)).eraseDups

/-- Whether an expression matches a whole text. -/
def matchesAll (r : Regex) (text : List Char) : Bool :=
  (run none text [r]).any fun rest => rest.nullable text.getLast? none

/-! ### What regular expressions mean -/

/-- The relation between an expression and the pieces it matches, given the characters around the
piece. -/
inductive Matches : Regex → Option Char → List Char → Option Char → Prop where
  | empty (before after) : Matches .empty before [] after
  | chars {s : CharSet} {c : Char} (before after) (h : s.contains c = true) :
      Matches (.chars s) before [c] after
  | look {l : Look} {before after} (h : l.holds before after = true) :
      Matches (.look l) before [] after
  | seq {a b : Regex} {before after : Option Char} {u v : List Char}
      (ha : Matches a before u (v.head?.or after))
      (hb : Matches b (u.getLast?.or before) v after) : Matches (.seq a b) before (u ++ v) after
  | altLeft {a b : Regex} {before after u} (h : Matches a before u after) :
      Matches (.alt a b) before u after
  | altRight {a b : Regex} {before after u} (h : Matches b before u after) :
      Matches (.alt a b) before u after
  | done (r : Regex) (most : Option Nat) (before after) :
      Matches (.repeated r 0 most) before [] after
  | more {r : Regex} {least : Nat} {most : Option Nat} {before after : Option Char}
      {u v : List Char} (room : most ≠ some 0) (ha : Matches r before u (v.head?.or after))
      (hb : Matches (.repeated r (least - 1) (most.map (· - 1))) (u.getLast?.or before) v after) :
      Matches (.repeated r least most) before (u ++ v) after

end Regex

end LRWorkbench
