import LRWorkbench.Regex.Basic
import LRWorkbench.Text.Bytes

/-!
# Reading regular expressions

The notation knows groups with and without flags, named groups, alternatives, repetitions with
counts, classes with ranges, nesting and set operations, classes by name, escapes and conditions
on places. There is no look-around and there are no references to groups.

**Flags** hold from where they are set to the end of the group: `i` ignores case, `m` lets `^` and
`$` match at lines, `s` lets the dot match line ends, `R` lets carriage returns end lines, `x`
allows blanks and comments, and `u`, which is on at first, makes classes know all alphabets.
Without `u` classes hold ASCII only.

What is read is put together in the simplest form: empty parts of a sequence are left out, and classes
that are alternatives of each other are joined into one. This shows only in `Regex.minLength`, which is
unknown where a part matches nothing at all: such a class is lost among others.

Expressions nested more than 250 deep are refused.
-/

namespace LRWorkbench.Regex

/-- The flags in force. -/
structure Flags where
  ignoreCase : Bool
  multiLine : Bool
  dotAll : Bool
  carriageReturns : Bool
  unicode : Bool
  verbose : Bool
  deriving Repr

/-- The flags at the start. -/
def Flags.initial : Flags := ⟨false, false, false, false, true, false⟩

/-- What the reader has in hand. -/
structure ReadState where
  rest : List Char
  flags : Flags
  /-- The names of the groups so far. -/
  names : List (List Char)

/-- A step of the reader; it fails on a malformed expression. -/
abbrev Read (α : Type) := StateT ReadState Option α

/-- What an expression is written as. -/
inductive Form where
  | plain
  /-- A setting of flags, which is no operand. -/
  | setting
  /-- A group that captures what it matches, which stays apart from the alternatives beside it. -/
  | capture
  deriving DecidableEq

/-- An expression, how deep it is nested and what it is written as. -/
structure Nested where
  regex : Regex
  depth : Nat
  form : Form

namespace Nested

/-- Whether nothing is left of the expression in a sequence. -/
def isEmpty (x : Nested) : Bool := x.form ≠ .capture && x.regex = .empty

/-- The class that an expression consists of. -/
def class? (x : Nested) : Option CharSet :=
  if x.form = .capture then none
  else
    match x.regex with
    | .chars s => some s
    | _ => none

end Nested

namespace Read

/-- The greatest depth of nesting. -/
def maxDepth : Nat := 250

def fail {α : Type} : Read α := fun _ => none

def peek? : Read (Option Char) := return (← get).rest.head?

/-- The next character, which must be there. -/
def peek : Read Char := do
  match (← get).rest with
  | [] => fail
  | c :: _ => return c

def peekSecond? : Read (Option Char) := return ((← get).rest.drop 1).head?

/-- Passes over one character. -/
def bump : Read Unit := modify fun s => { s with rest := s.rest.drop 1 }

def atEnd : Read Bool := return (← get).rest.isEmpty

/-- Passes over a text if it comes next. -/
def bumpIf (text : String) : Read Bool := do
  match Text.dropPrefix? text.toList (← get).rest with
  | some rest =>
    modify fun s => { s with rest := rest }
    return true
  | none => return false

/-- The rest after blanks and comments, which end with their line. -/
def dropSpace (inComment : Bool) : List Char → List Char
  | [] => []
  | c :: cs =>
    if inComment then dropSpace (c ≠ '\n') cs
    else if Unicode.space.contains c then dropSpace false cs
    else if c = '#' then dropSpace true cs
    else c :: cs

/-- Passes over blanks and comments where they are allowed. -/
def bumpSpace : Read Unit := modify fun s =>
  if s.flags.verbose then { s with rest := dropSpace false s.rest } else s

/-- Passes over one character and the blanks after it; answers whether anything is left. -/
def bumpAndSpace : Read Bool := do
  bump
  bumpSpace
  return !(← atEnd)

/-- Passes over one character and the blanks after it; something must be left. -/
def advance : Read Unit := do
  if !(← bumpAndSpace) then fail

/-- The second next character, not counting blanks and comments where they are allowed. -/
def peekSpace? : Read (Option Char) := do
  let s ← get
  let rest := s.rest.drop 1
  return (if s.flags.verbose then dropSpace false rest else rest).head?

/-! ### Characters -/

/-- The characters that mean something outside of classes or inside. -/
def isMeta (c : Char) : Bool :=
  c ∈ ['\\', '.', '+', '*', '?', '(', ')', '|', '[', ']', '\x7b', '\x7d', '^', '$', '#', '&', '-', '~']

/-- The characters that a backslash may precede without a meaning. -/
def isEscapable (c : Char) : Bool :=
  isMeta c || (c.toNat < 128 && !c.isAlphanum && c ≠ '<' && c ≠ '>')

def hexDigit? (c : Char) : Option Nat :=
  if '0' ≤ c ∧ c ≤ '9' then some (c.toNat - 48)
  else if 'a' ≤ c ∧ c ≤ 'f' then some (c.toNat - 87)
  else if 'A' ≤ c ∧ c ≤ 'F' then some (c.toNat - 55)
  else none

/-- A character by its code point. -/
def charOf (n : Nat) : Read Char := if n.isValidChar then return Char.ofNat n else fail

/-- Reads a number of hexadecimal digits. -/
def hexDigits : Nat → Nat → Read Nat
  | 0, n => return n
  | count + 1, n => do
    match hexDigit? (← peek) with
    | none => fail
    | some d =>
      let left ← bumpAndSpace
      if count ≠ 0 ∧ !left then fail
      hexDigits count (n * 16 + d)

/-- Reads hexadecimal digits up to a closing brace. -/
def hexBraced : Nat → Option Nat → Read Nat
  | 0, _ => fail
  | fuel + 1, n => do
    advance
    let c ← peek
    if c = '\x7d' then
      let _ ← bumpAndSpace
      match n with
      | none => fail
      | some n => return n
    else
      match hexDigit? c with
      | none => fail
      | some d => hexBraced fuel (some (n.getD 0 * 16 + d))

/-- A character given by its code point, after the backslash. Answers also whether it may stand
for a byte. -/
def hexChar : Read (Char × Bool) := do
  let kind ← peek
  advance
  if (← peek) = '\x7b' then
    let n ← hexBraced ((← get).rest.length + 1) none
    return (← charOf n, false)
  let count := if kind = 'x' then 2 else if kind = 'u' then 4 else 8
  let n ← hexDigits count 0
  return (← charOf n, kind = 'x')

/-! ### Classes by name -/

/-- Closes a set under case, if case is ignored, and complements it, if so wanted. -/
def foldAndNegate (negated : Bool) (s : CharSet) : Read CharSet := do
  let flags := (← get).flags
  if flags.unicode then
    let s := if flags.ignoreCase then s.foldCase else s
    return if negated then s.complement else s
  else
    if negated then fail
    let s := if flags.ignoreCase then
      CharSet.inter s.foldCase (CharSet.range 0 0x7F) else s
    return s

/-- Reads up to a closing brace, blanks left out where they are allowed. -/
def bracedName : Nat → List Char → Read (List Char)
  | 0, _ => fail
  | fuel + 1, acc => do
    advance
    let c ← peek
    if c = '\x7d' then
      bump
      return acc.reverse
    else bracedName fuel (c :: acc)

/-- A class by its name, after the backslash. -/
def namedClass : Read CharSet := do
  let negated := (← peek) = 'P'
  advance
  let c ← peek
  let found ←
    if c = '\x7b' then
      let name ← bracedName ((← get).rest.length + 1) []
      match Text.splitAtFirst? ['!', '='] name with
      | some (n, v) => pure (Unicode.classOfPair? (String.ofList n) (String.ofList v))
      | none =>
        match Text.splitAtFirst? [':'] name with
        | some (n, v) => pure (Unicode.classOfPair? (String.ofList n) (String.ofList v))
        | none =>
          match Text.splitAtFirst? ['='] name with
          | some (n, v) => pure (Unicode.classOfPair? (String.ofList n) (String.ofList v))
          | none => pure (Unicode.classOfName? (String.ofList name))
    else
      if c = '\\' then fail
      let _ ← bumpAndSpace
      pure (Unicode.classOfName? (String.ofList [c]))
  if !(← get).flags.unicode then fail
  match found with
  | none => fail
  | some s => foldAndNegate negated s

/-- The class that an escaped letter abbreviates. -/
def shorthandClass (letter : Char) : Read CharSet := do
  let lower := letter.toLower
  let negated := letter ≠ lower
  if (← get).flags.unicode then
    let s := if lower = 'd' then Unicode.digit else if lower = 's' then Unicode.space else Unicode.word
    return if negated then s.complement else s
  else
    if negated then fail
    return if lower = 'd' then CharSet.range 0x30 0x39
      else if lower = 's' then CharSet.ofRanges [(9, 13), (32, 32)]
      else asciiWord

/-- The classes of ASCII characters by name. -/
def asciiClass? (name : String) : Option CharSet :=
  match name with
  | "alnum" => some (CharSet.ofRanges [(0x30, 0x39), (0x41, 0x5A), (0x61, 0x7A)])
  | "alpha" => some (CharSet.ofRanges [(0x41, 0x5A), (0x61, 0x7A)])
  | "ascii" => some (CharSet.range 0 0x7F)
  | "blank" => some (CharSet.ofRanges [(9, 9), (32, 32)])
  | "cntrl" => some (CharSet.ofRanges [(0, 0x1F), (0x7F, 0x7F)])
  | "digit" => some (CharSet.range 0x30 0x39)
  | "graph" => some (CharSet.range 0x21 0x7E)
  | "lower" => some (CharSet.range 0x61 0x7A)
  | "print" => some (CharSet.range 0x20 0x7E)
  | "punct" => some (CharSet.ofRanges [(0x21, 0x2F), (0x3A, 0x40), (0x5B, 0x60), (0x7B, 0x7E)])
  | "space" => some (CharSet.ofRanges [(9, 13), (32, 32)])
  | "upper" => some (CharSet.range 0x41 0x5A)
  | "word" => some asciiWord
  | "xdigit" => some (CharSet.ofRanges [(0x30, 0x39), (0x41, 0x46), (0x61, 0x66)])
  | _ => none

/-- Tries to read a class of ASCII characters, such as `[:alpha:]`; on failure nothing is read. -/
def asciiClass : Read (Option CharSet) := do
  let saved ← get
  match saved.rest with
  | '[' :: ':' :: rest =>
    let (negated, rest) : Bool × List Char :=
      match rest with
      | '^' :: rest => (true, rest)
      | rest => (false, rest)
    let (name, rest) := Text.spanChars (fun c => c ≠ ':') rest
    match rest, asciiClass? (String.ofList name) with
    | ':' :: ']' :: rest, some s =>
      modify fun st => { st with rest := rest }
      return some (← foldAndNegate negated s)
    | _, _ => return none
  | _ => return none

/-! ### Escapes -/

/-- What an escape stands for. -/
inductive Escape where
  | char (c : Char) (asByte : Bool)
  | set (s : CharSet)
  | look (l : Look)

/-- The words of the conditions at the ends of words, in braces. -/
def wordLook? (words : WordKind) (name : String) : Option Look :=
  match name with
  | "start" => some (.wordStart words)
  | "end" => some (.wordEnd words)
  | "start-half" => some (.wordStartHalf words)
  | "end-half" => some (.wordEndHalf words)
  | _ => none

/-- Reads letters and dashes. -/
def lookName : Nat → List Char → Read (List Char)
  | 0, _ => fail
  | fuel + 1, acc => do
    match ← peek? with
    | some c =>
      if c.isAlpha || c = '-' then
        let _ ← bumpAndSpace
        lookName fuel (c :: acc)
      else return acc.reverse
    | none => return acc.reverse

/-- Reads what may follow `\b` in braces; a number there is a repetition and is left alone. -/
def specialBoundary (words : WordKind) : Read Look := do
  if (← peek?) ≠ some '\x7b' then return .boundary words
  let saved ← get
  advance
  let c ← peek
  if !(c.isAlpha || c = '-') then
    set saved
    return .boundary words
  let name ← lookName (saved.rest.length + 1) []
  if (← peek) ≠ '\x7d' then fail
  bump
  match wordLook? words (String.ofList name) with
  | some l => return l
  | none => fail

/-- Reads an escape from its backslash on. -/
def escape : Read Escape := do
  bump
  let c ← peek
  if c.isDigit then fail
  if c = 'x' ∨ c = 'u' ∨ c = 'U' then
    let (c, asByte) ← hexChar
    return .char c asByte
  if c = 'p' ∨ c = 'P' then return .set (← namedClass)
  bump
  if c ∈ ['d', 's', 'w', 'D', 'S', 'W'] then return .set (← shorthandClass c)
  if isEscapable c then return .char c false
  let words : WordKind := if (← get).flags.unicode then .unicode else .ascii
  match c with
  | 'a' => return .char '\x07' false
  | 'f' => return .char '\x0c' false
  | 't' => return .char '\t' false
  | 'n' => return .char '\n' false
  | 'r' => return .char '\r' false
  | 'v' => return .char '\x0b' false
  | 'A' => return .look .textStart
  | 'z' => return .look .textEnd
  | 'b' => return .look (← specialBoundary words)
  | 'B' => return .look (.notBoundary words)
  | '<' => return .look (.wordStart words)
  | '>' => return .look (.wordEnd words)
  | _ => fail

/-- The expression of one character. Without `u` the case of ASCII letters only is ignored. -/
def charRegex (c : Char) : Read Regex := do
  let flags := (← get).flags
  let s := CharSet.singleton c
  if !flags.ignoreCase then return .chars s
  if flags.unicode then return .chars s.foldCase
  if c.toNat < 128 then return .chars (CharSet.inter s.foldCase (CharSet.range 0 0x7F))
  return .chars s

/-! ### Bracketed classes -/

/-- A character in a class; without `u` it must be ASCII. -/
def classChar (c : Char) : Read Char := do
  if (← get).flags.unicode then return c
  if c.toNat < 128 then return c else fail

/-- The set operations of classes. -/
inductive SetOp where
  | inter
  | diff
  | symmDiff

/-- Applies a set operation; both sides are closed under case first if case is ignored. -/
def SetOp.apply (op : SetOp) (a b : CharSet) : Read CharSet := do
  let a ← foldAndNegate false a
  let b ← foldAndNegate false b
  return match op with
    | .inter => CharSet.inter a b
    | .diff => CharSet.diff a b
    | .symmDiff => CharSet.symmDiff a b

/-- The part of a class read so far: the operand before an operation, and the items of the current
operand. -/
structure ClassReading where
  left : Option (SetOp × CharSet × Nat)
  ranges : List (Nat × Nat)
  count : Nat
  depth : Nat

namespace ClassReading

def start : ClassReading := ⟨none, [], 0, 0⟩

/-- Adds an item. -/
def push (r : ClassReading) (s : CharSet) (depth : Nat) : ClassReading :=
  { r with ranges := s.ranges ++ r.ranges, count := r.count + 1, depth := max r.depth depth }

/-- The class so far, with its depth of nesting. -/
def value (r : ClassReading) : Read (CharSet × Nat) := do
  let right := CharSet.ofRanges r.ranges
  let depth := if r.count > 1 then r.depth + 1 else r.depth
  match r.left with
  | none => return (right, depth)
  | some (op, left, leftDepth) => return (← op.apply left right, 1 + max leftDepth depth)

end ClassReading

/-- An item of a class: one character or a set. -/
def classItem : Read (Sum Char CharSet) := do
  let c ← peek
  if c = '\\' then
    match ← escape with
    | .char c asByte =>
      if asByte ∧ !(← get).flags.unicode ∧ c.toNat ≥ 128 then fail
      return .inl c
    | .set s => return .inr s
    | .look _ => fail
  else
    bump
    return .inl c

/-- A character, a range or a named class inside a class. -/
def classRange : Read CharSet := do
  let first ← classItem
  bumpSpace
  let c ← peek
  let second ← peekSpace?
  if c ≠ '-' ∨ second = some ']' ∨ second = some '-' then
    match first with
    | .inl c => return CharSet.singleton (← classChar c)
    | .inr s => return s
  advance
  match first, ← classItem with
  | .inl a, .inl b =>
    if a ≤ b then
      let _ ← classChar a
      let _ ← classChar b
      return CharSet.range a.toNat b.toNat
    else fail
  | _, _ => fail

/-- The dashes, or the bracket, that stand for themselves at the front of a class. -/
def classFront : Nat → ClassReading → Read ClassReading
  | 0, r => return r
  | fuel + 1, r => do
    let c ← peek
    if c = '-' then
      advance
      classFront fuel (r.push (CharSet.singleton '-') 0)
    else if c = ']' ∧ r.count = 0 then
      advance
      return r.push (CharSet.singleton ']') 0
    else return r

mutual

/-- A class from its opening bracket on. -/
def bracketed (fuel : Nat) : Read (CharSet × Nat) := do
  match fuel with
  | 0 => fail
  | fuel + 1 =>
    advance
    let negated := (← peek) = '^'
    if negated then advance
    let front ← classFront ((← get).rest.length) .start
    let (s, depth) ← classItems fuel front
    return (← foldAndNegate negated s, depth + 1)

/-- The items of a class up to its closing bracket. -/
def classItems (fuel : Nat) (r : ClassReading) : Read (CharSet × Nat) := do
  match fuel with
  | 0 => fail
  | fuel + 1 =>
    bumpSpace
    let c ← peek
    let second ← peekSecond?
    let operation (op : SetOp) : Read (CharSet × Nat) := do
      bump
      bump
      let (left, depth) ← r.value
      classItems fuel ⟨some (op, left, depth), [], 0, 0⟩
    if c = '[' then
      match ← asciiClass with
      | some s => classItems fuel (r.push s 0)
      | none =>
        let (s, depth) ← bracketed fuel
        classItems fuel (r.push s depth)
    else if c = ']' then
      bump
      r.value
    else if c = '&' ∧ second = some '&' then operation .inter
    else if c = '-' ∧ second = some '-' then operation .diff
    else if c = '~' ∧ second = some '~' then operation .symmDiff
    else
      let s ← classRange
      classItems fuel (r.push s 0)

end

/-! ### Groups and flags -/

/-- The flag that a letter names, switched. -/
def setFlag (flags : Flags) (letter : Char) (on : Bool) : Option Flags :=
  match letter with
  | 'i' => some { flags with ignoreCase := on }
  | 'm' => some { flags with multiLine := on }
  | 's' => some { flags with dotAll := on }
  | 'R' => some { flags with carriageReturns := on }
  | 'u' => some { flags with unicode := on }
  | 'x' => some { flags with verbose := on }
  | 'U' => some flags
  | _ => none

/-- Reads flags up to `:` or `)`; no flag may be given twice, a minus sign switches off what
follows it. Answers the flags and whether any was given. -/
def readFlags : Nat → List Char → Flags → Read (Flags × Bool)
  | 0, _, _ => fail
  | fuel + 1, seen, flags => do
    let c ← peek
    if c = ':' ∨ c = ')' then
      if seen.head? = some '-' then fail
      return (flags, !seen.isEmpty)
    if c ∈ seen then fail
    let flags ←
      if c = '-' then pure flags
      else
        match setFlag flags c (!seen.contains '-') with
        | some flags => pure flags
        | none => fail
    bump
    readFlags fuel (c :: seen) flags

/-- Whether a character may stand in the name of a group, at its front or later. -/
def isNameChar (first : Bool) (c : Char) : Bool :=
  let alphabetic := Unicode.word.contains c && (Unicode.propertyClass "alphabetic").contains c
  if first then c = '_' || alphabetic
  else c ∈ ['_', '.', '[', ']'] || alphabetic || (Unicode.categoryGroup 'N').contains c

/-- Reads the name of a group and the sign that closes it. -/
def groupName : Nat → List Char → Read (List Char)
  | 0, _ => fail
  | fuel + 1, acc => do
    let c ← peek
    bump
    if c = '>' then return acc.reverse
    if !isNameChar acc.isEmpty c then fail
    groupName fuel (c :: acc)

/-- Takes note of the name of a group, which must be new. -/
def addName (name : List Char) : Read Unit := do
  if name.isEmpty then fail
  if name ∈ (← get).names then fail
  modify fun s => { s with names := name :: s.names }

/-- Reads digits. -/
def countDigits : Nat → List Char → Read (List Char)
  | 0, _ => fail
  | fuel + 1, acc => do
    match ← peek? with
    | some c =>
      if c.isDigit then
        let _ ← bumpAndSpace
        countDigits fuel (c :: acc)
      else return acc.reverse
    | none => return acc.reverse

/-- Passes over blanks, which are allowed around a count without any flag. -/
def skipBlanks : Read Unit := modify fun s => { s with rest := s.rest.dropWhile Unicode.space.contains }

/-- A number in a count. -/
def countNumber : Read Nat := do
  skipBlanks
  let digits ← countDigits ((← get).rest.length + 1) []
  if digits.isEmpty then fail
  skipBlanks
  let n := digits.foldl (fun n d => 10 * n + (d.toNat - 48)) 0
  if n < 0x100000000 then return n else fail

/-- A repetition with counts in braces, and the blanks behind it. -/
def counts : Read (Nat × Option Nat) := do
  advance
  let least ← countNumber
  let most ←
    if (← peek) = ',' then
      advance
      if (← peek) = '\x7d' then pure none
      else pure (some (← countNumber))
    else pure (some least)
  if (← peek) ≠ '\x7d' then fail
  let _ ← bumpAndSpace
  match most with
  | some m => if m < least then fail
  | none => pure ()
  return (least, most)

/-- A repetition in its simplest form. -/
def repetition (r : Regex) (least : Nat) (most : Option Nat) : Regex :=
  if least = 0 ∧ most = some 0 then .empty
  else if least = 1 ∧ most = some 1 then r
  else .repeated r least most

/-- Applies a repetition to the latest item of a sequence. -/
def repeatLast (items : List Nested) (least : Nat) (most : Option Nat) : Read (List Nested) := do
  match items with
  | [] => fail
  | x :: before =>
    if x.form = .setting then fail
    if (← peek?) = some '?' then bump
    return ⟨repetition x.regex least most, x.depth + 1, x.form⟩ :: before

/-- How deep the parts of an expression are nested, given in any order. -/
def depthOf (parts : List Nested) : Nat :=
  match parts with
  | [] => 0
  | [x] => x.depth
  | _ => parts.foldl (fun d x => max d x.depth) 0 + 1

/-- A sequence of items, the latest first. -/
def sequence (items : List Nested) : Nested :=
  match items.filter (!·.isEmpty) with
  | [] => ⟨.empty, depthOf items, .plain⟩
  | [x] => ⟨x.regex, depthOf items, x.form⟩
  | x :: before =>
    ⟨before.foldl (fun r x => .seq x.regex r) x.regex, depthOf items, .plain⟩

/-- The class that alternatives are joined into: if all are classes of one character, which are texts of
their own, or none is. -/
def joined? (branches : List Nested) : Option CharSet :=
  match branches.mapM Nested.class? with
  | none => none
  | some classes =>
    if classes.all CharSet.isSingleton || !classes.any CharSet.isSingleton then
      some (classes.foldl CharSet.union .empty)
    else none

/-- Alternatives, the latest first. -/
def choice (branches : List Nested) : Nested :=
  match branches with
  | [] => ⟨.empty, 0, .plain⟩
  | [x] => x
  | x :: before =>
    let regex :=
      match joined? branches with
      | some s => .chars s
      | none => before.foldl (fun r x => .alt x.regex r) x.regex
    ⟨regex, depthOf branches, .plain⟩

/-- One character, class or condition, which is no group. -/
def primitive : Read Nested := do
  let c ← peek
  let flags := (← get).flags
  if c = '\\' then
    match ← escape with
    | .char c asByte =>
      if asByte ∧ !flags.unicode ∧ c.toNat ≥ 128 then fail
      return ⟨← charRegex c, 0, .plain⟩
    | .set s => return ⟨.chars s, 0, .plain⟩
    | .look l => return ⟨.look l, 0, .plain⟩
  bump
  if c = '.' then
    if !flags.unicode then fail
    let left : CharSet :=
      if flags.dotAll then CharSet.empty
      else if flags.carriageReturns then CharSet.ofRanges [(10, 10), (13, 13)]
      else CharSet.singleton '\n'
    return ⟨.chars left.complement, 0, .plain⟩
  if c = '^' then
    let l : Look :=
      if !flags.multiLine then .textStart
      else if flags.carriageReturns then .anyLineStart else .lineStart
    return ⟨.look l, 0, .plain⟩
  if c = '$' then
    let l : Look :=
      if !flags.multiLine then .textEnd
      else if flags.carriageReturns then .anyLineEnd else .lineEnd
    return ⟨.look l, 0, .plain⟩
  return ⟨← charRegex c, 0, .plain⟩

mutual

/-- Alternatives up to the end of the group or of the expression. -/
def alternatives (fuel : Nat) (branches : List Nested) : Read Nested := do
  match fuel with
  | 0 => fail
  | fuel + 1 =>
    let items ← sequenceItems fuel []
    let branches := sequence items :: branches
    if (← peek?) = some '|' then
      bump
      alternatives fuel branches
    else return choice branches

/-- The items of a sequence, the latest first. -/
def sequenceItems (fuel : Nat) (items : List Nested) : Read (List Nested) := do
  match fuel with
  | 0 => fail
  | fuel + 1 =>
    bumpSpace
    match ← peek? with
    | none | some ')' | some '|' => return items
    | some '(' =>
      let g ← group fuel
      sequenceItems fuel (g :: items)
    | some '[' =>
      let (s, depth) ← bracketed ((← get).rest.length + 1)
      sequenceItems fuel (⟨.chars s, depth, .plain⟩ :: items)
    | some '?' =>
      bump
      sequenceItems fuel (← repeatLast items 0 (some 1))
    | some '*' =>
      bump
      sequenceItems fuel (← repeatLast items 0 none)
    | some '+' =>
      bump
      sequenceItems fuel (← repeatLast items 1 none)
    | some '\x7b' =>
      if items.isEmpty then fail
      let (least, most) ← counts
      sequenceItems fuel (← repeatLast items least most)
    | some _ =>
      let x ← primitive
      sequenceItems fuel (x :: items)

/-- A group, or a setting of flags for the rest of the group around it. -/
def group (fuel : Nat) : Read Nested := do
  match fuel with
  | 0 => fail
  | fuel + 1 =>
    bump
    bumpSpace
    for ahead in ["?=", "?!", "?<=", "?<!"] do
      if ← bumpIf ahead then fail
    let outer := (← get).flags
    if (← bumpIf "?P<") || (← bumpIf "?<") then
      addName (← groupName ((← get).rest.length + 1) [])
      groupBody fuel outer true
    else if ← bumpIf "?" then
      let (flags, given) ← readFlags ((← get).rest.length + 1) [] outer
      let c ← peek
      bump
      modify fun s => { s with flags := flags }
      if c = ')' then
        if !given then fail
        return ⟨.empty, 0, .setting⟩
      else groupBody fuel outer false
    else groupBody fuel outer true

/-- The inside of a group and its closing parenthesis; the flags outside hold again after it. Where the
group captures nothing, one inside of it may. -/
def groupBody (fuel : Nat) (outer : Flags) (captures : Bool) : Read Nested := do
  match fuel with
  | 0 => fail
  | fuel + 1 =>
    let inner ← alternatives fuel []
    if (← peek?) ≠ some ')' then fail
    bump
    modify fun s => { s with flags := outer }
    return ⟨inner.regex, inner.depth + 1,
      if captures || inner.form = .capture then .capture else .plain⟩

end

end Read

/-- Reads a regular expression. Every two nested steps take a character, so there are no more than
three steps for each. -/
def parse? (text : List Char) : Option Regex := do
  let (r, s) ← (Read.alternatives (4 * text.length + 4) []).run ⟨text, .initial, []⟩
  if !s.rest.isEmpty then none
  if r.depth > Read.maxDepth then none
  return r.regex

/-- A text as an expression that matches it literally. -/
def escapeText (cs : List Char) : List Char :=
  cs.flatMap fun c => if Read.isMeta c then ['\\', c] else [c]

end LRWorkbench.Regex
