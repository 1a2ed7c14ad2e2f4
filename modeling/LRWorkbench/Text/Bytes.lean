/-!
# Texts and byte offsets

A text is a list of characters; every position in it is a **byte offset** into its UTF-8 form.

- `byteLength` is the length in bytes;
- `dropBytes` and `takeBytes` cut at a byte offset, and refuse an offset that lies inside a
  character or past the end, so a cut never splits a character;
- `slice` is the piece between two offsets;
- a `Span` is a half-open range of offsets.
-/

namespace LRWorkbench.Text

/-- The number of bytes of the UTF-8 form of a text. -/
def byteLength : List Char → Nat
  | [] => 0
  | c :: cs => c.utf8Size + byteLength cs

/-- The text from byte offset `n` on; `none` when `n` is not between two characters. -/
def dropBytes : Nat → List Char → Option (List Char)
  | 0, cs => some cs
  | _ + 1, [] => none
  | n + 1, c :: cs =>
    if c.utf8Size ≤ n + 1 then dropBytes (n + 1 - c.utf8Size) cs else none

/-- The first `n` bytes of a text; `none` when `n` is not between two characters. -/
def takeBytes : Nat → List Char → Option (List Char)
  | 0, _ => some []
  | _ + 1, [] => none
  | n + 1, c :: cs =>
    if c.utf8Size ≤ n + 1 then (takeBytes (n + 1 - c.utf8Size) cs).map (c :: ·) else none

/-- The longest start of a text that has `n` bytes at most. -/
def fitting : Nat → List Char → List Char
  | _, [] => []
  | n, c :: cs => if c.utf8Size ≤ n then c :: fitting (n - c.utf8Size) cs else []

/-- Whether a byte offset lies between two characters, at the start or at the end. -/
def isBoundary (n : Nat) (cs : List Char) : Bool :=
  (dropBytes n cs).isSome

/-- The character before byte offset `n`, `before` being the one before the text, and the text from
there on; `none` when `n` is not between two characters. -/
def seekFrom (before : Option Char) : Nat → List Char → Option (Option Char × List Char)
  | 0, cs => some (before, cs)
  | _ + 1, [] => none
  | n + 1, c :: cs =>
    if c.utf8Size ≤ n + 1 then seekFrom (some c) (n + 1 - c.utf8Size) cs else none

/-- What stands around byte offset `n`: the character before it, if there is one, and the text from
there on. Nothing stands after an offset that is not between two characters. -/
def seek (n : Nat) (cs : List Char) : Option Char × List Char :=
  (seekFrom none n cs).getD (none, [])

/-- The text between two byte offsets, empty when they do not delimit a piece of it. -/
def slice (start stop : Nat) (cs : List Char) : List Char :=
  (((dropBytes start cs).bind (takeBytes (stop - start))).getD [])

/-- The last character before byte offset `n`, if there is one. -/
def charBefore (n : Nat) (cs : List Char) : Option Char :=
  ((takeBytes n cs).getD []).getLast?

/-- The bytes of the UTF-8 form of a text. -/
def utf8Bytes (cs : List Char) : List UInt8 :=
  cs.flatMap String.utf8EncodeChar

/-- The text that a list of bytes encodes in UTF-8, if it is well-formed. -/
def ofUtf8? (bytes : List UInt8) : Option String :=
  String.fromUTF8? ⟨bytes.toArray⟩

/-- The longest start of a text made of characters with a property, and the rest. -/
def spanChars (p : Char → Bool) : List Char → List Char × List Char
  | [] => ([], [])
  | c :: cs =>
    if p c then
      let (front, rest) := spanChars p cs
      (c :: front, rest)
    else ([], c :: cs)

/-- The rest of a text after a given beginning, if it begins so. -/
def dropPrefix? : List Char → List Char → Option (List Char)
  | [], cs => some cs
  | _ :: _, [] => none
  | p :: ps, c :: cs => if p = c then dropPrefix? ps cs else none

/-- What stands before and after the first occurrence of a piece of text. -/
def splitAtFirst? (piece : List Char) : List Char → Option (List Char × List Char)
  | [] => if piece.isEmpty then some ([], []) else none
  | c :: cs =>
    match dropPrefix? piece (c :: cs) with
    | some rest => some ([], rest)
    | none => (splitAtFirst? piece cs).map fun (before, rest) => (c :: before, rest)

theorem spanChars_append (p : Char → Bool) (cs : List Char) :
    (spanChars p cs).1 ++ (spanChars p cs).2 = cs := by
  induction cs with
  | nil => simp [spanChars]
  | cons c cs ih =>
    simp only [spanChars]
    split
    · simpa using ih
    · simp

end LRWorkbench.Text

namespace LRWorkbench

/-- The bytes from `start` up to, but without, `stop`. -/
structure Span where
  start : Nat
  stop : Nat
  deriving DecidableEq, Repr, Inhabited

namespace Span

/-- The span without bytes at an offset. -/
def emptyAt (offset : Nat) : Span := ⟨offset, offset⟩

/-- Whether a span holds no byte. -/
def isEmpty (s : Span) : Bool := s.stop ≤ s.start

/-- The number of bytes of a span. -/
def length (s : Span) : Nat := s.stop - s.start

/-- The smallest span that holds two spans. -/
def cover (a b : Span) : Span := ⟨min a.start b.start, max a.stop b.stop⟩

end Span

end LRWorkbench
