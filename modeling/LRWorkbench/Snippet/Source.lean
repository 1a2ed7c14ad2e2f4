import LRWorkbench.Text.Bytes
import LRWorkbench.Unicode.Lookup

/-!
# Source lines

Where every column is equally wide, ideographs and most pictures take two, and characters that attach to
the one before take none (`Unicode.width`).

A text is shown line by line. Tabs are shown as four blanks, control characters as pictures of
them, and characters that would turn the direction of writing as replacement characters. A
`Location` is a place in the text as a reader sees it.
-/

namespace LRWorkbench.Unicode

/-- The characters that take two columns. -/
def wide : CharSet := CharSet.ofHex
    "1100-115f 231a-231b 2329-232a 23e9-23ec 23f0 23f3 25fd-25fe 2614-2615 2630-2637 2648-2653
    267f 268a-268f 2693 26a1 26aa-26ab 26bd-26be 26c4-26c5 26ce 26d4 26ea 26f2-26f3 26f5 26fa
    26fd 2705 270a-270b 2728 274c 274e 2753-2755 2757 2795-2797 27b0 27bf 2b1b-2b1c 2b50 2b55
    2e80-2e99 2e9b-2ef3 2f00-2fd5 2ff0-303e 3041-3096 3099-30ff 3105-312f 3131-318e 3190-31e5
    31ef-321e 3220-3247 3250-a48c a490-a4c6 a960-a97c ac00-d7a3 f900-faff fe10-fe19 fe30-fe52
    fe54-fe66 fe68-fe6b ff01-ff60 ffe0-ffe6 16fe0-16fe4 16ff0-16ff1 17000-187f7 18800-18cd5
    18cff-18d08 1aff0-1aff3 1aff5-1affb 1affd-1affe 1b000-1b122 1b150-1b152 1b164-1b167
    1b170-1b2fb 1d300-1d356 1d360-1d376 1f004 1f0cf 1f18e 1f191-1f19a 1f200-1f202 1f210-1f23b
    1f240-1f248 1f250-1f251 1f260-1f265 1f300-1f320 1f32d-1f335 1f337-1f37c 1f37e-1f393
    1f3a0-1f3ca 1f3cf-1f3d3 1f3e0-1f3f0 1f3f4 1f3f8-1f43e 1f440 1f442-1f4fc 1f4ff-1f53d
    1f54b-1f54e 1f550-1f567 1f57a 1f595-1f596 1f5a4 1f5fb-1f64f 1f680-1f6c5 1f6cc 1f6d0-1f6d2
    1f6d5-1f6d7 1f6dc-1f6df 1f6eb-1f6ec 1f6f4-1f6fc 1f7e0-1f7eb 1f7f0 1f90c-1f93a 1f93c-1f945
    1f947-1f9ff 1fa70-1fa7c 1fa80-1fa89 1fa8f-1fac6 1face-1fadc 1fadf-1fae9 1faf0-1faf8
    20000-2fffd 30000-3fffd"

/-- The medial vowels and final consonants of Korean syllables. -/
def syllableTails : CharSet := CharSet.ofHex "1160-11ff d7b0-d7c6 d7cb-d7fb"

/-- The characters that take no column. -/
def zeroWidth : CharSet :=
  (CharSet.union (propertyClass "defaultignorablecodepoint") (propertyClass "graphemeextend")).union
    (syllableTails.union (CharSet.ofHex "605 70f 890-891 8e2 a8fa"))

/-- The number of columns of a character. Control characters count as one. -/
def width (c : Char) : Nat :=
  if 0x20 ≤ c.toNat && c.toNat < 0x7F then 1
  else if c.toNat = 0x115F then 2
  else if c.toNat = 0x17D8 then 3
  else if c.toNat = 0x2D7F then 1
  else if zeroWidth.contains c then 0
  else if wide.contains c then 2
  else 1

end LRWorkbench.Unicode

namespace LRWorkbench.Snippet

/-! ### What is shown for a character -/

/-- The characters that change the direction of writing. -/
def turnsWriting (c : Char) : Bool :=
  (0x202A ≤ c.toNat && c.toNat ≤ 0x202E) || (0x2066 ≤ c.toNat && c.toNat ≤ 0x2069)

/-- What is shown for a character. -/
def shownChar (c : Char) : List Char :=
  if c = '\t' then [' ', ' ', ' ', ' ']
  else if c = '\n' then [c]
  else if c.toNat < 0x20 then [Char.ofNat (0x2400 + c.toNat)]
  else if c.toNat = 0x7F then [Char.ofNat 0x2421]
  else if c.toNat = 0x200D then []
  else if turnsWriting c then [Char.ofNat 0xFFFD]
  else [c]

/-- What is shown for a text. -/
def shownText (cs : List Char) : List Char := cs.flatMap shownChar

/-- The number of columns that are taken up by what is shown for a character. -/
def charColumns (c : Char) : Nat :=
  if c = '\t' then 4 else if turnsWriting c then 1 else Unicode.width c

/-- The number of columns of a text. -/
def columns (cs : List Char) : Nat := cs.foldl (fun n c => n + charColumns c) 0

/-- The first characters of a text whose bytes are not more than a number. -/
def charsWithin (bytes : Nat) : List Char → List Char
  | [] => []
  | c :: rest => if c.utf8Size ≤ bytes then c :: charsWithin (bytes - c.utf8Size) rest else []

/-! ### Lines -/

/-- A line of a text. -/
structure Line where
  /-- The number of the line, counted from one. -/
  number : Nat
  /-- The characters before the line break. -/
  text : List Char
  /-- The offset of the first byte. -/
  start : Nat
  /-- The offset behind the line break. -/
  stop : Nat
  deriving DecidableEq, Repr, Inhabited

namespace Line

/-- The offset of the line break. -/
def textStop (l : Line) : Nat := l.start + Text.byteLength l.text

/-- The line that ends with a line break after some characters, the last one first. A return
belongs to the line break. -/
def close (number start : Nat) (seen : List Char) : Line :=
  let text := if seen.head? = some '\r' then seen.tail.reverse else seen.reverse
  ⟨number, text, start, start + Text.byteLength seen + 1⟩

/-- The lines of a text, given the number and the start of the first one and what has been read of
it, the last character first. -/
def listFrom (number start : Nat) (seen : List Char) : List Char → List Line
  | [] =>
    if seen.isEmpty then []
    else [⟨number, seen.reverse, start, start + Text.byteLength seen⟩]
  | '\n' :: rest =>
    let line := close number start seen
    line :: listFrom (number + 1) line.stop [] rest
  | c :: rest => listFrom number start (c :: seen) rest

/-- The lines of a text. The empty text has an empty line. -/
def list (source : List Char) : List Line :=
  if source.isEmpty then [⟨1, [], 0, 0⟩] else listFrom 1 0 [] source

/-- The line that holds a byte, or else the last one. -/
def holding (lines : List Line) (byte : Nat) : Line :=
  (lines.find? fun l => l.start ≤ byte && byte < l.stop).getD (lines.getLast?.getD default)

/-- The text of the line of a number. -/
def text? (lines : List Line) (number : Nat) : Option (List Char) :=
  (lines.find? fun l => l.number = number).map (·.text)

/-- The lines that a span touches, or else the last one. -/
def touched (lines : List Line) (span : Span) : List Line :=
  let found := lines.filter fun l => span.start < l.stop && l.start ≤ span.stop
  if found.isEmpty then lines.getLast?.toList else found

/-- The characters of the line before a byte. -/
def before (l : Line) (byte : Nat) : List Char := charsWithin (byte - l.start) l.text

end Line

/-- How often a text changes to a new line that is not empty. -/
def lineChanges (cs : List Char) : Nat :=
  let breaks := cs.count '\n'
  if cs.isEmpty || cs.getLast? = some '\n' then breaks - 1 else breaks

/-! ### Locations -/

/-- A place in a text: the number of its line, the number of characters and the number of columns
before it in the line, and its offset. -/
structure Location where
  line : Nat
  char : Nat
  column : Nat
  byte : Nat
  deriving DecidableEq, Repr, Inhabited

namespace Location

/-- Where a span starts. The place behind a line break counts as one character more. -/
def ofStart (lines : List Line) (byte : Nat) : Location :=
  let l := Line.holding lines byte
  let seen := l.before byte
  ⟨l.number, seen.length + (if l.textStop < byte then 1 else 0), columns seen, byte⟩

/-- Where a span ends that starts in some line. -/
def ofStop (lines : List Line) (startLine byte : Nat) : Location :=
  let l := Line.holding lines byte
  let seen := l.before byte
  let more := if startLine ≠ l.number && l.textStop < byte then 1 else 0
  ⟨l.number, seen.length + more, columns seen + more, byte⟩

/-- Where a span starts and ends. -/
def ofSpan (lines : List Line) (span : Span) : Location × Location :=
  let start := ofStart lines span.start
  (start, if span.start = span.stop then start else ofStop lines start.line span.stop)

end Location

end LRWorkbench.Snippet
