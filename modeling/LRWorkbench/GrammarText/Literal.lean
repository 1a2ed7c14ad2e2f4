import LRWorkbench.Text.Bytes

/-!
# Literals of grammar texts

`unescape` reads the inside of a string, `patternParts` the inside of a pattern.

The escapes of strings are `\n \r \t \0 \\ \" \'` and a code point in hexadecimal, `\u` with
braces. A malformed escape is reported with its byte offset and length.
-/

namespace LRWorkbench.GrammarText

/-- Where a malformed escape stands in the inside of a string. -/
structure BadEscape where
  offset : Nat
  length : Nat
  deriving DecidableEq, Repr

/-- The character that an escape of one letter stands for. -/
def escaped? (c : Char) : Option Char :=
  if c = 'n' then some '\n'
  else if c = 'r' then some '\r'
  else if c = 't' then some '\t'
  else if c = '0' then some '\x00'
  else if c = '\\' then some '\\'
  else if c = '"' then some '"'
  else if c = '\'' then some '\''
  else none

/-- The value of a hexadecimal digit of either case. -/
def hexDigitValue? (c : Char) : Option Nat :=
  if '0' ≤ c ∧ c ≤ '9' then some (c.toNat - 48)
  else if 'a' ≤ c ∧ c ≤ 'f' then some (c.toNat - 87)
  else if 'A' ≤ c ∧ c ≤ 'F' then some (c.toNat - 55)
  else none

/-- The number that hexadecimal digits stand for, of which there is at least one. -/
def hexNumber? (digits : List Char) : Option Nat :=
  if digits.isEmpty then none
  else digits.foldlM (fun n c => (hexDigitValue? c).map fun d => n * 16 + d) 0

/-- The character with a code point, if it is one. -/
def charOfCode? (n : Nat) : Option Char := if n.isValidChar then some (Char.ofNat n) else none

/-- A code point in braces: digits, which a plus sign may precede. Answers the character and what
follows the closing brace. -/
def bracedChar? : List Char → Option (Char × List Char)
  | '\x7b' :: cs =>
    match Text.spanChars (fun c => c ≠ '\x7d') cs with
    | (digits, '\x7d' :: rest) => do
      let n ← hexNumber? (match digits with
        | '+' :: ds => ds
        | ds => ds)
      let c ← charOfCode? n
      return (c, rest)
    | _ => none
  | _ => none

/-- Resolves the escapes of a text that starts at an offset, in at most `fuel` steps. -/
def unescapeFrom : Nat → Nat → List Char → Except BadEscape (List Char)
  | 0, _, _ => .ok []
  | _ + 1, _, [] => .ok []
  | fuel + 1, offset, '\\' :: cs =>
    match cs with
    | [] => .error ⟨offset, 1⟩
    | 'u' :: cs =>
      match bracedChar? cs with
      | some (c, rest) =>
        (unescapeFrom fuel (offset + 2 + (Text.byteLength cs - Text.byteLength rest)) rest).map
          (c :: ·)
      | none => .error ⟨offset, 2⟩
    | c :: cs =>
      match escaped? c with
      | some d => (unescapeFrom fuel (offset + 2) cs).map (d :: ·)
      | none => .error ⟨offset, 1 + c.utf8Size⟩
  | fuel + 1, offset, c :: cs => (unescapeFrom fuel (offset + c.utf8Size) cs).map (c :: ·)

/-- Resolves the escapes of the inside of a string. -/
def unescape (body : List Char) : Except BadEscape (List Char) :=
  unescapeFrom body.length 0 body

/-- Slashes in a pattern are written after a backslash. -/
def plainSlashes : List Char → List Char
  | [] => []
  | '\\' :: '/' :: cs => '/' :: plainSlashes cs
  | c :: cs => c :: plainSlashes cs

/-- What stands before and after the last slash of a text; all of it and nothing when there is
none. -/
def splitAtLastSlash (cs : List Char) : List Char × List Char :=
  let (flags, before) := Text.spanChars (fun c => c ≠ '/') cs.reverse
  match before with
  | [] => (cs, [])
  | _ :: body => (body.reverse, flags.reverse)

/-- The value and the flags of a pattern, given what follows its opening slash. -/
def patternParts (terminated : Bool) (cs : List Char) : String × Option String :=
  let (body, flags) := if terminated then splitAtLastSlash cs else (cs, [])
  (String.ofList (plainSlashes body), if flags.isEmpty then none else some (String.ofList flags))

end LRWorkbench.GrammarText
