import LRWorkbench.Unicode.Lookup

/-!
# Quoted text

Between double quotes, quotes and backslashes are escaped, line breaks, returns, tabs and the
null character have escapes of one letter, and every other character that shows nothing by itself
or attaches to the one before it is written as its code point in braces.

Strings and patterns in source texts stand between two signs on one line. A backslash takes the next
character along, so that it does not close the literal.
-/

namespace LRWorkbench.Text

/-- The characters that show something by themselves, and the blank. -/
def printable : CharSet :=
  CharSet.diff
    (CharSet.complement (CharSet.ofRanges
      (((Unicode.category? "other").getD CharSet.empty).ranges ++
        ((Unicode.category? "separator").getD CharSet.empty).ranges)))
    (Unicode.propertyClass "graphemeextend") |>.union (CharSet.singleton ' ')

/-- The lower-case hexadecimal digits of a number. -/
def hexDigits (n : Nat) : List Char := Nat.toDigits 16 n

/-- A character as it stands between quotes. -/
def escapeChar (c : Char) : List Char :=
  if c = '"' then ['\\', '"']
  else if c = '\\' then ['\\', '\\']
  else if c = '\n' then ['\\', 'n']
  else if c = '\r' then ['\\', 'r']
  else if c = '\t' then ['\\', 't']
  else if c.toNat = 0 then ['\\', '0']
  else if printable.contains c then [c]
  else ['\\', 'u', '\x7b'] ++ hexDigits c.toNat ++ ['\x7d']

/-- A text between double quotes. -/
def quoted (cs : List Char) : String :=
  String.ofList ('"' :: (cs.flatMap escapeChar ++ ['"']))

/-- The inside of a literal: everything up to its closing sign or the end of the line, where a
backslash takes the next character along. -/
def literalBody (closing : Char) : List Char → List Char × List Char
  | [] => ([], [])
  | '\\' :: c :: cs =>
    if c = '\n' then ([], '\\' :: c :: cs)
    else
      let (body, rest) := literalBody closing cs
      ('\\' :: c :: body, rest)
  | c :: cs =>
    if c = closing ∨ c = '\\' ∨ c = '\n' then ([], c :: cs)
    else
      let (body, rest) := literalBody closing cs
      (c :: body, rest)

end LRWorkbench.Text
