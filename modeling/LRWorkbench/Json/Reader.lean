/-!
# Reading JSON

Objects keep their members in the order they are written, repeated names included. A number is
kept exactly when it is written as an integer of at most 64 bits; of any other number only its
being one is known.

The reader follows the grammar of JSON to the letter: no trailing commas, no leading zeros, no
control characters in texts.

**Strictness.** A value that is kept is read strictly: lists and objects nest less than 128 deep,
escaped surrogates come in pairs, and a number is not beyond all floating-point numbers. A value
that is skipped (`skipValue`) only has to follow the grammar.
-/

namespace LRWorkbench

/-- A JSON value. -/
inductive Json where
  | null
  | bool (value : Bool)
  /-- An integer of at most 64 bits. -/
  | int (value : Int)
  /-- Any other number. -/
  | real
  | text (value : String)
  | list (items : List Json)
  | object (members : List (String × Json))
  deriving Repr, Inhabited

namespace Json

/-- The values of the members of an object that have a name. -/
def valuesOf (name : String) (members : List (String × Json)) : List Json :=
  (members.filter fun m => m.1 = name).map (·.2)

end Json

end LRWorkbench

namespace LRWorkbench.Json

/-- How a value is read: kept, with the number of containers that may still be opened, or
skipped. -/
inductive Mode where
  | keep (room : Nat)
  | skip
  deriving Repr

/-- The mode inside a container, if one may be opened. -/
def Mode.enter? : Mode → Option Mode
  | .keep room => if room < 2 then none else some (.keep (room - 1))
  | .skip => some .skip

/-- Whether the value is kept. -/
def Mode.isKept : Mode → Bool
  | .keep _ => true
  | .skip => false

/-- The number of containers that may be open at once, plus one. -/
def nestingLimit : Nat := 128

/-- Drops blanks, tabs and line ends. -/
def skipBlanks : List Char → List Char
  | [] => []
  | c :: cs => if c = ' ' ∨ c = '\n' ∨ c = '\t' ∨ c = '\r' then skipBlanks cs else c :: cs

/-! ### Texts -/

/-- The value of a hexadecimal digit. -/
def hexValue? (c : Char) : Option Nat :=
  if '0' ≤ c ∧ c ≤ '9' then some (c.toNat - 48)
  else if 'a' ≤ c ∧ c ≤ 'f' then some (c.toNat - 87)
  else if 'A' ≤ c ∧ c ≤ 'F' then some (c.toNat - 55)
  else none

/-- The number that four hexadecimal digits stand for. -/
def hexQuad? (a b c d : Char) : Option Nat := do
  let a ← hexValue? a
  let b ← hexValue? b
  let c ← hexValue? c
  let d ← hexValue? d
  return ((a * 16 + b) * 16 + c) * 16 + d

/-- The character of an escape of one letter. -/
def shortEscape? (c : Char) : Option Char :=
  if c = '"' then some '"'
  else if c = '\\' then some '\\'
  else if c = '/' then some '/'
  else if c = 'b' then some '\x08'
  else if c = 'f' then some '\x0c'
  else if c = 'n' then some '\n'
  else if c = 'r' then some '\r'
  else if c = 't' then some '\t'
  else none

/-- One piece of the inside of a text. -/
inductive TextPiece where
  | close
  | char (c : Char)
  /-- A skipped escape, of which only the form counts. -/
  | unchecked

/-- Reads one piece of the inside of a text: a character, an escape or the closing quote. -/
def readPiece (kept : Bool) : List Char → Option (TextPiece × List Char)
  | '"' :: rest => some (.close, rest)
  | '\\' :: 'u' :: a :: b :: c :: d :: rest => do
    let n ← hexQuad? a b c d
    if !kept then return (.unchecked, rest)
    if 0xDC00 ≤ n ∧ n ≤ 0xDFFF then none
    else if 0xD800 ≤ n ∧ n ≤ 0xDBFF then
      match rest with
      | '\\' :: 'u' :: e :: f :: g :: h :: rest => do
        let m ← hexQuad? e f g h
        if 0xDC00 ≤ m ∧ m ≤ 0xDFFF then
          return (.char (Char.ofNat (0x10000 + (n - 0xD800) * 0x400 + (m - 0xDC00))), rest)
        else none
      | _ => none
    else return (.char (Char.ofNat n), rest)
  | '\\' :: c :: rest => (shortEscape? c).map fun c => (.char c, rest)
  | c :: rest => if c.toNat < 32 ∨ c = '\\' then none else some (.char c, rest)
  | [] => none

/-- Reads the inside of a text up to its closing quote, in at most `fuel` pieces. -/
def readText (kept : Bool) : Nat → List Char → List Char → Option (String × List Char)
  | 0, _, _ => none
  | fuel + 1, acc, cs =>
    match readPiece kept cs with
    | none => none
    | some (.close, rest) => some (String.ofList acc.reverse, rest)
    | some (.char c, rest) => readText kept fuel (c :: acc) rest
    | some (.unchecked, rest) => readText kept fuel acc rest

/-! ### Numbers -/

/-- The digits at the front of a text, and the rest. -/
def takeDigits : List Char → List Char × List Char
  | [] => ([], [])
  | c :: cs =>
    if '0' ≤ c ∧ c ≤ '9' then
      let (ds, rest) := takeDigits cs
      (c :: ds, rest)
    else ([], c :: cs)

/-- The number that some digits stand for. -/
def digitsValue (ds : List Char) : Nat := ds.foldl (fun n d => 10 * n + (d.toNat - 48)) 0

/-- Whether `mantissa · 10 ^ exponent` is beyond all finite double-precision numbers. -/
def beyondDouble (mantissa : Nat) (exponent : Int) : Bool :=
  if mantissa = 0 then false
  else
    let digits : Int := (Nat.toDigits 10 mantissa).length
    if digits + exponent > 310 then true
    else if digits + exponent < 300 then false
    else
      let bound := Nat.pow 2 1024 - Nat.pow 2 970
      if exponent ≥ 0 then bound ≤ mantissa * Nat.pow 10 exponent.toNat
      else bound * Nat.pow 10 (-exponent).toNat ≤ mantissa

/-- The fraction of a number: the digits after the point. -/
def readFraction : List Char → Option (List Char × List Char)
  | '.' :: cs =>
    let (ds, rest) := takeDigits cs
    if ds.isEmpty then none else some (ds, rest)
  | cs => some ([], cs)

/-- The exponent of a number. -/
def readExponent : List Char → Option (Option Int × List Char)
  | c :: cs =>
    if c = 'e' ∨ c = 'E' then
      let (negative, cs) : Bool × List Char :=
        match cs with
        | '+' :: cs => (false, cs)
        | '-' :: cs => (true, cs)
        | cs => (false, cs)
      let (ds, rest) := takeDigits cs
      if ds.isEmpty then none
      else
        let n : Int := digitsValue ds
        some (some (if negative then -n else n), rest)
    else some (none, c :: cs)
  | [] => some (none, [])

/-- Reads a number after its sign. -/
def readNumber (kept negative : Bool) (cs : List Char) : Option (Json × List Char) := do
  let (whole, rest) := takeDigits cs
  if whole.isEmpty then none
  if whole.head? = some '0' ∧ whole.length > 1 then none
  let (fraction, rest) ← readFraction rest
  let (exponent, rest) ← readExponent rest
  let n := digitsValue whole
  if fraction.isEmpty ∧ exponent.isNone ∧ !(negative ∧ n = 0) ∧
      (if negative then n ≤ 0x8000000000000000 else n < 0x10000000000000000) then
    return (.int (if negative then -(n : Int) else n), rest)
  if kept ∧ beyondDouble (digitsValue (whole ++ fraction))
      (exponent.getD 0 - (fraction.length : Int)) then none
  return (.real, rest)

/-! ### Values -/

mutual

/-- Reads a value, in at most `fuel` nested steps. -/
def readValue : Nat → Mode → List Char → Option (Json × List Char)
  | 0, _, _ => none
  | fuel + 1, mode, cs =>
    match skipBlanks cs with
    | 'n' :: 'u' :: 'l' :: 'l' :: rest => some (.null, rest)
    | 't' :: 'r' :: 'u' :: 'e' :: rest => some (.bool true, rest)
    | 'f' :: 'a' :: 'l' :: 's' :: 'e' :: rest => some (.bool false, rest)
    | '"' :: rest => (readText mode.isKept fuel [] rest).map fun (s, rest) => (.text s, rest)
    | '-' :: rest => readNumber mode.isKept true rest
    | '[' :: rest =>
      match mode.enter? with
      | none => none
      | some inner =>
        match skipBlanks rest with
        | ']' :: rest => some (.list [], rest)
        | rest => (readItems fuel inner rest).map fun (items, rest) => (.list items, rest)
    | '\x7b' :: rest =>
      match mode.enter? with
      | none => none
      | some inner =>
        match skipBlanks rest with
        | '\x7d' :: rest => some (.object [], rest)
        | rest => (readMembers fuel inner rest).map fun (ms, rest) => (.object ms, rest)
    | rest => readNumber mode.isKept false rest

/-- Reads the items of a list and its closing bracket. -/
def readItems : Nat → Mode → List Char → Option (List Json × List Char)
  | 0, _, _ => none
  | fuel + 1, mode, cs =>
    match readValue fuel mode cs with
    | none => none
    | some (item, rest) =>
      match skipBlanks rest with
      | ']' :: rest => some ([item], rest)
      | ',' :: rest => (readItems fuel mode rest).map fun (items, rest) => (item :: items, rest)
      | _ => none

/-- Reads the members of an object and its closing brace. -/
def readMembers : Nat → Mode → List Char → Option (List (String × Json) × List Char)
  | 0, _, _ => none
  | fuel + 1, mode, cs =>
    match skipBlanks cs with
    | '"' :: rest =>
      match readText mode.isKept fuel [] rest with
      | none => none
      | some (name, rest) =>
        match skipBlanks rest with
        | ':' :: rest =>
          match readValue fuel mode rest with
          | none => none
          | some (value, rest) =>
            match skipBlanks rest with
            | '\x7d' :: rest => some ([(name, value)], rest)
            | ',' :: rest =>
              (readMembers fuel mode rest).map fun (ms, rest) => ((name, value) :: ms, rest)
            | _ => none
        | _ => none
    | _ => none

end

/-- Reads the members of an outermost object, skipping the values of all names but those asked
for. -/
def readKeptMembers (wanted : String → Bool) :
    Nat → Mode → List Char → Option (List (String × Json) × List Char)
  | 0, _, _ => none
  | fuel + 1, mode, cs =>
    match skipBlanks cs with
    | '"' :: rest =>
      match readText true fuel [] rest with
      | none => none
      | some (name, rest) =>
        match skipBlanks rest with
        | ':' :: rest =>
          match readValue fuel (if wanted name then mode else .skip) rest with
          | none => none
          | some (value, rest) =>
            match skipBlanks rest with
            | '\x7d' :: rest => some ([(name, value)], rest)
            | ',' :: rest =>
              (readKeptMembers wanted fuel mode rest).map fun (ms, rest) =>
                ((name, value) :: ms, rest)
            | _ => none
        | _ => none
    | _ => none

/-- Reads a whole text as one value. The values of an outermost object are kept for the wanted
names only. -/
def read? (wanted : String → Bool) (cs : List Char) : Option Json := do
  let fuel := 2 * cs.length + 2
  let (value, rest) ←
    match skipBlanks cs with
    | '\x7b' :: rest =>
      match skipBlanks rest with
      | '\x7d' :: rest => some (.object [], rest)
      | rest =>
        (readKeptMembers wanted fuel (.keep (nestingLimit - 1)) rest).map fun (ms, rest) =>
          (.object ms, rest)
    | cs => readValue fuel (.keep nestingLimit) cs
  if (skipBlanks rest).isEmpty then some value else none

end LRWorkbench.Json
