import LRWorkbench.Text.Bytes

/-!
# The wire format

Values are written as bytes, one field after another, without names or padding:

- a number is a **varint**: seven bits a byte, lowest first, all bytes but the last with their
  high bit set; signed numbers are folded onto the naturals first (`zigzag`);
- a text or a list is preceded by its length, an optional value by a byte 0 or 1, and a variant
  of a sum by its number.

A `Decoder` reads a value from the front of some bytes and returns what follows. Decoding does not
insist on the shortest form of a number, but refuses one that exceeds its width.

The checksum `crc32` is the cyclic redundancy check of 32 bits with the reflected polynomial
`0xEDB88320`, starting from and finally complemented with all ones.
-/

namespace LRWorkbench.Wire

/-- Reads a value from the front of some bytes; `none` when they do not start with one. -/
abbrev Decoder (α : Type) := List UInt8 → Option (α × List UInt8)

/-! ### Numbers -/

/-- The varint of a number. -/
def encodeNat (n : Nat) : List UInt8 :=
  if n < 128 then [n.toUInt8] else (n % 128 + 128).toUInt8 :: encodeNat (n / 128)
termination_by n
decreasing_by omega

/-- Reads a varint of at most `width` bits. -/
def decodeNat (width : Nat) : Decoder Nat
  | [] => none
  | b :: rest =>
    if b.toNat < 128 then
      if width < 8 ∧ 1 <<< width ≤ b.toNat then none else some (b.toNat, rest)
    else if width ≤ 7 then none
    else
      match decodeNat (width - 7) rest with
      | some (m, more) => some (b.toNat - 128 + 128 * m, more)
      | none => none

/-- Signed numbers folded onto the naturals: 0, -1, 1, -2, … -/
def zigzag (n : Int) : Nat := if 0 ≤ n then 2 * n.toNat else 2 * (-n).toNat - 1

/-- The signed number of a natural one. -/
def unzigzag (n : Nat) : Int := if n % 2 = 0 then (n / 2 : Nat) else -((n / 2 + 1 : Nat) : Int)

/-- The bytes of a signed number. -/
def encodeInt (n : Int) : List UInt8 := encodeNat (zigzag n)

/-- Reads a signed number of 32 bits. -/
def decodeInt32 : Decoder Int := fun bytes =>
  (decodeNat 32 bytes).map fun (n, rest) => (unzigzag n, rest)

/-- A truth value is a byte 0 or 1. -/
def encodeBool (b : Bool) : List UInt8 := [if b then 1 else 0]

/-- Reads a truth value. -/
def decodeBool : Decoder Bool
  | [] => none
  | b :: rest => if b = 0 then some (false, rest) else if b = 1 then some (true, rest) else none

/-! ### Texts, lists and optional values -/

/-- The first `n` bytes and the rest, when there are that many. -/
def splitBytes : Nat → Decoder (List UInt8)
  | 0, bytes => some ([], bytes)
  | _ + 1, [] => none
  | n + 1, b :: bytes => (splitBytes n bytes).map fun (front, rest) => (b :: front, rest)

/-- The bytes of a text. -/
def encodeString (s : String) : List UInt8 :=
  encodeNat s.utf8ByteSize ++ s.toUTF8.toList

/-- Reads a text, which must be well-formed. -/
def decodeString : Decoder String := fun bytes => do
  let (n, bytes) ← decodeNat 64 bytes
  let (body, bytes) ← splitBytes n bytes
  let s ← Text.ofUtf8? body
  return (s, bytes)

/-- The bytes of a list. -/
def encodeList {α : Type} (encode : α → List UInt8) (xs : List α) : List UInt8 :=
  encodeNat xs.length ++ xs.flatMap encode

/-- Reads `n` values in a row, after those read before, which are given last first. -/
def decodeOnto {α : Type} (decode : Decoder α) (found : List α) : Nat → Decoder (List α)
  | 0, bytes => some (found.reverse, bytes)
  | n + 1, bytes =>
    match decode bytes with
    | none => none
    | some (x, rest) => decodeOnto decode (x :: found) n rest

/-- Reads a list. -/
def decodeList {α : Type} (decode : Decoder α) : Decoder (List α) := fun bytes =>
  match decodeNat 64 bytes with
  | none => none
  | some (n, bytes) => decodeOnto decode [] n bytes

/-- The bytes of an optional value. -/
def encodeOption {α : Type} (encode : α → List UInt8) : Option α → List UInt8
  | none => [0]
  | some x => 1 :: encode x

/-- Reads an optional value. -/
def decodeOption {α : Type} (decode : Decoder α) : Decoder (Option α)
  | [] => none
  | b :: bytes =>
    if b = 0 then some (none, bytes)
    else if b = 1 then (decode bytes).map fun (x, rest) => (some x, rest)
    else none

/-! ### Checksums -/

/-- Shifts out one bit, subtracting the polynomial if the bit was set. -/
def crcBit (r : UInt32) : UInt32 :=
  if r &&& 1 = 1 then (r >>> 1) ^^^ 0xEDB88320 else r >>> 1

/-- Takes in one byte. -/
def crcByte (r : UInt32) (b : UInt8) : UInt32 :=
  crcBit (crcBit (crcBit (crcBit (crcBit (crcBit (crcBit (crcBit (r ^^^ b.toUInt32))))))))

/-- The checksum of some bytes. -/
def crc32 (bytes : List UInt8) : UInt32 :=
  bytes.foldl crcByte 0xFFFFFFFF ^^^ 0xFFFFFFFF

end LRWorkbench.Wire
