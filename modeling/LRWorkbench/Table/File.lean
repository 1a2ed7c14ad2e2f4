import LRWorkbench.Table.Basic
import LRWorkbench.Wire.Basic

/-!
# Table files

A table file has a header of 32 bytes, the payload with the parts of the table, and the patterns.
The payload has the parts in the wire format, one after the other in the order they are declared;
reading ignores what follows them. The header tells the sizes and a checksum of all that follows it.

- `ParseTable.toBytes?` writes a file, which fails only if a size does not fit its four bytes;
- `ParseTable.ofBytes` reads one and refuses it if the header, the checksum or the contents are
  off.

How an automaton is written is the automaton's own affair: an `AutomatonFormat`. Nothing here depends
on the format, and what is proved of table files names what it asks of it (`AutomatonFormat.ReadsBack`).
-/

namespace LRWorkbench

/-! ### The payload -/

open Wire

namespace Symbol

def toBytes (s : Symbol) : List UInt8 := encodeNat s.index

def decode : Decoder Symbol := fun bytes =>
  (decodeNat 16 bytes).map fun (index, rest) => (⟨index⟩, rest)

end Symbol

namespace FieldId

def toBytes (f : FieldId) : List UInt8 := encodeNat f.number

/-- Reads a field, which has no number zero. -/
def decode : Decoder FieldId := fun bytes => do
  let (number, rest) ← decodeNat 16 bytes
  let f ← ofNumber? number
  return (f, rest)

end FieldId

namespace TerminalSet

def toBytes (set : TerminalSet) : List UInt8 := encodeList (fun w => encodeNat w.toNat) set.words

def decode : Decoder TerminalSet := fun bytes =>
  (decodeList (fun bytes => (decodeNat 64 bytes).map fun (w, rest) => (w.toUInt64, rest)) bytes).map
    fun (words, rest) => (⟨words⟩, rest)

end TerminalSet

namespace SymbolInfo

/-- The number of a section. -/
def numberOf : SymbolKind → Nat
  | .terminal => 0
  | .external => 1
  | .nonTerminal => 2

def toBytes (info : SymbolInfo) : List UInt8 :=
  encodeString info.name ++ encodeNat (numberOf info.kind) ++ encodeBool info.isVisible ++
    encodeBool info.isNamed

/-- The section of a number. -/
def kindOf? : Nat → Option SymbolKind
  | 0 => some .terminal
  | 1 => some .external
  | 2 => some .nonTerminal
  | _ => none

def decode : Decoder SymbolInfo := fun bytes => do
  let (name, bytes) ← decodeString bytes
  let (kind, bytes) ← decodeNat 32 bytes
  let kind ← kindOf? kind
  let (isVisible, bytes) ← decodeBool bytes
  let (isNamed, bytes) ← decodeBool bytes
  return (⟨name, kind, isVisible, isNamed⟩, bytes)

end SymbolInfo

namespace TableProduction

def toBytes (p : TableProduction) : List UInt8 :=
  p.lhs.toBytes ++ encodeNat p.length ++ encodeList (encodeOption FieldId.toBytes) p.fields

def decode : Decoder TableProduction := fun bytes => do
  let (lhs, bytes) ← Symbol.decode bytes
  let (length, bytes) ← decodeNat 16 bytes
  let (fields, bytes) ← decodeList (decodeOption FieldId.decode) bytes
  return (⟨lhs, length, fields⟩, bytes)

end TableProduction

namespace Action

def toBytes : Action → List UInt8
  | error => encodeNat 0
  | shift state => encodeNat 1 ++ encodeNat state
  | reduce production => encodeNat 2 ++ encodeNat production
  | accept => encodeNat 3

def decode : Decoder Action := fun bytes => do
  let (form, bytes) ← decodeNat 32 bytes
  match form with
  | 0 => return (error, bytes)
  | 1 =>
    let (state, bytes) ← decodeNat 32 bytes
    return (shift state, bytes)
  | 2 =>
    let (production, bytes) ← decodeNat 32 bytes
    return (reduce production, bytes)
  | 3 => return (accept, bytes)
  | _ => none

end Action

namespace LexSpec

def toBytes (spec : LexSpec) : List UInt8 :=
  encodeList Symbol.toBytes spec.patternSymbols ++
    encodeList encodeInt spec.precedence.toList ++
    encodeList (fun k => encodeString k.1 ++ k.2.toBytes) spec.keywords ++
    spec.keywordSet.toBytes ++
    encodeOption Symbol.toBytes spec.word ++
    spec.extras.toBytes

/-- Reads a keyword with its text. -/
def decodeKeyword : Decoder (String × Symbol) := fun bytes => do
  let (text, bytes) ← decodeString bytes
  let (s, bytes) ← Symbol.decode bytes
  return ((text, s), bytes)

def decode : Decoder LexSpec := fun bytes => do
  let (patternSymbols, bytes) ← decodeList Symbol.decode bytes
  let (precedence, bytes) ← decodeList decodeInt32 bytes
  let (keywords, bytes) ← decodeList decodeKeyword bytes
  let (keywordSet, bytes) ← TerminalSet.decode bytes
  let (word, bytes) ← decodeOption Symbol.decode bytes
  let (extras, bytes) ← TerminalSet.decode bytes
  return (⟨patternSymbols, precedence.toArray, Keywords.ofList keywords, keywordSet, word, extras⟩,
    bytes)

end LexSpec

namespace TableParts

def toBytes (t : TableParts) : List UInt8 :=
  encodeString t.name ++
    encodeList SymbolInfo.toBytes t.symbols.toList ++
    encodeNat t.terminalCount ++
    encodeNat t.externalCount ++
    encodeList encodeString t.fieldNames ++
    encodeList TableProduction.toBytes t.productions.toList ++
    encodeNat t.stateCount ++
    encodeList Action.toBytes t.actions.toList ++
    encodeList (encodeOption encodeNat) t.gotos.toList ++
    t.lex.toBytes

def decode : Decoder TableParts := fun bytes => do
  let (name, bytes) ← decodeString bytes
  let (symbols, bytes) ← decodeList SymbolInfo.decode bytes
  let (terminalCount, bytes) ← decodeNat 64 bytes
  let (externalCount, bytes) ← decodeNat 64 bytes
  let (fieldNames, bytes) ← decodeList decodeString bytes
  let (productions, bytes) ← decodeList TableProduction.decode bytes
  let (stateCount, bytes) ← decodeNat 64 bytes
  let (actions, bytes) ← decodeList Action.decode bytes
  let (gotos, bytes) ← decodeList (decodeOption (decodeNat 32)) bytes
  let (lex, bytes) ← LexSpec.decode bytes
  return (⟨name, symbols.toArray, terminalCount, externalCount, fieldNames, productions.toArray,
    stateCount, actions.toArray, gotos.toArray, lex⟩, bytes)

end TableParts

/-! ### The header and the file -/

/-- Why a table file is refused. -/
inductive TableError where
  | invalidMagic
  | unsupportedVersion (version : Nat)
  | fileTooSmall (size : Nat)
  | sizeMismatch (declared actual : Nat)
  | checksumMismatch (declared actual : Nat)
  | malformedPayload
  | malformedPatterns
  | inconsistent (fault : Inconsistency)
  deriving DecidableEq, Repr

/-- A number of 32 bits as eight hexadecimal digits. -/
def hexWord (n : Nat) : String :=
  let digits := Nat.toDigits 16 n
  String.ofList ("0x".toList ++ List.replicate (8 - digits.length) '0' ++ digits)

/-- The wording of an error. -/
def TableError.message : TableError → String
  | invalidMagic => "invalid magic: expected HQLT"
  | unsupportedVersion version => "unsupported version: " ++ toString version ++ " (expected 1)"
  | fileTooSmall size => "file too small: " ++ toString size ++ " bytes (minimum 32)"
  | sizeMismatch declared actual =>
    "size mismatch: header says " ++ toString declared ++ " bytes, got " ++ toString actual
  | checksumMismatch declared actual =>
    "checksum mismatch: header says " ++ hexWord declared ++ ", content hashes to " ++
      hexWord actual
  | malformedPayload => "invalid table payload"
  | malformedPatterns => "invalid lexer automaton"
  | inconsistent fault => "inconsistent table: " ++ fault.message

/-- The header of a table file. -/
structure TableHeader where
  magic : List UInt8
  version : Nat
  checksum : Nat
  totalSize : Nat
  payloadSize : Nat
  patternsSize : Nat
  deriving DecidableEq, Repr

namespace TableHeader

/-- The letters that a table file begins with. -/
def letters : List UInt8 := [0x48, 0x51, 0x4C, 0x54]

/-- The number of bytes of a header. -/
def size : Nat := 32

/-- The current version, with nothing in the file. -/
def initial : TableHeader := ⟨letters, 1, 0, 0, 0, 0⟩

/-- A number as four bytes, the lowest first. -/
def wordBytes (n : Nat) : List UInt8 :=
  [n.toUInt8, (n / 0x100).toUInt8, (n / 0x10000).toUInt8, (n / 0x1000000).toUInt8]

/-- The number that four bytes at a place stand for. -/
def wordAt (bytes : List UInt8) (place : Nat) : Nat :=
  let byte (i : Nat) : Nat := ((bytes[place + i]?).getD 0).toNat
  byte 0 + 0x100 * byte 1 + 0x10000 * byte 2 + 0x1000000 * byte 3

/-- The bytes of a header; the last eight are reserved. -/
def toBytes (h : TableHeader) : List UInt8 :=
  h.magic ++ wordBytes h.version ++ wordBytes h.checksum ++ wordBytes h.totalSize ++
    wordBytes h.payloadSize ++ wordBytes h.patternsSize ++ List.replicate 8 0

/-- Reads the header of a file. -/
def ofBytes (bytes : List UInt8) : Except TableError TableHeader :=
  if bytes.length < size then .error (.fileTooSmall bytes.length)
  else
    .ok ⟨bytes.take 4, wordAt bytes 4, wordAt bytes 8, wordAt bytes 12, wordAt bytes 16,
      wordAt bytes 20⟩

/-- Compares a header with the letters, the version and the sizes it has to have. -/
def check (h : TableHeader) (length : Nat) : Except TableError Unit :=
  let declared := size + h.payloadSize + h.patternsSize
  if h.magic ≠ letters then .error .invalidMagic
  else if h.version ≠ 1 then .error (.unsupportedVersion h.version)
  else if h.totalSize ≠ length then .error (.sizeMismatch h.totalSize length)
  else if h.totalSize ≠ declared then .error (.sizeMismatch h.totalSize declared)
  else .ok ()

end TableHeader

/-- How automata are written into a table file. -/
class AutomatonFormat (A : Type) where
  toBytes : A → List UInt8
  /-- Reads an automaton, and tells how many of the bytes it takes. -/
  ofBytes? : List UInt8 → Option (A × Nat)

/-- Whether the format reads an automaton back from what it writes for it. -/
def AutomatonFormat.ReadsBack {A : Type} [AutomatonFormat A] (a : A) : Prop :=
  ∃ length, ofBytes? (toBytes a) = some (a, length)

/-- A set of patterns is written as its sources. -/
@[default_instance] instance : AutomatonFormat PatternSet where
  toBytes := PatternSet.toBytes
  ofBytes? bytes := (PatternSet.ofBytes? bytes).map (·, bytes.length)

namespace ParseTable

variable {A : Type} [ByteAutomaton A] [AutomatonFormat A]

/-- The bytes of a table file. -/
def toBytes? (t : ParseTable A) : Option (List UInt8) :=
  let payload := t.parts.toBytes
  let patterns := AutomatonFormat.toBytes t.patterns
  let body := payload ++ patterns
  let total := TableHeader.size + body.length
  if total < 0x100000000 then
    some (TableHeader.toBytes
      ⟨TableHeader.letters, 1, (Wire.crc32 body).toNat, total, payload.length, patterns.length⟩ ++
        body)
  else none

/-- Reads a table file. What follows the automaton is ignored. -/
def ofBytes (bytes : List UInt8) : Except TableError (ParseTable A) := do
  let header ← TableHeader.ofBytes bytes
  header.check bytes.length
  let body := bytes.drop TableHeader.size
  let actual := (Wire.crc32 body).toNat
  if actual ≠ header.checksum then .error (.checksumMismatch header.checksum actual)
  let some (parts, _) := TableParts.decode (body.take header.payloadSize) |
    .error .malformedPayload
  let some (patterns, _) := AutomatonFormat.ofBytes? (body.drop header.payloadSize) |
    .error .malformedPatterns
  match ParseTable.ofParts parts patterns with
  | .ok t => .ok t
  | .error fault => .error (.inconsistent fault)

end ParseTable

end LRWorkbench
