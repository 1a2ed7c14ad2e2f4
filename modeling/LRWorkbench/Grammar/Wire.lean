import LRWorkbench.Grammar.Basic
import LRWorkbench.Wire.Basic

/-!
# The binary form of grammars

`Grammar.toBytes` writes a grammar in the wire format, `Grammar.ofBytes?` reads one and ignores
what follows it.
-/

namespace LRWorkbench

open Wire

namespace Rule

mutual

/-- The bytes of a rule: the number of its form, then its parts. -/
def toBytes : Rule → List UInt8
  | blank => [0]
  | literal text => 1 :: encodeString text
  | pattern value flags => 2 :: (encodeString value ++ encodeOption encodeString flags)
  | reference name => 3 :: encodeString name
  | seq members => 4 :: (encodeNat members.length ++ toBytesAll members)
  | choice members => 5 :: (encodeNat members.length ++ toBytesAll members)
  | zeroOrMore content => 6 :: toBytes content
  | oneOrMore content => 7 :: toBytes content
  | field name content => 8 :: (encodeString name ++ toBytes content)
  | token content => 9 :: toBytes content
  | prec none level content => 10 :: (encodeInt level ++ toBytes content)
  | prec (some .left) level content => 11 :: (encodeInt level ++ toBytes content)
  | prec (some .right) level content => 12 :: (encodeInt level ++ toBytes content)

/-- The bytes of rules in a row. -/
def toBytesAll : List Rule → List UInt8
  | [] => []
  | r :: rs => toBytes r ++ toBytesAll rs

end

/-- Reads the parts of a rule of a form, given how to read the rules in it. -/
def ofForm (content : Decoder Rule) : Nat → Decoder Rule
  | 0, bytes => return (blank, bytes)
  | 1, bytes => do
    let (text, bytes) ← decodeString bytes
    return (literal text, bytes)
  | 2, bytes => do
    let (value, bytes) ← decodeString bytes
    let (flags, bytes) ← decodeOption decodeString bytes
    return (pattern value flags, bytes)
  | 3, bytes => do
    let (name, bytes) ← decodeString bytes
    return (reference name, bytes)
  | 4, bytes => do
    let (members, bytes) ← decodeList content bytes
    return (seq members, bytes)
  | 5, bytes => do
    let (members, bytes) ← decodeList content bytes
    return (choice members, bytes)
  | 6, bytes => do
    let (r, bytes) ← content bytes
    return (zeroOrMore r, bytes)
  | 7, bytes => do
    let (r, bytes) ← content bytes
    return (oneOrMore r, bytes)
  | 8, bytes => do
    let (name, bytes) ← decodeString bytes
    let (r, bytes) ← content bytes
    return (field name r, bytes)
  | 9, bytes => do
    let (r, bytes) ← content bytes
    return (token r, bytes)
  | 10, bytes => do
    let (level, bytes) ← decodeInt32 bytes
    let (r, bytes) ← content bytes
    return (prec none level r, bytes)
  | 11, bytes => do
    let (level, bytes) ← decodeInt32 bytes
    let (r, bytes) ← content bytes
    return (prec (some .left) level r, bytes)
  | 12, bytes => do
    let (level, bytes) ← decodeInt32 bytes
    let (r, bytes) ← content bytes
    return (prec (some .right) level r, bytes)
  | _ + 13, _ => none

/-- Reads a rule nested at most `depth` deep. -/
def ofBytes : Nat → Decoder Rule
  | 0, _ => none
  | depth + 1, bytes => do
    let (form, bytes) ← decodeNat 32 bytes
    ofForm (ofBytes depth) form bytes

end Rule

namespace Grammar

/-- The bytes of a grammar. -/
def toBytes (g : Grammar) : List UInt8 :=
  encodeString g.name ++
    encodeList (fun entry => encodeString entry.1 ++ entry.2.toBytes) g.rules ++
    encodeList Rule.toBytes g.extras ++
    encodeList (encodeList encodeString) g.conflicts ++
    encodeList encodeString g.externals ++
    encodeOption encodeString g.word

/-- Reads a rule with its name. -/
def decodeEntry (rule : Decoder Rule) : Decoder (String × Rule) := fun bytes => do
  let (name, bytes) ← decodeString bytes
  let (r, bytes) ← rule bytes
  return ((name, r), bytes)

/-- Reads a grammar, given how to read its rules. -/
def decodeWith (rule : Decoder Rule) : Decoder Grammar := fun bytes => do
  let (name, bytes) ← decodeString bytes
  let (rules, bytes) ← decodeList (decodeEntry rule) bytes
  let (extras, bytes) ← decodeList rule bytes
  let (conflicts, bytes) ← decodeList (decodeList decodeString) bytes
  let (externals, bytes) ← decodeList decodeString bytes
  let (word, bytes) ← decodeOption decodeString bytes
  return (⟨name, rules, extras, conflicts, externals, word⟩, bytes)

/-- Reads a grammar from the front of some bytes. Every level of nesting takes a byte, so rules
cannot be nested deeper than there are bytes. -/
def decode : Decoder Grammar := fun bytes => decodeWith (Rule.ofBytes bytes.length) bytes

/-- The grammar that some bytes start with. -/
def ofBytes? (bytes : List UInt8) : Option Grammar := (decode bytes).map (·.1)

end Grammar

end LRWorkbench
