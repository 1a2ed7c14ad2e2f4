import LRWorkbench.Text.Bytes

/-!
# Automata over bytes

The patterns of a table are read together, by an automaton that goes from state to state with the bytes of
the text. The lexer takes it as it comes: a `ByteAutomaton` may refuse to start, may stop within a character,
and may notice matches there. It notices a match one byte late, or at the end of the text.

`ByteAutomaton.scan` reads a text and reports **every match with the place where it ends**, and how far it had
to read. It stops in a dead state, in one that reads no more (a quit state), and in a state that noticed a
match if no byte leads on from there.
-/

namespace LRWorkbench

/-- The matches found, each a pattern and the place where it ends, and the place up to which the
text was read. The end of the text counts as one byte more. -/
structure Scan where
  found : List (Nat × Nat)
  examined : Nat
  deriving DecidableEq, Repr

/-- What the lexer asks of an automaton. -/
class ByteAutomaton (A : Type) where
  State : Type
  /-- The number of patterns. -/
  patternCount : A → Nat
  /-- The state to start in, given the byte before, unless there is none. -/
  start? : A → Option UInt8 → Option State
  next : A → State → UInt8 → State
  /-- The state behind the end of the text. -/
  nextAtEnd : A → State → State
  /-- Whether a state is worth a look. -/
  isSpecial : A → State → Bool
  isMatch : A → State → Bool
  isDead : A → State → Bool
  /-- Whether the automaton gives up. -/
  isQuit : A → State → Bool
  /-- The patterns that were noticed to match. -/
  matched : A → State → List Nat

namespace ByteAutomaton

/-- All bytes. -/
def allBytes : List UInt8 := (List.range 256).map UInt8.ofNat

variable {A : Type} [ByteAutomaton A]

/-- Whether no byte leads on from a state. -/
def isStuck (a : A) (s : State A) : Bool := allBytes.all fun b => isDead a (next a s b)

/-- The matches noticed in a state, which end at a place. -/
def noticed (a : A) (s : State A) (place : Nat) : List (Nat × Nat) :=
  (matched a s).map (·, place)

/-- Reads on from a state, some bytes behind the start. -/
def scanFrom (a : A) (s : State A) (place : Nat) : List UInt8 → Scan
  | [] =>
    let s := nextAtEnd a s
    ⟨if isMatch a s then noticed a s place else [], place + 1⟩
  | b :: bytes =>
    let s := next a s b
    if !isSpecial a s then scanFrom a s (place + 1) bytes
    else if isMatch a s then
      let found := noticed a s place
      if isStuck a s then ⟨found, place + 1⟩
      else
        let more := scanFrom a s (place + 1) bytes
        ⟨found ++ more.found, more.examined⟩
    else if isDead a s || isQuit a s then ⟨[], place + 1⟩
    else scanFrom a s (place + 1) bytes

/-- Reads bytes, given the one before. -/
def scanBytes (a : A) (before : Option UInt8) (bytes : List UInt8) : Scan :=
  match start? a before with
  | none => ⟨[], 1⟩
  | some s => scanFrom a s 0 bytes

/-- The last byte of a character. -/
def lastByte? (c : Char) : Option UInt8 := (String.utf8EncodeChar c).getLast?

/-- Reads a text, given the character before. -/
def scan (a : A) (before : Option Char) (text : List Char) : Scan :=
  scanBytes a (before.bind lastByte?) (Text.utf8Bytes text)

end ByteAutomaton

end LRWorkbench
