/-!
# Symbols and fields

Tokens and phrases are numbered in one sequence: tokens first, number 0 being the end of the
input, then phrases. One number stands outside, for pieces of a text that are no phrase at all.
Fields are numbered from one.
-/

namespace LRWorkbench

/-- A token or a kind of phrase, by its place in the table of a language. Places are numbers of 16
bits, so there are 65536 symbols; no table that was compiled has as many. -/
structure Symbol where
  index : Nat
  deriving DecidableEq, Repr, Inhabited, Hashable

namespace Symbol

/-- The end of the input, the first token of every language. -/
def endOfInput : Symbol := ⟨0⟩

/-- The kind of nodes that cover what could not be parsed. No table holds it. -/
def error : Symbol := ⟨65535⟩

def isError (s : Symbol) : Bool := s = error

/-- The symbol at a place. A place that takes more than 16 bits loses the others. -/
def ofIndex (index : Nat) : Symbol := ⟨index % 65536⟩

/-- The symbol at a place, as long as it is one that a table may have. A build with assertions stops
where there is none, which `ofIndex` does not notice. -/
def asserted? (index : Nat) : Option Symbol := if index < 65535 then some (ofIndex index) else none

theorem ofIndex_of_lt {index : Nat} (h : index < 65536) : ofIndex index = ⟨index⟩ :=
  congrArg mk (Nat.mod_eq_of_lt h)

/-- The form `#3`, or `ERROR`. -/
def text (s : Symbol) : String := if s.isError then "ERROR" else "#" ++ toString s.index

end Symbol

/-- A field, by a number from 1 to 65535. -/
structure FieldId where
  number : Nat
  deriving DecidableEq, Repr, Inhabited, Hashable

namespace FieldId

/-- The field at a place of the list of field names. Places that have no number of their own share
the last one. -/
def ofIndex (index : Nat) : FieldId := ⟨min (index + 1) 65535⟩

/-- The field of a number; zero is no field. -/
def ofNumber? (number : Nat) : Option FieldId := if number = 0 then none else some ⟨number⟩

/-- The place of a field in the list of field names. -/
def index (f : FieldId) : Nat := f.number - 1

end FieldId

end LRWorkbench
