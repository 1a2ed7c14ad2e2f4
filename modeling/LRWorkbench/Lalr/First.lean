import LRWorkbench.Prepared.Basic
import LRWorkbench.Table.TerminalSet

/-!
# First sets

For every phrase kind, the terminals that its phrases may begin with, and whether a phrase may be
empty. `FirstSets.ofSymbols` extends both to lists of symbols. The sets are the least ones that
agree with the productions: starting from nothing, productions are taken into account in rounds
until a round changes nothing.
-/

namespace LRWorkbench

/-- What the phrases of each kind begin with. -/
structure FirstSets where
  terminalCount : Nat
  /-- For each phrase kind, the terminals it may begin with and whether it may be empty. -/
  entries : Array (TerminalSet × Bool)
  deriving DecidableEq, Repr

namespace FirstSets

/-- What the phrase kind at a place begins with. -/
def entry (f : FirstSets) (kind : Nat) : TerminalSet × Bool :=
  f.entries[kind]?.getD (.empty, false)

/-- The terminals that a list of symbols may begin with, and whether it may be empty. -/
def ofSymbols (f : FirstSets) : List Symbol → TerminalSet × Bool
  | [] => (.empty, true)
  | s :: rest =>
    if s.index < f.terminalCount then (TerminalSet.empty.insert s, false)
    else
      let (first, nullable) := f.entry (s.index - f.terminalCount)
      if nullable then
        let (more, nullable) := f.ofSymbols rest
        (first.union more, nullable)
      else (first, false)

/-- Takes a production into account. -/
def absorb (f : FirstSets) (p : Production) : FirstSets :=
  let (first, nullable) := f.ofSymbols p.symbols
  let (old, wasNullable) := f.entry p.lhs
  if old.includes first && (wasNullable || !nullable) then f
  else { f with entries := f.entries.setIfInBounds p.lhs (old.union first, wasNullable || nullable) }

/-- Takes all productions into account until nothing changes, in a number of rounds at most. -/
def settle (productions : List Production) : Nat → FirstSets → FirstSets
  | 0, f => f
  | rounds + 1, f =>
    let f' := productions.foldl absorb f
    if f' = f then f else settle productions rounds f'

/-- The first sets of a grammar. Every round but the last makes a set larger, so that there are no
more rounds than pairs of a phrase kind and a terminal or the empty phrase. -/
def ofGrammar (g : PreparedGrammar) : FirstSets :=
  settle g.productions.toList (g.nonTerminals.size * (g.terminalCount + 1) + 1)
    ⟨g.terminalCount, Array.replicate g.nonTerminals.size (.empty, false)⟩

end FirstSets

end LRWorkbench
