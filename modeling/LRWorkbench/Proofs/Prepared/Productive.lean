import LRWorkbench.Proofs.Prepared.Draft
import LRWorkbench.Proofs.Prepared.Meaning
import LRWorkbench.Proofs.Prepared.WellFormed
import LRWorkbench.Proofs.Tree.Derivation

/-!
# Every symbol of a prepared grammar has phrases

A grammar is **productive** if each symbol of its productions derives some terminals. Prepared
grammars are (`Grammar.productive_of_prepare`): flattening makes steps of terminals and phrase kinds
only, and the last check finds a production for each phrase kind whose symbols derive terminals.
-/

namespace LRWorkbench

namespace PreparedGrammar

variable {g : PreparedGrammar}

/-- Whether each symbol of the productions derives some terminals. -/
def Productive (g : PreparedGrammar) : Prop :=
  ∀ rule ∈ g.productions, ∀ s ∈ rule.symbols, ∃ sentence, g.Derives s sentence

theorem exists_derivesAll {symbols : List Symbol}
    (h : ∀ s ∈ symbols, ∃ sentence, g.Derives s sentence) :
    ∃ sentence, g.DerivesAll symbols sentence := by
  induction symbols with
  | nil => exact ⟨[], .nil⟩
  | cons s rest ih =>
    obtain ⟨front, hfront⟩ := h s (List.mem_cons_self ..)
    obtain ⟨back, hback⟩ := ih fun t ht => h t (List.mem_cons_of_mem _ ht)
    exact ⟨front ++ back, .cons hfront hback⟩

/-- A symbol behind the terminals is that of a phrase kind. -/
theorem nonTerminalSymbol_sub {s : Symbol} (h : ¬s.index < g.terminals.size) :
    g.nonTerminalSymbol (s.index - g.terminals.size) = s := by
  obtain ⟨index⟩ := s
  exact congrArg Symbol.mk (Nat.add_sub_cancel' (Nat.le_of_not_lt h))

end PreparedGrammar

namespace Flatten

variable {d : Draft}

/-! ### The check for phrases -/

/-- What the check finds to derive terminals does. -/
theorem exists_derives_of_productive {g : PreparedGrammar} {terminalCount : Nat}
    (hcount : terminalCount = g.terminals.size) (rounds : Nat) {known : List Nat}
    (hknown : ∀ kind ∈ known, ∃ sentence, g.Derives (g.nonTerminalSymbol kind) sentence) :
    ∀ kind ∈ productive terminalCount g.productions.toList rounds known,
      ∃ sentence, g.Derives (g.nonTerminalSymbol kind) sentence := by
  induction rounds generalizing known with
  | zero => exact hknown
  | succ rounds ih =>
    rw [productive]
    split
    · exact hknown
    refine ih fun kind hkind => ?_
    rcases List.mem_append.mp hkind with hkind | hkind
    · obtain ⟨rule, hrule, rfl⟩ := List.mem_map.mp (List.mem_eraseDups.mp hkind)
      obtain ⟨hrule, hderives⟩ := List.mem_filter.mp hrule
      obtain ⟨p, hp⟩ := List.mem_iff_getElem?.mp hrule
      rw [Array.getElem?_toList] at hp
      have hsteps := List.all_eq_true.mp (Bool.and_eq_true_iff.mp hderives).2
      have hsymbols : ∀ s ∈ rule.symbols, ∃ sentence, g.Derives s sentence := by
        intro s hs
        obtain ⟨step, hstep, rfl⟩ := List.mem_map.mp hs
        have hstep := hsteps step hstep
        rw [Bool.or_eq_true, decide_eq_true_eq, List.contains_iff_mem, hcount] at hstep
        by_cases hlt : step.symbol.index < g.terminals.size
        · exact ⟨_, .terminal (decide_eq_true hlt)⟩
        · have hkind := hknown _ (hstep.resolve_left hlt)
          rwa [PreparedGrammar.nonTerminalSymbol_sub hlt] at hkind
      obtain ⟨sentence, hsentence⟩ := PreparedGrammar.exists_derivesAll hsymbols
      exact ⟨sentence, .phrase hp hsentence⟩
    · exact hknown kind hkind

theorem mem_productive_of_checkProductive {terminalCount : Nat}
    (h : checkProductive terminalCount d = .ok ()) {kind : Nat}
    (hkind : kind < d.nonTerminals.size) :
    kind ∈ productive terminalCount d.productions.toList d.nonTerminals.size [] := by
  rw [checkProductive] at h
  split at h
  · cases h
  · rename_i hnone
    simpa using List.find?_eq_none.mp hnone kind (List.mem_range.mpr hkind)

/-- The phrases of a draft that passes the check derive some terminals. -/
theorem derives_of_checkProductive {g : PreparedGrammar} {terminalCount kind : Nat}
    (hcheck : checkProductive terminalCount d = .ok ()) (hkind : kind < d.nonTerminals.size)
    (hcount : terminalCount = g.terminals.size) (hproductions : g.productions = d.productions) :
    ∃ sentence, g.Derives (g.nonTerminalSymbol kind) sentence := by
  have hmem := mem_productive_of_checkProductive hcheck hkind
  rw [← hproductions] at hmem
  exact exists_derives_of_productive hcount _ (fun _ h => absurd h List.not_mem_nil) _ hmem

end Flatten

/-- The phrases of a prepared grammar derive some terminals. -/
theorem Grammar.derives_of_prepare {g : Grammar} {prepared : PreparedGrammar}
    (h : g.prepare = .ok prepared) {kind : Nat} (hkind : kind < prepared.nonTerminals.size) :
    ∃ sentence, prepared.Derives (prepared.nonTerminalSymbol kind) sentence := by
  obtain ⟨terminals, d, groups, hmade⟩ := prepare_eq_ok.mp h
  obtain rfl := hmade.eq
  exact Flatten.derives_of_checkProductive hmade.productive hkind rfl rfl

/-- **Prepared grammars are productive.** -/
theorem Grammar.productive_of_prepare {g : Grammar} {prepared : PreparedGrammar}
    (h : g.prepare = .ok prepared) : prepared.Productive := by
  intro rule hrule symbol hsymbol
  obtain ⟨step, hstep, rfl⟩ := List.mem_map.mp hsymbol
  have hlt := ((fits_of_prepare h).2 rule hrule step hstep).2.1
  rw [PreparedGrammar.symbolCount] at hlt
  by_cases hterminal : step.symbol.index < prepared.terminals.size
  · exact ⟨_, .terminal (decide_eq_true hterminal)⟩
  · rw [← PreparedGrammar.nonTerminalSymbol_sub hterminal]
    exact derives_of_prepare h (by omega)

end LRWorkbench
