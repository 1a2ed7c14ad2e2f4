import LRWorkbench.Proofs.Lalr.Expected
import LRWorkbench.Proofs.Lalr.Rows
import LRWorkbench.Proofs.Prepared.Draft
import Mathlib.Logic.Relation

/-!
# Rows recognize the sentences of the grammar

The rows of a grammar drive a recognizer: it shifts terminals, and the states of the steps of a
production give way to the state of its phrase. Whatever it accepts is a sentence, also where
conflicts were decided: what it has read is what the symbols on its path derive (`Read.of_move`).
Without conflicts it accepts every sentence: it comes over each phrase that may come next and is
followed by what is expected (`reads_of_derives`).
-/

namespace LRWorkbench

namespace Lalr

/-! ### The recognizer -/

/-- What a recognizer has: the states on its way, the last one first, and the terminals to come. -/
structure Config where
  states : List Nat
  input : List Symbol
  deriving DecidableEq, Repr

namespace Rows

variable (rows : Rows) (g : PreparedGrammar)

/-- One move. -/
inductive Move : Config → Config → Prop where
  | shift {q r : Nat} {below : List Nat} {s : Symbol} {input : List Symbol}
      (action : rows.action g q s = .shift r) : Move ⟨q :: below, s :: input⟩ ⟨r :: q :: below, input⟩
  | reduce {q p origin r : Nat} {states below : List Nat} {s : Symbol} {input : List Symbol}
      {rule : Production} (action : rows.action g q s = .reduce p)
      (production : g.productions[p]? = some rule)
      (rest : (q :: states).drop rule.steps.length = origin :: below)
      (goto : rows.goto? g origin rule.lhs = some r) :
      Move ⟨q :: states, s :: input⟩ ⟨r :: origin :: below, s :: input⟩

/-- Whether some moves lead from here to there. -/
def Reaches : Config → Config → Prop := Relation.ReflTransGen (rows.Move g)

/-- Whether terminals are accepted: some moves lead from the first state to one that accepts, with
all of them read and the end of the input to come. -/
def Accepts (sentence : List Symbol) : Prop :=
  ∃ q below, rows.Reaches g ⟨[0], sentence ++ [.endOfInput]⟩ ⟨q :: below, [.endOfInput]⟩ ∧
    rows.action g q .endOfInput = .accept

end Rows

end Lalr

open PreparedGrammar Lalr Augmented

namespace Lalr.Rows

variable {g : PreparedGrammar} {rows : Rows} {whole : List Symbol} {c c' : Config}

/-! ### What is accepted is a sentence -/

/-- Whether what was read of the input is what the symbols on the way derive. -/
def Read (g : PreparedGrammar) (whole : List Symbol) (c : Config) : Prop :=
  ∃ path front, g.Path path ∧ c.states = path.map (·.2) ++ [0] ∧ whole = front ++ c.input ∧
    g.DerivesAll (path.map (·.1)).reverse front

theorem read_start (g : PreparedGrammar) (whole : List Symbol) : Read g whole ⟨[0], whole⟩ :=
  ⟨[], [], .nil, rfl, rfl, .nil⟩

theorem endOf_eq {path : List (Symbol × Nat)} {q : Nat} {below : List Nat}
    (h : q :: below = path.map (·.2) ++ [0]) : q = endOf path := by
  cases path with
  | nil => exact (List.cons.inj h).1
  | cons step path => exact (List.cons.inj h).1

/-- A move reads a terminal, or makes a phrase of what its steps have read. -/
theorem Read.of_move (hrows : g.automaton.rows = .ok rows)
    (hlhs : ∀ p ∈ g.productions, p.lhs < g.nonTerminals.size) (h : Read g whole c)
    (hmove : rows.Move g c c') : Read g whole c' := by
  obtain ⟨path, front, hpath, hstates, hwhole, hderives⟩ := h
  cases hmove with
  | @shift q r below s input haction =>
    obtain rfl := endOf_eq hstates
    obtain ⟨hs, hleads⟩ := leads_of_shift hrows haction
    refine ⟨(s, r) :: path, front ++ [s], .cons hpath hleads, ?_, ?_, ?_⟩
    · exact congrArg (r :: ·) hstates
    · rw [hwhole, List.append_assoc]
      rfl
    · rw [List.map_cons, List.reverse_cons]
      exact hderives.append (.cons (.terminal hs) .nil)
  | @reduce q p origin r states below s input rule haction hrule hrest hgoto =>
    obtain rfl := endOf_eq hstates
    obtain ⟨rule', hrule', hitem⟩ := complete_of_reduce hrows haction
    obtain rfl := Option.some.inj (hrule.symm.trans hrule')
    -- the path ends with the steps of the production
    dsimp only at hstates
    obtain ⟨steps, rest, rfl, hsymbols, -⟩ := hpath.exists_steps hitem
    rw [symbolsOf_augment hrule, List.take_length] at hsymbols
    have hlength : rule.steps.length = (steps.map (·.2)).length := by
      have hcount := congrArg List.length hsymbols
      simpa [Production.symbols] using hcount.symm
    rw [hstates, List.map_append, List.append_assoc, hlength, List.drop_left] at hrest
    obtain rfl := endOf_eq hrest.symm
    have hleads := leads_of_goto hrows (hlhs rule (Array.mem_of_getElem? hrule)) hgoto
    rw [List.map_append, List.reverse_append, hsymbols] at hderives
    obtain ⟨before, phrase, rfl, hbefore, hphrase⟩ := hderives.exists_of_append
    refine ⟨(g.nonTerminalSymbol rule.lhs, r) :: rest, before ++ phrase,
      .cons hpath.of_append hleads, ?_, hwhole, ?_⟩
    · exact congrArg (r :: ·) hrest.symm
    · rw [List.map_cons, List.reverse_cons]
      refine hbefore.append ?_
      rw [← List.append_nil phrase]
      exact .cons (.phrase hrule hphrase) .nil

theorem Read.of_reaches (hrows : g.automaton.rows = .ok rows)
    (hlhs : ∀ p ∈ g.productions, p.lhs < g.nonTerminals.size) (h : Read g whole c)
    (hreaches : rows.Reaches g c c') : Read g whole c' := by
  induction hreaches with
  | refl => exact h
  | tail _ hmove ih => exact ih.of_move hrows hlhs hmove

/-- What is accepted is a sentence. -/
theorem derives_of_accepts (hrows : g.automaton.rows = .ok rows)
    (hlhs : ∀ p ∈ g.productions, p.lhs < g.nonTerminals.size) {sentence : List Symbol}
    (h : rows.Accepts g sentence) : g.Derives (g.nonTerminalSymbol 0) sentence := by
  obtain ⟨q, below, hreaches, haction⟩ := h
  obtain ⟨path, front, hpath, hstates, hwhole, hderives⟩ :=
    (read_start g _).of_reaches hrows hlhs hreaches
  obtain rfl := endOf_eq hstates
  obtain ⟨hitem, -⟩ := complete_of_accept hrows haction
  obtain ⟨r, rfl⟩ := hpath.eq_of_complete hitem
  obtain rfl := List.append_cancel_right hwhole
  cases hderives with
  | cons first each =>
    cases each
    rwa [List.append_nil]

/-! ### Sentences are accepted -/

/-- Whether a phrase is read wherever it may come next and is followed by what is expected. -/
def ReadsPhrase (rows : Rows) (g : PreparedGrammar) (s : Symbol) (sentence : List Symbol) : Prop :=
  ∀ (q : Nat) (below : List Nat) (item : Item) (t : Symbol) (rest input : List Symbol),
    g.Expects q item t → (augment g).next? item = some s →
    g.DerivesAll ((augment g).afterNext item) rest → (rest ++ [t]).head? = input.head? →
    ∃ r, rows.Reaches g ⟨q :: below, sentence ++ input⟩ ⟨r :: q :: below, input⟩ ∧
      g.Expects r item.advance t

/-- Whether the rest of a production is read where it is followed by what is expected. -/
def ReadsRest (rows : Rows) (g : PreparedGrammar) (symbols sentence : List Symbol) : Prop :=
  ∀ (q : Nat) (below : List Nat) (item : Item) (t : Symbol) (input : List Symbol),
    g.Expects q item t → ((augment g).symbolsOf item.production).drop item.dot = symbols →
    input.head? = some t →
    ∃ r states, rows.Reaches g ⟨q :: below, sentence ++ input⟩ ⟨r :: states, input⟩ ∧
      (r :: states).drop symbols.length = q :: below ∧
      g.Expects r ((augment g).completed item.production) t

theorem readsRest_nil (hg : g.WellFormed)
    (hlhs : ∀ p ∈ g.productions, p.lhs < g.nonTerminals.size) : ReadsRest rows g [] [] := by
  intro q below item t input hexpects hdrop hinput
  have hdot : item.dot = ((augment g).symbolsOf item.production).length := by
    have hle := (hasItem_of_mem_itemsAt (hexpects.mem_itemsAt hlhs hg.terminalCount_pos)).2
    exact Nat.le_antisymm hle (List.drop_eq_nil_iff.mp hdrop)
  refine ⟨q, below, .refl, rfl, ?_⟩
  rw [completed, ← hdot]
  exact hexpects

theorem readsRest_cons {s : Symbol} {symbols front back : List Symbol}
    (heach : g.DerivesAll symbols back) (hfront : ReadsPhrase rows g s front)
    (hback : ReadsRest rows g symbols back) : ReadsRest rows g (s :: symbols) (front ++ back) := by
  intro q below item t input hexpects hdrop hinput
  have hnext : (augment g).next? item = some s := by
    rw [next?, ← List.head?_drop, hdrop, List.head?_cons]
  have hafter : (augment g).afterNext item = symbols := by
    rw [afterNext, ← List.tail_drop, hdrop, List.tail_cons]
  have hhead : (back ++ [t]).head? = (back ++ input).head? := by
    rw [List.head?_append, List.head?_append, hinput, List.head?_cons]
  obtain ⟨r, hreaches, hadvance⟩ :=
    hfront q below item t back (back ++ input) hexpects hnext (hafter ▸ heach) hhead
  obtain ⟨last, states, hrest, hstates, hcompleted⟩ :=
    hback r (q :: below) item.advance t input hadvance hafter hinput
  refine ⟨last, states, ?_, ?_, hcompleted⟩
  · rw [List.append_assoc]
    exact hreaches.trans hrest
  · rw [List.length_cons, ← List.tail_drop, hstates, List.tail_cons]

section

variable (hrows : g.automaton.rows = .ok rows) (hresolved : rows.resolved = 0) (hg : g.WellFormed)
  (hlhs : ∀ p ∈ g.productions, p.lhs < g.nonTerminals.size)

include hrows hresolved hg hlhs

/-- What is complete and followed by what is expected is reduced, or accepted. -/
theorem action_of_expects {q p : Nat} {s : Symbol}
    (h : g.Expects q ((augment g).completed p) s) :
    p = (augment g).whole ∧ rows.action g q s = .accept ∨
      p ≠ (augment g).whole ∧ rows.action g q s = .reduce p := by
  have hpos := hg.terminalCount_pos
  obtain ⟨state, -, -, -, hstate, -, -, -⟩ := h.exists_kernel hlhs
  obtain ⟨set, hmem, hset⟩ := h.exists_mem_closureOf hlhs hpos
  have hcomplete : (augment g).isComplete ((augment g).completed p) = true := by
    rw [isComplete, next?, completed, List.getElem?_length]
    rfl
  exact action_of_complete hrows hresolved hstate (decide_eq_true (h.index_lt hlhs hpos)) hmem
    hcomplete hset

theorem readsPhrase_terminal {s : Symbol} (hs : g.isTerminal s) : ReadsPhrase rows g s [s] := by
  intro q below item t rest input hexpects hnext _ _
  obtain ⟨state, r, hstate, hr, hadvance⟩ := hexpects.advance hlhs hg.terminalCount_pos hnext
  have haction := action_eq_shift hrows hresolved hstate hs hg hr
  exact ⟨r, .single (.shift haction), hadvance⟩

/-- The production is complete when its steps are read, and then reduced. -/
theorem readsPhrase_phrase {p : Nat} {rule : Production} {sentence : List Symbol}
    (hrule : g.productions[p]? = some rule) (hsteps : ReadsRest rows g rule.symbols sentence) :
    ReadsPhrase rows g (g.nonTerminalSymbol rule.lhs) sentence := by
  intro q below item t rest input hexpects hnext hrest hinput
  obtain ⟨state, r, hstate, hr, hadvance⟩ := hexpects.advance hlhs hg.terminalCount_pos hnext
  have hkind : (augment g).nextKind? item = some rule.lhs := by
    rw [nextKind?, hnext]
    exact nonTerminalIndex?_eq_some.mpr rfl
  obtain ⟨first, hfirst⟩ : ∃ first, (rest ++ [t]).head? = some first :=
    ⟨_, List.head?_eq_some_head (by simp)⟩
  have hbegins : g.Expects q ⟨p, 0⟩ first := hexpects.begins hrule hkind hrest hfirst
  obtain ⟨top, states, hreaches, hdrop, hcompleted⟩ := hsteps q below ⟨p, 0⟩ first input hbegins
    (symbolsOf_augment hrule) (hinput.symm.trans hfirst)
  obtain ⟨later, rfl⟩ : ∃ later, input = first :: later :=
    List.head?_eq_some_iff.mp (hinput.symm.trans hfirst)
  obtain ⟨hwhole, -⟩ | ⟨-, haction⟩ :=
    action_of_expects hrows hresolved hg hlhs hcompleted
  · exact absurd hwhole (Nat.ne_of_lt (Array.getElem?_eq_some_iff.mp hrule).choose)
  have hgoto := goto?_eq_some hrows (hlhs rule (Array.mem_of_getElem? hrule)) hstate hr
  rw [Production.symbols, List.length_map] at hdrop
  exact ⟨r, hreaches.tail (.reduce haction hrule hdrop hgoto), hadvance⟩

/-- Sentences are accepted. -/
theorem accepts_of_derives {sentence : List Symbol}
    (h : g.Derives (g.nonTerminalSymbol 0) sentence) : rows.Accepts g sentence := by
  have hreads : ReadsPhrase rows g (g.nonTerminalSymbol 0) sentence :=
    (Derives.induct (fun s hs => readsPhrase_terminal hrows hresolved hg hlhs hs)
      (fun p rule sentence hrule _ => readsPhrase_phrase hrows hresolved hg hlhs hrule)
      (readsRest_nil hg hlhs) (fun s rest front back _ heach => readsRest_cons heach)).1 _ _ h
  have hnext : (augment g).next? (augment g).startItem = some (g.nonTerminalSymbol 0) := by
    rw [next?, startItem, symbolsOf_whole]
    rfl
  have hrest : g.DerivesAll ((augment g).afterNext (augment g).startItem) [] := by
    rw [afterNext, startItem, symbolsOf_whole]
    exact .nil
  obtain ⟨q, hreaches, hexpects⟩ := hreads 0 [] _ .endOfInput [] [.endOfInput]
    (expects_start hlhs hg.terminalCount_pos) hnext hrest rfl
  have hcompleted : (augment g).startItem.advance = (augment g).completed (augment g).whole := by
    rw [completed, symbolsOf_whole]
    rfl
  rw [hcompleted] at hexpects
  obtain ⟨-, haction⟩ | ⟨hne, -⟩ := action_of_expects hrows hresolved hg hlhs hexpects
  · exact ⟨q, [0], hreaches, haction⟩
  · exact absurd rfl hne

end

end Lalr.Rows

namespace Grammar

/-- **The rows of a grammar recognize its sentences.** Whatever they accept is a sentence; where no
conflict was decided, they accept every sentence. -/
theorem recognizes {grammar : Grammar} {g : PreparedGrammar} {rows : Rows}
    (hprepare : grammar.prepare = .ok g) (hrows : g.automaton.rows = .ok rows) :
    (∀ sentence, rows.Accepts g sentence → g.Derives (g.nonTerminalSymbol 0) sentence) ∧
      (rows.resolved = 0 →
        ∀ sentence, g.Derives (g.nonTerminalSymbol 0) sentence → rows.Accepts g sentence) := by
  have hlhs := lhs_lt_of_prepare hprepare
  exact ⟨fun _ => Rows.derives_of_accepts hrows hlhs, fun hresolved _ =>
    Rows.accepts_of_derives hrows hresolved (wellFormed_of_prepare hprepare) hlhs⟩

/-- Nested groups, such as `(()())`. -/
def groups : Grammar where
  name := "groups"
  rules := [("group", .seq [.literal "(", .zeroOrMore (.reference "group"), .literal ")"])]
  extras := []
  conflicts := []
  externals := []
  word := none

/-- No conflict is decided for nested groups; `(())` is one. -/
theorem recognizes_groups : ∃ g rows, groups.prepare = .ok g ∧ g.automaton.rows = .ok rows ∧
    rows.resolved = 0 ∧
    (∀ sentence, rows.Accepts g sentence ↔ g.Derives (g.nonTerminalSymbol 0) sentence) ∧
    rows.Accepts g [⟨1⟩, ⟨1⟩, ⟨2⟩, ⟨2⟩] := by
  have hcheck : groups.prepare.toOption.any (fun g =>
      (g.automaton.rows.toOption.any fun rows => rows.resolved = 0) &&
        decide (g.terminals.size = 3 ∧ (g.productions.map fun p => (p.lhs, p.symbols)) =
          #[(1, [⟨4⟩, ⟨3⟩]), (1, [⟨3⟩]), (0, [⟨1⟩, ⟨4⟩, ⟨2⟩]), (0, [⟨1⟩, ⟨2⟩])])) = true := by
    decide +kernel
  obtain ⟨g, hprepare, hcheck⟩ := (Option.any_eq_true ..).mp hcheck
  obtain ⟨hrows, hproductions⟩ := Bool.and_eq_true_iff.mp hcheck
  obtain ⟨rows, hrows, hresolved⟩ := (Option.any_eq_true ..).mp hrows
  obtain ⟨hsize, hproductions⟩ := of_decide_eq_true hproductions
  obtain ⟨hsound, hcomplete⟩ := recognizes (eq_ok_of_toOption hprepare) (eq_ok_of_toOption hrows)
  refine ⟨g, rows, eq_ok_of_toOption hprepare, eq_ok_of_toOption hrows, of_decide_eq_true hresolved,
    fun sentence => ⟨hsound sentence, hcomplete (of_decide_eq_true hresolved) sentence⟩, ?_⟩
  have hphrase : ∀ (i lhs : Nat) (symbols sentence : List Symbol),
      #[(1, [⟨4⟩, ⟨3⟩]), (1, [⟨3⟩]), (0, [⟨1⟩, ⟨4⟩, ⟨2⟩]), (0, [⟨1⟩, ⟨2⟩])][i]? =
        some (lhs, symbols) →
      g.DerivesAll symbols sentence → g.Derives ⟨3 + lhs⟩ sentence := by
    intro i lhs symbols sentence hi heach
    rw [← hproductions, Array.getElem?_map] at hi
    obtain ⟨rule, hrule, heq⟩ := Option.map_eq_some_iff.mp hi
    obtain ⟨rfl, rfl⟩ := Prod.mk.inj heq
    rw [← hsize]
    exact .phrase hrule heach
  have hopen : g.Derives ⟨1⟩ [⟨1⟩] := .terminal (by simp [PreparedGrammar.isTerminal, hsize])
  have hclose : g.Derives ⟨2⟩ [⟨2⟩] := .terminal (by simp [PreparedGrammar.isTerminal, hsize])
  have hinner := hphrase 3 0 _ _ rfl (.cons hopen (.cons hclose .nil))
  have hinners := hphrase 1 1 _ _ rfl (.cons hinner .nil)
  have houter := hphrase 2 0 _ _ rfl (.cons hopen (.cons hinners (.cons hclose .nil)))
  refine hcomplete (of_decide_eq_true hresolved) _ ?_
  rw [PreparedGrammar.nonTerminalSymbol, hsize]
  exact houter

end Grammar

end LRWorkbench
