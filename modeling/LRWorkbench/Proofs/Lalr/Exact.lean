import LRWorkbench.Proofs.Lalr.Canonical
import LRWorkbench.Proofs.Lalr.Expected
import LRWorkbench.Proofs.Lalr.First
import LRWorkbench.Proofs.Lalr.Rows
import LRWorkbench.Proofs.Prepared.Productive

/-!
# Lookaheads are exact

The lookahead of a kernel item is what follows the item in the canonical sets that have the state
for their core (`Grammar.lookaheads_exact`).

One way, all that goes into a lookahead is found in such a set. In a closure nothing is passed on
but what follows (`followedIn_of_mem_closureWith`), and what flows on to the next state is found in
the canonical set advanced (`exists_canonical_of_contains`). The other way, what is in a canonical
set is expected in its state (`Canonical.exists_state`), and a kernel item expects its lookahead
only (`contains_lookup_of_expects`).
-/

/-!
### First sets are exact

First sets have nothing but how phrases begin (`FirstSets.sound_ofGrammar`): every round keeps them
so. In a productive grammar the same goes for lists of symbols, where each symbol after the first
one has to derive something for the whole list to do so (`FirstSets.Sound.ofSymbols`).
-/

namespace LRWorkbench.FirstSets

variable {g : PreparedGrammar} {f : FirstSets}

/-- Whether first sets have nothing but how the phrases of a grammar begin. -/
structure Sound (g : PreparedGrammar) (f : FirstSets) : Prop where
  terminalCount : f.terminalCount = g.terminalCount
  first : ∀ kind s, (f.entry kind).1.contains s = true →
    ∃ rest, g.Derives (g.nonTerminalSymbol kind) (s :: rest)
  nullable : ∀ kind, (f.entry kind).2 = true → g.Derives (g.nonTerminalSymbol kind) []

/-- Lists of symbols begin as the first sets say, if all of their symbols derive something. -/
theorem Sound.ofSymbols (h : f.Sound g) {symbols : List Symbol}
    (hsymbols : ∀ s ∈ symbols, ∃ sentence, g.Derives s sentence) :
    (∀ t, (f.ofSymbols symbols).1.contains t = true → ∃ rest, g.DerivesAll symbols (t :: rest)) ∧
      ((f.ofSymbols symbols).2 = true → g.DerivesAll symbols []) := by
  induction symbols with
  | nil => exact ⟨fun t ht => absurd ht (by simp [FirstSets.ofSymbols]), fun _ => .nil⟩
  | cons s symbols ih =>
    have hrest := fun t ht => hsymbols t (List.mem_cons_of_mem s ht)
    obtain ⟨hfirst, hnullable⟩ := ih hrest
    obtain ⟨back, hback⟩ := PreparedGrammar.exists_derivesAll hrest
    have hcount : f.terminalCount = g.terminals.size := h.terminalCount
    rw [FirstSets.ofSymbols, hcount]
    split
    · rename_i hs
      refine ⟨fun t ht => ?_, fun hfalse => absurd hfalse Bool.false_ne_true⟩
      rw [TerminalSet.contains_insert, TerminalSet.contains_empty, or_iff_left Bool.false_ne_true]
        at ht
      exact ⟨back, ht ▸ .cons (.terminal (decide_eq_true hs)) hback⟩
    · rename_i hs
      have hkind := PreparedGrammar.nonTerminalSymbol_sub hs
      have hbegin : ∀ t, (f.entry (s.index - g.terminals.size)).1.contains t = true →
          ∃ rest, g.DerivesAll (s :: symbols) (t :: rest) := by
        intro t ht
        obtain ⟨rest, hphrase⟩ := h.first _ t ht
        rw [hkind] at hphrase
        exact ⟨rest ++ back, .cons hphrase hback⟩
      dsimp only
      split
      · rename_i hempty
        have hphrase := hkind ▸ h.nullable _ hempty
        refine ⟨fun t ht => ?_, fun hrest => .cons hphrase (hnullable hrest)⟩
        rw [TerminalSet.contains_union, Bool.or_eq_true] at ht
        rcases ht with ht | ht
        · exact hbegin t ht
        · obtain ⟨rest, heach⟩ := hfirst t ht
          exact ⟨rest, .cons hphrase heach⟩
      · exact ⟨hbegin, fun hfalse => absurd hfalse Bool.false_ne_true⟩

/-- Taking a production into account adds only how its phrases begin. -/
theorem Sound.absorb (h : f.Sound g) (hproductive : g.Productive) {rule : Production}
    (hrule : rule ∈ g.productions) : (f.absorb rule).Sound g := by
  by_cases hagrees : f.Agrees rule
  · rwa [absorb_of_agrees hagrees]
  rw [absorb_of_not_agrees hagrees]
  by_cases hlt : rule.lhs < f.entries.size
  · obtain ⟨p, hp⟩ := Array.mem_iff_getElem?.mp hrule
    obtain ⟨hfirst, hnullable⟩ := h.ofSymbols (hproductive rule hrule)
    refine ⟨h.terminalCount, fun kind s hs => ?_, fun kind hempty => ?_⟩
    · rw [entry_replace _ hlt] at hs
      split at hs
      · rename_i heq
        subst heq
        rw [TerminalSet.contains_union, Bool.or_eq_true] at hs
        rcases hs with hs | hs
        · exact h.first _ s hs
        · obtain ⟨rest, heach⟩ := hfirst s hs
          exact ⟨rest, .phrase hp heach⟩
      · exact h.first kind s hs
    · rw [entry_replace _ hlt] at hempty
      split at hempty
      · rename_i heq
        subst heq
        rcases Bool.or_eq_true_iff.mp hempty with hempty | hempty
        · exact h.nullable _ hempty
        · exact .phrase hp (hnullable hempty)
      · exact h.nullable kind hempty
  · rwa [replace, Array.setIfInBounds_eq_of_size_le (Nat.le_of_not_lt hlt)]

theorem Sound.settle (hproductive : g.Productive) (rounds : Nat) (h : f.Sound g) :
    (FirstSets.settle g.productions.toList rounds f).Sound g := by
  induction rounds generalizing f with
  | zero => exact h
  | succ rounds ih =>
    rw [FirstSets.settle]
    split
    · exact h
    · refine ih (List.foldlRecOn _ _ h fun f hf rule hrule => ?_)
      exact hf.absorb hproductive (Array.mem_toList_iff.mp hrule)

/-- **First sets are sound.** -/
theorem sound_ofGrammar (hproductive : g.Productive) : (ofGrammar g).Sound g := by
  have hnone : ∀ kind, (FirstSets.mk g.terminalCount
      (Array.replicate g.nonTerminals.size (.empty, false))).entry kind = (.empty, false) := by
    intro kind
    rw [entry, Array.getElem?_replicate]
    split <;> rfl
  refine Sound.settle hproductive _ ⟨rfl, fun kind s hs => ?_, fun kind hempty => ?_⟩
  · rw [hnone, TerminalSet.contains_empty] at hs
    cases hs
  · rw [hnone] at hempty
    cases hempty

end LRWorkbench.FirstSets

namespace LRWorkbench

namespace Lalr

open PreparedGrammar Augmented

variable {g : PreparedGrammar}

/-! ### Closures -/

section Closure

variable {items : Set FollowedItem} {own : TerminalSet} {item : Item} {l : Lookahead} {s : Symbol}

/-- Whether a terminal follows a phrase kind that an item of a closure goes on with. -/
def FollowsIn (g : PreparedGrammar) (items : Set FollowedItem) (kind : Nat) (first : Symbol) : Prop :=
  ∃ item t sentence, FollowedIn g items item t ∧
    (augment g).next? item = some (g.nonTerminalSymbol kind) ∧
    g.DerivesAll ((augment g).afterNext item) sentence ∧ (sentence ++ [t]).head? = some first

/-- Whether lookaheads of phrase kinds have, given those of the kernel item, only what follows the
phrases in a closure. -/
def Keeps (g : PreparedGrammar) (items : Set FollowedItem) (own : TerminalSet)
    (found : Array Lookahead) : Prop :=
  ∀ (kind : Nat) (l : Lookahead), found[kind]? = some l → ∀ s, (l.resolve own).contains s = true →
    FollowsIn g items kind s

/-- What follows a phrase kind follows the items that begin it. -/
theorem FollowsIn.followedIn {kind : Nat} (h : FollowsIn g items kind s)
    (hitem : item ∈ (augment g).itemsOf kind) : FollowedIn g items item s := by
  obtain ⟨other, t, sentence, hother, hnext, hrest, hbegin⟩ := h
  obtain ⟨hdot, rule, hrule, rfl⟩ := mem_itemsOf hitem
  obtain ⟨p, dot⟩ := item
  obtain rfl : dot = 0 := hdot
  exact hother.begins hrule hnext hrest hbegin

/-- Something follows each phrase kind of a closure if something follows each item of the kernel. -/
theorem exists_followsIn (hproductive : g.Productive) {kernel : List Item}
    (hkernel : ∀ item ∈ kernel, item ∈ core items) {kind : Nat}
    (h : kind ∈ (augment g).closureKinds kernel) : ∃ s, FollowsIn g items kind s := by
  obtain ⟨item, hitem, hnext⟩ := exists_inClosure_of_mem_closureKinds h
  have hcore : item ∈ closureSet g (core items) := by
    clear hnext
    induction hitem with
    | kernel hmem => exact .kernel (hkernel _ hmem)
    | begins _ hrule hnext ih => exact ih.begins hrule hnext
  rw [← core_followedClosure hproductive] at hcore
  obtain ⟨t, ht⟩ := hcore
  obtain ⟨sentence, first, hrest, hfirst⟩ := exists_begin hproductive item t
  exact ⟨first, item, t, sentence, ht, nextKind?_eq_some_iff.mp hnext, hrest, hfirst⟩

theorem Keeps.widen {found : Array Lookahead} (h : Keeps g items own found) {kind : Nat}
    (hmore : ∀ s, (l.resolve own).contains s = true → FollowsIn g items kind s) :
    Keeps g items own (widen found kind l) := by
  by_cases hcovers : Covers kind l found
  · rwa [widen_of_covers hcovers]
  · obtain ⟨old, hold, -, heq⟩ := widen_of_not_covers hcovers
    rw [heq]
    intro other now hnow s hs
    by_cases hother : kind = other
    · subst hother
      rw [Array.getElem?_setIfInBounds_self_of_lt (Array.getElem?_eq_some_iff.mp hold).choose]
        at hnow
      obtain rfl := Option.some.inj hnow
      rw [Lookahead.contains_resolve_iff] at hs
      simp only [Lookahead.union, TerminalSet.contains_union, Bool.or_eq_true] at hs
      have hold := h kind old hold s
      have hmore := hmore s
      rw [Lookahead.contains_resolve_iff] at hold hmore
      tauto
    · rw [Array.getElem?_setIfInBounds_ne hother] at hnow
      exact h other now hnow s hs

section

variable (hproductive : g.Productive)
include hproductive

/-- What is found to follow a phrase follows it. -/
theorem followsIn_of_contains_follow {kind : Nat}
    (hnext : (augment g).nextKind? item = some kind) (hsome : ∃ t, FollowedIn g items item t)
    (hown : ∀ s, (l.resolve own).contains s = true → FollowedIn g items item s)
    (hs : (((augment g).follow item l).resolve own).contains s = true) :
    FollowsIn g items kind s := by
  obtain ⟨hfirst, hnullable⟩ := (FirstSets.sound_ofGrammar hproductive).ofSymbols
    (derives_of_mem_afterNext hproductive item)
  obtain ⟨t, ht⟩ := hsome
  have hnext := nextKind?_eq_some_iff.mp hnext
  have hbegins : ((augment g).firsts.ofSymbols ((augment g).afterNext item)).1.contains s = true →
      FollowsIn g items kind s := by
    intro hs
    obtain ⟨rest, hrest⟩ := hfirst s hs
    exact ⟨item, t, s :: rest, ht, hnext, hrest, rfl⟩
  rw [Lookahead.contains_resolve_iff, follow] at hs
  dsimp only at hs
  split at hs
  · -- the rest of the production may be empty, so that what follows the item follows too
    rename_i hempty
    have hpassed : (l.resolve own).contains s = true → FollowsIn g items kind s :=
      fun hs => ⟨item, s, [], hown s hs, hnext, hnullable hempty, rfl⟩
    rw [TerminalSet.contains_union, Bool.or_eq_true] at hs
    rcases hs with (hs | hs) | hs
    · exact hpassed (Lookahead.contains_resolve_iff.mpr (.inl hs))
    · exact hbegins hs
    · exact hpassed (Lookahead.contains_resolve_iff.mpr (.inr hs))
  · rcases hs with hs | ⟨hfalse, -⟩
    · exact hbegins hs
    · cases hfalse

theorem Keeps.passOn {found : Array Lookahead} (h : Keeps g items own found)
    (hsome : ∃ t, FollowedIn g items item t)
    (hown : ∀ s, (l.resolve own).contains s = true → FollowedIn g items item s) :
    Keeps g items own ((augment g).passOn found item l) := by
  rw [Augmented.passOn]
  split
  · rename_i kind hnext
    exact h.widen fun s hs => followsIn_of_contains_follow hproductive hnext hsome hown hs
  · exact h

theorem Keeps.passOnKind {found : Array Lookahead} (h : Keeps g items own found) {kind : Nat}
    (hsome : ∃ s, FollowsIn g items kind s) :
    Keeps g items own ((augment g).passOnKind found kind) := by
  obtain ⟨t, ht⟩ := hsome
  rw [Augmented.passOnKind]
  split
  · rename_i l hl
    exact List.foldlRecOn _ _ h fun later hlater item hitem =>
      hlater.passOn hproductive ⟨t, ht.followedIn hitem⟩
        fun s hs => (h kind l hl s hs).followedIn hitem
  · exact h

theorem Keeps.settle {kinds : List Nat} (hkinds : ∀ kind ∈ kinds, ∃ s, FollowsIn g items kind s)
    (rounds : Nat) {found : Array Lookahead} (h : Keeps g items own found) :
    Keeps g items own ((augment g).settle kinds rounds found) := by
  induction rounds generalizing found with
  | zero => exact h
  | succ rounds ih =>
    rw [Augmented.settle]
    split
    · exact h
    · exact ih (List.foldlRecOn _ _ h fun later hlater kind hkind =>
        hlater.passOnKind hproductive (hkinds kind hkind))

variable {kernel : List (Item × Lookahead)}

theorem keeps_closureLookaheads (hsome : ∀ e ∈ kernel, e.1 ∈ core items)
    (hkernel : ∀ e ∈ kernel, ∀ s, (e.2.resolve own).contains s = true → (e.1, s) ∈ items) :
    Keeps g items own ((augment g).closureLookaheads kernel) := by
  refine Keeps.settle hproductive (fun kind hkind => ?_) _ ?_
  · refine exists_followsIn hproductive (fun item hitem => ?_) hkind
    obtain ⟨e, he, rfl⟩ := List.mem_map.mp hitem
    exact hsome e he
  · refine List.foldlRecOn _ _ (fun kind l hl s hs => ?_) fun later hlater e he => ?_
    · rw [Array.getElem?_replicate] at hl
      split at hl
      · obtain rfl := Option.some.inj hl
        rw [Lookahead.contains_resolve_iff] at hs
        simp [Lookahead.none] at hs
      · cases hl
    · obtain ⟨t, ht⟩ := hsome e he
      exact hlater.passOn hproductive ⟨t, .kernel ht⟩ fun s hs => .kernel (hkernel e he s hs)

/-- **Lookaheads in a closure are sound.** They have only what follows in the closure of the
kernel. -/
theorem followedIn_of_mem_closureWith (own : TerminalSet)
    (hsome : ∀ e ∈ kernel, e.1 ∈ core items)
    (hkernel : ∀ e ∈ kernel, ∀ s, (e.2.resolve own).contains s = true → (e.1, s) ∈ items)
    {e : Item × Lookahead} (he : e ∈ (augment g).closureWith kernel)
    (hs : (e.2.resolve own).contains s = true) : FollowedIn g items e.1 s := by
  rcases List.mem_append.mp he with he | he
  · exact .kernel (hkernel e he s hs)
  · obtain ⟨kind, -, he⟩ := List.mem_flatMap.mp he
    obtain ⟨item, hitem, rfl⟩ := List.mem_map.mp he
    cases hl : ((augment g).closureLookaheads kernel)[kind]? with
    | none =>
      rw [hl, Lookahead.contains_resolve_iff] at hs
      simp [Lookahead.none] at hs
    | some l =>
      rw [hl, Option.getD_some] at hs
      exact (keeps_closureLookaheads hproductive hsome hkernel kind l hl s hs).followedIn hitem

end

end Closure

/-! ### From state to state -/

/-- Whether a canonical set has a state for its core and a followed item. -/
def HasCore (g : PreparedGrammar) (state : State) (e : FollowedItem) : Prop :=
  ∃ items, Canonical g items ∧ core items = closureSet g state.kernelSet ∧ e ∈ items

variable {q position : Nat} {state : State} {item : Item} {t : Symbol}

section

variable (hlhs : ∀ p ∈ g.productions, p.lhs < g.nonTerminals.size) (hproductive : g.Productive)
include hlhs hproductive

/-- What an item of a closure is followed by is found in a canonical set if what the kernel item is
followed by is. -/
theorem HasCore.ofClosure (hstate : state ∈ g.automaton.states) (hitem : item ∈ state.kernel)
    {own : TerminalSet} (hown : ∀ s, own.contains s = true → HasCore g state (item, s))
    {e : Item × Lookahead} (he : e ∈ (augment g).closureWith [(item, .inherited)])
    (ht : (e.2.resolve own).contains t = true) : HasCore g state (e.1, t) := by
  -- it is enough that the kernel item has a single terminal, or none
  obtain ⟨items, hitems, hcore, only, honly, ht⟩ : ∃ items, Canonical g items ∧
      core items = closureSet g state.kernelSet ∧ ∃ only : TerminalSet,
        (∀ s, only.contains s = true → (item, s) ∈ items) ∧
        (e.2.resolve only).contains t = true := by
    rcases Lookahead.contains_resolve_iff.mp ht with hgenerated | ⟨hinherits, ht⟩
    · obtain ⟨items, hitems, hcore⟩ := (reachable_of_mem hlhs hstate).exists_canonical hproductive
      refine ⟨items, hitems, hcore, .empty, fun s hs => ?_,
        Lookahead.contains_resolve_iff.mpr (.inl hgenerated)⟩
      rw [TerminalSet.contains_empty] at hs
      cases hs
    · obtain ⟨items, hitems, hcore, hmem⟩ := hown t ht
      refine ⟨items, hitems, hcore, TerminalSet.empty.insert t, fun s hs => ?_,
        Lookahead.contains_resolve_iff.mpr (.inr ⟨hinherits, ?_⟩)⟩
      · rw [TerminalSet.contains_insert, TerminalSet.contains_empty,
          or_iff_left Bool.false_ne_true] at hs
        rwa [hs]
      · rw [TerminalSet.contains_insert]
        exact .inl rfl
  refine ⟨items, hitems, hcore, hitems.mem_of_followedIn (fun _ hmem => hmem)
    (followedIn_of_mem_closureWith hproductive only (fun e he => ?_) (fun e he s hs => ?_) he ht)⟩
  · rw [List.mem_singleton.mp he, hcore]
    exact .kernel hitem
  · rw [List.mem_singleton.mp he] at hs ⊢
    refine honly s ?_
    simpa [Lookahead.contains_resolve_iff, Lookahead.inherited] using hs

/-- A followed item of a canonical set is found, advanced, in the canonical set of the next state. -/
theorem HasCore.advance (hstate : state ∈ g.automaton.states) {s : Symbol} {r : Nat}
    {successor : State} (h : HasCore g state (item, t)) (hs : (augment g).next? item = some s)
    (hr : (s, r) ∈ state.transitions) (hsuccessor : g.automaton.states[r]? = some successor) :
    HasCore g successor (item.advance, t) := by
  obtain ⟨items, hitems, hcore, hmem⟩ := h
  obtain ⟨other, hother, hkernel⟩ := exists_target hlhs hstate hr
  obtain rfl := Option.some.inj (hsuccessor.symm.trans hother)
  have hadvance : (item.advance, t) ∈ advanceOver g items s := ⟨_, hmem, hs, rfl⟩
  refine ⟨_, hitems.successor ⟨_, hadvance⟩, ?_, .kernel hadvance⟩
  rw [core_followedClosure hproductive, core_advanceOver hcore, hkernel]

/-- **Lookaheads have only what follows in canonical sets.** -/
theorem hasCore_of_contains (hstate : g.automaton.states[q]? = some state)
    (hitem : state.kernel[position]? = some item)
    (ht : (g.automaton.lookaheads.lookup q position).contains t = true) :
    HasCore g state (item, t) := by
  refine all_lookaheads g (P := fun place position t => ∀ state item,
    g.automaton.states[place]? = some state → state.kernel[position]? = some item →
      HasCore g state (item, t)) ?_ ?_ q position t ht state item hstate hitem
  · intro state item hstate hitem
    obtain ⟨start, hstart, hkernel⟩ := exists_start g
    obtain rfl := Option.some.inj (hstart.symm.trans hstate)
    rw [hkernel] at hitem
    obtain rfl := Option.some.inj hitem
    refine ⟨_, .start, ?_, .kernel rfl⟩
    rw [core_followedClosure hproductive, core_start, State.kernelSet_singleton hkernel]
  · intro source hsource f hf own hown t ht target next htarget hnext
    obtain ⟨state, item, hstate, hitem, hflows⟩ := mem_sources hsource
    rw [hflows] at hf
    obtain ⟨e, he, hflow⟩ := List.mem_filterMap.mp hf
    obtain ⟨s, successor, hs, hr, hsuccessor, hposition, hlookahead⟩ := exists_of_flow? hflow
    obtain rfl := Option.some.inj (hsuccessor.symm.trans htarget)
    obtain ⟨hlt, hfind, -⟩ := List.findIdx?_eq_some_iff_getElem.mp hposition
    have heq : e.1.advance = next := by
      rw [← of_decide_eq_true hfind]
      exact Option.some.inj ((List.getElem?_eq_getElem hlt).symm.trans hnext)
    rw [hlookahead] at ht
    have hmem := Array.mem_of_getElem? hstate
    rw [← heq]
    exact HasCore.advance hlhs hproductive hmem
      (HasCore.ofClosure hlhs hproductive hmem (List.mem_of_getElem? hitem)
        (fun s hs => hown s hs state item hstate hitem) he ht)
      hs ((transition?_eq_some hstate).mp hr) hsuccessor

end

/-- What is expected after the items of a kernel is so in its closure. -/
theorem FollowedIn.expects {kernel : Set FollowedItem} (h : FollowedIn g kernel item t)
    (hkernel : ∀ e ∈ kernel, g.Expects q e.1 e.2) : g.Expects q item t := by
  induction h with
  | kernel hmem => exact hkernel _ hmem
  | begins _ hrule hnext hrest hbegin ih =>
    exact ih.begins hrule (nextKind?_eq_some_iff.mpr hnext) hrest hbegin

/-- **Canonical sets are expected in the state that is their core.** -/
theorem Canonical.exists_state (hlhs : ∀ p ∈ g.productions, p.lhs < g.nonTerminals.size)
    (hpos : 0 < g.terminalCount) (hproductive : g.Productive) {items : Set FollowedItem}
    (h : Canonical g items) : ∃ q state, g.automaton.states[q]? = some state ∧
      core items = closureSet g state.kernelSet ∧ ∀ e ∈ items, g.Expects q e.1 e.2 := by
  induction h with
  | start =>
    obtain ⟨state, hstate, hkernel⟩ := exists_start g
    refine ⟨0, state, hstate, ?_, fun e he => FollowedIn.expects he fun e he => ?_⟩
    · rw [core_followedClosure hproductive, core_start, State.kernelSet_singleton hkernel]
    · rw [Set.mem_singleton_iff.mp he]
      exact expects_start hlhs hpos
  | @successor items s _ hnonempty ih =>
    obtain ⟨q, state, hstate, hcore, hexpects⟩ := ih
    obtain ⟨_, other, hother, hs, -⟩ := hnonempty
    obtain ⟨state', r, hstate', hr, -⟩ := (hexpects other hother).advance hlhs hpos hs
    obtain rfl := Option.some.inj (hstate.symm.trans hstate')
    obtain ⟨successor, hsuccessor, hkernel⟩ :=
      exists_target hlhs (Array.mem_of_getElem? hstate) hr
    refine ⟨r, successor, hsuccessor, ?_, fun e he => FollowedIn.expects he fun e he => ?_⟩
    · rw [core_followedClosure hproductive, core_advanceOver hcore, hkernel]
    · obtain ⟨before, hbefore, hs, rfl⟩ := he
      obtain ⟨state', r', hstate', hr', hafter⟩ := (hexpects before hbefore).advance hlhs hpos hs
      obtain rfl := Option.some.inj (hstate.symm.trans hstate')
      -- there is only one transition over the symbol
      have hsame := ((transition?_eq_some hstate).mpr hr).symm.trans
        ((transition?_eq_some hstate).mpr hr')
      obtain rfl := Option.some.inj hsame
      exact hafter

/-- What is expected after a kernel item is in its lookahead. -/
theorem contains_lookup_of_expects (hstate : g.automaton.states[q]? = some state)
    (hitem : state.kernel[position]? = some item) (h : g.Expects q item t) :
    (g.automaton.lookaheads.lookup q position).contains t = true := by
  have hmem := Array.mem_of_getElem? hstate
  cases h with
  | @kernel state' position' _ _ hstate' hitem' hcontains =>
    obtain rfl := Option.some.inj (hstate.symm.trans hstate')
    have hnodup := (isKernel_of_mem hmem).ordered.nodup
    obtain rfl : position = position' :=
      (List.getElem?_inj (List.getElem?_eq_some_iff.mp hitem).choose hnodup).mp
        (hitem.trans hitem'.symm)
    exact hcontains
  | @begins _ _ _ p rule _ _ hrule _ _ _ =>
    -- no item of a kernel begins a phrase
    obtain ⟨-, hdot | hwhole⟩ := (mem_kernelSet_iff hmem).mp (List.mem_of_getElem? hitem)
    · exact absurd rfl hdot
    · exact absurd hwhole (Nat.ne_of_lt (Array.getElem?_eq_some_iff.mp hrule).choose)

/-! ### The lookaheads of a state -/

/-- Items with their sets of terminals, as followed items. -/
def followedOf (entries : List (Item × TerminalSet)) : Set FollowedItem :=
  {e | ∃ set : TerminalSet, (e.1, set) ∈ entries ∧ set.contains e.2 = true}

/-- Whether the lookaheads of a state are what follows its items in the canonical sets that have
the state for their core. -/
structure HasExactLookaheads (g : PreparedGrammar) (q : Nat) (state : State) : Prop where
  /-- The lookahead of a kernel item has what follows it in any of the canonical sets. -/
  kernel : ∀ (position : Nat) (item : Item), state.kernel[position]? = some item → ∀ t,
    (g.automaton.lookaheads.lookup q position).contains t = true ↔
      ∃ items, Canonical g items ∧ core items = closureSet g state.kernelSet ∧ (item, t) ∈ items
  /-- All items of the state are listed with their lookaheads, each once. -/
  items : (g.automaton.closureOf q).map (·.1) = (augment g).closure state.kernel
  once : ((g.automaton.closureOf q).map (·.1)).Nodup
  /-- These are the closure of the kernel with its lookaheads. -/
  closure : followedOf (g.automaton.closureOf q) =
    followedClosure g (followedOf (g.automaton.kernelOf q))

theorem itemsAt_eq (hstate : g.automaton.states[q]? = some state) :
    g.itemsAt q = (augment g).closure state.kernel := by
  rw [itemsAt, (linked_states hstate).1, Option.getD_some]

section

variable (hlhs : ∀ p ∈ g.productions, p.lhs < g.nonTerminals.size) (hpos : 0 < g.terminalCount)
  (hproductive : g.Productive)
include hlhs hpos hproductive

theorem contains_lookup_iff (hstate : g.automaton.states[q]? = some state)
    (hitem : state.kernel[position]? = some item) :
    (g.automaton.lookaheads.lookup q position).contains t = true ↔ HasCore g state (item, t) := by
  constructor
  · exact hasCore_of_contains hlhs hproductive hstate hitem
  · rintro ⟨items, hitems, hcore, hmem⟩
    obtain ⟨q', state', hstate', hcore', hexpects⟩ := hitems.exists_state hlhs hpos hproductive
    obtain rfl := eq_of_closureSet_eq hstate' hstate (hcore'.symm.trans hcore)
    exact contains_lookup_of_expects hstate hitem (hexpects _ hmem)

/-- Something follows each item of a kernel. -/
theorem mem_core_kernelOf {e : Item × TerminalSet} (he : e ∈ g.automaton.kernelOf q) :
    e.1 ∈ core (followedOf (g.automaton.kernelOf q)) := by
  have hmem := he
  rw [Automaton.kernelOf] at he
  split at he
  · cases he
  rename_i state hstate
  obtain ⟨⟨item, position⟩, hzip, rfl⟩ := List.mem_map.mp he
  have hitem : state.kernel[position]? = some item := List.mem_zipIdx_iff_getElem?.mp hzip
  obtain ⟨items, hitems, hcore⟩ := (reachable_of_mem hlhs
    (Array.mem_of_getElem? hstate)).exists_canonical hproductive
  obtain ⟨t, ht⟩ : item ∈ core items := hcore ▸ .kernel (List.mem_of_getElem? hitem)
  exact ⟨t, _, hmem, (contains_lookup_iff hlhs hpos hproductive hstate hitem).mpr
    ⟨items, hitems, hcore, ht⟩⟩

theorem followedOf_closureOf (q : Nat) : followedOf (g.automaton.closureOf q) =
    followedClosure g (followedOf (g.automaton.kernelOf q)) := by
  ext ⟨item, t⟩
  constructor
  · rintro ⟨set, hmem, ht⟩
    obtain ⟨⟨item, l⟩, hentry, heq⟩ := List.mem_map.mp hmem
    obtain ⟨rfl, rfl⟩ := Prod.mk.inj heq
    refine followedIn_of_mem_closureWith hproductive .empty (fun e he => ?_)
      (fun e he s hs => ?_) hentry (Lookahead.contains_resolve_iff.mpr (.inl ht))
    · obtain ⟨entry, hentry, rfl⟩ := List.mem_map.mp he
      exact mem_core_kernelOf hlhs hpos hproductive hentry
    · obtain ⟨entry, hentry, rfl⟩ := List.mem_map.mp he
      exact ⟨entry.2, hentry, hs⟩
  · intro h
    refine (FollowedIn.expects (q := q) h fun e he => ?_).exists_mem_closureOf hlhs hpos
    obtain ⟨set, hmem, hset⟩ := he
    rw [Automaton.kernelOf] at hmem
    split at hmem
    · cases hmem
    rename_i state hstate
    obtain ⟨⟨_, position⟩, hzip, heq⟩ := List.mem_map.mp hmem
    obtain ⟨rfl, rfl⟩ := Prod.mk.inj heq
    exact .kernel hstate (List.mem_zipIdx_iff_getElem?.mp hzip) hset

end

end Lalr

open PreparedGrammar Lalr

namespace Grammar

/-- **Lookaheads are exactly those of the canonical sets, merged by their cores.** -/
theorem lookaheads_exact {grammar : Grammar} {g : PreparedGrammar}
    (h : grammar.prepare = .ok g) {q : Nat} {state : State}
    (hstate : g.automaton.states[q]? = some state) : HasExactLookaheads g q state := by
  have hlhs := lhs_lt_of_prepare h
  have hpos := (wellFormed_of_prepare h).terminalCount_pos
  have hproductive := productive_of_prepare h
  constructor
  · exact fun position item hitem t => contains_lookup_iff hlhs hpos hproductive hstate hitem
  · rw [map_fst_closureOf hstate, itemsAt_eq hstate]
  · rw [map_fst_closureOf hstate, itemsAt_eq hstate]
    exact nodup_closure (isKernel_of_mem (Array.mem_of_getElem? hstate))
  · exact followedOf_closureOf hlhs hpos hproductive q

/-- After the target of an assignment, or the same as a whole value, an equals sign does not follow
the value in any canonical set, although one may follow a value elsewhere. -/
theorem lookaheads_exact_assignments : ∃ g state, assignments.prepare = .ok g ∧
    g.automaton.states[4]? = some state ∧ state.kernel = [⟨0, 1⟩, ⟨4, 1⟩] ∧
    HasExactLookaheads g 4 state ∧ ∀ items, Canonical g items →
      core items = closureSet g state.kernelSet → ((⟨4, 1⟩ : Item), (⟨1⟩ : Symbol)) ∉ items := by
  have hcheck : assignments.prepare.toOption.any (fun g => g.automaton.states[4]?.any fun state =>
      state.kernel = [⟨0, 1⟩, ⟨4, 1⟩] ∧
      (g.automaton.lookaheads.lookup 4 1).contains ⟨1⟩ = false) = true := by
    decide +kernel
  obtain ⟨g, hprepare, hcheck⟩ := (Option.any_eq_true ..).mp hcheck
  obtain ⟨state, hstate, hcheck⟩ := (Option.any_eq_true ..).mp hcheck
  obtain ⟨hkernel, hlookup⟩ := of_decide_eq_true hcheck
  have hexact := lookaheads_exact (eq_ok_of_toOption hprepare) hstate
  refine ⟨g, state, eq_ok_of_toOption hprepare, hstate, hkernel, hexact,
    fun items hitems hcore hmem => ?_⟩
  have hhas := (hexact.kernel 1 ⟨4, 1⟩ (by rw [hkernel]; rfl) ⟨1⟩).mpr ⟨items, hitems, hcore, hmem⟩
  rw [hlookup] at hhas
  cases hhas

end Grammar

end LRWorkbench
