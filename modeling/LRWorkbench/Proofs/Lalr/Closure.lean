import LRWorkbench.Lalr.Lookahead
import LRWorkbench.Proofs.Graph.Reach
import LRWorkbench.Proofs.Lalr.First
import LRWorkbench.Proofs.Lalr.Item
import Mathlib.Algebra.Order.BigOperators.Group.List
import Mathlib.Data.Finset.Card
import Mathlib.Algebra.Ring.Nat

/-!
# Closures are complete

Whatever may begin at the dot of an item of a closure is in the closure
(`Augmented.mem_closureKinds_of_begins`), and its lookahead has all that follows the phrase in the
item (`Augmented.exists_mem_closureWith`): the rounds in which lookaheads are passed on end.
-/

namespace LRWorkbench

namespace Lalr

/-! ### Lookaheads grow -/

namespace Lookahead

/-- One lookahead includes another if it has all its terminals and passes on what the kernel passes
on. -/
theorem includes_iff {a b : Lookahead} : a.includes b = true ↔
    (∀ s, b.terminals.contains s = true → a.terminals.contains s = true) ∧
      (b.inherits = true → a.inherits = true) := by
  rw [includes, Bool.and_eq_true, TerminalSet.includes_iff]
  cases a.inherits <;> cases b.inherits <;> simp

theorem includes_trans {a b c : Lookahead} (hab : a.includes b = true) (hbc : b.includes c = true) :
    a.includes c = true := by
  rw [includes_iff] at hab hbc ⊢
  exact ⟨fun s hs => hab.1 s (hbc.1 s hs), fun h => hab.2 (hbc.2 h)⟩

theorem includes_union_left (a b : Lookahead) : (a.union b).includes a = true := by
  rw [includes_iff]
  refine ⟨fun s hs => ?_, fun h => ?_⟩
  · rw [union, TerminalSet.contains_union, hs, Bool.true_or]
  · rw [union, h, Bool.true_or]

theorem includes_union_right (a b : Lookahead) : (a.union b).includes b = true := by
  rw [includes_iff]
  refine ⟨fun s hs => ?_, fun h => ?_⟩
  · rw [union, TerminalSet.contains_union, hs, Bool.or_true]
  · rw [union, h, Bool.or_true]

/-- Resolving keeps what is included. -/
theorem contains_resolve {a b : Lookahead} (h : a.includes b = true) {own : TerminalSet} {s : Symbol}
    (hs : (b.resolve own).contains s = true) : (a.resolve own).contains s = true := by
  rw [includes_iff] at h
  rw [resolve] at hs ⊢
  cases hb : b.inherits with
  | false =>
    rw [hb] at hs
    have hs := h.1 s hs
    split
    · rw [TerminalSet.contains_union, hs, Bool.true_or]
    · exact hs
  | true =>
    rw [hb, if_pos rfl, TerminalSet.contains_union, Bool.or_eq_true] at hs
    rw [h.2 hb, if_pos rfl, TerminalSet.contains_union, Bool.or_eq_true]
    exact hs.imp (h.1 s) id

end Lookahead

namespace Augmented

variable {g : PreparedGrammar}

/-! ### Phrase kinds of a closure -/

/-- The extra production of the augmented grammar belongs to none of the grammar's non-terminals. -/
theorem productionsOf_augment {kind : Nat} (hkind : kind < g.nonTerminals.size) :
    (augment g).productionsOf[kind]?.getD [] = Lalr.productionsOf g kind := by
  simp [augment, hkind]

/-- The first items of a non-terminal are those of its own productions. -/
theorem mem_itemsOf_iff {kind : Nat} (hkind : kind < g.nonTerminals.size) {p : Nat} :
    ⟨p, 0⟩ ∈ (augment g).itemsOf kind ↔ ∃ rule, g.productions[p]? = some rule ∧ rule.lhs = kind := by
  rw [itemsOf, productionsOf_augment hkind, ← mem_productionsOf]
  simp

theorem lt_of_mem_itemsOf {kind : Nat} {item : Item} (h : item ∈ (augment g).itemsOf kind) :
    kind < g.nonTerminals.size := by
  by_contra hge
  rw [itemsOf, augment] at h
  simp [hge] at h

/-- A phrase kind that an item of a closure goes on with is one of the closure. -/
theorem mem_closureKinds_of_begins {kernel : List Item} {kind kind' : Nat} {item : Item}
    (hkind : kind ∈ (augment g).closureKinds kernel) (hitem : item ∈ (augment g).itemsOf kind)
    (hnext : (augment g).nextKind? item = some kind') :
    kind' ∈ (augment g).closureKinds kernel := by
  have hlt := lt_of_mem_itemsOf hitem
  refine Graph.mem_reachFrom_of_step (fun i hi => ?_) hkind ?_
  · simp [augment, Nat.not_lt.mpr (show g.nonTerminals.size ≤ i from hi)]
  · obtain ⟨hdot, rule, hrule, hlhs⟩ := mem_itemsOf hitem
    have hbeginnings : (augment g).beginnings[kind]?.getD [] = beginningsOf g kind := by
      simp [augment, hlt]
    rw [hbeginnings, beginningsOf, List.mem_eraseDups, List.mem_filterMap]
    refine ⟨item.production, mem_productionsOf.mpr ⟨rule, hrule, hlhs⟩, ?_⟩
    rw [nextKind?, next?, hdot, symbolsOf_augment hrule, ← List.head?_eq_getElem?] at hnext
    rw [hrule, Option.bind_some]
    exact hnext

/-- What stands behind the dot of a kernel item is a kind of the closure. -/
theorem mem_closureKinds_of_mem {kernel : List Item} {kind : Nat} {item : Item}
    (hitem : item ∈ kernel) (hnext : (augment g).nextKind? item = some kind) :
    kind ∈ (augment g).closureKinds kernel :=
  Graph.mem_reachFrom_of_root (List.mem_filterMap.mpr ⟨item, hitem, hnext⟩)

/-! ### Passing lookaheads on -/

section Rounds

variable {found : Array Lookahead} {kinds : List Nat} {kind : Nat} {more own : Lookahead}
  {item : Item}

/-- Whether there is a lookahead for each phrase kind, of terminals of the grammar. -/
structure Fits (g : PreparedGrammar) (found : Array Lookahead) : Prop where
  size : found.size = g.nonTerminals.size
  below : ∀ (kind : Nat) (l : Lookahead), found[kind]? = some l → l.terminals.Below g.terminalCount

/-- Whether the lookahead of a phrase kind, if there is one, includes another. -/
def Covers (kind : Nat) (more : Lookahead) (found : Array Lookahead) : Prop :=
  ∀ old : Lookahead, found[kind]? = some old → old.includes more = true

/-- What the lookaheads of some phrase kinds are together. -/
def total (kinds : List Nat) (bound : Nat) (found : Array Lookahead) : Nat :=
  (kinds.map fun kind => (found[kind]?.getD .none).terminals.weight bound
    (found[kind]?.getD .none).inherits).sum

/-- This bounds the number of rounds: each round that changes anything makes the total larger. -/
theorem total_le (kinds : List Nat) (bound : Nat) (found : Array Lookahead) :
    total kinds bound found ≤ kinds.length * (bound + 1) := by
  refine (List.sum_le_card_nsmul _ (bound + 1) fun weight hweight => ?_).trans_eq ?_
  · obtain ⟨kind, -, rfl⟩ := List.mem_map.mp hweight
    exact TerminalSet.weight_le ..
  · rw [List.length_map, nsmul_eq_mul]
    rfl

theorem widen_of_covers (h : Covers kind more found) : widen found kind more = found := by
  rw [widen]
  split
  · rename_i old hold
    rw [if_pos (h old hold)]
  · rfl

theorem widen_of_not_covers (h : ¬Covers kind more found) :
    ∃ old : Lookahead, found[kind]? = some old ∧ old.includes more = false ∧
      widen found kind more = found.setIfInBounds kind (old.union more) := by
  obtain ⟨old, hold, hnot⟩ : ∃ old : Lookahead, found[kind]? = some old ∧ old.includes more = false := by
    by_contra hall
    refine h fun old hold => ?_
    by_contra hnot
    exact hall ⟨old, hold, Bool.eq_false_iff.mpr hnot⟩
  refine ⟨old, hold, hnot, ?_⟩
  simp only [widen, hold, hnot, Bool.false_eq_true, if_false]

/-- What is covered stays covered. -/
theorem Covers.widen {other : Nat} {less : Lookahead} (h : Covers other less found) (kind : Nat)
    (more : Lookahead) : Covers other less (widen found kind more) := by
  by_cases hcovers : Covers kind more found
  · rwa [widen_of_covers hcovers]
  · obtain ⟨old, hold, -, heq⟩ := widen_of_not_covers hcovers
    rw [heq]
    intro now hnow
    by_cases hother : kind = other
    · subst hother
      rw [Array.getElem?_setIfInBounds_self_of_lt (Array.getElem?_eq_some_iff.mp hold).choose] at hnow
      obtain rfl := Option.some.inj hnow
      exact Lookahead.includes_trans (Lookahead.includes_union_left ..) (h old hold)
    · rw [Array.getElem?_setIfInBounds_ne hother] at hnow
      exact h now hnow

/-- After a widening the kind has all that it was widened by. -/
theorem covers_widen (found : Array Lookahead) (kind : Nat) (more : Lookahead) :
    Covers kind more (widen found kind more) := by
  by_cases hcovers : Covers kind more found
  · rwa [widen_of_covers hcovers]
  · obtain ⟨old, hold, -, heq⟩ := widen_of_not_covers hcovers
    rw [heq]
    intro now hnow
    rw [Array.getElem?_setIfInBounds_self_of_lt (Array.getElem?_eq_some_iff.mp hold).choose] at hnow
    obtain rfl := Option.some.inj hnow
    exact Lookahead.includes_union_right ..

/-- Adding to a lookahead what it does not cover makes the lookaheads larger. -/
theorem Fits.widen (h : Fits g found) (hmore : more.terminals.Below g.terminalCount)
    (hkind : kind ∈ kinds) (hnot : ¬Covers kind more found) :
    Fits g (widen found kind more) ∧
      total kinds g.terminalCount found < total kinds g.terminalCount (widen found kind more) := by
  obtain ⟨old, hold, hincludes, heq⟩ := widen_of_not_covers hnot
  have hlt := (Array.getElem?_eq_some_iff.mp hold).choose
  rw [heq]
  constructor
  · refine ⟨by rw [Array.size_setIfInBounds, h.size], fun other l hl => ?_⟩
    by_cases hother : kind = other
    · subst hother
      rw [Array.getElem?_setIfInBounds_self_of_lt hlt] at hl
      obtain rfl := Option.some.inj hl
      exact (h.below _ _ hold).union hmore
    · rw [Array.getElem?_setIfInBounds_ne hother] at hl
      exact h.below _ _ hl
  · have hweight := TerminalSet.weight_lt_weight_union hmore hincludes
    refine List.sum_lt_sum _ _ (fun other _ => ?_) ⟨kind, hkind, ?_⟩
    · by_cases hother : kind = other
      · subst hother
        rw [Array.getElem?_setIfInBounds_self_of_lt hlt, hold]
        exact Nat.le_of_lt hweight
      · rw [Array.getElem?_setIfInBounds_ne hother]
    · rw [Array.getElem?_setIfInBounds_self_of_lt hlt, hold]
      exact hweight

/-- A widening takes nothing away and makes the total larger unless it changes nothing, which is
what lets the rounds end. -/
theorem inflates_widen (other : Nat) (less : Lookahead)
    (hmore : more.terminals.Below g.terminalCount) (hkind : kind ∈ kinds) :
    Rounds.Inflates (fun found => Fits g found ∧ Covers other less found)
      (total kinds g.terminalCount) (Augmented.widen · kind more) := by
  rintro found ⟨hfits, hcovers⟩
  by_cases h : Covers kind more found
  · dsimp only
    rw [widen_of_covers h]
    exact ⟨⟨hfits, hcovers⟩, .inl rfl⟩
  · obtain ⟨hfits', hlt⟩ := hfits.widen hmore hkind h
    exact ⟨⟨hfits', hcovers.widen kind more⟩, .inr hlt⟩

/-- A round passes each lookahead on to phrase kinds of the closure. -/
theorem below_follow (hlhs : ∀ p ∈ g.productions, p.lhs < g.nonTerminals.size)
    (hown : own.terminals.Below g.terminalCount) :
    ((augment g).follow item own).terminals.Below g.terminalCount := by
  have hfirst := (FirstSets.closed_ofGrammar hlhs).1.below_ofSymbols ((augment g).afterNext item)
  simp only [follow]
  split
  · exact hown.union hfirst
  · exact hfirst

/-- Passing on from an item widens at most one kind, that behind its dot. -/
theorem inflates_passOn (hlhs : ∀ p ∈ g.productions, p.lhs < g.nonTerminals.size) (other : Nat)
    (less : Lookahead) (hown : own.terminals.Below g.terminalCount)
    (hnext : ∀ kind, (augment g).nextKind? item = some kind → kind ∈ kinds) :
    Rounds.Inflates (fun found => Fits g found ∧ Covers other less found)
      (total kinds g.terminalCount) ((augment g).passOn · item own) := by
  cases hkind : (augment g).nextKind? item with
  | none =>
    intro found h
    simp only [passOn, hkind]
    exact ⟨h, .inl trivial⟩
  | some kind =>
    intro found h
    simp only [passOn, hkind]
    exact inflates_widen other less (below_follow hlhs hown) (hnext kind hkind) found h

/-- A non-terminal passes on from all its first items, one after the other. -/
theorem inflates_passOnKind (hlhs : ∀ p ∈ g.productions, p.lhs < g.nonTerminals.size) (other : Nat)
    (less : Lookahead) {kind : Nat}
    (hnext : ∀ item ∈ (augment g).itemsOf kind, ∀ kind', (augment g).nextKind? item = some kind' →
      kind' ∈ kinds) :
    Rounds.Inflates (fun found => Fits g found ∧ Covers other less found)
      (total kinds g.terminalCount) ((augment g).passOnKind · kind) := by
  intro found h
  dsimp only
  rw [passOnKind]
  split
  · rename_i own hown
    exact Rounds.inflates_foldl (fun item hitem => inflates_passOn hlhs other less
      (h.1.below kind own hown) (hnext item hitem)) found h
  · exact ⟨h, .inl rfl⟩

/-- The rounds of the closure are the general rounds, with passing on from every kind as their
step. -/
theorem settle_eq (a : Augmented) (kinds : List Nat) (rounds : Nat) (found : Array Lookahead) :
    a.settle kinds rounds found = Rounds.settle (kinds.foldl a.passOnKind ·) rounds found := by
  induction rounds generalizing found with
  | zero => rfl
  | succ rounds ih => rw [settle, Rounds.settle, ih]

theorem fits_none (g : PreparedGrammar) :
    Fits g (Array.replicate g.nonTerminals.size Lookahead.none) where
  size := Array.size_replicate
  below := by
    intro kind l hl
    rw [Array.getElem?_replicate] at hl
    split at hl
    · obtain rfl := Option.some.inj hl
      exact TerminalSet.below_empty _
    · cases hl

theorem covers_none (kind : Nat) (found : Array Lookahead) : Covers kind .none found := by
  intro old _
  rw [Lookahead.includes_iff]
  exact ⟨fun s hs => absurd hs (by simp [Lookahead.none]), fun h => absurd h (by simp [Lookahead.none])⟩

/-- After an item has passed on, the kind behind its dot has all that follows it there. -/
theorem covers_passOn (own : Lookahead) (found : Array Lookahead)
    (hnext : (augment g).nextKind? item = some kind) :
    Covers kind ((augment g).follow item own) ((augment g).passOn found item own) := by
  simp only [passOn, hnext]
  exact covers_widen _ _ _

variable {kernel : List (Item × Lookahead)}

/-- A round over a kernel passes the lookahead of each of its items on. -/
theorem covers_foldl_passOn (hlhs : ∀ p ∈ g.productions, p.lhs < g.nonTerminals.size)
    (hbelow : ∀ e ∈ kernel, e.2.terminals.Below g.terminalCount)
    (hnext : ∀ e ∈ kernel, ∀ kind, (augment g).nextKind? e.1 = some kind → kind ∈ kinds)
    {found : Array Lookahead} (hfound : Fits g found) {e : Item × Lookahead} (he : e ∈ kernel)
    (hkind : (augment g).nextKind? e.1 = some kind) :
    Covers kind ((augment g).follow e.1 e.2)
      (kernel.foldl (fun found entry => (augment g).passOn found entry.1 entry.2) found) := by
  induction kernel generalizing found with
  | nil => cases he
  | cons first rest ih =>
    rw [List.foldl_cons]
    have hbelow' := fun e he => hbelow e (List.mem_cons_of_mem first he)
    have hnext' := fun e he => hnext e (List.mem_cons_of_mem first he)
    have hfirst := List.mem_cons_self (a := first) (l := rest)
    have hfits := (inflates_passOn hlhs 0 .none (hbelow first hfirst) (hnext first hfirst) found
      ⟨hfound, covers_none _ _⟩).1.1
    rcases List.mem_cons.mp he with rfl | he
    · exact (Rounds.inflates_foldl (fun entry hentry => inflates_passOn hlhs kind _
        (hbelow' entry hentry) (hnext' entry hentry)) _ ⟨hfits, covers_passOn _ found hkind⟩).1.2
    · exact ih hbelow' hnext' hfits he

/-- When the rounds end, all lookaheads have been passed on, and nothing got lost. -/
theorem covers_settle (hlhs : ∀ p ∈ g.productions, p.lhs < g.nonTerminals.size)
    (hkinds : ∀ kind ∈ kinds, ∀ item ∈ (augment g).itemsOf kind, ∀ kind',
      (augment g).nextKind? item = some kind' → kind' ∈ kinds)
    {rounds : Nat} (hrounds : kinds.length * (g.terminalCount + 1) < rounds) {start : Array Lookahead}
    (hstart : Fits g start) (hsettle : (augment g).settle kinds rounds start = found) :
    Fits g found ∧ (∀ other less, Covers other less start → Covers other less found) ∧
      ∀ kind ∈ kinds, ∀ own : Lookahead, found[kind]? = some own →
        ∀ item ∈ (augment g).itemsOf kind, ∀ kind', (augment g).nextKind? item = some kind' →
          Covers kind' ((augment g).follow item own) found := by
  have hround : ∀ other less, ∀ kind ∈ kinds, Rounds.Inflates
      (fun found => Fits g found ∧ Covers other less found) (total kinds g.terminalCount)
      ((augment g).passOnKind · kind) :=
    fun other less kind hkind => inflates_passOnKind hlhs other less (hkinds kind hkind)
  have hend : ∀ other less, Covers other less start →
      (Fits g found ∧ Covers other less found) ∧ kinds.foldl (augment g).passOnKind found = found := by
    intro other less hcovers
    rw [← hsettle, settle_eq]
    exact Rounds.settle_spec (Rounds.inflates_foldl (hround other less))
      (fun found _ => total_le kinds g.terminalCount found) ⟨hstart, hcovers⟩ (by omega)
  obtain ⟨hfits, hsame⟩ := hend 0 .none (covers_none _ _)
  refine ⟨hfits.1, fun other less hcovers => (hend other less hcovers).1.2, ?_⟩
  intro kind hkind own hown item hitem kind' hkind'
  -- neither this phrase kind nor this item changed anything in the last round
  have hphrase := Rounds.step_eq_of_foldl_eq (hround 0 .none) hfits hsame kind hkind
  rw [passOnKind, hown] at hphrase
  have hstep := Rounds.step_eq_of_foldl_eq (fun item hitem => inflates_passOn hlhs 0 .none
    (hfits.1.below kind own hown) (hkinds kind hkind item hitem)) hfits hphrase item hitem
  have hcovers := covers_passOn own found hkind'
  rwa [hstep] at hcovers

/-- **Lookaheads in a closure are complete.** They cover what follows the phrases after the dots of
the kernel and after the dots of the items that begin phrases. -/
theorem covers_closureLookaheads (hlhs : ∀ p ∈ g.productions, p.lhs < g.nonTerminals.size)
    (hbelow : ∀ e ∈ kernel, e.2.terminals.Below g.terminalCount)
    (hfound : (augment g).closureLookaheads kernel = found) :
    Fits g found ∧
    (∀ e ∈ kernel, ∀ kind, (augment g).nextKind? e.1 = some kind →
      Covers kind ((augment g).follow e.1 e.2) found) ∧
    ∀ kind ∈ (augment g).closureKinds (kernel.map (·.1)), ∀ own : Lookahead,
      found[kind]? = some own → ∀ item ∈ (augment g).itemsOf kind, ∀ kind',
        (augment g).nextKind? item = some kind' →
          Covers kind' ((augment g).follow item own) found := by
  have hnext : ∀ e ∈ kernel, ∀ kind, (augment g).nextKind? e.1 = some kind →
      kind ∈ (augment g).closureKinds (kernel.map (·.1)) :=
    fun e he kind hkind => mem_closureKinds_of_mem (List.mem_map_of_mem he) hkind
  have hstart := Rounds.inflates_foldl (fun entry hentry => inflates_passOn hlhs 0 .none
    (hbelow entry hentry) (hnext entry hentry)) _ ⟨fits_none g, covers_none _ _⟩
  obtain ⟨hfits, hkept, hpassed⟩ := covers_settle hlhs
    (fun kind hkind item hitem kind' hkind' => mem_closureKinds_of_begins hkind hitem hkind')
    (Nat.lt_succ_self _) hstart.1.1 hfound
  exact ⟨hfits, fun e he kind hkind =>
    hkept kind _ (covers_foldl_passOn hlhs hbelow hnext (fits_none g) he hkind), hpassed⟩

/-- **A closure is complete.** The productions of the phrase kind after the dot of an item of a
closure begin in the closure, and are followed by what follows the phrase in the item. -/
theorem exists_mem_closureWith (hlhs : ∀ p ∈ g.productions, p.lhs < g.nonTerminals.size)
    (hbelow : ∀ e ∈ kernel, e.2.terminals.Below g.terminalCount) {e : Item × Lookahead}
    (he : e ∈ (augment g).closureWith kernel) {p : Nat} {rule : Production}
    (hrule : g.productions[p]? = some rule) (hnext : (augment g).nextKind? e.1 = some rule.lhs) :
    ∃ l, (⟨p, 0⟩, l) ∈ (augment g).closureWith kernel ∧
      l.includes ((augment g).follow e.1 e.2) = true := by
  obtain ⟨found, hfound⟩ : ∃ found, (augment g).closureLookaheads kernel = found := ⟨_, rfl⟩
  obtain ⟨hfits, hkernel, hpassed⟩ := covers_closureLookaheads hlhs hbelow hfound
  have hlt := hlhs rule (Array.mem_of_getElem? hrule)
  obtain ⟨l, hl⟩ : ∃ l, found[rule.lhs]? = some l :=
    ⟨_, Array.getElem?_eq_getElem (hfits.size.symm ▸ hlt)⟩
  -- the phrase kind is one of the closure, and its lookahead covers what follows
  obtain ⟨hkind, hcovers⟩ : rule.lhs ∈ (augment g).closureKinds (kernel.map (·.1)) ∧
      Covers rule.lhs ((augment g).follow e.1 e.2) found := by
    rcases List.mem_append.mp he with he | he
    · exact ⟨mem_closureKinds_of_mem (List.mem_map_of_mem he) hnext, hkernel e he _ hnext⟩
    · obtain ⟨kind, hkind, he⟩ := List.mem_flatMap.mp he
      obtain ⟨item, hitem, rfl⟩ := List.mem_map.mp he
      obtain ⟨own, hown⟩ : ∃ own, found[kind]? = some own :=
        ⟨_, Array.getElem?_eq_getElem (hfits.size.symm ▸ lt_of_mem_itemsOf hitem)⟩
      refine ⟨mem_closureKinds_of_begins hkind hitem hnext, ?_⟩
      rw [hfound, hown, Option.getD_some]
      exact hpassed kind hkind own hown item hitem _ hnext
  refine ⟨l, List.mem_append_right _ (List.mem_flatMap.mpr ⟨rule.lhs, hkind, ?_⟩), hcovers l hl⟩
  refine List.mem_map.mpr ⟨⟨p, 0⟩, (mem_itemsOf_iff hlt).mpr ⟨rule, hrule, rfl⟩, ?_⟩
  rw [hfound, hl, Option.getD_some]

/-- Closures are followed by terminals of the grammar only. -/
theorem below_of_mem_closureWith (hlhs : ∀ p ∈ g.productions, p.lhs < g.nonTerminals.size)
    (hbelow : ∀ e ∈ kernel, e.2.terminals.Below g.terminalCount) {e : Item × Lookahead}
    (he : e ∈ (augment g).closureWith kernel) : e.2.terminals.Below g.terminalCount := by
  rcases List.mem_append.mp he with he | he
  · exact hbelow e he
  · obtain ⟨kind, hkind, he⟩ := List.mem_flatMap.mp he
    obtain ⟨item, hitem, rfl⟩ := List.mem_map.mp he
    have hfits := (covers_closureLookaheads hlhs hbelow rfl).1
    obtain ⟨own, hown⟩ : ∃ own, ((augment g).closureLookaheads kernel)[kind]? = some own :=
      ⟨_, Array.getElem?_eq_getElem (hfits.size.symm ▸ lt_of_mem_itemsOf hitem)⟩
    rw [hown, Option.getD_some]
    exact hfits.below kind own hown

end Rounds

end Augmented

end Lalr

end LRWorkbench
