import LRWorkbench.Proofs.Lalr.Exact
import Mathlib.Logic.Relation

/-!
# How strings of symbols begin

A string of symbols is **rewritten** by putting the symbols of a production in the place of its phrase
kind (`PreparedGrammar.Rewrites`). First sets speak about all strings that come about in this way, not
only about those of terminals.

They say nothing too much, since what a phrase kind derives, it can be rewritten to
(`FirstSets.Sound.rewritesTo`). They say nothing too little, since a rewritten string has no beginning
that the string had not (`FirstSets.covers_of_rewrites`), which is where first sets have to agree with
the productions.

**Main statement.** `Grammar.firsts_exact`: the rounds in which first sets are computed come to an end
by themselves, and then the first set of a string of symbols has the terminals that the string can be
rewritten to begin with, and tells whether it can be rewritten to nothing.
-/

namespace LRWorkbench

namespace PreparedGrammar

/-- One phrase kind in a string of symbols gives way to the symbols of a production. -/
inductive Rewrites (g : PreparedGrammar) : List Symbol → List Symbol → Prop where
  | production {rule : Production} (front back : List Symbol) (rule_mem : rule ∈ g.productions) :
      Rewrites g (front ++ [g.nonTerminalSymbol rule.lhs] ++ back) (front ++ rule.symbols ++ back)

/-- Whether a string of symbols becomes another one in some number of such steps. -/
def RewritesTo (g : PreparedGrammar) : List Symbol → List Symbol → Prop :=
  Relation.ReflTransGen g.Rewrites

variable {g : PreparedGrammar} {u u' v v' : List Symbol}

theorem Rewrites.inside (front back : List Symbol) (h : g.Rewrites u v) :
    g.Rewrites (front ++ u ++ back) (front ++ v ++ back) := by
  cases h with
  | production before behind hrule =>
    have h := Rewrites.production (front ++ before) (behind ++ back) hrule
    simpa only [List.append_assoc] using h

theorem RewritesTo.inside (front back : List Symbol) (h : g.RewritesTo u v) :
    g.RewritesTo (front ++ u ++ back) (front ++ v ++ back) := by
  induction h with
  | refl => exact .refl
  | tail _ hstep ih => exact .tail ih (hstep.inside front back)

/-- Strings next to each other are rewritten one after the other. -/
theorem RewritesTo.append (h : g.RewritesTo u u') (h' : g.RewritesTo v v') :
    g.RewritesTo (u ++ v) (u' ++ v') := by
  have hfirst := h.inside [] v
  have hsecond := h'.inside u' []
  rw [List.nil_append, List.nil_append] at hfirst
  rw [List.append_nil, List.append_nil] at hsecond
  exact Relation.ReflTransGen.trans hfirst hsecond

/-- A phrase kind is rewritten to what the symbols of a production are rewritten to. -/
theorem RewritesTo.phrase {rule : Production} (hrule : rule ∈ g.productions)
    (h : g.RewritesTo rule.symbols v) : g.RewritesTo [g.nonTerminalSymbol rule.lhs] v := by
  have hstep := Rewrites.production [] [] hrule
  rw [List.append_nil, List.append_nil] at hstep
  exact Relation.ReflTransGen.head hstep h

/-- What symbols derive, they can be rewritten to. -/
theorem rewritesTo_of_derives :
    (∀ s sentence, g.Derives s sentence → g.RewritesTo [s] sentence) ∧
      ∀ symbols sentence, g.DerivesAll symbols sentence → g.RewritesTo symbols sentence :=
  Derives.induct (P := fun s => g.RewritesTo [s]) (Q := g.RewritesTo)
    (fun _ _ => .refl)
    (fun _ _ _ hrule _ heach => .phrase (Array.mem_of_getElem? hrule) heach)
    .refl
    (fun _ _ _ _ _ _ hfirst hrest => hfirst.append hrest)

end PreparedGrammar

/-! ### Rounds without a bound -/

/-- A round is repeated until it changes nothing, however long that takes. -/
inductive Rounds.Ends {α : Type} (round : α → α) : α → α → Prop where
  | stop {x : α} (same : round x = x) : Ends round x x
  | again {x y : α} (changed : round x ≠ x) (rest : Ends round (round x) y) : Ends round x y

/-- A bound that is not reached makes no difference. -/
theorem Rounds.ends_settle {α : Type} [DecidableEq α] {round : α → α} {rounds : Nat} {x : α}
    (h : round (settle round rounds x) = settle round rounds x) :
    Ends round x (settle round rounds x) := by
  induction rounds generalizing x with
  | zero => exact .stop h
  | succ rounds ih =>
    rw [settle] at h ⊢
    split
    · rename_i hsame
      exact .stop hsame
    · rename_i hchanged
      rw [if_neg hchanged] at h
      exact .again hchanged (ih h)

namespace FirstSets

variable {g : PreparedGrammar} {f : FirstSets} {t : Symbol} {u v w : List Symbol}

/-- The first sets before any production is taken into account. -/
def blank (g : PreparedGrammar) : FirstSets :=
  ⟨g.terminalCount, Array.replicate g.nonTerminals.size (.empty, false)⟩

/-- The first sets of a grammar are where rounds end that are repeated without a bound. -/
theorem ends_ofGrammar (hlhs : ∀ p ∈ g.productions, p.lhs < g.nonTerminals.size) :
    Rounds.Ends (g.productions.toList.foldl FirstSets.absorb ·) (blank g) (ofGrammar g) := by
  have hround : g.productions.toList.foldl FirstSets.absorb (ofGrammar g) = ofGrammar g :=
    List.foldlRecOn (motive := (· = ofGrammar g)) _ _ rfl fun f hf rule hrule => by
      rw [hf]
      exact absorb_of_agrees ((closed_ofGrammar hlhs).2 rule (Array.mem_toList_iff.mp hrule))
  rw [ofGrammar, settle_eq] at hround ⊢
  exact Rounds.ends_settle hround

/-! ### Strings next to each other -/

theorem nullable_append (f : FirstSets) (u v : List Symbol) :
    (f.ofSymbols (u ++ v)).2 = ((f.ofSymbols u).2 && (f.ofSymbols v).2) := by
  induction u with
  | nil => rfl
  | cons s u ih =>
    rw [List.cons_append, ofSymbols, ofSymbols]
    split
    · rfl
    · dsimp only
      split
      · exact ih
      · rfl

/-- What stands behind a string counts where the string may be empty. -/
theorem contains_append (f : FirstSets) (u v : List Symbol) (t : Symbol) :
    (f.ofSymbols (u ++ v)).1.contains t =
      ((f.ofSymbols u).1.contains t || (f.ofSymbols u).2 && (f.ofSymbols v).1.contains t) := by
  induction u with
  | nil => simp [ofSymbols]
  | cons s u ih =>
    rw [List.cons_append, ofSymbols, ofSymbols]
    split
    · simp
    · dsimp only
      split
      · simp only [TerminalSet.contains_union, ih, Bool.or_assoc]
      · simp

/-! ### Nothing too little -/

/-- Whether a first set says all that another one says. -/
structure Covers (e e' : TerminalSet × Bool) : Prop where
  first : ∀ t, e'.1.contains t = true → e.1.contains t = true
  nullable : e'.2 = true → e.2 = true

/-- What says more about a part says more about the whole. -/
theorem Covers.inside (front back : List Symbol) (h : Covers (f.ofSymbols u) (f.ofSymbols v)) :
    Covers (f.ofSymbols (front ++ u ++ back)) (f.ofSymbols (front ++ v ++ back)) where
  first t := by
    have hfirst := h.first t
    have hnullable := h.nullable
    simp only [contains_append, nullable_append, Bool.or_eq_true, Bool.and_eq_true]
    tauto
  nullable := by
    have hnullable := h.nullable
    simp only [nullable_append, Bool.and_eq_true]
    tauto

/-- First sets that agree with a production say about its phrase kind what they say about its
symbols. -/
theorem Agrees.covers (hcount : f.terminalCount = g.terminalCount) {rule : Production}
    (h : f.Agrees rule) :
    Covers (f.ofSymbols [g.nonTerminalSymbol rule.lhs]) (f.ofSymbols rule.symbols) := by
  have hge : ¬(g.nonTerminalSymbol rule.lhs).index < f.terminalCount := by
    rw [hcount]
    exact Nat.not_lt.mpr (Nat.le_add_right ..)
  have hkind : (g.nonTerminalSymbol rule.lhs).index - f.terminalCount = rule.lhs := by
    rw [hcount]
    exact Nat.add_sub_cancel_left ..
  rw [Agrees, Bool.and_eq_true, TerminalSet.includes_iff] at h
  obtain ⟨hfirst, hnullable⟩ := h
  rw [ofSymbols, if_neg hge, hkind]
  cases hempty : (f.entry rule.lhs).2 with
  | true =>
    refine ⟨fun t ht => ?_, fun _ => by simp [hempty, ofSymbols]⟩
    simpa [hempty, ofSymbols] using hfirst t ht
  | false =>
    refine ⟨fun t ht => by simpa [hempty] using hfirst t ht, fun hnull => ?_⟩
    simp [hempty, hnull] at hnullable

theorem covers_of_rewrites (hcount : f.terminalCount = g.terminalCount)
    (hclosed : ∀ p ∈ g.productions, f.Agrees p) (h : g.Rewrites u v) :
    Covers (f.ofSymbols u) (f.ofSymbols v) := by
  cases h with
  | production front back hrule => exact ((hclosed _ hrule).covers hcount).inside front back

/-- A string has every beginning that it can be rewritten to have. -/
theorem covers_of_rewritesTo (hcount : f.terminalCount = g.terminalCount)
    (hclosed : ∀ p ∈ g.productions, f.Agrees p) (h : g.RewritesTo u v) :
    Covers (f.ofSymbols u) (f.ofSymbols v) := by
  induction h using Relation.ReflTransGen.head_induction_on with
  | refl => exact ⟨fun _ => id, id⟩
  | head hstep _ ih =>
    have hcovers := covers_of_rewrites hcount hclosed hstep
    exact ⟨fun t ht => hcovers.first t (ih.first t ht),
      fun hnull => hcovers.nullable (ih.nullable hnull)⟩

/-! ### Nothing too much -/

/-- Strings can be rewritten to begin as sound first sets say. -/
theorem Sound.rewritesTo (h : f.Sound g) (w : List Symbol) :
    (∀ t, (f.ofSymbols w).1.contains t = true → ∃ rest, g.RewritesTo w (t :: rest)) ∧
      ((f.ofSymbols w).2 = true → g.RewritesTo w []) := by
  induction w with
  | nil => exact ⟨fun t ht => absurd ht (by simp [FirstSets.ofSymbols]), fun _ => .refl⟩
  | cons s w ih =>
    obtain ⟨hfirst, hnullable⟩ := ih
    have hcount : f.terminalCount = g.terminals.size := h.terminalCount
    rw [FirstSets.ofSymbols, hcount]
    split
    · refine ⟨fun t ht => ?_, fun hfalse => absurd hfalse Bool.false_ne_true⟩
      rw [TerminalSet.contains_insert, TerminalSet.contains_empty, or_iff_left Bool.false_ne_true]
        at ht
      exact ⟨w, ht ▸ .refl⟩
    · rename_i hs
      have hkind := PreparedGrammar.nonTerminalSymbol_sub hs
      have hbegin : ∀ t, (f.entry (s.index - g.terminals.size)).1.contains t = true →
          ∃ rest, g.RewritesTo (s :: w) (t :: rest) := by
        intro t ht
        obtain ⟨rest, hphrase⟩ := h.first _ t ht
        rw [hkind] at hphrase
        exact ⟨rest ++ w, (PreparedGrammar.rewritesTo_of_derives.1 _ _ hphrase).append .refl⟩
      dsimp only
      split
      · rename_i hempty
        have hphrase := PreparedGrammar.rewritesTo_of_derives.1 _ _ (hkind ▸ h.nullable _ hempty)
        refine ⟨fun t ht => ?_, fun hrest => hphrase.append (hnullable hrest)⟩
        rw [TerminalSet.contains_union, Bool.or_eq_true] at ht
        rcases ht with ht | ht
        · exact hbegin t ht
        · obtain ⟨rest, heach⟩ := hfirst t ht
          exact ⟨rest, hphrase.append heach⟩
      · exact ⟨hbegin, fun hfalse => absurd hfalse Bool.false_ne_true⟩

end FirstSets

open FirstSets PreparedGrammar

namespace Grammar

/-- **First sets are exact.** Taking the productions of a prepared grammar into account, round after
round, comes to an end, and what it ends at are the first sets of the grammar. By these, the first set
of a string of symbols has just the terminals that the string can be rewritten to begin with, and the
string may be empty just if it can be rewritten to nothing. -/
theorem firsts_exact {grammar : Grammar} {g : PreparedGrammar} (h : grammar.prepare = .ok g) :
    Rounds.Ends (g.productions.toList.foldl FirstSets.absorb ·) (blank g) (ofGrammar g) ∧
      ∀ w : List Symbol,
        (∀ t, ((ofGrammar g).ofSymbols w).1.contains t = true ↔
          g.isTerminal t = true ∧ ∃ rest, g.RewritesTo w (t :: rest)) ∧
        (((ofGrammar g).ofSymbols w).2 = true ↔ g.RewritesTo w []) := by
  have hlhs := lhs_lt_of_prepare h
  obtain ⟨hfits, hclosed⟩ := closed_ofGrammar hlhs
  have hsound := sound_ofGrammar (productive_of_prepare h)
  refine ⟨ends_ofGrammar hlhs, fun w => ⟨fun t => ⟨fun ht => ?_, ?_⟩, (hsound.rewritesTo w).2, ?_⟩⟩
  · exact ⟨decide_eq_true (hfits.below_ofSymbols w t ht), (hsound.rewritesTo w).1 t ht⟩
  · rintro ⟨hterminal, rest, hrewrites⟩
    refine (covers_of_rewritesTo hfits.terminalCount hclosed hrewrites).first t ?_
    have hlt : t.index < (ofGrammar g).terminalCount :=
      hfits.terminalCount ▸ of_decide_eq_true hterminal
    rw [FirstSets.ofSymbols, if_pos hlt]
    exact TerminalSet.contains_insert.mpr (.inl rfl)
  · intro hrewrites
    exact (covers_of_rewritesTo hfits.terminalCount hclosed hrewrites).nullable rfl

/-- Two options, each of which may be left out, before a word that may begin with one. -/
def options : Grammar where
  name := "options"
  rules := [
    ("phrase", .seq [.reference "option", .reference "word"]),
    ("option", .optional (.literal "y")),
    ("word", .choice [.literal "z", .seq [.reference "option", .literal "w"]])]
  extras := []
  conflicts := []
  externals := []
  word := none

/-- An option and a word may begin with "w", since the option before the word may be left out, and so
may the one that the word begins with. Two options may be left out together, an option and a word may
not. -/
theorem firsts_exact_options : ∃ g, options.prepare = .ok g ∧
    (∃ rest, g.RewritesTo [⟨5⟩, ⟨6⟩] (⟨3⟩ :: rest)) ∧ g.RewritesTo [⟨5⟩, ⟨5⟩] [] ∧
    ¬g.RewritesTo [⟨5⟩, ⟨6⟩] [] := by
  have hcheck : options.prepare.toOption.any (fun g =>
      ((ofGrammar g).ofSymbols [⟨5⟩, ⟨6⟩]).1.contains ⟨3⟩ &&
      ((ofGrammar g).ofSymbols [⟨5⟩, ⟨5⟩]).2 && !((ofGrammar g).ofSymbols [⟨5⟩, ⟨6⟩]).2) = true := by
    decide +kernel
  obtain ⟨g, hprepare, hcheck⟩ := (Option.any_eq_true ..).mp hcheck
  rw [Bool.and_eq_true, Bool.and_eq_true, Bool.not_eq_true'] at hcheck
  obtain ⟨⟨hbegins, hempty⟩, hnonempty⟩ := hcheck
  have hexact := (firsts_exact (eq_ok_of_toOption hprepare)).2
  refine ⟨g, eq_ok_of_toOption hprepare, (((hexact _).1 _).mp hbegins).2, (hexact _).2.mp hempty,
    fun hrewrites => ?_⟩
  rw [(hexact _).2.mpr hrewrites] at hnonempty
  cases hnonempty

end Grammar

end LRWorkbench
