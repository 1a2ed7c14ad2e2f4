import LRWorkbench.Proofs.Prepared.Draft
import LRWorkbench.Proofs.Prepared.Meaning
import LRWorkbench.Proofs.Prepared.WellFormed

/-!
# Flattening keeps what rules mean

The productions of a helper are settled as soon as it is finished (`Flatten.Settles`), and what they
stand for in the prepared grammar is found by following the rule
(`Flatten.Flattens.readings`). The productions of a phrase kind stand for what its rule does
(`Grammar.language_of_prepare`).
-/

namespace LRWorkbench

open scoped Computability

namespace Flatten

open Draft

variable {s : Source} {ctx : Context} {owner : Nat} {d d' : Draft}

/-! ### What a prepared grammar settles -/

variable {g : PreparedGrammar}

/-- Whether a prepared grammar has all of a draft, and nothing more for the phrase kinds of the draft
from a place on. -/
structure Settles (g : PreparedGrammar) (start : Nat) (d : Draft) : Prop where
  kinds : d.nonTerminals.toList <+: g.nonTerminals.toList
  fields : d.fieldNames <+: g.fieldNames
  kept : ∀ p ∈ d.productions, p ∈ g.productions
  settled : ∀ p ∈ g.productions, start ≤ p.lhs → p.lhs < d.nonTerminals.size → p ∈ d.productions

/-- What a later draft settles is settled before, apart from what got productions in between. -/
theorem Settles.before {names : List String} {owners : List Nat} {start start' : Nat}
    (h : Settles g start d') (hgrows : Grows names owners d d') (hstart : start ≤ start')
    (howners : ∀ o ∈ owners, o < start') : Settles g start' d where
  kinds := hgrows.kinds.trans h.kinds
  fields := by
    have hfields := h.fields
    rw [hgrows.fields] at hfields
    exact (prefix_foldl_addName ..).trans hfields
  kept := fun p hp => h.kept p (hgrows.kept p hp)
  settled := by
    intro p hp hlo hlt
    have hle := hgrows.size_le
    rcases hgrows.fresh p (h.settled p hp (by omega) (by omega)) with hp | hp | hp
    · exact hp
    · omega
    · exact absurd (howners _ hp) (by omega)

theorem Settles.getElem?_eq {start : Nat} (h : Settles g start d) {i : Nat}
    (hi : i < d.nonTerminals.size) : g.nonTerminals[i]? = d.nonTerminals[i]? := by
  rw [← Array.getElem?_toList, ← Array.getElem?_toList]
  obtain ⟨rest, hrest⟩ := h.kinds
  rw [← hrest, List.getElem?_append_left (by simpa using hi)]

/-- What is known of the symbols of a prepared grammar. -/
structure Prepares (s : Source) (g : PreparedGrammar) : Prop where
  terminals : g.terminals.size = s.terminalCount
  numbered : s.terminals.vocabulary.Numbered s.grammar.externals.length
  phrases : ∀ kind < s.phraseRules.length, g.nonTerminals[kind]?.bind (·.parent) = none
  parent_lt : ∀ (i : Nat) (kind : NonTerminal) (parent : Nat), g.nonTerminals[i]? = some kind →
    kind.parent = some parent → parent < i

namespace Prepares

variable {kind : Nat}

/-- Parents come first, so that there are never more steps to the owner than the place says. -/
theorem ownerOf_eq (h : Prepares s g) {steps i : Nat} (hi : i ≤ steps) :
    ownerOf g.nonTerminals steps i = g.conflictOwner i := by
  rw [PreparedGrammar.conflictOwner]
  induction i using Nat.strongRecOn generalizing steps with
  | _ i ih =>
    cases hparent : g.nonTerminals[i]?.bind (·.parent) with
    | none => cases steps <;> cases i <;> simp [ownerOf, hparent]
    | some parent =>
      obtain ⟨k, hk, hkparent⟩ := Option.bind_eq_some_iff.mp hparent
      have hlt := h.parent_lt i k parent hk hkparent
      obtain ⟨i, rfl⟩ := Nat.exists_eq_succ_of_ne_zero (Nat.ne_zero_of_lt hlt)
      obtain ⟨steps, rfl⟩ := Nat.exists_eq_succ_of_ne_zero (Nat.ne_zero_of_lt hi)
      simp only [ownerOf, hparent]
      rw [ih parent hlt (show parent ≤ steps by omega), ih parent hlt (show parent ≤ i by omega)]

/-- A helper has the owner of what it was made for. -/
theorem conflictOwner_of_parent (h : Prepares s g) {i parent : Nat} {k : NonTerminal}
    (hk : g.nonTerminals[i]? = some k) (hparent : k.parent = some parent) :
    g.conflictOwner i = g.conflictOwner parent := by
  have hlt := h.parent_lt i k parent hk hparent
  have hbind : g.nonTerminals[i]?.bind (·.parent) = some parent := by rw [hk]; exact hparent
  obtain ⟨i, rfl⟩ := Nat.exists_eq_succ_of_ne_zero (Nat.ne_zero_of_lt hlt)
  rw [PreparedGrammar.conflictOwner, ownerOf, hbind]
  exact h.ownerOf_eq (Nat.le_of_lt_succ hlt)

/-- Terminals are no helpers. -/
theorem helperOf?_eq_none (h : Prepares s g) {step : Step}
    (hstep : s.terminals.vocabulary.HasToken step.symbol) : g.helperOf? kind step = none := by
  have hlt : step.symbol.index < g.terminals.size := by
    rw [h.terminals]
    exact hstep.2
  rw [PreparedGrammar.helperOf?, PreparedGrammar.nonTerminalIndex?, if_pos hlt, Option.filter_none]

/-- What a name stands for is no helper. -/
theorem helperOf?_of_symbolOf? (h : Prepares s g) {name : String} {symbol : Symbol}
    (hsymbol : s.symbolOf? name = some symbol) : g.helperOf? kind (ctx.step symbol) = none := by
  rw [Source.symbolOf?] at hsymbol
  split at hsymbol
  · rename_i external hexternal
    obtain rfl := Option.some.inj hsymbol
    refine h.helperOf?_eq_none ⟨fun heq => Nat.succ_ne_zero _ (congrArg Symbol.index heq), ?_⟩
    obtain ⟨hlt, -⟩ := List.findIdx?_eq_some_iff_getElem.mp hexternal
    exact Nat.lt_of_le_of_lt hlt h.numbered.external
  split at hsymbol
  · cases hsymbol
  split at hsymbol
  · rename_i terminal hterminal
    obtain rfl := Option.some.inj hsymbol
    exact h.helperOf?_eq_none (h.numbered.hasToken_of_terminalOf? hterminal)
  · obtain ⟨place, hplace, rfl⟩ := Option.map_eq_some_iff.mp hsymbol
    obtain ⟨hlt, -⟩ := List.findIdx?_eq_some_iff_getElem.mp hplace
    have hindex : g.nonTerminalIndex? (s.nonTerminalSymbol place) = some place := by
      rw [PreparedGrammar.nonTerminalIndex?, Source.nonTerminalSymbol, h.terminals]
      simp
    simp [PreparedGrammar.helperOf?, Context.step, hindex, h.phrases place hlt]

/-- The step of a helper stands for it. -/
theorem helperOf?_helperStep (h : Prepares s g) {helper parent : Nat} {k : NonTerminal}
    (hk : g.nonTerminals[helper]? = some k) (hparent : k.parent = some parent)
    (hroot : g.conflictOwner parent = kind) :
    g.helperOf? kind (ctx.helperStep (s.nonTerminalSymbol helper)) = some helper := by
  have hindex : g.nonTerminalIndex? (s.nonTerminalSymbol helper) = some helper := by
    rw [PreparedGrammar.nonTerminalIndex?, Source.nonTerminalSymbol, h.terminals]
    simp
  simp [PreparedGrammar.helperOf?, Context.helperStep, hindex, hk, hparent,
    h.conflictOwner_of_parent hk hparent, hroot]

end Prepares

/-! ### What alternatives stand for -/

section Meaning

variable {kind : Nat}

theorem readings_of_standsFor (hs : Prepares s g) {r : Rule} {symbol : Symbol}
    (hsymbol : StandsFor s r symbol) :
    g.readings kind [.single (ctx.step symbol)] = atom ctx (s.inlineSymbol? r) := by
  rw [Source.inlineSymbol?, hsymbol]
  exact PreparedGrammar.readings_kept
    (hs.helperOf?_eq_none (hs.numbered.hasToken_of_inlineTerminal? hsymbol))

/-- What the content of a repetition settles. -/
theorem Settles.content {members : List Alternative}
    (hg : Settles g d.nonTerminals.size (d'.addRepetitions d.nonTerminals.size (again s ctx d.nonTerminals.size) members)) :
    Settles g (d.addHelper owner).nonTerminals.size d' := by
  refine hg.before (grows_addRepetitions ..) (by rw [size_addHelper]; omega) fun o ho => ?_
  rw [List.mem_singleton.mp ho, size_addHelper]
  omega

/-- A helper was made for the phrase kind that it stands in. -/
theorem Settles.exists_helper {start : Nat} {names : List String} (hg : Settles g start d')
    (hgrows : Grows names [] (d.addHelper owner) d') :
    ∃ helper, g.nonTerminals[d.nonTerminals.size]? = some helper ∧ helper.parent = some owner := by
  have hle := hgrows.size_le
  rw [size_addHelper] at hle
  rw [hg.getElem?_eq (by omega), hgrows.getElem?_eq (by rw [size_addHelper]; omega), addHelper,
    Array.getElem?_push_size]
  exact ⟨_, rfl, rfl⟩

/-- A helper belongs to the rule that it was made for. -/
theorem Settles.conflictOwner_helper {names : List String}
    (hg : Settles g (d.addHelper owner).nonTerminals.size d') (hs : Prepares s g)
    (hgrows : Grows names [] (d.addHelper owner) d') :
    g.conflictOwner d.nonTerminals.size = g.conflictOwner owner := by
  obtain ⟨_, hhelper, hparent⟩ := hg.exists_helper hgrows
  exact hs.conflictOwner_of_parent hhelper hparent

/-- The name of a field has the place in a prepared grammar that it was given when it was added. -/
theorem Settles.ofIndex_idxOf {start : Nat} {name : String}
    (hg : Settles g start (d.addField name).1) :
    FieldId.ofIndex (g.fieldNames.idxOf name) = (d.addField name).2 := by
  obtain ⟨hnames, hfield⟩ := addField_spec d name
  obtain ⟨more, hmore⟩ := hg.fields
  rw [← hmore, hnames, List.idxOf_append_of_mem (mem_addName d.fieldNames name), hfield]

/-- The alternative for a repetition stands for a Kleene plus of what its content stands for. -/
theorem readings_of_finishHelper (hs : Prepares s g) (hd : d.Closed)
    (hroot : g.conflictOwner owner = kind) {names : List String} {members : List Alternative}
    (hgrows : Grows names [] (d.addHelper owner) d')
    (hg : Settles g d.nonTerminals.size (d'.addRepetitions d.nonTerminals.size (again s ctx d.nonTerminals.size) members)) :
    g.readings kind [again s ctx d.nonTerminals.size] =
      g.readings kind members * (g.readings kind members)∗ := by
  have hle := hgrows.size_le
  rw [size_addHelper] at hle
  have hkinds := (addRepetitions_eq d' d.nonTerminals.size
    (again s ctx d.nonTerminals.size) members).1
  have hcontent : Settles g (d.addHelper owner).nonTerminals.size d' := hg.content
  obtain ⟨helper, hhelper, hparent⟩ := hcontent.exists_helper hgrows
  have hstep : g.helperOf? kind (ctx.helperStep (s.nonTerminalSymbol d.nonTerminals.size)) =
    some d.nonTerminals.size := hs.helperOf?_helperStep hhelper hparent hroot
  rw [PreparedGrammar.readings_helper hstep]
  refine PreparedGrammar.unfolding_helper (fun steps => ?_) hstep
  constructor
  · rintro ⟨p, hp, hlhs, rfl⟩
    have hmem := hg.settled p hp (Nat.le_of_eq hlhs.symm)
      (by rw [hkinds]; omega)
    rcases mem_addRepetitions.mp hmem with hold | ⟨a, ha, rfl | ⟨hne, rfl⟩⟩
    · -- before, there was no production of the helper
      rcases hgrows.fresh p hold with hold | hold | hold
      · exact absurd (hd.lhs_lt p hold) (by omega)
      · rw [size_addHelper] at hold
        omega
      · cases hold
    · exact ⟨a, ha, .inl rfl⟩
    · exact ⟨a, ha, .inr ⟨hne, PreparedGrammar.steps_append ..⟩⟩
  · rintro ⟨a, ha, rfl | ⟨hne, rfl⟩⟩
    · exact ⟨_, hg.kept _ (mem_addRepetitions.mpr (.inr ⟨a, ha, .inl rfl⟩)), rfl, rfl⟩
    · exact ⟨_, hg.kept _ (mem_addRepetitions.mpr (.inr ⟨a, ha, .inr ⟨hne, rfl⟩⟩)), rfl,
        PreparedGrammar.steps_append ..⟩

/-- What a piece does. -/
def Piece.meaning (s : Source) (g : PreparedGrammar) (kind : Nat) (ctx : Context) :
    Piece → StepLanguage
  | rule r => Flatten.meaning s g.fieldNames ctx r
  | sequence front rs => g.readings kind front * meaningOfSeq s g.fieldNames ctx rs
  | choice rs => meaningOfChoice s g.fieldNames ctx rs

/-- **Flattening keeps meaning.** The alternatives of a rule stand for what the rule does. -/
theorem Flattens.readings (hs : Prepares s g) {piece : Piece} {made : List Alternative}
    (hmade : Flattens s ctx owner d piece made d') (hd : d.Closed)
    (howner : owner < d.nonTerminals.size) (hroot : g.conflictOwner owner = kind)
    (hg : Settles g d.nonTerminals.size d') :
    g.readings kind made = piece.meaning s g kind ctx := by
  have hnone {n : Nat} : ∀ o ∈ ([] : List Nat), o < n := fun o ho => absurd ho List.not_mem_nil
  induction hmade with
  | blank =>
    rw [Piece.meaning, meaning]
    exact PreparedGrammar.readings_nothing
  | literal hsymbol | pattern hsymbol | token hsymbol =>
    rw [Piece.meaning, meaning]
    exact readings_of_standsFor hs hsymbol
  | reference hsymbol =>
    rw [Piece.meaning, meaning, hsymbol]
    exact PreparedGrammar.readings_kept (hs.helperOf?_of_symbolOf? hsymbol)
  | seq _ ih =>
    rw [ih hd howner hroot hg, Piece.meaning, Piece.meaning, meaning,
      PreparedGrammar.readings_nothing, one_mul]
  | choice _ ih =>
    rw [ih hd howner hroot hg, Piece.meaning, Piece.meaning, meaning]
  | zeroOrMore _ hcontent ih =>
    -- The helper is a new non-terminal of its own, and its conflicts count as those of the owner.
    have hgrows := hcontent.grows (lt_size_addHelper ..)
    have howns := (Settles.conflictOwner_helper hg.content hs hgrows).trans hroot
    have hmembers :=
      ih ((grows_addHelper howner).closed hd hnone) (lt_size_addHelper ..) howns hg.content
    rw [PreparedGrammar.readings_cons, PreparedGrammar.readings_nothing,
      readings_of_finishHelper hs hd hroot hgrows hg, hmembers, Piece.meaning, Piece.meaning,
      meaning, add_comm, one_add_mul_kstar]
  | oneOrMore _ hcontent ih =>
    have hgrows := hcontent.grows (lt_size_addHelper ..)
    have howns := (Settles.conflictOwner_helper hg.content hs hgrows).trans hroot
    have hmembers :=
      ih ((grows_addHelper howner).closed hd hnone) (lt_size_addHelper ..) howns hg.content
    rw [readings_of_finishHelper hs hd hroot hgrows hg, hmembers, Piece.meaning, Piece.meaning,
      meaning]
  | field hcontent ih =>
    -- What is flattened under the field adds fields behind it, so it keeps its number.
    have hbefore := hg.before (hcontent.grows (lt_size_addField howner)) le_rfl hnone
    rw [ih ((grows_addField ..).closed hd hnone) (lt_size_addField howner) hroot
        (hg.before .refl (grows_addField ..).size_le hnone), Piece.meaning, Piece.meaning, meaning,
      hbefore.ofIndex_idxOf]
  | prec _ ih =>
    rw [ih hd howner hroot hg, Piece.meaning, Piece.meaning, meaning]
  | done => rw [Piece.meaning, meaningOfSeq, mul_one]
  | next hfirst _ hrest ihfirst ihrest =>
    have hgrows := hfirst.grows howner
    have howner' := Nat.lt_of_lt_of_le howner hgrows.size_le
    rw [ihrest (hgrows.closed hd hnone) howner' hroot (hg.before .refl hgrows.size_le hnone),
      Piece.meaning, Piece.meaning, meaningOfSeq, PreparedGrammar.readings_product,
      ihfirst hd howner hroot (hg.before (hrest.grows howner') le_rfl hnone), Piece.meaning, mul_assoc]
  | never => rw [Piece.meaning, meaningOfChoice, PreparedGrammar.readings_nil]
  | either hfirst hrest ihfirst ihrest =>
    have hgrows := hfirst.grows howner
    have howner' := Nat.lt_of_lt_of_le howner hgrows.size_le
    rw [PreparedGrammar.readings_append,
      ihfirst hd howner hroot (hg.before (hrest.grows howner') le_rfl hnone),
      ihrest (hgrows.closed hd hnone) howner' hroot (hg.before .refl hgrows.size_le hnone),
      Piece.meaning, Piece.meaning, Piece.meaning, meaningOfChoice]

end Meaning

/-! ### All rules -/

/-- The kinds of rules own themselves. -/
theorem Prepares.conflictOwner_eq (h : Prepares s g) {kind : Nat}
    (hkind : kind < s.phraseRules.length) : g.conflictOwner kind = kind := by
  rw [PreparedGrammar.conflictOwner]
  cases kind with
  | zero => rfl
  | succ kind => rw [ownerOf, h.phrases _ hkind]

/-- A kind whose productions are those of some alternatives stands for what these do. -/
theorem language_eq_readings {members : List Alternative}
    (honly : ∀ p ∈ g.productions, p.lhs = kind →
      ∃ a ∈ members, p = ⟨kind, a.steps, a.precedence, a.assoc⟩)
    (hmade : ∀ a ∈ members, ⟨kind, a.steps, a.precedence, a.assoc⟩ ∈ g.productions) :
    g.language kind = g.readings kind members := by
  apply le_antisymm
  · rintro out ⟨p, hp, hlhs, hout⟩
    obtain ⟨a, ha, rfl⟩ := honly p hp hlhs
    exact ⟨a, ha, hout⟩
  · rintro out ⟨a, ha, hout⟩
    exact ⟨_, hmade a ha, rfl, hout⟩

/-- The productions of each phrase kind stand for what its rule does. -/
theorem language_of_addRules {rules : List (Nat × Rule)} (hs : Prepares s g) (hd : d.Closed)
    (hkinds : ∀ e ∈ rules, e.1 < s.phraseRules.length)
    (hsize : s.phraseRules.length ≤ d.nonTerminals.size) (hnodup : (rules.map (·.1)).Nodup)
    (hnone : ∀ p ∈ d.productions, p.lhs ∉ rules.map (·.1))
    (hadd : addRules s d rules = .ok d') (hg : Settles g 0 d') :
    ∀ e ∈ rules, g.language e.1 = meaning s g.fieldNames .outermost e.2 := by
  induction rules generalizing d with
  | nil => exact fun e he => absurd he List.not_mem_nil
  | cons entry rest ih =>
    obtain ⟨kind, r⟩ := entry
    rw [addRules] at hadd
    obtain ⟨⟨members, d₁⟩, hmembers, hadd⟩ := bind_eq_ok.mp hadd
    obtain ⟨d₂, hd₂⟩ : ∃ d₂, members.foldl (fun d a => d.addProduction kind a) d₁ = d₂ := ⟨_, rfl⟩
    dsimp only at hadd
    rw [hd₂] at hadd
    rw [List.map_cons, List.nodup_cons] at hnodup
    have hkind : kind < s.phraseRules.length := hkinds _ (List.mem_cons_self ..)
    have howner : kind < d.nonTerminals.size := by omega
    have hflat := flattens_of_alternatives r hmembers
    have hrule := hflat.grows howner
    have hown : Grows [] [kind] d₁ d₂ := hd₂ ▸ grows_foldl_addProduction d₁ kind members
    have hboth := hrule.trans hown
    have hkinds' : ∀ e ∈ rest, e.1 < s.phraseRules.length :=
      fun e he => hkinds e (List.mem_cons_of_mem _ he)
    have hsize' := hboth.size_le
    have hrest := grows_of_addRules (fun e he => by have := hkinds' e he; omega) hadd
    -- A rule makes productions for its own kind and for helpers, which are numbered behind all
    -- rules.
    have hmem : ∀ p ∈ d₂.productions, p.lhs < s.phraseRules.length →
        p ∈ d.productions ∨ ∃ a ∈ members, p = ⟨kind, a.steps, a.precedence, a.assoc⟩ := by
      intro p hp hlt
      rw [← hd₂] at hp
      rcases mem_foldl_addProduction.mp hp with hp | hp
      · rcases hrule.fresh p hp with hp | hp | hp
        · exact .inl hp
        · omega
        · cases hp
      · exact .inr hp
    intro e he
    rcases List.mem_cons.mp he with rfl | he
    · -- So the productions of the kind are those that were just made: earlier ones have other rules
      -- on the left, and later ones have other rules or helpers.
      have hreadings : g.language kind = g.readings kind members := by
        refine language_eq_readings (fun p hp hlhs => ?_) fun a ha => ?_
        · have hold := hg.settled p hp (Nat.zero_le _) (by have := hrest.size_le; omega)
          rcases hrest.fresh p hold with hold | hold | hold
          · refine (hmem p hold (by omega)).resolve_left fun hold => ?_
            exact absurd (hlhs ▸ List.mem_cons_self ..) (hnone p hold)
          · omega
          · exact absurd (hlhs ▸ hold) hnodup.1
        · refine hg.kept _ (hrest.kept _ ?_)
          rw [← hd₂]
          exact mem_foldl_addProduction.mpr (.inr ⟨a, ha, rfl⟩)
      rw [hreadings]
      refine hflat.readings hs hd howner (hs.conflictOwner_eq hkind) ?_
      refine hg.before (hown.trans hrest) (Nat.zero_le _) fun o ho => ?_
      rcases List.mem_cons.mp ho with rfl | ho
      · exact howner
      · obtain ⟨e, he, rfl⟩ := List.mem_map.mp ho
        have := hkinds' e he
        omega
    · refine ih (hboth.closed hd fun o ho => ?_) hkinds' (by omega) hnodup.2
        (fun p hp hlhs => ?_) hadd e he
      · rw [List.mem_singleton.mp ho]
        omega
      · obtain ⟨e, he, heq⟩ := List.mem_map.mp hlhs
        have hlt := hkinds' e he
        rcases hmem p hp (by omega) with hp | ⟨a, -, rfl⟩
        · exact hnone p hp (List.mem_cons_of_mem _ hlhs)
        · exact hnodup.1 hlhs

end Flatten

namespace Grammar

open Flatten

variable {g : Grammar} {prepared : PreparedGrammar}

/-- What is known of the symbols of a prepared grammar. -/
theorem prepares_of_kindedRules {s : Source} {d : Draft}
    (hadd : addRules s ⟨phraseKinds s, #[], .empty, []⟩ (s.grammar.kindedRules s.phraseRules) = .ok d)
    (hnumbered : s.terminals.vocabulary.Numbered s.grammar.externals.length)
    (hsame : prepared.terminals = s.terminals.vocabulary.terminals)
    (hkinds : prepared.nonTerminals = d.nonTerminals) : Prepares s prepared := by
  refine ⟨congrArg Array.size hsame, hnumbered, fun kind hkind => ?_,
    hkinds ▸ (closed_of_kindedRules hadd).parent_lt⟩
  rw [hkinds, (grows_of_kindedRules hadd).getElem?_eq (by rwa [size_phraseKinds]),
    getElem?_phraseKinds]
  cases s.phraseRules[kind]? <;> rfl

/-- **Flattening keeps the language of each rule.** Fields are numbered in the order their names
come first, and for each rule that is used and defines a phrase, the lists of steps that the
productions of its phrase kind unfold to are those that the rule stands for. -/
theorem language_of_prepare (h : g.prepare = .ok prepared) :
    ∃ terminals, g.terminals g.usedRules = .ok terminals ∧ prepared.fieldNames = g.fieldNames ∧
      ∀ i name r, i ∈ g.phraseRules g.usedRules → g.rules[i]? = some (name, r) →
        ∃ kind, Source.phraseKind? ⟨g, terminals, g.phraseRules g.usedRules⟩ i = some kind ∧
          prepared.nonTerminals[kind]?.map (·.name) = some name ∧
          prepared.language kind =
            meaning ⟨g, terminals, g.phraseRules g.usedRules⟩ g.fieldNames .outermost r := by
  obtain ⟨terminals, d, hterminals, hadd, hsame, hkinds, hproductions, hfields⟩ :=
    exists_of_prepare h
  obtain ⟨hnumbered, -⟩ := numbered_of_terminals hterminals
  have hgrows := grows_of_kindedRules hadd
  have hnames : prepared.fieldNames = g.fieldNames := by
    rw [hfields, hgrows.fields]
    exact fieldNames_kindedRules g
  refine ⟨terminals, hterminals, hnames, fun i name r hi hr => ?_⟩
  obtain ⟨kind, hkind⟩ := List.getElem?_of_mem hi
  have hlt : kind < (g.phraseRules g.usedRules).length := (List.getElem?_eq_some_iff.mp hkind).choose
  have hdistinct : (g.phraseRules g.usedRules).Nodup := List.nodup_range.filter _
  refine ⟨kind, findIdx?_eq_of_nodup hdistinct hkind, ?_, ?_⟩
  · rw [hkinds, hgrows.getElem?_eq (by rwa [size_phraseKinds]), getElem?_phraseKinds, hkind]
    simp [nameAt, hr]
  · rw [← hnames]
    refine language_of_addRules (prepares_of_kindedRules hadd hnumbered hsame hkinds)
      (closed_phraseKinds _) (fun e he => fst_lt_of_mem_kindedRules he)
      (Nat.le_of_eq (size_phraseKinds _).symm) (nodup_kindedRules _)
      (fun p hp => absurd hp (Array.not_mem_empty p)) hadd ?_ (kind, r)
      (mem_kindedRules.mpr ⟨i, name, hkind, hr⟩)
    exact ⟨hkinds ▸ List.prefix_rfl, hfields ▸ List.prefix_rfl, fun p hp => hproductions ▸ hp,
      fun p hp _ _ => hproductions ▸ hp⟩

/-- Lists of items, which are an `a` or a `b` with some `c`. -/
def lists : Grammar where
  name := "lists"
  rules := [("list", .field "item" (.zeroOrMore (.prec (some .left) 2
    (.choice [.literal "a", .seq [.literal "b", .oneOrMore (.literal "c")]]))))]
  extras := []
  conflicts := []
  externals := []
  word := none

/-- A step of an item, by the number of its terminal. -/
def listAtom (index : Nat) := atom ⟨some ⟨1⟩, 2, some .left⟩ (some ⟨index⟩)

/-- All steps of a list have the field and the level around the items, however deep in repetitions
they stand. -/
theorem language_of_lists : ∃ prepared, lists.prepare = .ok prepared ∧
    prepared.fieldNames = ["item"] ∧
    prepared.language 0 = (listAtom 1 + listAtom 2 * (listAtom 3 * (listAtom 3)∗))∗ := by
  have hprepares : lists.prepare.toOption.isSome = true := by decide +kernel
  obtain ⟨prepared, hprepared⟩ := Option.isSome_iff_exists.mp hprepares
  have hprepare := eq_ok_of_toOption hprepared
  obtain ⟨terminals, hterminals, hnames, hlanguage⟩ := language_of_prepare hprepare
  have hfields : lists.fieldNames = ["item"] := by decide +kernel
  have hrules : lists.phraseRules lists.usedRules = [0] := by decide +kernel
  have hsymbols : (lists.terminals lists.usedRules).toOption.map (fun t =>
      [Rule.literal "a", .literal "b", .literal "c"].map (Source.inlineSymbol? ⟨lists, t, [0]⟩)) =
        some [some ⟨1⟩, some ⟨2⟩, some ⟨3⟩] := by decide +kernel
  rw [hterminals] at hsymbols
  simp only [Except.toOption, Option.map_some, List.map_cons, List.map_nil, Option.some.injEq,
    List.cons.injEq, and_true] at hsymbols
  obtain ⟨ha, hb, hc⟩ := hsymbols
  rw [hrules, hfields] at hlanguage
  obtain ⟨kind, hkind, -, hmeaning⟩ := hlanguage 0 "list" _ (List.mem_singleton_self _) rfl
  obtain rfl : 0 = kind := Option.some.inj hkind
  refine ⟨prepared, hprepare, hnames.trans hfields, hmeaning.trans ?_⟩
  simp only [meaning, meaningOfChoice, meaningOfSeq, ha, hb, hc, add_zero, mul_one]
  rfl

end Grammar

end LRWorkbench
