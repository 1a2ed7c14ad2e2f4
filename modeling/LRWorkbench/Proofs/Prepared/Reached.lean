import LRWorkbench.Proofs.Graph.Reach
import LRWorkbench.Proofs.Prepared.Meaning
import LRWorkbench.Proofs.Prepared.Names

/-!
# Which phrase kinds the productions reach

Rules that nothing uses are dropped, so that each phrase kind should be **reached** from the start by
productions. Whether a rule is used is decided on the rules, though, and not on the productions that
are left of them: a sequence with a member that has no alternatives, such as a choice without members,
is left out, and with it what its other members refer to (`Grammar.not_reached_gaps`).

Without such sequences all is reached (`Grammar.reached_of_prepare`). What the alternatives of a rule
reach is closed under productions, so it has the helpers made for the rule and the phrase kinds that
the rule refers to (`Flatten.Flattens.reached`, by induction on the run of flattening); and a rule that is
used is the start rule or referred to by a phrase rule that is used, since tokens refer to nothing.
-/

namespace LRWorkbench

namespace Rule

mutual

/-- Whether a phrase has no alternatives, not even the empty one. -/
def vanishes : Rule → Bool
  | choice members => allVanish members
  | seq members => someVanishes members
  | field _ content | prec _ _ content => vanishes content
  | blank | literal _ | pattern _ _ | reference _ | token _ | zeroOrMore _ | oneOrMore _ => false

/-- Whether none of some phrases has alternatives. -/
def allVanish : List Rule → Bool
  | [] => true
  | r :: rs => vanishes r && allVanish rs

/-- Whether one of some phrases has no alternatives. -/
def someVanishes : List Rule → Bool
  | [] => false
  | r :: rs => vanishes r || someVanishes rs

end

mutual

/-- Whether all members of the sequences of a phrase have alternatives. -/
def isIntact : Rule → Bool
  | seq members => !someVanishes members && allIntact members
  | choice members => allIntact members
  | zeroOrMore content | oneOrMore content | field _ content | prec _ _ content => isIntact content
  | blank | literal _ | pattern _ _ | reference _ | token _ => true

/-- Whether all members of the sequences of some phrases have alternatives. -/
def allIntact : List Rule → Bool
  | [] => true
  | r :: rs => isIntact r && allIntact rs

end

theorem isLexical_of_literalBody? {text : String} (r : Rule) (h : r.literalBody? = some text) :
    r.isLexical = true := by
  induction r using Rule.rec (motive_2 := fun _ => True) with
  | literal => rfl
  | prec _ _ content ih => exact ih h
  | nil | cons => trivial
  | _ => cases h

end Rule

namespace Vocabulary

variable {g : Grammar} {defined : TokenDefinitions} {owner : String} {v v' : Vocabulary}

theorem references_of_addAnonymous {r : Rule} (h : v.addAnonymous r owner = .ok v') :
    r.references = [] := by
  dsimp only [addAnonymous] at h
  split at h
  case h_1 => cases h
  case h_2 hpattern => exact Rule.references_of_tokenPattern hpattern

theorem references_of_addInline {r : Rule} (h : addInline g defined v r owner = .ok v') :
    r.references = [] := by
  unfold addInline at h
  split at h
  · rfl
  · exact references_of_addAnonymous h

theorem references_of_inlineTerminal? {r : Rule} {s : Symbol}
    (h : inlineTerminal? g defined v r = some s) : r.references = [] := by
  unfold inlineTerminal? at h
  split at h
  · rfl
  · obtain ⟨definition, hpattern, -⟩ := Option.bind_eq_some_iff.mp h
    exact Rule.references_of_tokenPattern (eq_ok_of_toOption hpattern)

end Vocabulary

/-! ### Which rules are used -/

namespace Grammar

variable {g : Grammar} {terminals : Terminals}

theorem isLexicalAt_of_textRule? {text : String} {i : Nat} (h : g.textRule? text = some i) :
    g.isLexicalAt i = true := by
  obtain ⟨hlt, htext, -⟩ := List.findIdx?_eq_some_iff_getElem.mp h
  rw [isLexicalAt, List.getElem?_eq_getElem hlt]
  exact Rule.isLexical_of_literalBody? _ (of_decide_eq_true htext)

theorem uses_eq_nil_of_le {i : Nat} (h : g.rules.length ≤ i) : g.uses i = [] := by
  rw [uses, List.getElem?_eq_none h]

theorem mem_usedRules_of_mem_uses {i j : Nat} (hi : i ∈ g.usedRules) (hj : j ∈ g.uses i) :
    j ∈ g.usedRules :=
  Graph.mem_reachFrom_of_step (fun _ => uses_eq_nil_of_le) hi hj

theorem mem_usedRules_of_reference {i : Nat} (hi : i ∈ g.usedRules) {owner : String} {r : Rule}
    (hrule : g.rules[i]? = some (owner, r)) {name : String} (hname : name ∈ r.references) {j : Nat}
    (hj : g.ruleIndex? name = some j) : j ∈ g.usedRules := by
  refine mem_usedRules_of_mem_uses hi ?_
  rw [uses, hrule]
  exact List.mem_append_left _ (List.mem_filterMap.mpr ⟨name, hname, hj⟩)

theorem mem_usedRules_of_text {i : Nat} (hi : i ∈ g.usedRules) {owner : String} {r : Rule}
    (hrule : g.rules[i]? = some (owner, r)) (hphrase : r.isLexical = false) {text : String}
    (htext : text ∈ r.inlineTexts) {j : Nat} (hj : g.textRule? text = some j) :
    j ∈ g.usedRules := by
  refine mem_usedRules_of_mem_uses hi ?_
  rw [uses, hrule]
  dsimp only
  rw [hphrase]
  exact List.mem_append_right _ (List.mem_filterMap.mpr ⟨text, htext, hj⟩)

/-- Token rules that are used refer to nothing. -/
theorem uses_of_isLexicalAt (h : g.terminals g.usedRules = .ok terminals) {i : Nat}
    (hi : i ∈ g.usedRules) (hlexical : g.isLexicalAt i = true) : g.uses i = [] := by
  cases hrule : g.rules[i]? with
  | none => rw [uses, hrule]
  | some entry =>
    obtain ⟨name, r⟩ := entry
    have hr : r.isLexical = true := by rwa [isLexicalAt, hrule] at hlexical
    have hplace : i ∈ g.tokenRules g.usedRules := by
      refine List.mem_filter.mpr ⟨List.mem_range.mpr ?_, by simp [hi, hlexical]⟩
      exact (List.getElem?_eq_some_iff.mp hrule).choose
    obtain ⟨_, _, definition, hrule', -, hdefinition⟩ :=
      (fit_of_defineTokens (keeps_terminals h).1).exists_lookup hplace
    obtain ⟨rfl, rfl⟩ := Prod.mk.inj (Option.some.inj (hrule.symm.trans hrule'))
    simp [uses, hrule, hr, Rule.references_of_tokenPattern hdefinition]

/-- What the extras of a grammar refer to are tokens. -/
theorem isLexicalAt_of_addExtras {defined : TokenDefinitions} {v v' : Vocabulary}
    {found found' : List Symbol} {extras : List Rule}
    (h : Vocabulary.addExtras g defined v found extras = .ok (v', found'))
    (hnames : ∀ name, (g.ruleIndex? name).isSome → g.externalIndex? name = none) {extra : Rule}
    (hextra : extra ∈ extras) {name : String} (hname : name ∈ extra.references) {i : Nat}
    (hi : g.ruleIndex? name = some i) : g.isLexicalAt i = true := by
  induction extras generalizing v found with
  | nil => cases hextra
  | cons first rest ih =>
    rw [Vocabulary.addExtras_cons] at h
    obtain ⟨made, hmade, h⟩ := bind_eq_ok.mp h
    rcases List.mem_cons.mp hextra with rfl | hextra
    · cases hextra : extra with
      | reference other =>
        subst hextra
        obtain rfl := List.mem_singleton.mp hname
        rw [Vocabulary.addExtra, hnames name (hi ▸ rfl), hi] at hmade
        dsimp only at hmade
        split at hmade
        · assumption
        · cases hmade
      | _ =>
        rw [Vocabulary.addExtra_of_inline (by simp [hextra])] at hmade
        obtain ⟨v, hinline, -⟩ := bind_eq_ok.mp hmade
        rw [Vocabulary.references_of_addInline hinline] at hname
        cases hname
    · exact ih h hextra

/-- No rule has the name of an external token. -/
theorem externalIndex?_of_ruleIndex? (h : g.checkNames = .ok ()) {name : String} {i : Nat}
    (hi : g.ruleIndex? name = some i) : g.externalIndex? name = none := by
  refine List.findIdx?_eq_none_iff.mpr fun other hother => decide_eq_false ?_
  rintro rfl
  obtain ⟨hlt, hname, -⟩ := List.findIdx?_eq_some_iff_getElem.mp hi
  have hrule : other ∈ g.rules.map (·.1) :=
    List.mem_map.mpr ⟨_, List.getElem_mem hlt, of_decide_eq_true hname⟩
  exact (List.nodup_append.mp (nodup_names h)).2.2 other hother other hrule rfl

/-- Of the rules that are used whatever the rules say only the first may be a phrase rule. -/
theorem eq_zero_or_isLexicalAt_of_mem_rootRules (hnamed : g.checkNames = .ok ())
    (hterminals : g.terminals g.usedRules = .ok terminals) {i : Nat} (hi : i ∈ g.rootRules) :
    i = 0 ∨ g.isLexicalAt i = true := by
  rw [rootRules, List.cons_append, List.mem_cons, List.mem_append, List.mem_flatMap] at hi
  obtain rfl | ⟨extra, hextra, hi⟩ | hi := hi
  · exact .inl rfl
  · right
    rcases List.mem_append.mp hi with hi | hi
    · obtain ⟨name, hname, hi⟩ := List.mem_filterMap.mp hi
      obtain ⟨defined, -, h⟩ := bind_eq_ok.mp hterminals
      obtain ⟨v, -, h⟩ := bind_eq_ok.mp h
      obtain ⟨made, hmade, -⟩ := bind_eq_ok.mp h
      refine isLexicalAt_of_addExtras hmade (fun name hname => ?_) hextra hname hi
      obtain ⟨j, hj⟩ := Option.isSome_iff_exists.mp hname
      exact externalIndex?_of_ruleIndex? hnamed hj
    · split at hi
      · exact isLexicalAt_of_textRule? (Option.mem_toList.mp hi)
      · cases hi
  · right
    obtain ⟨name, hname, hi⟩ := Option.bind_eq_some_iff.mp (Option.mem_toList.mp hi)
    obtain ⟨j, hj, hlexical⟩ :=
      (checkNames_eq_ok.mp hnamed).word name (Option.mem_toList.mpr hname)
    rwa [Option.some.inj (hi.symm.trans hj)]

/-- A phrase rule that a used rule needs is referred to by it, and that one is a phrase rule too. -/
theorem exists_reference_of_mem_uses (hterminals : g.terminals g.usedRules = .ok terminals) {i j : Nat}
    (hi : i ∈ g.usedRules) (hj : j ∈ g.uses i) (hphrase : g.isLexicalAt j = false) :
    i ∈ g.phraseRules g.usedRules ∧ ∃ name r, g.rules[i]? = some (name, r) ∧
      ∃ other ∈ r.references, g.ruleIndex? other = some j := by
  have hlexical : g.isLexicalAt i = false := by
    refine Bool.eq_false_iff.mpr fun hlexical => ?_
    rw [uses_of_isLexicalAt hterminals hi hlexical] at hj
    cases hj
  rw [uses] at hj
  split at hj
  · cases hj
  rename_i name r hrule
  refine ⟨List.mem_filter.mpr ⟨List.mem_range.mpr ?_, by simp [hi, hlexical]⟩, name, r, hrule, ?_⟩
  · exact (List.getElem?_eq_some_iff.mp hrule).choose
  rcases List.mem_append.mp hj with hj | hj
  · obtain ⟨other, hother, hj⟩ := List.mem_filterMap.mp hj
    exact ⟨other, hother, hj⟩
  · -- what is looked up by its text is a token
    split at hj
    · cases hj
    · obtain ⟨text, -, hj⟩ := List.mem_filterMap.mp hj
      rw [isLexicalAt_of_textRule? hj] at hphrase
      cases hphrase

/-- A phrase rule that is used is the first one or referred to by another one that is used: what
passes from such rules to those they refer to holds of all of them, once it holds of the first. -/
theorem forall_phraseRules {P : Nat → Prop} (hnamed : g.checkNames = .ok ())
    (hterminals : g.terminals g.usedRules = .ok terminals) (hstart : P 0)
    (hstep : ∀ i ∈ g.phraseRules g.usedRules, P i → ∀ name r, g.rules[i]? = some (name, r) →
      ∀ other ∈ r.references, ∀ j ∈ g.phraseRules g.usedRules, g.ruleIndex? other = some j → P j) :
    ∀ i ∈ g.phraseRules g.usedRules, P i := by
  have hall : ∀ i ∈ g.usedRules, i ∈ g.usedRules ∧ (i ∈ g.phraseRules g.usedRules → P i) := by
    refine Graph.forall_mem_reachFrom
      (fun i hi j hj => ⟨mem_usedRules_of_mem_uses hi.1 hj, fun hphrase => ?_⟩)
      fun i hi => ⟨Graph.mem_reachFrom_of_root hi, fun hphrase => ?_⟩
    · obtain ⟨-, -, -, hlexical⟩ := exists_of_mem_phraseRules hphrase
      obtain ⟨hplace, name, r, hrule, other, hother, hplace'⟩ :=
        exists_reference_of_mem_uses hterminals hi.1 hj hlexical
      exact hstep i hplace (hi.2 hplace) name r hrule other hother j hphrase hplace'
    · obtain ⟨-, -, -, hlexical⟩ := exists_of_mem_phraseRules hphrase
      obtain rfl | htoken := eq_zero_or_isLexicalAt_of_mem_rootRules hnamed hterminals hi
      · exact hstart
      · rw [htoken] at hlexical
        cases hlexical
  intro i hi
  exact (hall i (by simpa using (Bool.and_eq_true_iff.mp (List.mem_filter.mp hi).2).1)).2 hi

end Grammar

/-! ### What alternatives reach -/

namespace PreparedGrammar

/-- Whether productions lead from the start to a phrase kind. -/
inductive Reached (g : PreparedGrammar) : Nat → Prop where
  | start : Reached g 0
  | step {rule : Production} {step : Step} {kind : Nat} (from_ : Reached g rule.lhs)
      (production : rule ∈ g.productions) (member : step ∈ rule.steps)
      (symbol : step.symbol = g.nonTerminalSymbol kind) : Reached g kind

end PreparedGrammar

namespace Flatten

open Draft

variable {s : Source} {owner : Nat} {d d' : Draft} {R : Nat → Prop}

/-- Whether the phrase kinds among the steps of an alternative are in a set. -/
def Alternative.StaysIn (a : Alternative) (s : Source) (R : Nat → Prop) : Prop :=
  ∀ step ∈ a.steps, ∀ kind, step.symbol = s.nonTerminalSymbol kind → R kind

/-- Whether a set of phrase kinds has those in the productions of its members. -/
def Draft.Leads (d : Draft) (s : Source) (R : Nat → Prop) : Prop :=
  ∀ p ∈ d.productions, R p.lhs → ∀ step ∈ p.steps, ∀ kind,
    step.symbol = s.nonTerminalSymbol kind → R kind

/-- Whether a set has the phrase kinds that a rule refers to. -/
def Source.RefersIn (s : Source) (R : Nat → Prop) (names : List String) : Prop :=
  ∀ name ∈ names, ∀ kind, s.symbolOf? name = some (s.nonTerminalSymbol kind) → R kind

theorem Draft.Leads.before {names : List String} {owners : List Nat} (h : d'.Leads s R)
    (hgrows : Grows names owners d d') : d.Leads s R := fun p hp => h p (hgrows.kept p hp)

theorem Alternative.staysIn_append {a b : Alternative} :
    (a.append b).StaysIn s R ↔ a.StaysIn s R ∧ b.StaysIn s R := by
  rw [StaysIn, PreparedGrammar.steps_append]
  simp only [List.mem_append, or_imp, forall_and]
  rfl

/-- What leads on from a set that has a helper leads on from the members that are repeated. -/
theorem Draft.Leads.repetition {helper : Nat} {again : Alternative} {members : List Alternative}
    (h : (d.addRepetitions helper again members).Leads s R) (hhelper : R helper) :
    d.Leads s R ∧ ∀ a ∈ members, a.StaysIn s R := by
  refine ⟨h.before (grows_addRepetitions ..), fun a ha => ?_⟩
  exact h _ (mem_addRepetitions.mpr (.inr ⟨a, ha, .inl rfl⟩)) hhelper

/-- The phrase kinds that there are in one draft and not in another. -/
def Draft.NewIn (d d' : Draft) (R : Nat → Prop) : Prop :=
  ∀ helper, d.nonTerminals.size ≤ helper → helper < d'.nonTerminals.size → R helper

theorem Draft.NewIn.refl (d : Draft) : d.NewIn d R := fun _ hge hlt => absurd hlt (Nat.not_lt.mpr hge)

theorem Draft.NewIn.trans {d'' : Draft} (h : d.NewIn d' R) (h' : d'.NewIn d'' R) : d.NewIn d'' R := by
  intro helper hge hlt
  by_cases hmid : helper < d'.nonTerminals.size
  · exact h helper hge hmid
  · exact h' helper (Nat.le_of_not_lt hmid) hlt

/-- Alternatives of a sequence are left out only with all those of one of its parts. -/
theorem product_ne_nil {front following : List Alternative} (hfront : front ≠ [])
    (hfollowing : following ≠ []) :
    (front.flatMap fun a => following.map fun b => a.append b) ≠ [] := by
  intro hnil
  obtain ⟨a, ha⟩ := List.exists_mem_of_ne_nil _ hfront
  exact hfollowing (List.map_eq_nil_iff.mp (List.flatMap_eq_nil_iff.mp hnil a ha))

namespace Piece

/-- Whether what is flattened has no alternatives. -/
def Vanishes : Piece → Prop
  | rule r => r.vanishes = true
  | sequence front rs => front = [] ∨ Rule.someVanishes rs = true
  | choice rs => Rule.allVanish rs = true

/-- Whether all parts of the sequences in what is flattened have alternatives. -/
def Intact : Piece → Prop
  | rule r => r.isIntact = true
  | sequence front rs =>
    ¬(sequence front rs).Vanishes ∧ Rule.allIntact rs = true
  | choice rs => Rule.allIntact rs = true

/-- The names that what is flattened refers to. -/
def references : Piece → List String
  | rule r => r.references
  | sequence _ rs | choice rs => Rule.referencesOf rs

end Piece

namespace Flattens

variable {ctx : Context} {piece : Piece} {made : List Alternative}

/-- What does not vanish has alternatives. -/
theorem ne_nil (hmade : Flattens s ctx owner d piece made d') (h : ¬piece.Vanishes) : made ≠ [] := by
  induction hmade with
  | blank | literal | pattern | token | reference | zeroOrMore | oneOrMore =>
    exact List.cons_ne_nil _ _
  | seq _ ih =>
    refine ih fun hvanishes => h ?_
    rw [Piece.Vanishes, Rule.vanishes]
    exact hvanishes.resolve_left (List.cons_ne_nil _ _)
  | choice _ ih | field _ ih | prec _ ih =>
    refine ih fun hvanishes => h ?_
    rw [Piece.Vanishes, Rule.vanishes]
    exact hvanishes
  | done => exact fun hnil => h (.inl hnil)
  | next _ _ _ ihfirst ihrest =>
    have hfirst := ihfirst fun hvanishes => h (.inr (by rw [Rule.someVanishes, hvanishes, Bool.true_or]))
    refine ihrest fun hvanishes => ?_
    rcases hvanishes with hnil | hsome
    · exact product_ne_nil (fun hfront => h (.inl hfront)) hfirst hnil
    · exact h (.inr (by rw [Rule.someVanishes, hsome, Bool.or_true]))
  | never => exact fun _ => h rfl
  | either _ _ ihfirst ihrest =>
    intro hnil
    obtain ⟨hfirst, hrest⟩ := List.append_eq_nil_iff.mp hnil
    refine h ?_
    rw [Piece.Vanishes, Rule.allVanish, Bool.and_eq_true]
    exact ⟨by_contra fun hnot => ihfirst hnot hfirst, by_contra fun hnot => ihrest hnot hrest⟩

/-- A set that has what is in the alternatives of what is flattened, and in the productions of its
members, has the helpers made on the way and the phrase kinds that are referred to. -/
theorem reached (hmade : Flattens s ctx owner d piece made d') (howner : owner < d.nonTerminals.size)
    (hintact : piece.Intact) (hleads : d'.Leads s R) (hin : ∀ a ∈ made, a.StaysIn s R) :
    (∀ a ∈ piece.front, a.StaysIn s R) ∧ d.NewIn d' R ∧ s.RefersIn R piece.references := by
  induction hmade with
  | blank =>
    exact ⟨fun _ ha => absurd ha List.not_mem_nil, .refl _,
      fun _ hname => absurd hname List.not_mem_nil⟩
  | literal hsymbol | pattern hsymbol | token hsymbol =>
    rw [Piece.references, Vocabulary.references_of_inlineTerminal? hsymbol]
    exact ⟨fun _ ha => absurd ha List.not_mem_nil, .refl _,
      fun _ hname => absurd hname List.not_mem_nil⟩
  | reference hsymbol =>
    refine ⟨fun _ ha => absurd ha List.not_mem_nil, .refl _, fun other hother kind hkind => ?_⟩
    obtain rfl := List.mem_singleton.mp hother
    exact hin _ (List.mem_singleton_self _) _ (List.mem_singleton_self _) kind
      (Option.some.inj (hsymbol.symm.trans hkind))
  | seq _ ih =>
    rw [Piece.Intact, Rule.isIntact, Bool.and_eq_true, Bool.not_eq_true'] at hintact
    rw [Piece.references, Rule.references]
    refine ⟨fun _ ha => absurd ha List.not_mem_nil, (ih howner ⟨?_, hintact.2⟩ hleads hin).2⟩
    rintro (hnil | hsome)
    · exact List.cons_ne_nil _ _ hnil
    · rw [hintact.1] at hsome
      cases hsome
  | choice _ ih =>
    rw [Piece.Intact, Rule.isIntact] at hintact
    rw [Piece.references, Rule.references]
    exact ih howner hintact hleads hin
  | zeroOrMore _ _ ih | oneOrMore _ _ ih =>
    -- the helper is in the alternatives, and what is repeated in its productions
    have hhelper := hin _ (List.mem_cons_self ..) _ (List.mem_singleton_self _) _ rfl
    obtain ⟨hleads, hmembers⟩ := Draft.Leads.repetition hleads hhelper
    rw [Piece.Intact, Rule.isIntact] at hintact
    rw [Piece.references, Rule.references]
    obtain ⟨hfront, hnew, hrefers⟩ := ih (lt_size_addHelper ..) hintact hleads hmembers
    refine ⟨hfront, fun other hge hlt => ?_, hrefers⟩
    rw [(addRepetitions_eq ..).1] at hlt
    rcases Nat.eq_or_lt_of_le hge with rfl | hgt
    · exact hhelper
    · exact hnew other (by rwa [size_addHelper]) hlt
  | field _ ih =>
    rw [Piece.Intact, Rule.isIntact] at hintact
    rw [Piece.references, Rule.references]
    obtain ⟨hfront, hnew, hrefers⟩ := ih (lt_size_addField howner) hintact hleads hin
    exact ⟨hfront, fun helper hge => hnew helper (by rwa [nonTerminals_addField]), hrefers⟩
  | prec _ ih =>
    rw [Piece.Intact, Rule.isIntact] at hintact
    rw [Piece.references, Rule.references]
    exact ih howner hintact hleads hin
  | done => exact ⟨hin, .refl _, fun _ hname => absurd hname List.not_mem_nil⟩
  | next hfirst _ hrest ihfirst ihrest =>
    obtain ⟨hpresent, hintact⟩ := hintact
    rw [Piece.Vanishes, Rule.someVanishes, Bool.or_eq_true, not_or, not_or] at hpresent
    rw [Rule.allIntact, Bool.and_eq_true] at hintact
    obtain ⟨hfront, hpresent, hothers⟩ := hpresent
    have howner' := Nat.lt_of_lt_of_le howner (hfirst.grows howner).size_le
    have hfollowing := hfirst.ne_nil hpresent
    have hproduct := product_ne_nil hfront hfollowing
    obtain ⟨hall, hnew, hrefers⟩ :=
      ihrest howner' ⟨not_or.mpr ⟨hproduct, hothers⟩, hintact.2⟩ hleads hin
    -- nothing of either part is lost, since the other part has alternatives
    have hparts := fun a ha b hb => Alternative.staysIn_append.mp
      (hall (a.append b) (List.mem_flatMap.mpr ⟨a, ha, List.mem_map_of_mem hb⟩))
    obtain ⟨a, ha⟩ := List.exists_mem_of_ne_nil _ hfront
    obtain ⟨b, hb⟩ := List.exists_mem_of_ne_nil _ hfollowing
    obtain ⟨-, hnew₁, hrefers₁⟩ := ihfirst howner hintact.1 (hleads.before (hrest.grows howner'))
      fun c hc => (hparts a ha c hc).2
    refine ⟨fun c hc => (hparts c hc b hb).1, hnew₁.trans hnew, fun name hname => ?_⟩
    rw [Piece.references, Rule.referencesOf] at hname
    exact (List.mem_append.mp hname).elim (hrefers₁ name) (hrefers name)
  | never =>
    exact ⟨fun _ ha => absurd ha List.not_mem_nil, .refl _,
      fun _ hname => absurd hname List.not_mem_nil⟩
  | either hfirst hrest ihfirst ihrest =>
    rw [Piece.Intact, Rule.allIntact, Bool.and_eq_true] at hintact
    have howner' := Nat.lt_of_lt_of_le howner (hfirst.grows howner).size_le
    obtain ⟨hallFirst, hallRest⟩ := List.forall_mem_append.mp hin
    obtain ⟨hfront, hnew₁, hrefers₁⟩ :=
      ihfirst howner hintact.1 (hleads.before (hrest.grows howner')) hallFirst
    obtain ⟨-, hnew, hrefers⟩ := ihrest howner' hintact.2 hleads hallRest
    refine ⟨hfront, hnew₁.trans hnew, fun name hname => ?_⟩
    rw [Piece.references, Rule.referencesOf] at hname
    exact (List.mem_append.mp hname).elim (hrefers₁ name) (hrefers name)

end Flattens

/-- What is reached from the productions of phrase rules: each rule in the set passes on to those that
it refers to, and if all are in the set all helpers are. -/
theorem reached_of_addRules {rules : List (Nat × Rule)}
    (hkinds : ∀ e ∈ rules, e.1 < d.nonTerminals.size)
    (hintact : ∀ e ∈ rules, e.2.isIntact = true) (hadd : addRules s d rules = .ok d')
    (hleads : d'.Leads s R) :
    (∀ e ∈ rules, R e.1 → s.RefersIn R e.2.references) ∧
      ((∀ e ∈ rules, R e.1) → d.NewIn d' R) := by
  induction rules generalizing d with
  | nil =>
    cases hadd
    exact ⟨fun _ he => absurd he List.not_mem_nil, fun _ => .refl _⟩
  | cons entry rest ih =>
    obtain ⟨kind, r⟩ := entry
    rw [addRules] at hadd
    obtain ⟨⟨members, d₁⟩, hmembers, hadd⟩ := bind_eq_ok.mp hadd
    have howner := hkinds _ (List.mem_cons_self ..)
    have hrule := flattens_of_alternatives r hmembers
    have hadded := grows_foldl_addProduction d₁ kind members
    have hkinds' := fun e he => Nat.lt_of_lt_of_le (hkinds e (List.mem_cons_of_mem _ he))
      (Nat.le_trans (hrule.grows howner).size_le hadded.size_le)
    have hgrows := grows_of_addRules hkinds' hadd
    obtain ⟨hrest, hnewRest⟩ :=
      ih hkinds' (fun e he => hintact e (List.mem_cons_of_mem _ he)) hadd
    have hfirst : R kind → d.NewIn d₁ R ∧ s.RefersIn R r.references := by
      intro hkind
      refine (hrule.reached howner (hintact _ (List.mem_cons_self ..))
        ((hleads.before hgrows).before hadded) fun a ha => ?_).2
      exact hleads.before hgrows _ (mem_foldl_addProduction.mpr (.inr ⟨a, ha, rfl⟩)) hkind
    refine ⟨fun e he hkind => ?_, fun hall => ?_⟩
    · rcases List.mem_cons.mp he with rfl | he
      · exact (hfirst hkind).2
      · exact hrest e he hkind
    · refine (hfirst (hall _ (List.mem_cons_self ..))).1.trans ?_
      have hnew := hnewRest fun e he => hall e (List.mem_cons_of_mem _ he)
      rwa [Draft.NewIn, (foldl_addProduction_eq ..).1] at hnew

end Flatten

namespace Grammar

open Flatten

variable {g : Grammar} {prepared : PreparedGrammar}

/-- Whether all members of the sequences in rules that are used have alternatives. -/
def Intact (g : Grammar) : Prop :=
  ∀ i ∈ g.usedRules, ∀ name r, g.rules[i]? = some (name, r) → r.isIntact = true

/-- The first phrase kind is that of the start rule. -/
theorem getElem?_phraseRules_zero (h : g.checkNames = .ok ()) :
    (g.phraseRules g.usedRules)[0]? = some 0 := by
  obtain ⟨start, hstart, hlexical⟩ := (checkNames_eq_ok.mp h).start
  cases hrules : g.rules with
  | nil => simp [hrules] at hstart
  | cons first rest =>
    obtain rfl : first = start := by simpa [hrules] using hstart
    have hused : 0 ∈ g.usedRules := Graph.mem_reachFrom_of_root (List.mem_cons_self ..)
    rw [phraseRules, hrules, List.length_cons, List.range_succ_eq_map, List.filter_cons_of_pos]
    · rfl
    · simpa [hused, isLexicalAt, hrules] using hlexical

/-- The symbol of a phrase rule that is used is that of its phrase kind. -/
theorem symbolOf?_of_mem_phraseRules {terminals : Terminals} (hnamed : g.checkNames = .ok ())
    (hterminals : g.terminals g.usedRules = .ok terminals) {name : String} {i kind : Nat}
    (hi : g.ruleIndex? name = some i) (hkind : (g.phraseRules g.usedRules)[kind]? = some i) :
    Source.symbolOf? ⟨g, terminals, g.phraseRules g.usedRules⟩ name =
      some (Source.nonTerminalSymbol ⟨g, terminals, g.phraseRules g.usedRules⟩ kind) := by
  obtain ⟨-, -, -, hlexical⟩ := exists_of_mem_phraseRules (List.mem_of_getElem? hkind)
  have hnone : terminals.vocabulary.terminalOf? i = none := by
    rw [Vocabulary.terminalOf?, List.lookup_eq_none_iff]
    intro entry hentry
    have hne : i ≠ entry.1 := by
      rintro rfl
      rw [(traced_of_terminals hterminals).lexical entry hentry] at hlexical
      cases hlexical
    exact bne_iff_ne.mpr hne
  have hplace : Source.phraseKind? ⟨g, terminals, g.phraseRules g.usedRules⟩ i = some kind :=
    findIdx?_eq_of_nodup (nodup_phraseRules g _) hkind
  simp only [Source.symbolOf?, externalIndex?_of_ruleIndex? hnamed hi, hi, hnone, hplace,
    Option.map_some]

/-- **Each phrase kind is reached from the start** by productions, those of rules and helpers, if all
members of the sequences in the rules that are used have alternatives. -/
theorem reached_of_prepare (h : g.prepare = .ok prepared) (hintact : g.Intact) :
    ∀ kind < prepared.nonTerminals.size, prepared.Reached kind := by
  obtain ⟨terminals, d, groups, hmade⟩ := prepare_eq_ok.mp h
  obtain rfl := hmade.eq
  intro kind hkind
  -- the set of what is reached is closed under productions
  generalize hR : PreparedGrammar.Reached _ = R
  have hstart : R 0 := hR ▸ .start
  have hleads : d.Leads ⟨g, terminals, g.phraseRules g.usedRules⟩ R := by
    subst hR
    exact fun p hp hlhs step hstep kind hkind => .step hlhs hp hstep hkind
  have hkinds : ∀ e ∈ g.kindedRules (g.phraseRules g.usedRules), e.1 <
      (Draft.mk (phraseKinds ⟨g, terminals, g.phraseRules g.usedRules⟩) #[] .empty []).nonTerminals.size :=
    fun e he => (size_phraseKinds _).symm ▸ fst_lt_of_mem_kindedRules he
  have hall : ∀ e ∈ g.kindedRules (g.phraseRules g.usedRules), e.2.isIntact = true := by
    intro e he
    obtain ⟨i, name, hi, hrule⟩ := mem_kindedRules.mp he
    have hused := (List.mem_filter.mp (List.mem_of_getElem? hi)).2
    exact hintact i (by simpa using (Bool.and_eq_true_iff.mp hused).1) name e.2 hrule
  obtain ⟨hrefers, hhelpers⟩ := reached_of_addRules hkinds hall hmade.flattened hleads
  have hrules : ∀ i ∈ g.phraseRules g.usedRules, ∀ kind,
      (g.phraseRules g.usedRules)[kind]? = some i → R kind := by
    refine forall_phraseRules hmade.named hmade.numbered (fun kind hkind => ?_)
      fun i hi hreached name r hrule other hother j hj hindex kind hkind => ?_
    · have hzero := findIdx?_eq_of_nodup (nodup_phraseRules g _)
        (getElem?_phraseRules_zero hmade.named)
      rwa [Option.some.inj
        ((findIdx?_eq_of_nodup (nodup_phraseRules g _) hkind).symm.trans hzero)]
    · obtain ⟨k, hk⟩ := List.mem_iff_getElem?.mp hi
      exact hrefers (k, r) (mem_kindedRules.mpr ⟨i, name, hk, hrule⟩) (hreached k hk) other hother
        kind (symbolOf?_of_mem_phraseRules hmade.named hmade.numbered hindex hkind)
  by_cases hlt : kind < (g.phraseRules g.usedRules).length
  · exact hrules _ (List.getElem_mem hlt) kind (List.getElem?_eq_getElem hlt)
  · refine hhelpers (fun e he => ?_) kind ?_ hkind
    · obtain ⟨i, name, hi, -⟩ := mem_kindedRules.mp he
      exact hrules i (List.mem_of_getElem? hi) e.1 hi
    · rw [size_phraseKinds]
      exact Nat.le_of_not_lt hlt

/-- A letter, or a gap and what stands behind it. -/
def gaps (behind : Rule) : Grammar where
  name := "gaps"
  rules := [("phrase", .choice [.literal "a", .seq [.reference "gap", behind]]),
    ("gap", .choice [.literal "b", .literal "c"])]
  extras := []
  conflicts := []
  externals := []
  word := none

/-- With a repetition behind the gap, all three phrase kinds are reached. -/
theorem reached_gaps : ∃ prepared, (gaps (.oneOrMore (.literal "d"))).prepare = .ok prepared ∧
    prepared.nonTerminals.size = 3 ∧ (gaps (.oneOrMore (.literal "d"))).Intact ∧
      ∀ kind < prepared.nonTerminals.size, prepared.Reached kind := by
  have hsize : (gaps (.oneOrMore (.literal "d"))).prepare.toOption.map (·.nonTerminals.size) =
      some 3 := by decide +kernel
  obtain ⟨prepared, hprepared, hsize⟩ := Option.map_eq_some_iff.mp hsize
  have hintact : (gaps (.oneOrMore (.literal "d"))).Intact := by
    intro i _ name r hrule
    have hmem := List.mem_of_getElem? hrule
    simp only [gaps, List.mem_cons, Prod.mk.injEq, List.not_mem_nil, or_false] at hmem
    rcases hmem with ⟨-, rfl⟩ | ⟨-, rfl⟩ <;> decide
  exact ⟨prepared, eq_ok_of_toOption hprepared, hsize, hintact,
    reached_of_prepare (eq_ok_of_toOption hprepared) hintact⟩

/-- **With nothing behind it that could be read, not even the empty text, the gap is lost**: it is a
phrase kind of the prepared grammar, but the productions of the start rule do not lead there. -/
theorem not_reached_gaps : ∃ prepared, (gaps (.choice [])).prepare = .ok prepared ∧
    1 < prepared.nonTerminals.size ∧ ¬prepared.Reached 1 := by
  have hshape : (gaps (.choice [])).prepare.toOption.map (fun prepared =>
      (prepared.nonTerminals.size, prepared.productions.toList.all fun rule =>
        rule.lhs != 0 || rule.steps.all fun step => prepared.isTerminal step.symbol)) =
      some (2, true) := by decide +kernel
  obtain ⟨prepared, hprepared, hshape⟩ := Option.map_eq_some_iff.mp hshape
  obtain ⟨hsize, hall⟩ := Prod.mk.inj hshape
  refine ⟨prepared, eq_ok_of_toOption hprepared, hsize ▸ Nat.one_lt_two, fun hreached => ?_⟩
  -- the productions of the start rule have terminals only
  have hzero : ∀ kind, prepared.Reached kind → kind = 0 := by
    intro kind hkind
    induction hkind with
    | start => rfl
    | step _ hrule hstep hsymbol ih =>
      have hterminal := List.all_eq_true.mp hall _ (Array.mem_toList_iff.mpr hrule)
      rw [ih, bne_self_eq_false, Bool.false_or, List.all_eq_true] at hterminal
      have hlt := of_decide_eq_true (hterminal _ hstep)
      rw [hsymbol] at hlt
      exact absurd hlt (Nat.not_lt.mpr (Nat.le_add_right ..))
  exact absurd (hzero 1 hreached) Nat.one_ne_zero

end Grammar

end LRWorkbench
