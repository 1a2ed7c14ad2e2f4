import LRWorkbench.Proofs.Query.Lexing
import LRWorkbench.Proofs.Query.Recognition

/-!
# Reading queries back

The lexemes of patterns that can be written spell these patterns, wherever the tokens stand
(`exists_spellsAll`), so what is written is read back (`parse_of_lexemes`). The spans are new.
-/

namespace LRWorkbench.Query

open Read (nameOf captureOf unescape)

/-! ### Tokens of lexemes -/

theorem exists_of_lexemes_cons {ts : List Token} {l : Lexeme} {ls : List Lexeme}
    (h : lexemes ts = l :: ls) : ∃ t ts', ts = t :: ts' ∧ t.lexeme = l ∧ lexemes ts' = ls :=
  List.map_eq_cons_iff.mp h

theorem exists_of_lexemes_append {ts : List Token} {ls ls' : List Lexeme}
    (h : lexemes ts = ls ++ ls') : ∃ us vs, ts = us ++ vs ∧ lexemes us = ls ∧ lexemes vs = ls' :=
  List.map_eq_append_iff.mp h

theorem lexemes_append (ts ts' : List Token) : lexemes (ts ++ ts') = lexemes ts ++ lexemes ts' :=
  List.map_append

theorem bare_nameOf {t : Token} {n : Name} (h : t.lexeme = .name n) : (nameOf t).bare = n.bare := by
  obtain ⟨-, htext⟩ := Prod.mk.inj h
  rw [nameOf, Name.bare, htext, String.ofList_toList]
  rfl

/-! ### What is written is spelled -/

/-- Captures are spelled by themselves. -/
theorem spells_captures {captures : List Name} {cs : List Token}
    (h : lexemes cs = captures.map .capture) :
    AreCaptures cs ∧ (cs.map captureOf).map Name.bare = captures.map Name.bare := by
  induction captures generalizing cs with
  | nil =>
    obtain rfl := List.map_eq_nil_iff.mp h
    exact ⟨nofun, rfl⟩
  | cons n captures ih =>
    obtain ⟨c, cs, rfl, hc, hcs⟩ := exists_of_lexemes_cons h
    obtain ⟨hkind, htext⟩ := Prod.mk.inj hc
    obtain ⟨hcaptures, hbare⟩ := ih hcs
    refine ⟨List.forall_mem_cons.mpr ⟨hkind, hcaptures⟩, ?_⟩
    have hname : (captureOf c).bare = n.bare := by
      rw [captureOf, Name.bare, htext, List.drop_one, List.tail_cons, String.ofList_toList]
      rfl
    rw [List.map_cons, List.map_cons, List.map_cons, hname, hbare]

/-- A kind is an identifier or the wildcard, and each has its own token. -/
theorem spells_kind {k : Token} {kind : Option Name} (h : k.lexeme = kindLexeme kind) :
    ∃ kind', SpellsKind k kind' ∧ kind'.map Name.bare = kind.map Name.bare := by
  cases kind with
  | none => exact ⟨none, .any (Prod.mk.inj h).1, rfl⟩
  | some n => exact ⟨_, .named (Prod.mk.inj h).1, congrArg some (bare_nameOf h)⟩

/-- A label is an identifier and a colon, two tokens that spell no other thing together. -/
theorem spells_field {fs : List Token} {field : Option Name} (h : lexemes fs = fieldLexemes field) :
    ∃ field', SpellsField fs field' ∧ field'.map Name.bare = field.map Name.bare := by
  cases field with
  | none =>
    obtain rfl := List.map_eq_nil_iff.mp h
    exact ⟨none, .none, rfl⟩
  | some n =>
    obtain ⟨t, ts, rfl, ht, hts⟩ := exists_of_lexemes_cons h
    obtain ⟨colon, ts, rfl, hcolon, hts⟩ := exists_of_lexemes_cons hts
    obtain rfl := List.map_eq_nil_iff.mp hts
    exact ⟨_, .named (Prod.mk.inj ht).1 (Prod.mk.inj hcolon).1, congrArg some (bare_nameOf ht)⟩

theorem spells_quantifier {qs : List Token} {often : Quantifier} (h : lexemes qs = often.lexemes) :
    SpellsQuantifier qs often [] := by
  cases often with
  | one =>
    obtain rfl := List.map_eq_nil_iff.mp h
    exact .one
  | optional | zeroOrMore | oneOrMore =>
    obtain ⟨t, ts, rfl, ht, hts⟩ := exists_of_lexemes_cons h
    obtain rfl := List.map_eq_nil_iff.mp hts
    have hsign {often : Quantifier} (h : t.kind.quantifier? = some often) :
        SpellsQuantifier [t] often [] := .sign h nofun
    refine hsign ?_
    rw [(Prod.mk.inj ht).1]
    rfl

/-- The fields that a node must not have are spelled one after the other, behind its children. -/
theorem spells_absent {negated : List Name} {ts : List Token}
    (h : lexemes ts = negated.flatMap absentLexemes) :
    ∃ negated', SpellsMembers ts [] negated' ∧ negated'.map Name.bare = negated.map Name.bare := by
  induction negated generalizing ts with
  | nil =>
    obtain rfl := List.map_eq_nil_iff.mp h
    exact ⟨[], .nil, rfl⟩
  | cons n negated ih =>
    obtain ⟨bang, ts, rfl, hbang, hts⟩ := exists_of_lexemes_cons h
    obtain ⟨t, ts, rfl, ht, hts⟩ := exists_of_lexemes_cons hts
    obtain ⟨negated', hspells, hbare⟩ := ih hts
    refine ⟨_, .absent (Prod.mk.inj hbang).1 (Prod.mk.inj ht).1 hspells, ?_⟩
    rw [List.map_cons, List.map_cons, bare_nameOf ht, hbare]

theorem ne_nil_of_allBare {ps ps' : List PatternSyntax} (h : allBare ps' = allBare ps) (hps : ps ≠ []) :
    ps' ≠ [] := by
  rintro rfl
  cases ps with
  | nil => exact hps rfl
  | cons p ps => simp [allBare] at h

theorem bare_addCaptures_nil (p : PatternSyntax) : (p.addCaptures []).bare = p.bare := by
  obtain ⟨form, captures, span⟩ := p
  rw [PatternSyntax.addCaptures, List.append_nil]

mutual

/-- The lexemes of a pattern spell it again. The statements about the parts of patterns go by their
structure together. -/
theorem exists_spellsPattern : ∀ (p : PatternSyntax) {ts : List Token}, p.isWritable = true →
    lexemes ts = p.lexemes → ∃ p', SpellsPattern ts p' ∧ p'.bare = p.bare
  | .mk form captures _, ts, hp, h => by
    obtain ⟨us, cs, rfl, hus, hcs⟩ := exists_of_lexemes_append h
    obtain ⟨form', hform, hbare⟩ := exists_spellsForm form (Bool.and_eq_true_iff.mp hp).1 hus
    obtain ⟨hcaptures, hnames⟩ := spells_captures hcs
    cases us with
    | nil => cases hform
    | cons t us =>
      refine ⟨_, .mk hform hcaptures, ?_⟩
      rw [PatternSyntax.bare, PatternSyntax.bare, hbare, hnames]

/-- The part of `exists_spellsPattern` about forms. -/
theorem exists_spellsForm : ∀ (form : FormSyntax) {ts : List Token}, form.isWritable = true →
    lexemes ts = form.lexemes → ∃ form', SpellsForm ts form' ∧ form'.bare = form.bare
  | .node kind children negated, ts, hform, h => by
    obtain ⟨hfront, -⟩ := Bool.and_eq_true_iff.mp hform
    obtain ⟨opening, ts, rfl, hopening, hts⟩ := exists_of_lexemes_cons h
    obtain ⟨k, ts, rfl, hk, hts⟩ := exists_of_lexemes_cons hts
    obtain ⟨us, vs, rfl, hus, hvs⟩ := exists_of_lexemes_append hts
    obtain ⟨closing, vs, rfl, hclosing, hvs⟩ := exists_of_lexemes_cons hvs
    obtain rfl := List.map_eq_nil_iff.mp hvs
    obtain ⟨kind', hkind, hbare⟩ := spells_kind hk
    obtain ⟨children', negated', hmembers, hchildren, hnegated⟩ :=
      exists_spellsMembers children (Bool.and_eq_true_iff.mp hfront).2 hus
    refine ⟨_, .node (Prod.mk.inj hopening).1 hkind hmembers (Prod.mk.inj hclosing).1, ?_⟩
    rw [FormSyntax.bare, FormSyntax.bare, hbare, hchildren, hnegated]
  | .wildcard, ts, _, h => by
    obtain ⟨t, ts, rfl, ht, hts⟩ := exists_of_lexemes_cons h
    obtain rfl := List.map_eq_nil_iff.mp hts
    exact ⟨_, .wildcard (Prod.mk.inj ht).1, rfl⟩
  | .text text, ts, _, h => by
    obtain ⟨t, ts, rfl, ht, hts⟩ := exists_of_lexemes_cons h
    obtain rfl := List.map_eq_nil_iff.mp hts
    obtain ⟨hkind, htext⟩ := Prod.mk.inj ht
    refine ⟨_, .text hkind (htext ▸ unescape_quotation text.text), ?_⟩
    rw [FormSyntax.bare, FormSyntax.bare, String.ofList_toList]
    rfl
  | .choice alternatives, ts, hform, h => by
    obtain ⟨hsome, hall⟩ := Bool.and_eq_true_iff.mp hform
    obtain ⟨opening, ts, rfl, hopening, hts⟩ := exists_of_lexemes_cons h
    obtain ⟨us, vs, rfl, hus, hvs⟩ := exists_of_lexemes_append hts
    obtain ⟨closing, vs, rfl, hclosing, hvs⟩ := exists_of_lexemes_cons hvs
    obtain rfl := List.map_eq_nil_iff.mp hvs
    obtain ⟨alternatives', hspells, hbare⟩ := exists_spellsAll alternatives hall hus
    have hne := ne_nil_of_allBare hbare (by simpa using hsome)
    refine ⟨_, .choice (Prod.mk.inj hopening).1 hspells hne (Prod.mk.inj hclosing).1, ?_⟩
    rw [FormSyntax.bare, FormSyntax.bare, hbare]

/-- The part of `exists_spellsPattern` about lists of patterns. -/
theorem exists_spellsAll : ∀ (ps : List PatternSyntax) {ts : List Token}, areWritable ps = true →
    lexemes ts = allLexemes ps → ∃ ps', SpellsAll ts ps' ∧ allBare ps' = allBare ps
  | [], ts, _, h => by
    obtain rfl := List.map_eq_nil_iff.mp h
    exact ⟨[], .nil, rfl⟩
  | p :: ps, ts, hps, h => by
    obtain ⟨hp, hps⟩ := Bool.and_eq_true_iff.mp hps
    obtain ⟨us, vs, rfl, hus, hvs⟩ := exists_of_lexemes_append h
    obtain ⟨p', hfirst, hbare⟩ := exists_spellsPattern p hp hus
    obtain ⟨ps', hrest, hbares⟩ := exists_spellsAll ps hps hvs
    refine ⟨_, .cons hfirst hrest, ?_⟩
    rw [allBare, allBare, hbare, hbares]

/-- The part of `exists_spellsPattern` about children. -/
theorem exists_spellsChild : ∀ (c : ChildSyntax) {ts : List Token}, c.isWritable = true →
    lexemes ts = c.lexemes → ∃ c', SpellsChild ts c' ∧ c'.bare = c.bare
  | .mk field p often, ts, hc, h => by
    obtain ⟨fs, ts, rfl, hfs, hts⟩ := exists_of_lexemes_append h
    obtain ⟨us, qs, rfl, hus, hqs⟩ := exists_of_lexemes_append hts
    obtain ⟨field', hfield, hname⟩ := spells_field hfs
    obtain ⟨p', hpattern, hbare⟩ := exists_spellsPattern p (Bool.and_eq_true_iff.mp hc).2 hus
    refine ⟨_, .mk hfield hpattern (spells_quantifier hqs), ?_⟩
    rw [ChildSyntax.bare, ChildSyntax.bare, hname, bare_addCaptures_nil, hbare]

/-- The part of `exists_spellsPattern` about members: first the children, and then the absent
fields. -/
theorem exists_spellsMembers : ∀ (children : List ChildSyntax) {negated : List Name} {ts : List Token},
    areWritableChildren children = true →
    lexemes ts = childrenLexemes children ++ negated.flatMap absentLexemes →
    ∃ children' negated', SpellsMembers ts children' negated' ∧
      childrenBare children' = childrenBare children ∧ negated'.map Name.bare = negated.map Name.bare
  | [], negated, ts, _, h => by
    obtain ⟨negated', hspells, hbare⟩ := spells_absent h
    exact ⟨[], negated', hspells, rfl, hbare⟩
  | c :: cs, negated, ts, hcs, h => by
    obtain ⟨hc, hcs⟩ := Bool.and_eq_true_iff.mp hcs
    rw [childrenLexemes, List.append_assoc] at h
    obtain ⟨us, vs, rfl, hus, hvs⟩ := exists_of_lexemes_append h
    obtain ⟨c', hfirst, hbare⟩ := exists_spellsChild c hc hus
    obtain ⟨cs', negated', hrest, hbares, hnegated⟩ := exists_spellsMembers cs hcs hvs
    refine ⟨_, _, .child hfirst hrest, ?_, hnegated⟩
    rw [childrenBare, childrenBare, hbare, hbares]

end

end LRWorkbench.Query
