import LRWorkbench.Proofs.Grammar.Shapes
import Mathlib.Data.List.Induction
import Mathlib.Logic.Relation

/-!
# What a grammar document may not hold

A rule can be compiled just if nothing that stands inside it, however deep, is a rule of a form that
cannot, or has a level of precedence that is a name (`RuleDoc.exists_toRule_iff`). So a document of the
right shape is accepted just if it does not ask for something that cannot be compiled
(`GrammarDoc.exists_toGrammar_iff`).

There is one way to hide such a rule. Of the entries of `rules` that have one name only the last is
kept (`GrammarDoc.mem_iff_of_entriesOr?`), and what stands in an earlier one is not looked at.
-/

namespace LRWorkbench

namespace RuleDoc

variable {form : String} {nested : Bool} {depth : Nat} {u v w : Json} {d : RuleDoc}
variable {found : List (Option Json)} {read : Json → Option RuleDoc}

/-! ### Rules inside rules -/

/-- Whether a value stands directly inside another one, as a rule inside a rule. -/
inductive Child (u v : Json) : Prop
  | content {form : String} (hform : HasForm form v) (htakes : "content" ∈ memberNames form)
    (h : v.Holds ("type" :: memberNames form) "content" u)
  | member {form : String} {us : List Json} (hform : HasForm form v)
    (htakes : "members" ∈ memberNames form)
    (h : v.Holds ("type" :: memberNames form) "members" (.list us)) (hu : u ∈ us)

/-- The rules directly inside a rule. -/
def parts : RuleDoc → List RuleDoc
  | seq members | choice members => members
  | zeroOrMore content | oneOrMore content | field _ content | token content | prec _ _ content =>
    [content]
  | blank | literal _ | pattern _ _ | reference _ | refused _ => []

theorem exists_part_of_content (hshape : Shape read form found d) {i : Nat}
    (hi : (memberNames form)[i]? = some "content") (hu : found[i]? = some (some u)) :
    ∃ part ∈ d.parts, read u = some part := by
  have htakes := List.mem_of_getElem? hi
  cases hshape with
  | zeroOrMore h | oneOrMore h | token h =>
    match i with
    | 0 =>
      cases hu
      exact ⟨_, List.mem_singleton_self _, h⟩
    | _ + 1 => cases hi
  | field h =>
    match i with
    | 0 => exact absurd hi (by decide)
    | 1 =>
      cases hu
      exact ⟨_, List.mem_singleton_self _, h⟩
    | _ + 2 => cases hi
  | prec hform hlevel h =>
    rw [memberNames_of_mem_levelForms _ hform] at hi
    match i with
    | 0 => exact absurd hi (by decide)
    | 1 =>
      cases hu
      exact ⟨_, List.mem_singleton_self _, h⟩
    | _ + 2 => cases hi
  | blank | literal | pattern | reference | seq | choice => exact absurd htakes (by decide)
  | refused hform =>
    rw [memberNames_of_mem_refusedForms _ hform] at htakes
    cases htakes

theorem exists_part_of_members {us : List Json} (hshape : Shape read form found d) {i : Nat}
    (hi : (memberNames form)[i]? = some "members") (hus : found[i]? = some (some (.list us)))
    (hu : u ∈ us) : ∃ part ∈ d.parts, read u = some part := by
  have htakes := List.mem_of_getElem? hi
  cases hshape with
  | seq h | choice h =>
    match i with
    | 0 =>
      cases hus
      exact exists_mem_of_mapM_option h hu
    | _ + 1 => cases hi
  | prec hform hlevel h =>
    rw [memberNames_of_mem_levelForms _ hform] at htakes
    exact absurd htakes (by decide)
  | blank | literal | pattern | reference | zeroOrMore | oneOrMore | token | field =>
    exact absurd htakes (by decide)
  | refused hform =>
    rw [memberNames_of_mem_refusedForms _ hform] at htakes
    cases htakes

/-- What stands directly inside a rule is read as one of its parts. -/
theorem exists_part_of_child (h : ofJson? (depth + 1) nested v = some d) (hchild : Child u v) :
    ∃ part ∈ d.parts, ofJson? depth true u = some part := by
  obtain ⟨form, found, hlaid, hshape⟩ := shape_of_ofJson? h
  cases hchild with
  | content hform htakes hu =>
    obtain rfl := (hlaid.hasForm_iff _).mp hform
    obtain ⟨i, hi⟩ := List.getElem?_of_mem htakes
    exact exists_part_of_content hshape hi ((hlaid.holds_iff hi).mp hu)
  | member hform htakes hus hu =>
    obtain rfl := (hlaid.hasForm_iff _).mp hform
    obtain ⟨i, hi⟩ := List.getElem?_of_mem htakes
    exact exists_part_of_members hshape hi ((hlaid.holds_iff hi).mp hus) hu

/-- A part of a rule is read from what stands directly inside it. -/
theorem exists_child_of_part (h : ofJson? (depth + 1) nested v = some d) {part : RuleDoc}
    (hpart : part ∈ d.parts) : ∃ u, Child u v ∧ ofJson? depth true u = some part := by
  obtain ⟨form, found, hlaid, hshape⟩ := shape_of_ofJson? h
  have hform := (hlaid.hasForm_iff form).mpr rfl
  have hcontent : ∀ {i : Nat} {u : Json}, (memberNames form)[i]? = some "content" →
      found[i]? = some (some u) → Child u v :=
    fun hi hu => .content hform (List.mem_of_getElem? hi) ((hlaid.holds_iff hi).mpr hu)
  cases hshape with
  | @seq us _ hus | @choice us _ hus =>
    obtain ⟨u, hu, hread⟩ := exists_of_mem_mapM_option hus hpart
    have hmembers := (hlaid.holds_iff (rfl : (memberNames _)[0]? = some "members")).mpr rfl
    exact ⟨u, .member hform (by decide) hmembers hu, hread⟩
  | zeroOrMore hread | oneOrMore hread | token hread =>
    cases List.mem_singleton.mp hpart
    exact ⟨_, hcontent (rfl : (memberNames _)[0]? = _) rfl, hread⟩
  | field hread =>
    cases List.mem_singleton.mp hpart
    exact ⟨_, hcontent (rfl : (memberNames _)[1]? = _) rfl, hread⟩
  | prec hlevels _ hread =>
    cases List.mem_singleton.mp hpart
    have hi : (memberNames form)[1]? = some "content" := by
      rw [memberNames_of_mem_levelForms _ hlevels]
      rfl
    exact ⟨_, hcontent hi rfl, hread⟩
  | blank | literal | pattern | reference | refused => cases hpart

theorem isReference_iff (h : ofJson? (depth + 1) nested v = some d) :
    (∃ name, d = .reference name) ↔ HasForm "SYMBOL" v := by
  obtain ⟨form, found, hlaid, hshape⟩ := shape_of_ofJson? h
  rw [hlaid.hasForm_iff]
  constructor
  · rintro ⟨name, rfl⟩
    cases hshape
    rfl
  · intro heq
    cases hshape with
    | reference => exact ⟨_, rfl⟩
    | prec hlevels =>
      have hnames : memberNames form = ["value", "content"] := memberNames_of_mem_levelForms _ hlevels
      rw [← heq] at hnames
      exact absurd hnames (by decide)
    | refused hforms =>
      rw [← heq] at hforms
      exact absurd hforms (by decide)
    | _ => exact absurd heq (by decide)

/-! ### Rules that cannot be compiled -/

/-- Whether a value is a rule that cannot be compiled, whatever stands inside it. -/
inductive IsUnsupported (v : Json) : Prop
  | form {form : String} (hform : HasForm form v) (h : form ∈ refusedForms)
  | level {form name : String} (hform : HasForm form v) (h : form ∈ levelForms.map (·.1))
    (hname : v.Holds ("type" :: memberNames form) "value" (.text name))

/-- Whether a rule cannot be compiled, whatever its parts are. -/
def isRefused : RuleDoc → Bool
  | refused _ | prec _ (.named _) _ => true
  | _ => false

/-- No form is both a level of precedence and one that cannot be compiled. -/
theorem not_mem_refusedForms : ∀ p ∈ levelForms, p.1 ∉ refusedForms := by
  decide

theorem level?_eq_named {first : Option Json} {name : String} (h : level? first = some (.named name)) :
    first = some (.text name) := by
  unfold level? at h
  split at h
  · split at h <;> cases h
  · cases h
    rfl
  · cases h

theorem isRefused_iff (h : ofJson? (depth + 1) nested v = some d) :
    d.isRefused = true ↔ IsUnsupported v := by
  obtain ⟨form, found, hlaid, hshape⟩ := shape_of_ofJson? h
  have hform := (hlaid.hasForm_iff form).mpr rfl
  constructor
  · intro hrefused
    cases hshape with
    | refused hforms => exact .form hform hforms
    | @prec _ assoc _ level _ _ hlevels hlevel =>
      cases level with
      | number => cases hrefused
      | named name =>
        have hi : (memberNames form)[0]? = some "value" := by
          rw [memberNames_of_mem_levelForms _ hlevels]
          rfl
        have hname := (hlaid.holds_iff hi).mpr (congrArg some (level?_eq_named hlevel))
        exact .level hform (List.mem_map.mpr ⟨_, hlevels, rfl⟩) hname
    | _ => cases hrefused
  · rintro (@⟨form', hform', hforms⟩ | @⟨form', name, hform', hlevels, hname⟩)
    · obtain rfl := (hlaid.hasForm_iff _).mp hform'
      cases hshape with
      | refused => rfl
      | prec hlevel => exact absurd hforms (not_mem_refusedForms _ hlevel)
      | _ => exact absurd hforms (by decide)
    · obtain rfl := (hlaid.hasForm_iff _).mp hform'
      obtain ⟨p, hp, heq⟩ := List.mem_map.mp hlevels
      have hi : (memberNames form')[0]? = some "value" := by
        rw [← heq, memberNames_of_mem_levelForms p hp]
        rfl
      have hfirst := (hlaid.holds_iff hi).mp hname
      cases hshape with
      | prec _ hvalue =>
        cases hfirst
        cases hvalue
        rfl
      | refused hforms => exact absurd hforms (heq ▸ not_mem_refusedForms p hp)
      | _ => exact absurd hlevels (by decide)

theorem toRules_eq_mapM (ds : List RuleDoc) : toRules ds = ds.mapM toRule := by
  induction ds with
  | nil => rfl
  | cons d ds ih =>
    rw [toRules, List.mapM_cons, ih]
    cases d.toRule with
    | error e => rfl
    | ok r => cases ds.mapM toRule <;> rfl

theorem exists_toRules_iff {ds : List RuleDoc} :
    (∃ rs, toRules ds = .ok rs) ↔ ∀ d ∈ ds, ∃ r, d.toRule = .ok r := by
  rw [toRules_eq_mapM]
  constructor
  · rintro ⟨rs, hrs⟩ d hd
    obtain ⟨r, -, hr⟩ := exists_mem_of_mapM hrs hd
    exact ⟨r, hr⟩
  · exact exists_mapM

/-- A rule can be compiled if its parts can, unless it is one that cannot whatever they are. -/
theorem exists_toRule_iff_parts : (∃ r, d.toRule = .ok r) ↔
    ¬d.isRefused = true ∧ ∀ part ∈ d.parts, ∃ r, part.toRule = .ok r := by
  cases d with
  | seq ds | choice ds =>
    rw [toRule, exists_map_eq_ok, exists_toRules_iff]
    exact (and_iff_right Bool.false_ne_true).symm
  | zeroOrMore content | oneOrMore content | field _ content | token content =>
    rw [toRule, exists_map_eq_ok, parts, List.forall_mem_singleton]
    exact (and_iff_right Bool.false_ne_true).symm
  | prec assoc level content =>
    cases level with
    | named => exact ⟨nofun, fun h => absurd rfl h.1⟩
    | number =>
      rw [toRule, exists_map_eq_ok, parts, List.forall_mem_singleton]
      exact (and_iff_right Bool.false_ne_true).symm
  | refused => exact ⟨nofun, fun h => absurd rfl h.1⟩
  | blank | literal | pattern | reference =>
    exact iff_of_true ⟨_, rfl⟩ ⟨Bool.false_ne_true, nofun⟩

/-- **Refusals.** A rule can be compiled just if nothing that stands inside it, however deep, is a rule
that cannot. -/
theorem exists_toRule_iff (h : ofJson? depth nested v = some d) : (∃ r, d.toRule = .ok r) ↔
    ∀ w, Relation.ReflTransGen Child w v → ¬IsUnsupported w := by
  induction depth generalizing nested v d with
  | zero => cases h
  | succ depth ih =>
    rw [exists_toRule_iff_parts, isRefused_iff h]
    constructor
    · rintro ⟨hv, hparts⟩ w hinside
      rcases Relation.ReflTransGen.cases_tail_iff _ _ _ |>.mp hinside with rfl | ⟨u, hinside, hchild⟩
      · exact hv
      · obtain ⟨part, hpart, hread⟩ := exists_part_of_child h hchild
        exact (ih hread).mp (hparts part hpart) w hinside
    · intro hall
      refine ⟨hall v .refl, fun part hpart => ?_⟩
      obtain ⟨u, hchild, hread⟩ := exists_child_of_part h hpart
      exact (ih hread).mpr fun w hinside => hall w (hinside.tail hchild)

end RuleDoc

namespace GrammarDoc

variable {v : Json} {d : GrammarDoc}

/-! ### Entries -/

section

variable {α : Type} {entries later : List (String × α)} {entry e : String × α}

theorem mem_putEntry_iff : entry ∈ putEntry entries e ↔
    entry = e ∨ entry ∈ entries ∧ entry.1 ≠ e.1 := by
  unfold putEntry
  split
  · rename_i h
    obtain ⟨old, hold, hname⟩ := List.any_eq_true.mp h
    rw [List.mem_map]
    constructor
    · rintro ⟨other, hother, rfl⟩
      split
      · exact .inl rfl
      · rename_i hne
        exact .inr ⟨hother, hne⟩
    · rintro (rfl | ⟨hentry, hne⟩)
      · exact ⟨old, hold, if_pos (of_decide_eq_true hname)⟩
      · exact ⟨entry, hentry, if_neg hne⟩
  · rename_i h
    rw [List.mem_append, List.mem_singleton, or_comm]
    refine or_congr_right (iff_self_and.mpr fun hentry hname => h ?_)
    exact List.any_eq_true.mpr ⟨entry, hentry, decide_eq_true hname⟩

/-- Of the entries of a name the last one stays. -/
theorem mem_foldl_putEntry_iff : entry ∈ later.foldl putEntry [] ↔
    ∃ before after, later = before ++ entry :: after ∧ ∀ e ∈ after, e.1 ≠ entry.1 := by
  induction later using List.reverseRecOn with
  | nil =>
    refine ⟨nofun, ?_⟩
    rintro ⟨before, after, h, -⟩
    cases List.append_ne_nil_of_right_ne_nil before (List.cons_ne_nil entry after) h.symm
  | append_singleton later e ih =>
    rw [List.foldl_append, List.foldl_cons, List.foldl_nil, mem_putEntry_iff, ih]
    constructor
    · rintro (rfl | ⟨⟨before, after, rfl, hafter⟩, hname⟩)
      · exact ⟨later, [], rfl, nofun⟩
      · refine ⟨before, after ++ [e], by simp, fun other hother => ?_⟩
        rcases List.mem_append.mp hother with hother | hother
        · exact hafter other hother
        · rw [List.mem_singleton.mp hother]
          exact hname.symm
    · rintro ⟨before, after, heq, hafter⟩
      rcases List.eq_nil_or_concat after with rfl | ⟨after, last, rfl⟩
      · exact .inl (List.cons.inj (List.append_inj' heq rfl).2).1.symm
      · rw [List.concat_eq_append] at heq hafter
        rw [← List.cons_append, ← List.append_assoc] at heq
        obtain ⟨rfl, hlast⟩ := List.append_inj' heq rfl
        obtain rfl := (List.cons.inj hlast).1
        refine .inr ⟨⟨before, after, rfl, fun other hother => ?_⟩, ?_⟩
        · exact hafter other (List.mem_append_left _ hother)
        · exact (hafter e (List.mem_append_right _ (List.mem_singleton_self _))).symm

/-- Something is read of every entry of an object. -/
theorem exists_of_entriesOr? {item : Json → Option α} {members : List (String × Json)}
    (h : entriesOr? item (some (.object members)) = some entries) {m : String × Json}
    (hm : m ∈ members) : ∃ a, item m.2 = some a := by
  obtain ⟨made, hmade, -⟩ := Option.bind_eq_some_iff.mp h
  obtain ⟨entry, -, hentry⟩ := exists_mem_of_mapM_option hmade hm
  obtain ⟨a, ha, -⟩ := Option.bind_eq_some_iff.mp hentry
  exact ⟨a, ha⟩

/-- What is kept of the entries of an object is what is read of the last one of each name. -/
theorem mem_iff_of_entriesOr? {item : Json → Option α} {members : List (String × Json)}
    {name : String} {a : α} (h : entriesOr? item (some (.object members)) = some entries) :
    (name, a) ∈ entries ↔ ∃ before u after, members = before ++ (name, u) :: after ∧
      (∀ m ∈ after, m.1 ≠ name) ∧ item u = some a := by
  obtain ⟨made, hmade, h⟩ := Option.bind_eq_some_iff.mp h
  cases h
  rw [mem_foldl_putEntry_iff]
  constructor
  · rintro ⟨before, after, rfl, hafter⟩
    obtain ⟨before', m, after', rfl, hm, hafter'⟩ := exists_of_mapM_eq_append hmade
    obtain ⟨a', ha, hm⟩ := Option.bind_eq_some_iff.mp hm
    cases hm
    refine ⟨before', m.2, after', rfl, fun other hother => ?_, ha⟩
    obtain ⟨e, he, hread⟩ := exists_mem_of_mapM_option hafter' hother
    obtain ⟨b, -, hread⟩ := Option.bind_eq_some_iff.mp hread
    cases hread
    exact hafter _ he
  · rintro ⟨before, u, after, rfl, hafter, hu⟩
    rw [List.mapM_append] at hmade
    obtain ⟨first, -, hmade⟩ := Option.bind_eq_some_iff.mp hmade
    obtain ⟨rest, hrest, hmade⟩ := Option.bind_eq_some_iff.mp hmade
    cases hmade
    rw [List.mapM_cons] at hrest
    obtain ⟨entry, hentry, hrest⟩ := Option.bind_eq_some_iff.mp hrest
    obtain ⟨later, hlater, hrest⟩ := Option.bind_eq_some_iff.mp hrest
    cases hrest
    obtain ⟨a', ha, hentry⟩ := Option.bind_eq_some_iff.mp hentry
    cases hentry
    cases hu.symm.trans ha
    refine ⟨first, later, rfl, fun e he => ?_⟩
    obtain ⟨m, hm, hread⟩ := exists_of_mem_mapM_option hlater he
    obtain ⟨b, -, hread⟩ := Option.bind_eq_some_iff.mp hread
    cases hread
    exact hafter m hm

end

/-! ### Documents -/

/-- What is read of a list is empty if the list is. -/
theorem eq_nil_iff_of_listOr? {α : Type} {item : Json → Option α} {value : Option Json}
    {made : List α} (h : listOr? item value = some made) :
    made = [] ↔ ∀ us, value = some (.list us) → us = [] := by
  unfold listOr? at h
  split at h
  · cases h
    exact ⟨fun _ => nofun, fun _ => rfl⟩
  · rename_i us
    rw [← List.length_eq_zero_iff, length_of_mapM h, List.length_eq_zero_iff]
    constructor
    · rintro rfl _ heq
      cases heq
      rfl
    · exact fun hall => hall us rfl
  · cases h

/-- Something is read of every item of a list. -/
theorem exists_of_listOr? {α : Type} {item : Json → Option α} {value : Option Json} {made : List α}
    (h : listOr? item value = some made) {us : List Json} (hvalue : value = some (.list us)) {u : Json}
    (hu : u ∈ us) : ∃ a, item u = some a := by
  subst hvalue
  obtain ⟨a, -, ha⟩ := exists_mem_of_mapM_option h hu
  exact ⟨a, ha⟩

theorem forall_mem_iff_of_listOr? {α : Type} {item : Json → Option α} {value : Option Json}
    {made : List α} {p : α → Prop} (h : listOr? item value = some made) : (∀ a ∈ made, p a) ↔
      ∀ us, value = some (.list us) → ∀ u ∈ us, ∀ a, item u = some a → p a := by
  unfold listOr? at h
  split at h
  · cases h
    exact ⟨fun _ => nofun, fun _ => nofun⟩
  · rename_i us
    constructor
    · rintro hall _ heq u hu a ha
      cases heq
      obtain ⟨a', ha', hread⟩ := exists_mem_of_mapM_option h hu
      cases ha.symm.trans hread
      exact hall a ha'
    · intro hall a ha
      obtain ⟨u, hu, hread⟩ := exists_of_mem_mapM_option h ha
      exact hall us rfl u hu a hread
  · cases h

theorem eq_none_iff_of_optionalText? {value : Option Json} {read : Option String}
    (h : RuleDoc.optionalText? value = some read) : read = none ↔ ∀ s, value ≠ some (.text s) := by
  unfold RuleDoc.optionalText? at h
  split at h
  · cases h
    exact ⟨fun _ => nofun, fun _ => rfl⟩
  · cases h
    exact ⟨fun _ => nofun, fun _ => rfl⟩
  · rename_i s
    cases h
    exact ⟨nofun, fun hall => absurd rfl (hall s)⟩
  · cases h

/-- What is kept of the entries of an object is empty if the object is. -/
theorem eq_nil_iff_of_entriesOr? {α : Type} {item : Json → Option α} {value : Option Json}
    {entries : List (String × α)} (h : entriesOr? item value = some entries) :
    entries = [] ↔ ∀ members, value = some (.object members) → members = [] := by
  constructor
  · rintro rfl members rfl
    rcases List.eq_nil_or_concat members with rfl | ⟨before, last, rfl⟩
    · rfl
    · rw [List.concat_eq_append] at h
      obtain ⟨a, ha⟩ :=
        exists_of_entriesOr? h (List.mem_append_right before (List.mem_singleton_self last))
      cases (mem_iff_of_entriesOr? h).mpr ⟨before, last.2, [], rfl, nofun, ha⟩
  · intro hall
    unfold entriesOr? at h
    split at h
    · cases h
      rfl
    · rename_i members
      cases hall members rfl
      cases h
      rfl
    · cases h

/-- What is read of the members of a document, in their fixed order. -/
structure IsLaidOut (found : List (Option Json)) (d : GrammarDoc) : Prop where
  rules : ∃ members, found[1]? = some (some (.object members)) ∧
    entriesOr? (RuleDoc.ofJson? Json.nestingLimit false) (some (.object members)) = some d.rules
  extras : listOr? (RuleDoc.ofJson? Json.nestingLimit false) found[2]?.join = some d.extras
  externals : listOr? (RuleDoc.ofJson? Json.nestingLimit false) found[3]?.join = some d.externals
  precedences : listOr? some found[6]?.join = some d.precedences
  inlined : listOr? plainText? found[7]?.join = some d.inlined
  supertypes : listOr? plainText? found[8]?.join = some d.supertypes
  reserved : entriesOr? some found[9]?.join = some d.reserved
  inherits : RuleDoc.optionalText? found[10]?.join = some d.inherits

theorem exists_isLaidOut (h : ofJson? v = some d) :
    ∃ found, RuleDoc.layOut? memberNames v = some found ∧ IsLaidOut found d := by
  obtain ⟨found, hfound, h⟩ := Option.bind_eq_some_iff.mp h
  refine ⟨found, hfound, ?_⟩
  obtain ⟨name, -, h⟩ := Option.bind_eq_some_iff.mp h
  obtain ⟨value, hvalue, h⟩ := Option.bind_eq_some_iff.mp h
  obtain ⟨rules, hrules, h⟩ := Option.bind_eq_some_iff.mp h
  obtain ⟨extras, hextras, h⟩ := Option.bind_eq_some_iff.mp h
  obtain ⟨externals, hexternals, h⟩ := Option.bind_eq_some_iff.mp h
  obtain ⟨conflicts, -, h⟩ := Option.bind_eq_some_iff.mp h
  obtain ⟨word, -, h⟩ := Option.bind_eq_some_iff.mp h
  obtain ⟨precedences, hprecedences, h⟩ := Option.bind_eq_some_iff.mp h
  obtain ⟨inlined, hinlined, h⟩ := Option.bind_eq_some_iff.mp h
  obtain ⟨supertypes, hsupertypes, h⟩ := Option.bind_eq_some_iff.mp h
  obtain ⟨reserved, hreserved, h⟩ := Option.bind_eq_some_iff.mp h
  obtain ⟨inherits, hinherits, h⟩ := Option.bind_eq_some_iff.mp h
  cases h
  have hobject : ∃ members, value = .object members := by
    cases value with
    | object members => exact ⟨members, rfl⟩
    | _ => cases hrules
  obtain ⟨members, rfl⟩ := hobject
  exact ⟨⟨members, Option.join_eq_some_iff.mp hvalue, hrules⟩, hextras, hexternals, hprecedences,
    hinlined, hsupertypes, hreserved, hinherits⟩

/-- Whether a document asks for something that cannot be compiled. -/
inductive IsRefused (v : Json) : Prop
  /-- A rule, or one inside it, cannot be compiled, and no later entry has its name. -/
  | rule {before after : List (String × Json)} {name : String} {u w : Json}
    (h : v.Holds memberNames "rules" (.object (before ++ (name, u) :: after)))
    (hlast : ∀ m ∈ after, m.1 ≠ name) (hinside : Relation.ReflTransGen RuleDoc.Child w u)
    (hw : RuleDoc.IsUnsupported w)
  | extra {us : List Json} {u w : Json} (h : v.Holds memberNames "extras" (.list us)) (hu : u ∈ us)
    (hinside : Relation.ReflTransGen RuleDoc.Child w u) (hw : RuleDoc.IsUnsupported w)
  | external {us : List Json} {u : Json} (h : v.Holds memberNames "externals" (.list us)) (hu : u ∈ us)
    (hform : ¬RuleDoc.HasForm "SYMBOL" u)
  /-- Orderings of precedences, rules to be inlined or supertypes are given. -/
  | listed {name : String} {us : List Json} (hname : name ∈ ["precedences", "inline", "supertypes"])
    (h : v.Holds memberNames name (.list us)) (hne : us ≠ [])
  | reserved {members : List (String × Json)} (h : v.Holds memberNames "reserved" (.object members))
    (hne : members ≠ [])
  | parent {name : String} (h : v.Holds memberNames "inherits" (.text name))

theorem refusal?_eq_none_iff : d.refusal? = none ↔ d.precedences = [] ∧ d.inlined = [] ∧
    d.supertypes = [] ∧ d.reserved = [] ∧ d.inherits = none := by
  unfold refusal?
  split_ifs <;> simp_all

/-- What is accepted of a document. -/
theorem exists_toGrammar_iff_parts : (∃ g, d.toGrammar = .ok g) ↔ d.refusal? = none ∧
    (∀ entry ∈ d.rules, ∃ r, entry.2.toRule = .ok r) ∧
      (∀ extra ∈ d.extras, ∃ r, extra.toRule = .ok r) ∧
        ∀ external ∈ d.externals, ∃ name, external = .reference name := by
  constructor
  · rintro ⟨g, h⟩
    unfold toGrammar at h
    split at h
    · cases h
    · rename_i hnone
      obtain ⟨rules, hrules, h⟩ := bind_eq_ok.mp h
      obtain ⟨extras, hextras, h⟩ := bind_eq_ok.mp h
      obtain ⟨externals, hexternals, -⟩ := bind_eq_ok.mp h
      refine ⟨hnone, fun entry hentry => ?_, RuleDoc.exists_toRules_iff.mp ⟨extras, hextras⟩,
        fun external hexternal => ?_⟩
      · obtain ⟨made, -, hmade⟩ := exists_mem_of_mapM hrules hentry
        obtain ⟨r, hr, -⟩ := bind_eq_ok.mp hmade
        exact ⟨r, hr⟩
      · obtain ⟨name, -, hname⟩ := exists_mem_of_mapM hexternals hexternal
        unfold externalName at hname
        split at hname
        · exact ⟨_, rfl⟩
        · cases hname
  · rintro ⟨hnone, hrules, hextras, hexternals⟩
    obtain ⟨rules, hrules⟩ : ∃ rules, d.rules.mapM (fun entry => do
        let r ← entry.2.toRule
        return (entry.1, r)) = .ok rules := by
      refine exists_mapM fun entry hentry => ?_
      obtain ⟨r, hr⟩ := hrules entry hentry
      rw [hr]
      exact ⟨(entry.1, r), rfl⟩
    obtain ⟨extras, hextras⟩ := RuleDoc.exists_toRules_iff.mpr hextras
    obtain ⟨externals, hexternals⟩ : ∃ names, d.externals.mapM externalName = .ok names := by
      refine exists_mapM fun external hexternal => ?_
      obtain ⟨name, rfl⟩ := hexternals external hexternal
      exact ⟨name, rfl⟩
    rw [toGrammar, hnone]
    change ∃ g, (d.rules.mapM _ >>= fun rules => RuleDoc.toRules d.extras >>= fun extras =>
      d.externals.mapM externalName >>= _) = .ok g
    rw [hrules, hextras, hexternals]
    exact ⟨_, rfl⟩

/-- **Refusals.** A document of the right shape is accepted just if it asks for nothing that cannot be
compiled. -/
theorem exists_toGrammar_iff (h : ofJson? v = some d) :
    (∃ g, d.toGrammar = .ok g) ↔ ¬IsRefused v := by
  obtain ⟨found, hfound, hlaid⟩ := exists_isLaidOut h
  -- The members that are looked at are those that the layout found, the last one of each name.
  have hholds {i : Nat} {name : String} {w : Json} (hi : memberNames[i]? = some name) :
      v.Holds memberNames name w ↔ found[i]?.join = some w := by
    rw [RuleDoc.holds_iff_of_layOut? hfound (by decide) hi, Option.join_eq_some_iff]
  obtain ⟨members, hmembers, hentries⟩ := hlaid.rules
  have hrules {ms : List (String × Json)} :
      v.Holds memberNames "rules" (.object ms) ↔ ms = members := by
    rw [RuleDoc.holds_iff_of_layOut? hfound (by decide) (rfl : memberNames[1]? = _), hmembers]
    constructor
    · intro heq
      cases heq
      rfl
    · rintro rfl
      rfl
  rw [exists_toGrammar_iff_parts, refusal?_eq_none_iff, eq_nil_iff_of_listOr? hlaid.precedences,
    eq_nil_iff_of_listOr? hlaid.inlined, eq_nil_iff_of_listOr? hlaid.supertypes,
    eq_nil_iff_of_entriesOr? hlaid.reserved, eq_none_iff_of_optionalText? hlaid.inherits,
    forall_mem_iff_of_listOr? hlaid.extras, forall_mem_iff_of_listOr? hlaid.externals]
  constructor
  · rintro ⟨⟨hprecedences, hinlined, hsupertypes, hreserved, hinherits⟩, hcompiled, hextras, hexternals⟩
    -- Each way to be refused contradicts what was checked of that member.
    rintro (@⟨before, after, name, u, w, hrule, hlast, hinside, hw⟩ | ⟨hextra, hu, hinside, hw⟩ |
      ⟨hexternal, hu, hform⟩ | ⟨hname, hlist, hne⟩ | ⟨hobject, hne⟩ | hparent)
    · obtain rfl := hrules.mp hrule
      obtain ⟨d', hread⟩ := exists_of_entriesOr? hentries
        (List.mem_append_right before (List.mem_cons_self ..) : (name, u) ∈ before ++ (name, u) :: after)
      have hmem := (mem_iff_of_entriesOr? hentries).mpr ⟨before, u, after, rfl, hlast, hread⟩
      exact (RuleDoc.exists_toRule_iff hread).mp (hcompiled _ hmem) w hinside hw
    · have hvalue := (hholds (rfl : memberNames[2]? = _)).mp hextra
      obtain ⟨d', hread⟩ := exists_of_listOr? hlaid.extras hvalue hu
      exact (RuleDoc.exists_toRule_iff hread).mp (hextras _ hvalue _ hu d' hread) _ hinside hw
    · have hvalue := (hholds (rfl : memberNames[3]? = _)).mp hexternal
      obtain ⟨d', hread⟩ := exists_of_listOr? hlaid.externals hvalue hu
      exact hform ((RuleDoc.isReference_iff hread).mp (hexternals _ hvalue _ hu d' hread))
    · rcases List.mem_cons.mp hname with rfl | hname
      · exact hne (hprecedences _ ((hholds rfl).mp hlist))
      rcases List.mem_cons.mp hname with rfl | hname
      · exact hne (hinlined _ ((hholds rfl).mp hlist))
      · cases List.mem_singleton.mp hname
        exact hne (hsupertypes _ ((hholds rfl).mp hlist))
    · exact hne (hreserved _ ((hholds rfl).mp hobject))
    · exact hinherits _ ((hholds rfl).mp hparent)
  · -- Conversely, whatever fails its check gives one of the ways to be refused.
    intro hno
    refine ⟨⟨fun us hus => ?_, fun us hus => ?_, fun us hus => ?_, fun ms hms => ?_, fun s hs => ?_⟩,
      fun entry hentry => ?_, fun us hus u hu d' hread => ?_, fun us hus u hu d' hread => ?_⟩
    · exact by_contra fun hne => hno (.listed (by decide) ((hholds rfl).mpr hus) hne)
    · exact by_contra fun hne => hno (.listed (by decide) ((hholds rfl).mpr hus) hne)
    · exact by_contra fun hne => hno (.listed (by decide) ((hholds rfl).mpr hus) hne)
    · exact by_contra fun hne => hno (.reserved ((hholds rfl).mpr hms) hne)
    · exact hno (.parent ((hholds rfl).mpr hs))
    · obtain ⟨before, u, after, heq, hlast, hread⟩ := (mem_iff_of_entriesOr? hentries).mp hentry
      refine (RuleDoc.exists_toRule_iff hread).mpr fun w hinside hw => ?_
      exact hno (.rule (hrules.mpr heq.symm) hlast hinside hw)
    · exact (RuleDoc.exists_toRule_iff hread).mpr fun w hinside hw =>
        hno (.extra ((hholds rfl).mpr hus) hu hinside hw)
    · exact (RuleDoc.isReference_iff hread).mpr (by_contra fun hform =>
        hno (.external ((hholds rfl).mpr hus) hu hform))

end GrammarDoc

end LRWorkbench
