import LRWorkbench.Grammar.Document
import LRWorkbench.Proofs.Except
import Mathlib.Data.List.Nodup

/-!
# Shapes of rules

A rule of a document is an object with a `type`, or a list of the values of its members in their fixed
order. Either way its form tells which members it takes (`Json.Holds`), and what is read of it has the
shape of its form (`RuleDoc.shape_of_ofJson?`).
-/

namespace LRWorkbench

/-- Whether a value has another one as a member of a name: as one of the members of an object, or as
the item of a list that stands where the name does. -/
def Json.Holds (names : List String) (name : String) (v w : Json) : Prop :=
  match v with
  | object members => (name, w) ∈ members
  | list items => ∃ i : Nat, names[i]? = some name ∧ items[i]? = some w
  | _ => False

namespace RuleDoc

variable {names : List String} {name form : String} {nested : Bool} {depth : Nat}
variable {u v w body : Json} {d : RuleDoc} {found : List (Option Json)}

/-! ### Members -/

theorem eq_of_single? {members : List (String × Json)} {value : Option Json}
    (h : single? name members = some value) (hw : (name, w) ∈ members) : value = some w := by
  have hvalue : w ∈ Json.valuesOf name members :=
    List.mem_map.mpr ⟨(name, w), List.mem_filter.mpr ⟨hw, decide_eq_true rfl⟩, rfl⟩
  unfold single? at h
  split at h
  · rename_i heq
    rw [heq] at hvalue
    cases hvalue
  · rename_i heq
    rw [heq] at hvalue
    rw [List.mem_singleton.mp hvalue]
    exact (Option.some.inj h).symm
  · cases h

theorem mem_of_single? {members : List (String × Json)} (h : single? name members = some (some w)) :
    (name, w) ∈ members := by
  have hvalue : w ∈ Json.valuesOf name members := by
    unfold single? at h
    split at h
    · cases h
    · rename_i heq
      cases h
      rw [heq]
      exact List.mem_singleton_self _
    · cases h
  obtain ⟨m, hm, rfl⟩ := List.mem_map.mp hvalue
  obtain ⟨hm, hname⟩ := List.mem_filter.mp hm
  rwa [← of_decide_eq_true hname]

/-- A value has that as a member which is laid out where the name stands. -/
theorem holds_iff_of_layOut? (h : layOut? names v = some found) (hnames : names.Nodup) {i : Nat}
    (hi : names[i]? = some name) : v.Holds names name w ↔ found[i]? = some (some w) := by
  cases v with
  | object members =>
    obtain ⟨value, hvalue, hsingle⟩ := getElem?_of_mapM h hi
    rw [hvalue]
    constructor
    · intro hw
      rw [eq_of_single? hsingle hw]
    · intro hw
      cases hw
      exact mem_of_single? hsingle
  | list items =>
    rw [layOut?] at h
    split at h
    · cases h
      constructor
      · rintro ⟨j, hj, hitem⟩
        obtain ⟨hlt, hi⟩ := List.getElem?_eq_some_iff.mp hi
        obtain ⟨hlt', hj⟩ := List.getElem?_eq_some_iff.mp hj
        obtain rfl : i = j := (List.Nodup.getElem_inj_iff hnames).mp (hi.trans hj.symm)
        have hlt := (List.getElem?_eq_some_iff.mp hitem).1
        rw [List.getElem?_append_left (by simpa using hlt), List.getElem?_map, hitem]
        rfl
      · intro hw
        refine ⟨i, hi, ?_⟩
        rcases Nat.lt_or_ge i items.length with hlt | hge
        · rw [List.getElem?_append_left (by simpa using hlt), List.getElem?_map] at hw
          obtain ⟨item, hitem, heq⟩ := Option.map_eq_some_iff.mp hw
          rw [hitem, Option.some.inj heq]
        · rw [List.getElem?_append_right (by simpa using hge)] at hw
          cases List.eq_of_mem_replicate (List.mem_of_getElem? hw)
    · cases h
  | _ => cases h

theorem length_of_layOut? (h : layOut? names v = some found) : found.length = names.length := by
  cases v with
  | object members => exact length_of_mapM h
  | list items =>
    rw [layOut?] at h
    split at h
    · cases h
      simp only [List.length_append, List.length_map, List.length_replicate]
      omega
    · cases h
  | _ => cases h

theorem nodup_memberNames (form : String) : (memberNames form).Nodup := by
  unfold memberNames
  split_ifs <;> decide

theorem type_not_mem_memberNames (form : String) : "type" ∉ memberNames form := by
  unfold memberNames
  split_ifs <;> decide

theorem text?_eq_some {first : Option Json} {s : String} (h : text? first = some s) :
    first = some (.text s) := by
  unfold text? at h
  split at h
  · exact congrArg (some <| Json.text ·) (Option.some.inj h)
  · cases h

theorem items_of_mapM {read : Json → Option RuleDoc} {first : Option Json} {ds : List RuleDoc}
    (h : (match first with
      | some (.list items) => items.mapM read
      | _ => none) = some ds) : ∃ us, first = some (.list us) ∧ us.mapM read = some ds := by
  split at h
  · exact ⟨_, rfl, h⟩
  · cases h

/-! ### Forms -/

/-- Whether the `type` of a value is that of a form. -/
def HasForm (form : String) (v : Json) : Prop :=
  ∃ t, v.Holds ["type"] "type" t ∧ formOf? true t = some form

theorem mem_forms_of_formOf? (h : formOf? nested v = some form) : form ∈ forms := by
  cases v with
  | text name =>
    change (if name ∈ forms then some name else none) = some form at h
    split at h
    · cases h
      assumption
    · cases h
  | int n =>
    change (if nested = true ∧ 0 ≤ n then forms[n.toNat]? else none) = some form at h
    split at h
    · exact List.mem_of_getElem? h
    · cases h
  | _ => cases h

/-- Inside another rule, every `type` counts that does elsewhere. -/
theorem formOf?_true (h : formOf? nested v = some form) : formOf? true v = some form := by
  cases v with
  | int n =>
    change (if nested = true ∧ 0 ≤ n then forms[n.toNat]? else none) = some form at h
    split at h
    · rename_i hn
      exact (if_pos ⟨rfl, hn.2⟩).trans h
    · cases h
  | _ => exact h

theorem mem_forms_of_split? (h : split? nested v = some (form, body)) : form ∈ forms := by
  cases v with
  | object members =>
    obtain ⟨value, -, h⟩ := Option.bind_eq_some_iff.mp h
    obtain ⟨t, -, h⟩ := Option.bind_eq_some_iff.mp h
    obtain ⟨form', hform, h⟩ := Option.bind_eq_some_iff.mp h
    cases h
    exact mem_forms_of_formOf? hform
  | list items =>
    cases items with
    | nil => cases h
    | cons t items =>
      obtain ⟨form', hform, h⟩ := Option.bind_eq_some_iff.mp h
      cases h
      exact mem_forms_of_formOf? hform
  | _ => cases h

/-- A value is split into its only form and all else that it has as members. -/
theorem holds_iff_of_split? (h : split? nested v = some (form, body)) :
    (∀ form', HasForm form' v ↔ form' = form) ∧
      ∀ names name w, name ≠ "type" → (v.Holds ("type" :: names) name w ↔ body.Holds names name w) := by
  cases v with
  | object members =>
    obtain ⟨value, hvalue, h⟩ := Option.bind_eq_some_iff.mp h
    obtain ⟨t, ht, h⟩ := Option.bind_eq_some_iff.mp h
    obtain ⟨form', hform, h⟩ := Option.bind_eq_some_iff.mp h
    cases h
    cases ht
    refine ⟨fun form' => ⟨?_, ?_⟩, fun names name w hname => ?_⟩
    · rintro ⟨t', ht', hform'⟩
      cases eq_of_single? hvalue ht'
      exact Option.some.inj (hform'.symm.trans (formOf?_true hform))
    · rintro rfl
      exact ⟨t, mem_of_single? hvalue, formOf?_true hform⟩
    · exact ⟨fun hw => List.mem_filter.mpr ⟨hw, decide_eq_true hname⟩, fun hw =>
        (List.mem_filter.mp hw).1⟩
  | list items =>
    cases items with
    | nil => cases h
    | cons t items =>
      obtain ⟨form', hform, h⟩ := Option.bind_eq_some_iff.mp h
      cases h
      refine ⟨fun form' => ⟨?_, ?_⟩, fun names name w hname => ⟨?_, ?_⟩⟩
      · rintro ⟨t', ⟨i, hi, ht'⟩, hform'⟩
        match i with
        | 0 =>
          cases ht'
          exact Option.some.inj (hform'.symm.trans (formOf?_true hform))
        | _ + 1 => cases hi
      · rintro rfl
        exact ⟨t, ⟨0, rfl, rfl⟩, formOf?_true hform⟩
      · rintro ⟨i, hi, hw⟩
        match i with
        | 0 => exact absurd (Option.some.inj hi).symm hname
        | i + 1 => exact ⟨i, hi, hw⟩
      · rintro ⟨i, hi, hw⟩
        exact ⟨i + 1, hi, hw⟩
  | _ => cases h

/-- The forms that cannot be compiled. -/
def refusedForms : List String := ["ALIAS", "IMMEDIATE_TOKEN", "PREC_DYNAMIC", "RESERVED"]

/-- The forms of levels of precedence, with the side to nest on. -/
def levelForms : List (String × Option Assoc) :=
  [("PREC", none), ("PREC_LEFT", some .left), ("PREC_RIGHT", some .right)]

theorem memberNames_of_mem_levelForms : ∀ p ∈ levelForms, memberNames p.1 = ["value", "content"] := by
  decide

theorem memberNames_of_mem_refusedForms : ∀ form ∈ refusedForms, memberNames form = [] := by
  decide

/-- How a form and its members in their order make a rule, with a reader for the rules inside. -/
inductive Shape (read : Json → Option RuleDoc) : String → List (Option Json) → RuleDoc → Prop
  | blank : Shape read "BLANK" [] .blank
  | literal {text : String} : Shape read "STRING" [some (.text text)] (.literal text)
  | pattern {text : String} {second : Option Json} {flags : Option String}
    (h : optionalText? second = some flags) :
    Shape read "PATTERN" [some (.text text), second] (.pattern text flags)
  | reference {name : String} : Shape read "SYMBOL" [some (.text name)] (.reference name)
  | seq {us : List Json} {ds : List RuleDoc} (h : us.mapM read = some ds) :
    Shape read "SEQ" [some (.list us)] (.seq ds)
  | choice {us : List Json} {ds : List RuleDoc} (h : us.mapM read = some ds) :
    Shape read "CHOICE" [some (.list us)] (.choice ds)
  | zeroOrMore {u : Json} {d : RuleDoc} (h : read u = some d) :
    Shape read "REPEAT" [some u] (.zeroOrMore d)
  | oneOrMore {u : Json} {d : RuleDoc} (h : read u = some d) :
    Shape read "REPEAT1" [some u] (.oneOrMore d)
  | field {name : String} {u : Json} {d : RuleDoc} (h : read u = some d) :
    Shape read "FIELD" [some (.text name), some u] (.field name d)
  | token {u : Json} {d : RuleDoc} (h : read u = some d) : Shape read "TOKEN" [some u] (.token d)
  | prec {form : String} {assoc : Option Assoc} {first : Option Json} {level : LevelDoc} {u : Json}
    {d : RuleDoc} (hform : (form, assoc) ∈ levelForms) (hlevel : level? first = some level)
    (h : read u = some d) : Shape read form [first, some u] (.prec assoc level d)
  | refused {form : String} (hform : form ∈ refusedForms) : Shape read form [] (.refused form)

/-- Whether a value has a form, and as members what stands where their names do. -/
structure IsLaidOut (v : Json) (form : String) (found : List (Option Json)) : Prop where
  hasForm_iff : ∀ form', HasForm form' v ↔ form' = form
  holds_iff : ∀ {i : Nat} {name : String} {w : Json}, (memberNames form)[i]? = some name →
    (v.Holds ("type" :: memberNames form) name w ↔ found[i]? = some (some w))

theorem isLaidOut_of_split? (hsplit : split? nested v = some (form, body))
    (hfound : memberNames form ≠ [] → layOut? (memberNames form) body = some found) :
    IsLaidOut v form found := by
  obtain ⟨hform, hholds⟩ := holds_iff_of_split? hsplit
  refine ⟨hform, fun {i name w} hi => ?_⟩
  have hmem := List.mem_of_getElem? hi
  have hname : name ≠ "type" := fun heq => type_not_mem_memberNames form (heq ▸ hmem)
  rw [hholds _ _ _ hname,
    holds_iff_of_layOut? (hfound (List.ne_nil_of_mem hmem)) (nodup_memberNames form) hi]

/-- **Shapes.** What is read as a rule has the shape of its form. -/
theorem shape_of_ofJson? (h : ofJson? (depth + 1) nested v = some d) :
    ∃ form found, IsLaidOut v form found ∧ Shape (ofJson? depth true) form found d := by
  rw [ofJson?] at h
  obtain ⟨⟨form, body⟩, hsplit, h⟩ := Option.bind_eq_some_iff.mp h
  have hforms := mem_forms_of_split? hsplit
  dsimp only at h
  by_cases hblank : form = "BLANK"
  · subst hblank
    rw [if_pos rfl] at h
    refine ⟨_, [], isLaidOut_of_split? hsplit (absurd rfl), ?_⟩
    split at h
    · cases h
    · cases h
      exact .blank
  · rw [if_neg hblank] at h
    obtain ⟨found, hfound, h⟩ := Option.bind_eq_some_iff.mp h
    refine ⟨form, found, isLaidOut_of_split? hsplit fun _ => hfound, ?_⟩
    have hlength := length_of_layOut? hfound
    -- one case for each form, in the order of the reader
    split at h
    case h_1 =>
      obtain ⟨first, rfl⟩ := List.length_eq_one_iff.mp hlength
      obtain ⟨text, htext, rfl⟩ := Option.map_eq_some_iff.mp h
      cases text?_eq_some htext
      exact .literal
    case h_2 =>
      obtain ⟨first, second, rfl⟩ := List.length_eq_two.mp hlength
      obtain ⟨text, htext, h⟩ := Option.bind_eq_some_iff.mp h
      obtain ⟨flags, hflags, h⟩ := Option.bind_eq_some_iff.mp h
      cases h
      cases text?_eq_some htext
      exact .pattern hflags
    case h_3 =>
      obtain ⟨first, rfl⟩ := List.length_eq_one_iff.mp hlength
      obtain ⟨name, hname, rfl⟩ := Option.map_eq_some_iff.mp h
      cases text?_eq_some hname
      exact .reference
    case h_4 | h_5 =>
      obtain ⟨first, rfl⟩ := List.length_eq_one_iff.mp hlength
      obtain ⟨ds, hds, rfl⟩ := Option.map_eq_some_iff.mp h
      obtain ⟨us, rfl, hus⟩ := items_of_mapM hds
      constructor
      exact hus
    case h_6 | h_7 | h_9 =>
      obtain ⟨first, rfl⟩ := List.length_eq_one_iff.mp hlength
      obtain ⟨d, hd, rfl⟩ := Option.map_eq_some_iff.mp h
      obtain ⟨u, rfl, hu⟩ := Option.bind_eq_some_iff.mp hd
      constructor
      exact hu
    case h_8 =>
      obtain ⟨first, second, rfl⟩ := List.length_eq_two.mp hlength
      obtain ⟨name, hname, h⟩ := Option.bind_eq_some_iff.mp h
      obtain ⟨d, hd, h⟩ := Option.bind_eq_some_iff.mp h
      cases h
      obtain ⟨u, rfl, hu⟩ := Option.bind_eq_some_iff.mp hd
      cases text?_eq_some hname
      exact .field hu
    case h_10 | h_11 | h_12 =>
      obtain ⟨first, second, rfl⟩ := List.length_eq_two.mp hlength
      obtain ⟨level, hlevel, h⟩ := Option.bind_eq_some_iff.mp h
      obtain ⟨d, hd, h⟩ := Option.bind_eq_some_iff.mp h
      cases h
      obtain ⟨u, rfl, hu⟩ := Option.bind_eq_some_iff.mp hd
      exact .prec (by decide) hlevel hu
    case h_13 =>
      cases h
      have hrefused : form ∈ refusedForms := by
        simp_all [forms, refusedForms]
      rw [memberNames_of_mem_refusedForms form hrefused] at hlength
      cases List.length_eq_zero_iff.mp hlength
      exact .refused hrefused

end RuleDoc

end LRWorkbench
