import LRWorkbench.Proofs.Except
import LRWorkbench.Query.Pattern
import Mathlib.Data.List.Basic
import Mathlib.Data.List.Forall2

/-!
# Looking names up

A query that was made **mirrors** what was written (`AllMirror`): pattern by pattern, child by child and
field by field, with nothing left out, every name being what the table says it is.

What cannot be used is left out only on the way. Each place that leaves something out reports an error
(`accounts_pattern`), and a query is only made where there is no error.

**Main statement.** `ofText_mirrors`: a query mirrors what was written, and there is a query just if all
that was written can be mirrored.
-/

namespace LRWorkbench.Query

variable {t : ParseTable}

/-! ### Mirrors -/

/-- Whether the kind of a node is what the table says, a kind that shows. -/
def KindMirrors (t : ParseTable) : Option Name → Option Symbol → Prop
  | none, none => True
  | some name, some symbol => t.symbolFor? name.text true = some symbol ∧ t.isVisible symbol = true
  | _, _ => False

/-- Whether a field is what the table says. -/
def FieldMirrors (t : ParseTable) (name : Name) (field : FieldId) : Prop :=
  t.fieldFor? name.text = some field

/-- Whether there is a field just if one is written, and it is what the table says. -/
def FieldsMirror (t : ParseTable) : Option Name → Option FieldId → Prop
  | none, none => True
  | some name, some field => FieldMirrors t name field
  | _, _ => False

/-- Whether captures stand for their names. -/
def CapturesMirror (names : List String) (written : List Name) (captures : List Nat) : Prop :=
  List.Forall₂ (fun name capture => names[capture]? = some name.text) written captures

mutual

/-- Whether a pattern mirrors what is written, given the names of captures. -/
def PatternMirrors (t : ParseTable) (names : List String) : PatternSyntax → Pattern → Prop
  | .mk written captures _, .mk form found =>
    FormMirrors t names written form ∧ CapturesMirror names captures found

/-- Whether what a pattern asks for mirrors what is written. Errors are asked for without children and
fields. -/
def FormMirrors (t : ParseTable) (names : List String) : FormSyntax → PatternForm → Prop
  | .wildcard, .wildcard => True
  | .text text, .anonymous symbol => t.symbolFor? text.text false = some symbol
  | .choice written, .choice alternatives => AllMirror t names written alternatives
  | .node name written absent, .node symbol children negated =>
    KindMirrors t name symbol ∧
      (name.any (fun name => name.text = "ERROR") = true → written = [] ∧ absent = []) ∧
      ChildrenMirror t names written children ∧ List.Forall₂ (FieldMirrors t) absent negated
  | _, _ => False

/-- Whether several patterns mirror what is written, one by one. -/
def AllMirror (t : ParseTable) (names : List String) : List PatternSyntax → List Pattern → Prop
  | [], [] => True
  | written :: rest, p :: others => PatternMirrors t names written p ∧ AllMirror t names rest others
  | _, _ => False

/-- Whether a pattern for a child mirrors what is written. -/
def ChildMirrors (t : ParseTable) (names : List String) : ChildSyntax → ChildPattern → Prop
  | .mk name written often, .mk field p quantifier =>
    FieldsMirror t name field ∧ PatternMirrors t names written p ∧ often = quantifier

/-- Whether several patterns for children mirror what is written, one by one. -/
def ChildrenMirror (t : ParseTable) (names : List String) : List ChildSyntax → List ChildPattern → Prop
  | [], [] => True
  | written :: rest, c :: others => ChildMirrors t names written c ∧ ChildrenMirror t names rest others
  | _, _ => False

end

/-! ### What every step keeps -/

/-- Whether names of captures were only added, and errors only reported. -/
structure Naming.Grows (s s' : Naming) : Prop where
  names : s.captureNames <+: s'.captureNames
  nodup : s.captureNames.Nodup → s'.captureNames.Nodup
  reported : ∃ ds, s'.reported = ds ++ s.reported ∧ ∀ d ∈ ds, d.isError = true

instance : Reporting Naming where
  reported := Naming.reported
  Leads := Naming.Grows
  refl s := ⟨List.prefix_refl _, id, [], rfl, nofun⟩
  trans := by
    rintro s s' s'' ⟨hnames, hnodup, ds, hds, herrors⟩ ⟨hnames', hnodup', ds', hds', herrors'⟩
    refine ⟨hnames.trans hnames', hnodup' ∘ hnodup, ds' ++ ds, ?_, ?_⟩
    · rw [hds', hds, List.append_assoc]
    · exact List.forall_mem_append.mpr ⟨herrors', herrors⟩
  grows h := h.reported

namespace Resolve

variable {α β : Type}

/-- What is found whatever names of captures are added later. -/
def Lasting (P : List String → α → Prop) (a : α) (s : Naming) : Prop :=
  ∀ names, s.captureNames <+: names → P names a

/-- Whether something is found that has a property whatever names of captures are added later. -/
def Finds (P : List String → α → Prop) (found : Option α) (s : Naming) : Prop :=
  ∃ a, found = some a ∧ Lasting P a s

/-- What is found whatever is added later is found so after some of it was added. -/
theorem Lasting.later {P : List String → α → Prop} {a : α} {s s' : Naming} (h : Lasting P a s)
    (hlater : Reporting.Leads s s') : Lasting P a s' := fun names hnames =>
  h names (List.IsPrefix.trans (Naming.Grows.names hlater) hnames)

/-! ### Single names -/

/-- What is reported is not taken for found. -/
theorem accounts_report {d : Diagnostic} (hd : d.isError = true) (s : Naming) (a : α)
    (P : α → Naming → Prop) : Accounts (do report d; return a) s P where
  leads := ⟨List.prefix_refl _, id, [d], rfl, by simpa using hd⟩
  found hquiet := absurd hquiet (List.cons_ne_self d s.reported)

/-- A capture gets the place of its name, behind all others if the name is new. -/
theorem capture_apply (name : Name) (s : Naming) :
    capture name s = match s.captureNames.findIdx? fun other => other = name.text with
      | some index => (index, s)
      | none => (s.captureNames.length, { s with captureNames := s.captureNames ++ [name.text] }) := by
  rw [capture, bind_apply, get_apply]
  dsimp only
  cases s.captureNames.findIdx? fun other => other = name.text <;> rfl

/-- The place of a capture is that of its name, and no name gets two places. -/
theorem accounts_capture (name : Name) (s : Naming) :
    Accounts (capture name) s (Lasting fun names place => names[place]? = some name.text) := by
  have hrun := capture_apply name s
  cases hfind : s.captureNames.findIdx? fun other => other = name.text with
  | some place =>
    rw [hfind] at hrun
    refine ⟨by rw [hrun]; exact Reporting.refl s, fun _ => ?_⟩
    rw [hrun]
    rintro names ⟨later, rfl⟩
    obtain ⟨hlt, hat, -⟩ := List.findIdx?_eq_some_iff_getElem.mp hfind
    rw [List.getElem?_append_left hlt, List.getElem?_eq_getElem hlt]
    exact congrArg some (of_decide_eq_true hat)
  | none =>
    rw [hfind] at hrun
    have hnew : name.text ∉ s.captureNames := fun hmem => by
      have hnot := List.findIdx?_eq_none_iff.mp hfind _ hmem
      simp at hnot
    refine ⟨?_, fun _ => ?_⟩
    · rw [hrun]
      refine ⟨List.prefix_append _ _, fun hnodup => ?_, [], rfl, nofun⟩
      refine List.nodup_append.mpr ⟨hnodup, by simp, ?_⟩
      rintro other hmem _ hname rfl
      rw [List.mem_singleton.mp hname] at hmem
      exact hnew hmem
    · rw [hrun]
      rintro names ⟨later, rfl⟩
      simp

/-- The captures of a pattern stand for their names, and go on doing so. -/
theorem accounts_captures (written : List Name) (s : Naming) :
    Accounts (written.mapM capture) s (Lasting fun names found => CapturesMirror names written found) := by
  induction written generalizing s with
  | nil => exact .pure fun _ _ => .nil
  | cons name rest ih =>
    rw [List.mapM_cons]
    refine (accounts_capture name s).bind fun place s₁ _ => (ih s₁).bind fun places s₂ _ => .pure ?_
    intro hplaces _ hplace hlater names hnames
    exact .cons (hplace.later hlater names hnames) (hplaces names hnames)

/-- A kind is found by its name if it shows, or the name is reported. -/
theorem accounts_named (name : Name) (s : Naming) : Accounts (named t name) s fun found _ =>
    ∃ symbol, found = some symbol ∧ t.symbolFor? name.text true = some symbol ∧
      t.isVisible symbol = true := by
  rw [named]
  cases hsymbol : t.symbolFor? name.text true with
  | none => exact accounts_report rfl s none _
  | some symbol =>
    dsimp only
    split
    · rename_i hvisible
      exact .pure ⟨symbol, rfl, rfl, hvisible⟩
    · exact accounts_report rfl s none _

/-- A text is found as a token of that text, or reported. -/
theorem accounts_anonymous (text : Name) (s : Naming) : Accounts (anonymous t text) s fun found _ =>
    ∃ symbol, found = some symbol ∧ t.symbolFor? text.text false = some symbol := by
  rw [anonymous]
  cases hsymbol : t.symbolFor? text.text false with
  | none => exact accounts_report rfl s none _
  | some symbol => exact .pure ⟨symbol, rfl, rfl⟩

/-- A field is found by its name, or reported. -/
theorem accounts_field (name : Name) (s : Naming) :
    Accounts (field t name) s (Finds fun _ => FieldMirrors t name) := by
  rw [field]
  cases hfield : t.fieldFor? name.text with
  | none => exact accounts_report rfl s none _
  | some field => exact .pure ⟨field, rfl, fun _ _ => hfield⟩

/-- The kind of a node. Errors are asked for without children and fields. -/
theorem accounts_kind (span : Span) (name : Option Name) (isBare : Bool) (s : Naming) :
    Accounts (kind t span name isBare) s fun found _ => ∃ symbol, found = some symbol ∧
      KindMirrors t name symbol ∧ (name.any (fun name => name.text = "ERROR") = true → isBare = true) := by
  cases name with
  | none => exact .pure ⟨none, rfl, trivial, nofun⟩
  | some name =>
    rw [kind]
    split
    · rename_i hname
      refine (accounts_named name s).bind fun found s₁ _ => .pure ?_
      rintro ⟨symbol, rfl, hsymbol⟩ _
      exact ⟨some symbol, rfl, hsymbol, fun herror => absurd (by simpa using herror) hname⟩
    · rename_i hname
      split
      · rename_i hbare
        have herror : t.symbolFor? name.text true = some .error := by
          rw [not_not.mp hname]
          rfl
        exact .pure ⟨some .error, rfl, ⟨herror, rfl⟩, fun _ => hbare⟩
      · exact accounts_report rfl s none _

/-! ### Patterns -/

/-- What is looked up one by one, and left out where it is not found. -/
theorem accounts_filterMapM {look : α → Resolve (Option β)} {R : List String → α → β → Prop}
    (h : ∀ a s, Accounts (look a) s (Finds fun names => R names a)) (l : List α) (s : Naming) :
    Accounts (l.filterMapM look) s (Lasting fun names found => List.Forall₂ (R names) l found) := by
  induction l generalizing s with
  | nil => exact .pure fun _ _ => .nil
  | cons a l ih =>
    rw [List.filterMapM_cons]
    refine (h a s).bind fun found s₁ _ => ?_
    cases found with
    | none =>
      refine (ih s₁).mono fun _ _ _ hfound => ?_
      obtain ⟨_, hnone, -⟩ := hfound
      cases hnone
    | some b =>
      refine (ih s₁).bind fun bs s₂ _ => .pure ?_
      rintro hbs _ ⟨_, heq, hb⟩ hlater names hnames
      cases heq
      exact .cons (hb.later hlater names hnames) (hbs names hnames)

mutual

/-- **Nothing is left out in silence.** A pattern mirrors what was written, or something was
reported. The induction goes along with what is written. -/
theorem accounts_pattern : ∀ (p : PatternSyntax) (s : Naming),
    Accounts (pattern t p) s (Finds fun names => PatternMirrors t names p)
  | .mk written captures span, s => by
    rw [pattern]
    refine (accounts_form span written s).bind fun found s₁ _ =>
      (accounts_captures captures s₁).bind fun places s₂ _ => .pure ?_
    rintro hplaces _ ⟨form, rfl, hform⟩ hlater
    exact ⟨_, rfl, fun names hnames => ⟨hform.later hlater names hnames, hplaces names hnames⟩⟩

theorem accounts_form (span : Span) : ∀ (written : FormSyntax) (s : Naming),
    Accounts (form t span written) s (Finds fun names => FormMirrors t names written)
  | .wildcard, s => by
    rw [form]
    exact .pure ⟨_, rfl, fun _ _ => trivial⟩
  | .text text, s => by
    rw [form]
    refine (accounts_anonymous text s).bind fun found s₁ _ => .pure ?_
    rintro ⟨symbol, rfl, hsymbol⟩ _
    exact ⟨_, rfl, fun _ _ => hsymbol⟩
  | .choice written, s => by
    rw [form]
    refine (accounts_allPatterns written s).bind fun found s₁ _ => .pure ?_
    rintro ⟨alternatives, rfl, hall⟩ _
    exact ⟨_, rfl, hall⟩
  | .node name written absent, s => by
    rw [form]
    refine (accounts_kind span name _ s).bind fun found s₁ _ => ?_
    cases found with
    | none =>
      refine .pure fun hkind => ?_
      obtain ⟨_, hnone, -⟩ := hkind
      cases hnone
    | some symbol =>
      refine (accounts_allChildren written s₁).bind fun found s₂ _ =>
        (accounts_filterMapM accounts_field absent s₂).bind fun negated s₃ _ => .pure ?_
      rintro hnegated _ ⟨children, rfl, hchildren⟩ hlater ⟨_, heq, hkind, hbare⟩ _
      cases heq
      refine ⟨_, rfl, fun names hnames => ⟨hkind, fun herror => ?_,
        hchildren.later hlater names hnames, hnegated names hnames⟩⟩
      simpa using hbare herror

theorem accounts_allPatterns : ∀ (written : List PatternSyntax) (s : Naming),
    Accounts (allPatterns t written) s (Finds fun names => AllMirror t names written)
  | [], s => by
    rw [allPatterns]
    exact .pure ⟨_, rfl, fun _ _ => trivial⟩
  | written :: rest, s => by
    rw [allPatterns]
    refine (accounts_pattern written s).bind fun first s₁ _ =>
      (accounts_allPatterns rest s₁).bind fun others s₂ _ => .pure ?_
    rintro ⟨others, rfl, hothers⟩ _ ⟨p, rfl, hp⟩ hlater
    exact ⟨_, rfl, fun names hnames => ⟨hp.later hlater names hnames, hothers names hnames⟩⟩

theorem accounts_child : ∀ (written : ChildSyntax) (s : Naming),
    Accounts (child t written) s (Finds fun names => ChildMirrors t names written)
  | .mk none written often, s => by
    rw [child]
    refine (accounts_pattern written s).bind fun found s₁ _ => .pure ?_
    rintro ⟨p, rfl, hp⟩ _
    exact ⟨_, rfl, fun names hnames => ⟨trivial, hp names hnames, rfl⟩⟩
  | .mk (some name) written often, s => by
    rw [child]
    refine (accounts_field name s).bind fun field s₁ _ =>
      (accounts_pattern written s₁).bind fun found s₂ _ => .pure ?_
    rintro ⟨p, rfl, hp⟩ _ ⟨field, rfl, hfield⟩ hlater
    exact ⟨_, rfl, fun names hnames =>
      ⟨hfield.later hlater names hnames, hp names hnames, rfl⟩⟩

theorem accounts_allChildren : ∀ (written : List ChildSyntax) (s : Naming),
    Accounts (allChildren t written) s (Finds fun names => ChildrenMirror t names written)
  | [], s => by
    rw [allChildren]
    exact .pure ⟨_, rfl, fun _ _ => trivial⟩
  | written :: rest, s => by
    rw [allChildren]
    refine (accounts_child written s).bind fun first s₁ _ =>
      (accounts_allChildren rest s₁).bind fun others s₂ _ => .pure ?_
    rintro ⟨others, rfl, hothers⟩ _ ⟨c, rfl, hc⟩ hlater
    exact ⟨_, rfl, fun names hnames => ⟨hc.later hlater names hnames, hothers names hnames⟩⟩

end

/-! ### What can be mirrored is not reported -/

/-- Whether a step reports nothing. -/
def Quiet (p : Resolve α) : Prop := ∀ s, (p s).2.reported = s.reported

theorem Quiet.pure (a : α) : Quiet (pure a) := fun _ => rfl

/-- Steps that report nothing, one after the other. -/
theorem Quiet.bind {p : Resolve α} {f : α → Resolve β} (hp : Quiet p) (hf : ∀ a, Quiet (f a)) :
    Quiet (p >>= f) := fun s => (hf _ _).trans (hp s)

/-- Captures are never reported. -/
theorem quiet_capture (name : Name) : Quiet (capture name) := by
  intro s
  rw [capture_apply]
  split <;> rfl

theorem quiet_captures (written : List Name) : Quiet (written.mapM capture) := by
  induction written with
  | nil => exact .pure []
  | cons name rest ih =>
    rw [List.mapM_cons]
    exact (quiet_capture name).bind fun _ => ih.bind fun _ => .pure _

/-- What mirrors a field is found for it. -/
theorem field_apply {name : Name} {found : FieldId} (h : FieldMirrors t name found) (s : Naming) :
    field t name s = (some found, s) := by
  have hfield : t.fieldFor? name.text = some found := h
  rw [field, hfield]
  rfl

/-- If each of several is looked up quietly so are all. -/
theorem quiet_filterMapM {look : α → Resolve (Option β)} {R : α → β → Prop} {l : List α} {bs : List β}
    (h : List.Forall₂ R l bs) (hlook : ∀ a b, R a b → Quiet (look a)) : Quiet (l.filterMapM look) := by
  induction h with
  | nil => exact .pure []
  | cons hab _ ih =>
    rw [List.filterMapM_cons]
    refine (hlook _ _ hab).bind fun found => ?_
    cases found with
    | none => exact ih
    | some b => exact ih.bind fun _ => .pure _

/-- What mirrors the kind of a node is found for it. -/
theorem kind_mirrors {span : Span} {name : Option Name} {symbol : Option Symbol} {isBare : Bool}
    (h : KindMirrors t name symbol)
    (hbare : name.any (fun name => name.text = "ERROR") = true → isBare = true) (s : Naming) :
    kind t span name isBare s = (some symbol, s) := by
  match name, symbol, h with
  | none, none, _ => rfl
  | some name, some symbol, ⟨hsymbol, hvisible⟩ =>
    rw [kind]
    split
    · rw [named, hsymbol]
      dsimp only
      rw [if_pos hvisible]
      rfl
    · rename_i hname
      have hname := not_not.mp hname
      rw [if_pos (hbare (by simp [hname]))]
      rw [hname] at hsymbol
      obtain rfl := Option.some.inj hsymbol
      rfl

mutual

/-- **What can be mirrored is looked up quietly**, by induction on what is written. -/
theorem quiet_pattern : ∀ (written : PatternSyntax) {names : List String} {p : Pattern},
    PatternMirrors t names written p → Quiet (pattern t written)
  | .mk written captures span, names, .mk _ _, ⟨hform, _⟩ => by
    rw [pattern]
    exact (quiet_form span written hform).bind fun _ => (quiet_captures captures).bind fun _ => .pure _

theorem quiet_form (span : Span) : ∀ (written : FormSyntax) {names : List String} {form : PatternForm},
    FormMirrors t names written form → Quiet (Resolve.form t span written)
  | .wildcard, _, .wildcard, _ => .pure _
  | .text text, _, .anonymous symbol, hsymbol => by
    have hsymbol : t.symbolFor? text.text false = some symbol := hsymbol
    intro s
    rw [Resolve.form, bind_apply, anonymous, hsymbol]
    rfl
  | .choice written, _, .choice _, hall => by
    rw [Resolve.form]
    exact (quiet_allPatterns written hall).bind fun _ => .pure _
  | .node name written absent, _, .node symbol _ _, ⟨hkind, hbare, hchildren, hnegated⟩ => by
    intro s
    rw [Resolve.form, bind_apply, kind_mirrors hkind fun herror => by simpa using hbare herror]
    have hfields : Quiet (absent.filterMapM (field t)) :=
      quiet_filterMapM hnegated fun name found hfield s => by rw [field_apply hfield]
    exact (quiet_allChildren written hchildren).bind (fun _ => hfields.bind fun _ => .pure _) s

theorem quiet_allPatterns : ∀ (written : List PatternSyntax) {names : List String} {ps : List Pattern},
    AllMirror t names written ps → Quiet (allPatterns t written)
  | [], _, [], _ => .pure _
  | written :: rest, _, _ :: _, ⟨hp, hothers⟩ => by
    rw [allPatterns]
    exact (quiet_pattern written hp).bind fun _ => (quiet_allPatterns rest hothers).bind fun _ => .pure _

theorem quiet_child : ∀ (written : ChildSyntax) {names : List String} {c : ChildPattern},
    ChildMirrors t names written c → Quiet (child t written)
  | .mk none written often, _, .mk _ _ _, ⟨_, hp, _⟩ => by
    rw [child]
    exact (quiet_pattern written hp).bind fun _ => .pure _
  | .mk (some name) written often, _, .mk (some found) _ _, ⟨hfield, hp, _⟩ => by
    intro s
    rw [child, bind_apply, field_apply hfield]
    exact (quiet_pattern written hp).bind (fun _ => .pure _) s

theorem quiet_allChildren : ∀ (written : List ChildSyntax) {names : List String}
    {children : List ChildPattern}, ChildrenMirror t names written children →
    Quiet (allChildren t written)
  | [], _, [], _ => .pure _
  | written :: rest, _, _ :: _, ⟨hc, hothers⟩ => by
    rw [allChildren]
    exact (quiet_child written hc).bind fun _ => (quiet_allChildren rest hothers).bind fun _ => .pure _

end

end Resolve

/-! ### Queries -/

/-- Patterns mirror what is written one by one. -/
theorem allMirror_iff {names : List String} {written : List PatternSyntax} {ps : List Pattern} :
    AllMirror t names written ps ↔ List.Forall₂ (PatternMirrors t names) written ps := by
  induction written generalizing ps with
  | nil => cases ps <;> simp [AllMirror]
  | cons first rest ih => cases ps <;> simp [AllMirror, ih]

/-- All patterns of a query with their names looked up, and what is known after that. -/
def resolved (t : ParseTable) (written : List PatternSyntax) : List Pattern × Naming :=
  (written.filterMapM (Resolve.pattern t)).run ⟨[], []⟩

/-- The patterns of a query mirror what was written, or something was reported. -/
theorem accounts_resolved (written : List PatternSyntax) :
    Accounts (written.filterMapM (Resolve.pattern t)) ⟨[], []⟩ (Resolve.Lasting fun names found =>
      List.Forall₂ (PatternMirrors t names) written found) :=
  Resolve.accounts_filterMapM Resolve.accounts_pattern written _

/-- A query is made where neither reading nor looking up reports an error. -/
theorem ofText_eq_ok {source : List Char} {q : Query} : ofText t source = .ok q ↔
    (∀ d ∈ (parse source).2, d.isError = false) ∧ (resolved t (parse source).1).2.reported = [] ∧
      q = ⟨(resolved t (parse source).1).1, (resolved t (parse source).1).2.captureNames⟩ := by
  obtain ⟨ds, hds, herrors⟩ := (accounts_resolved (t := t) (parse source).1).leads.reported
  have hds : (resolved t (parse source).1).2.reported = ds := hds.trans (List.append_nil ds)
  have hquiet : ds.reverse.any Diagnostic.isError = false ↔ ds = [] := by
    cases ds with
    | nil => simp
    | cons d ds => simp [herrors d (List.mem_cons_self ..)]
  have hwrong : (parse source).2.any Diagnostic.isError = false ↔
      ∀ d ∈ (parse source).2, d.isError = false := by simp
  have hdef : ofText t source = if ((parse source).2 ++ ds.reverse).any Diagnostic.isError then
      .error (Diagnostic.filtered ((parse source).2 ++ ds.reverse))
    else .ok ⟨(resolved t (parse source).1).1, (resolved t (parse source).1).2.captureNames⟩ := by
    rw [← hds]
    rfl
  rw [hdef, hds, ← hwrong, ← hquiet, ← and_assoc, ← Bool.or_eq_false_iff, ← List.any_append]
  cases ((parse source).2 ++ ds.reverse).any Diagnostic.isError with
  | true => simp
  | false => simp [eq_comm]

/-- **Nothing is dropped in silence.** A query that was made has a pattern for every pattern that was
written, with all that is in it, every name being what the table says; and captures of one name have one
place, which no other name has. There is a query just if nothing is wrong with the form of what was
written and all of it can be mirrored. -/
theorem ofText_mirrors (t : ParseTable) (source : List Char) :
    (∀ q, ofText t source = .ok q →
      AllMirror t q.captureNames (parse source).1 q.patterns ∧ q.captureNames.Nodup) ∧
    ((∃ q, ofText t source = .ok q) ↔ (∀ d ∈ (parse source).2, d.isError = false) ∧
      ∃ names ps, AllMirror t names (parse source).1 ps) := by
  have haccounts := accounts_resolved (t := t) (parse source).1
  have hmirrors (hquiet : (resolved t (parse source).1).2.reported = []) :
      AllMirror t (resolved t (parse source).1).2.captureNames (parse source).1
        (resolved t (parse source).1).1 :=
    allMirror_iff.mpr (haccounts.found hquiet _ (List.prefix_refl _))
  refine ⟨fun q hq => ?_, ⟨fun hok => ?_, fun hall => ?_⟩⟩
  · obtain ⟨-, hquiet, rfl⟩ := ofText_eq_ok.mp hq
    exact ⟨hmirrors hquiet, haccounts.leads.nodup List.nodup_nil⟩
  · obtain ⟨q, hq⟩ := hok
    obtain ⟨hwrong, hquiet, -⟩ := ofText_eq_ok.mp hq
    exact ⟨hwrong, _, _, hmirrors hquiet⟩
  · obtain ⟨hwrong, names, ps, hps⟩ := hall
    have hquiet := Resolve.quiet_filterMapM (allMirror_iff.mp hps)
      (fun _ _ hp => Resolve.quiet_pattern _ hp) ⟨[], []⟩
    exact ⟨_, ofText_eq_ok.mpr ⟨hwrong, hquiet, rfl⟩⟩

/-- A table for pairs of a key and a value. -/
def pairs? : Option ParseTable :=
  (PatternSet.ofSources? ["[a-z]+", "="]).bind fun patterns => (ParseTable.ofParts {
    name := "pairs"
    symbols := #[⟨"end", .terminal, false, false⟩, ⟨"name", .terminal, true, true⟩,
      ⟨"=", .terminal, true, false⟩, ⟨"pair", .nonTerminal, true, true⟩]
    terminalCount := 3
    externalCount := 0
    fieldNames := ["key", "value"]
    productions := #[⟨⟨3⟩, 3, [some ⟨1⟩, none, some ⟨2⟩]⟩]
    stateCount := 1
    actions := #[.error, .error, .error]
    gotos := #[none]
    lex := ⟨[⟨1⟩, ⟨2⟩], #[0, 0, 0], [], .empty, none, .empty⟩ } patterns).toOption

/-- A query with every form of pattern, and one capture in three places. -/
def pairsQuery : List Char :=
  "(pair key: (name) @k \"=\" !value [(name) _ @k]+ @v (ERROR)? (_)*) @k".toList

/-- What was written is mirrored, and no name has two places. -/
theorem ofText_mirrors_pairs : ∃ t q, pairs? = some t ∧ ofText t pairsQuery = .ok q ∧
    AllMirror t q.captureNames (parse pairsQuery).1 q.patterns ∧ q.captureNames.Nodup := by
  have hrun : (pairs?.bind fun t => (ofText t pairsQuery).toOption).isSome = true := by decide +kernel
  obtain ⟨q, hq⟩ := Option.isSome_iff_exists.mp hrun
  obtain ⟨t, ht, hq⟩ := Option.bind_eq_some_iff.mp hq
  have hmirrors := (ofText_mirrors t pairsQuery).1 q (eq_ok_of_toOption hq)
  exact ⟨t, q, ht, eq_ok_of_toOption hq, hmirrors⟩

end LRWorkbench.Query
