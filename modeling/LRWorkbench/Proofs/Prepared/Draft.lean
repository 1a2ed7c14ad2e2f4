import LRWorkbench.Prepared.Productions
import LRWorkbench.Proofs.Except
import Mathlib.Data.List.Basic

/-!
# What flattening adds to a draft

A run of flattening that succeeds is one relation between what is flattened, the draft before, the
alternatives and the draft after (`Flatten.Flattens`), whatever function of the three that call each
other it is a run of. What such a run does is proved by induction on the relation.

Flattening a rule only adds to a draft: fields after those that are there, each where its name comes
first; phrase kinds after those that are there; productions of the new phrase kinds
(`Flatten.Flattens.grows`). When all rules are flattened, every production is one of a phrase
kind (`Grammar.lhs_lt_of_prepare`).
-/

namespace LRWorkbench

namespace Rule

mutual

/-- The names of the fields of a phrase, in the order they are written. Tokens have none. -/
def fieldNames : Rule → List String
  | field name content => name :: fieldNames content
  | seq members | choice members => fieldNamesOf members
  | zeroOrMore content | oneOrMore content | prec _ _ content => fieldNames content
  | blank | literal _ | pattern _ _ | token _ | reference _ => []

/-- The names of the fields of several phrases. -/
def fieldNamesOf : List Rule → List String
  | [] => []
  | r :: rs => fieldNames r ++ fieldNamesOf rs

end

end Rule

namespace Flatten

/-! ### What a draft gets -/

/-- Adds a name to a list of names, unless it is there. -/
def addName (names : List String) (name : String) : List String :=
  if name ∈ names then names else names ++ [name]

/-- Names keep their places. -/
theorem prefix_addName (names : List String) (name : String) : names <+: addName names name := by
  rw [addName]
  split
  · exact List.prefix_rfl
  · exact List.prefix_append ..

/-- A name that is added is there. -/
theorem mem_addName (names : List String) (name : String) : name ∈ addName names name := by
  rw [addName]
  split
  · assumption
  · exact List.mem_append_right _ (List.mem_singleton_self _)

theorem prefix_foldl_addName (more names : List String) : names <+: more.foldl addName names := by
  induction more generalizing names with
  | nil => exact List.prefix_rfl
  | cons name more ih => exact (prefix_addName names name).trans (ih _)

/-- Adding names one after the other keeps the first of each. -/
theorem foldl_addName (more names : List String) :
    more.foldl addName names = names ++ (more.filter (· ∉ names)).eraseDups := by
  induction more generalizing names with
  | nil => simp
  | cons name more ih =>
    rw [List.foldl_cons, ih, addName]
    split
    · rename_i hmem
      rw [List.filter_cons_of_neg (by simpa using hmem)]
    · rename_i hmem
      rw [List.filter_cons_of_pos (by simpa using hmem), List.eraseDups_cons, List.filter_filter,
        List.append_assoc, List.singleton_append]
      congr 3
      refine List.filter_congr fun other _ => ?_
      by_cases hother : other = name <;> simp [hother]

variable {s : Source} {ctx : Context} {owner : Nat} {d d' d'' : Draft}

namespace Draft

/-- Whether every production is one of a phrase kind, and helpers come after what they were made
for. -/
structure Closed (d : Draft) : Prop where
  lhs_lt : ∀ p ∈ d.productions, p.lhs < d.nonTerminals.size
  parent_lt : ∀ (i : Nat) (kind : NonTerminal) (parent : Nat), d.nonTerminals[i]? = some kind →
    kind.parent = some parent → parent < i

/-- What a draft gets: fields of some names, hidden phrase kinds, and productions of these or of some
owners. -/
structure Grows (names : List String) (owners : List Nat) (d d' : Draft) : Prop where
  kinds : d.nonTerminals.toList <+: d'.nonTerminals.toList
  fields : d'.fieldNames = names.foldl addName d.fieldNames
  kept : ∀ p ∈ d.productions, p ∈ d'.productions
  fresh : ∀ p ∈ d'.productions, p ∈ d.productions ∨
    d.nonTerminals.size ≤ p.lhs ∧ p.lhs < d'.nonTerminals.size ∨ p.lhs ∈ owners
  parents : ∀ (i : Nat) (kind : NonTerminal) (parent : Nat), d.nonTerminals.size ≤ i →
    d'.nonTerminals[i]? = some kind → kind.parent = some parent → parent < i
  hidden : ∀ (i : Nat) (kind : NonTerminal), d.nonTerminals.size ≤ i →
    d'.nonTerminals[i]? = some kind → kind.isVisible = false

theorem Grows.refl : Grows [] [] d d where
  kinds := List.prefix_rfl
  fields := rfl
  kept := fun _ hp => hp
  fresh := fun _ hp => .inl hp
  parents := by
    intro i kind parent hi hkind
    rw [Array.getElem?_eq_none hi] at hkind
    cases hkind
  hidden := by
    intro i kind hi hkind
    rw [Array.getElem?_eq_none hi] at hkind
    cases hkind

variable {names more : List String} {owners others : List Nat}

/-- No phrase kind goes away. -/
theorem Grows.size_le (h : Grows names owners d d') :
    d.nonTerminals.size ≤ d'.nonTerminals.size := by
  simpa using h.kinds.length_le

/-- Phrase kinds stay what they are. -/
theorem Grows.getElem?_eq (h : Grows names owners d d') {i : Nat} (hi : i < d.nonTerminals.size) :
    d'.nonTerminals[i]? = d.nonTerminals[i]? := by
  rw [← Array.getElem?_toList, ← Array.getElem?_toList]
  obtain ⟨rest, hrest⟩ := h.kinds
  rw [← hrest, List.getElem?_append_left (by simpa using hi)]

/-- What is added is added one after the other. -/
theorem Grows.trans (h : Grows names owners d d') (h' : Grows more others d' d'') :
    Grows (names ++ more) (owners ++ others) d d'' where
  kinds := h.kinds.trans h'.kinds
  fields := by rw [h'.fields, h.fields, List.foldl_append]
  kept := fun p hp => h'.kept p (h.kept p hp)
  fresh := by
    intro p hp
    have hle := h.size_le
    have hle' := h'.size_le
    rcases h'.fresh p hp with hp | hp | hp
    · rcases h.fresh p hp with hp | hp | hp
      · exact .inl hp
      · exact .inr (.inl (by omega))
      · exact .inr (.inr (List.mem_append_left _ hp))
    · exact .inr (.inl (by omega))
    · exact .inr (.inr (List.mem_append_right _ hp))
  parents := by
    intro i kind parent hi hkind hparent
    by_cases hlt : i < d'.nonTerminals.size
    · exact h.parents i kind parent hi (h'.getElem?_eq hlt ▸ hkind) hparent
    · exact h'.parents i kind parent (Nat.le_of_not_lt hlt) hkind hparent
  hidden := by
    intro i kind hi hkind
    by_cases hlt : i < d'.nonTerminals.size
    · exact h.hidden i kind hi (h'.getElem?_eq hlt ▸ hkind)
    · exact h'.hidden i kind (Nat.le_of_not_lt hlt) hkind

/-- Owners that are new need not be told. -/
theorem Grows.absorb (h : Grows names owners d d')
    (hnew : ∀ o ∈ owners, d.nonTerminals.size ≤ o ∧ o < d'.nonTerminals.size) :
    Grows names [] d d' where
  kinds := h.kinds
  fields := h.fields
  kept := h.kept
  fresh := by
    intro p hp
    rcases h.fresh p hp with hp | hp | hp
    · exact .inl hp
    · exact .inr (.inl hp)
    · exact .inr (.inl (hnew _ hp))
  parents := h.parents
  hidden := h.hidden

/-- Productions stay those of phrase kinds. -/
theorem Grows.closed (h : Grows names owners d d') (hd : d.Closed)
    (howners : ∀ o ∈ owners, o < d'.nonTerminals.size) : d'.Closed where
  lhs_lt := by
    intro p hp
    rcases h.fresh p hp with hp | hp | hp
    · exact Nat.lt_of_lt_of_le (hd.lhs_lt p hp) h.size_le
    · exact hp.2
    · exact howners _ hp
  parent_lt := by
    intro i kind parent hkind hparent
    by_cases hlt : i < d.nonTerminals.size
    · exact hd.parent_lt i kind parent (h.getElem?_eq hlt ▸ hkind) hparent
    · exact h.parents i kind parent (Nat.le_of_not_lt hlt) hkind hparent

/-- A production is there once it is added, and none goes away. -/
theorem mem_addProduction {lhs : Nat} {a : Alternative} {p : Production} :
    p ∈ (d.addProduction lhs a).productions ↔
      p ∈ d.productions ∨ p = ⟨lhs, a.steps, a.precedence, a.assoc⟩ := by
  rw [Draft.addProduction]
  split
  · rename_i hmem
    constructor
    · exact .inl
    · rintro (h | rfl)
      · exact h
      · exact Array.contains_iff_mem.mp hmem
  · exact Array.mem_push

theorem nonTerminals_addProduction (d : Draft) (lhs : Nat) (a : Alternative) :
    (d.addProduction lhs a).nonTerminals = d.nonTerminals := by
  rw [Draft.addProduction]
  split <;> rfl

theorem fieldNames_addProduction (d : Draft) (lhs : Nat) (a : Alternative) :
    (d.addProduction lhs a).fieldNames = d.fieldNames := by
  rw [Draft.addProduction]
  split <;> rfl

/-- What changes only the productions lets a draft grow by productions. -/
theorem Grows.of_productions (hkinds : d'.nonTerminals = d.nonTerminals)
    (hfields : d'.fieldNames = d.fieldNames)
    (hmem : ∀ p, p ∈ d'.productions → p ∈ d.productions ∨ p.lhs ∈ owners)
    (hkept : ∀ p ∈ d.productions, p ∈ d'.productions) : Grows [] owners d d' where
  kinds := hkinds ▸ List.prefix_rfl
  fields := hfields
  kept := hkept
  fresh := by
    intro p hp
    rcases hmem p hp with hp | hp
    · exact .inl hp
    · exact .inr (.inr hp)
  parents := hkinds ▸ Grows.refl.parents
  hidden := hkinds ▸ Grows.refl.hidden

/-- What adding some productions of a phrase kind does. -/
theorem mem_addRepetitions {helper : Nat} {again : Alternative} {members : List Alternative}
    {p : Production} :
    p ∈ (d.addRepetitions helper again members).productions ↔ p ∈ d.productions ∨
      ∃ a ∈ members, p = ⟨helper, a.steps, a.precedence, a.assoc⟩ ∨
        a.steps ≠ [] ∧ p = ⟨helper, (again.append a).steps, (again.append a).precedence,
          (again.append a).assoc⟩ := by
  induction members generalizing d with
  | nil => simp [addRepetitions]
  | cons a rest ih =>
    rw [addRepetitions, ih, mem_addProduction]
    simp only [List.mem_cons, or_and_right, exists_or, exists_eq_left]
    by_cases hempty : a.steps = []
    · simp [hempty, or_assoc]
    · have hne : a.steps.isEmpty = false := by simpa using hempty
      rw [hne, if_neg Bool.false_ne_true, mem_addProduction]
      simp only [ne_eq, hempty, not_false_eq_true, true_and, or_assoc]
      rw [or_left_comm (a := p = ⟨helper, (again.append a).steps, _, _⟩)]

/-- Giving a helper its productions adds no phrase kind and no field. -/
theorem addRepetitions_eq (d : Draft) (helper : Nat) (again : Alternative)
    (members : List Alternative) :
    (d.addRepetitions helper again members).nonTerminals = d.nonTerminals ∧
      (d.addRepetitions helper again members).fieldNames = d.fieldNames := by
  induction members generalizing d with
  | nil => exact ⟨rfl, rfl⟩
  | cons a rest ih =>
    obtain ⟨hkinds, hfields⟩ := ih ((if a.steps.isEmpty then d
      else d.addProduction helper (again.append a)).addProduction helper a)
    rw [addRepetitions, hkinds, hfields, nonTerminals_addProduction, fieldNames_addProduction]
    split
    · exact ⟨rfl, rfl⟩
    · exact ⟨nonTerminals_addProduction .., fieldNames_addProduction ..⟩

/-- It adds productions of the helper only. -/
theorem grows_addRepetitions (d : Draft) (helper : Nat) (again : Alternative)
    (members : List Alternative) :
    Grows [] [helper] d (d.addRepetitions helper again members) := by
  obtain ⟨hkinds, hfields⟩ := addRepetitions_eq d helper again members
  refine .of_productions hkinds hfields (fun p hp => ?_)
    fun p hp => mem_addRepetitions.mpr (.inl hp)
  rcases mem_addRepetitions.mp hp with hp | ⟨a, -, rfl | ⟨-, rfl⟩⟩
  · exact .inl hp
  · exact .inr (List.mem_singleton_self _)
  · exact .inr (List.mem_singleton_self _)

/-- The productions of a rule are its alternatives. -/
theorem mem_foldl_addProduction {lhs : Nat} {members : List Alternative} {p : Production} :
    p ∈ (members.foldl (fun d a => d.addProduction lhs a) d).productions ↔ p ∈ d.productions ∨
      ∃ a ∈ members, p = ⟨lhs, a.steps, a.precedence, a.assoc⟩ := by
  induction members generalizing d with
  | nil => simp
  | cons a rest ih => simp [ih, mem_addProduction, or_assoc]

theorem foldl_addProduction_eq (d : Draft) (lhs : Nat) (members : List Alternative) :
    (members.foldl (fun d a => d.addProduction lhs a) d).nonTerminals = d.nonTerminals ∧
      (members.foldl (fun d a => d.addProduction lhs a) d).fieldNames = d.fieldNames := by
  induction members generalizing d with
  | nil => exact ⟨rfl, rfl⟩
  | cons a rest ih =>
    obtain ⟨hkinds, hfields⟩ := ih (d.addProduction lhs a)
    rw [List.foldl_cons, hkinds, hfields]
    exact ⟨nonTerminals_addProduction .., fieldNames_addProduction ..⟩

/-- Adding them adds nothing else. -/
theorem grows_foldl_addProduction (d : Draft) (lhs : Nat) (members : List Alternative) :
    Grows [] [lhs] d (members.foldl (fun d a => d.addProduction lhs a) d) := by
  obtain ⟨hkinds, hfields⟩ := foldl_addProduction_eq d lhs members
  refine .of_productions hkinds hfields (fun p hp => ?_)
    fun p hp => mem_foldl_addProduction.mpr (.inl hp)
  rcases mem_foldl_addProduction.mp hp with hp | ⟨a, -, rfl⟩
  · exact .inl hp
  · exact .inr (List.mem_singleton_self _)

/-- The search tree of the fields finds each at its place. -/
theorem place?_eq (t : FieldTable) (name : String) :
    t.place? name = t.toList.findIdx? (· = name) := t.find?_places name

theorem nonTerminals_addField (d : Draft) (name : String) :
    (d.addField name).1.nonTerminals = d.nonTerminals := by
  rw [addField]
  split <;> rfl

theorem productions_addField (d : Draft) (name : String) :
    (d.addField name).1.productions = d.productions := by
  rw [addField]
  split <;> rfl

/-- The field of a name is the place of the name. -/
theorem addField_spec (d : Draft) (name : String) :
    (d.addField name).1.fieldNames = addName d.fieldNames name ∧
      (d.addField name).2 = .ofIndex ((addName d.fieldNames name).idxOf name) := by
  rw [addField]
  split
  · rename_i index hplace
    have hindex : d.fieldNames.findIdx? (· == name) = some index := by
      rw [← hplace, place?_eq]
      rfl
    have hmem : name ∈ d.fieldNames := by
      obtain ⟨hlt, heq, -⟩ := List.findIdx?_eq_some_iff_getElem.mp hindex
      exact beq_iff_eq.mp heq ▸ List.getElem_mem hlt
    rw [addName, if_pos hmem, List.idxOf, List.findIdx_eq_getD_findIdx?, hindex, Option.getD_some]
    exact ⟨rfl, rfl⟩
  · rename_i hplace
    have hmem : name ∉ d.fieldNames := by
      intro hmem
      rw [place?_eq] at hplace
      have := List.findIdx?_eq_none_iff.mp hplace name hmem
      simp at this
    rw [addName, if_neg hmem, List.idxOf_append_of_notMem hmem]
    exact ⟨Array.toList_push, by simp [fieldNames, FieldTable.toList]⟩

/-- A field is added with its name, unless the name is there. -/
theorem grows_addField (d : Draft) (name : String) : Grows [name] [] d (d.addField name).1 where
  kinds := nonTerminals_addField d name ▸ List.prefix_rfl
  fields := (addField_spec d name).1
  kept := fun _ hp => productions_addField d name ▸ hp
  fresh := fun _ hp => .inl (productions_addField d name ▸ hp)
  parents := nonTerminals_addField d name ▸ Grows.refl.parents
  hidden := nonTerminals_addField d name ▸ Grows.refl.hidden

/-- A helper comes behind the phrase kind that it was made for, and does not show in trees. -/
theorem grows_addHelper (howner : owner < d.nonTerminals.size) :
    Grows [] [] d (d.addHelper owner) where
  kinds := by
    rw [addHelper, Array.toList_push]
    exact List.prefix_append ..
  fields := rfl
  kept := fun _ hp => hp
  fresh := fun _ hp => .inl hp
  parents := by
    intro i kind parent hi hkind hparent
    rw [addHelper, Array.getElem?_push] at hkind
    split at hkind
    · rename_i heq
      cases hkind
      obtain rfl := Option.some.inj hparent
      omega
    · rw [Array.getElem?_eq_none hi] at hkind
      cases hkind
  hidden := by
    intro i kind hi hkind
    rw [addHelper, Array.getElem?_push] at hkind
    split at hkind
    · cases hkind
      rfl
    · rw [Array.getElem?_eq_none hi] at hkind
      cases hkind

end Draft

open Draft

/-! ### What flattening adds -/

/-- A helper is made if there are few enough symbols. -/
theorem startHelper_spec {helper : Nat} (h : startHelper s owner d = .ok (helper, d')) :
    checkCount s (d.addHelper owner) = .ok () ∧ helper = d.nonTerminals.size ∧
      d' = d.addHelper owner := by
  rw [startHelper] at h
  obtain ⟨_, hcount, h⟩ := bind_eq_ok.mp h
  cases h
  exact ⟨hcount, rfl, rfl⟩

theorem size_addHelper (d : Draft) (owner : Nat) :
    (d.addHelper owner).nonTerminals.size = d.nonTerminals.size + 1 := by
  rw [addHelper, Array.size_push]

/-- The helper has the next place. -/
theorem lt_size_addHelper (d : Draft) (owner : Nat) :
    d.nonTerminals.size < (d.addHelper owner).nonTerminals.size := by
  rw [size_addHelper]
  exact Nat.lt_succ_self _

/-- Adding a field leaves the phrase kinds as they are. -/
theorem lt_size_addField {name : String} (howner : owner < d.nonTerminals.size) :
    owner < (d.addField name).1.nonTerminals.size := by
  rwa [nonTerminals_addField]

/-- The alternative that stands for a helper. -/
abbrev again (s : Source) (ctx : Context) (helper : Nat) : Alternative :=
  .single (ctx.helperStep (s.nonTerminalSymbol helper))

/-- A repetition adds a helper, what its content adds, and the productions of the helper. -/
theorem Draft.Grows.repetition {names : List String} {members : List Alternative}
    (howner : owner < d.nonTerminals.size) (h : Grows names [] (d.addHelper owner) d') :
    Grows names [] d (d'.addRepetitions d.nonTerminals.size (again s ctx d.nonTerminals.size) members) := by
  have hle := h.size_le
  rw [size_addHelper] at hle
  have hkinds := (addRepetitions_eq d' d.nonTerminals.size
    (again s ctx d.nonTerminals.size) members).1
  have hall := ((grows_addHelper howner).trans h).trans (grows_addRepetitions d'
    d.nonTerminals.size (again s ctx d.nonTerminals.size) members)
  rw [List.nil_append, List.append_nil] at hall
  refine hall.absorb fun o ho => ?_
  rw [List.mem_singleton.mp ho, hkinds]
  omega

/-- What is flattened in a field adds its name first. -/
theorem Draft.Grows.field {names : List String} {name : String}
    (h : Grows names [] (d.addField name).1 d') : Grows (name :: names) [] d d' :=
  (grows_addField d name).trans h

/-- Whether a rule is a token in a phrase, and a terminal stands for it. -/
abbrev StandsFor (s : Source) (r : Rule) (symbol : Symbol) : Prop :=
  Vocabulary.inlineTerminal? s.grammar s.terminals.definitions s.terminals.vocabulary r = some symbol

/-- A token in a phrase has one alternative, its terminal. -/
theorem inlineToken_spec {r : Rule} {made : List Alternative}
    (h : inlineToken s ctx owner d r = .ok (made, d')) :
    ∃ symbol, StandsFor s r symbol ∧ made = [.single (ctx.step symbol)] ∧ d' = d := by
  rw [inlineToken] at h
  split at h
  · rename_i symbol hsymbol
    cases h
    exact ⟨symbol, hsymbol, rfl, rfl⟩
  · cases h

/-! ### Runs that succeed -/

/-- What is flattened: a rule, the rest of a sequence after the alternatives of its beginning, or the
rest of a choice. -/
inductive Piece
  | rule (r : Rule)
  | sequence (front : List Alternative) (rs : List Rule)
  | choice (rs : List Rule)

namespace Piece

/-- The alternatives of the beginning of a sequence. -/
def front : Piece → List Alternative
  | rule _ | choice _ => []
  | sequence front _ => front

/-- The names of the fields in what is flattened. -/
def fieldNames : Piece → List String
  | rule r => r.fieldNames
  | sequence _ rs | choice rs => Rule.fieldNamesOf rs

end Piece

/-- Whether a piece has the given alternatives, in a context and for a phrase kind, and turns one
draft into another. The guards of the code are in the cases where it tests them. -/
inductive Flattens (s : Source) :
    Context → Nat → Draft → Piece → List Alternative → Draft → Prop
  | blank {ctx : Context} {owner : Nat} {d : Draft} :
      Flattens s ctx owner d (.rule .blank) [.nothing ctx] d
  | literal {ctx : Context} {owner : Nat} {d : Draft} {text : String} {symbol : Symbol}
      (hsymbol : StandsFor s (.literal text) symbol) :
      Flattens s ctx owner d (.rule (.literal text)) [.single (ctx.step symbol)] d
  | pattern {ctx : Context} {owner : Nat} {d : Draft} {value : String}
      {flags : Option String} {symbol : Symbol}
      (hsymbol : StandsFor s (.pattern value flags) symbol) :
      Flattens s ctx owner d (.rule (.pattern value flags)) [.single (ctx.step symbol)] d
  | token {ctx : Context} {owner : Nat} {d : Draft} {content : Rule} {symbol : Symbol}
      (hsymbol : StandsFor s (.token content) symbol) :
      Flattens s ctx owner d (.rule (.token content)) [.single (ctx.step symbol)] d
  | reference {ctx : Context} {owner : Nat} {d : Draft} {name : String} {symbol : Symbol}
      (hsymbol : s.symbolOf? name = some symbol) :
      Flattens s ctx owner d (.rule (.reference name)) [.single (ctx.step symbol)] d
  | seq {ctx : Context} {owner : Nat} {d d' : Draft} {members : List Rule} {made : List Alternative}
      (h : Flattens s ctx owner d (.sequence [.nothing ctx] members) made d') :
      Flattens s ctx owner d (.rule (.seq members)) made d'
  | choice {ctx : Context} {owner : Nat} {d d' : Draft} {members : List Rule}
      {made : List Alternative} (h : Flattens s ctx owner d (.choice members) made d') :
      Flattens s ctx owner d (.rule (.choice members)) made d'
  | zeroOrMore {ctx : Context} {owner : Nat} {d d' : Draft} {content : Rule}
      {members : List Alternative} (hcount : checkCount s (d.addHelper owner) = .ok ())
      (h : Flattens s ctx d.nonTerminals.size (d.addHelper owner) (.rule content) members d') :
      Flattens s ctx owner d (.rule (.zeroOrMore content))
        [again s ctx d.nonTerminals.size, .nothing ctx]
        (d'.addRepetitions d.nonTerminals.size (again s ctx d.nonTerminals.size) members)
  | oneOrMore {ctx : Context} {owner : Nat} {d d' : Draft} {content : Rule}
      {members : List Alternative} (hcount : checkCount s (d.addHelper owner) = .ok ())
      (h : Flattens s ctx d.nonTerminals.size (d.addHelper owner) (.rule content) members d') :
      Flattens s ctx owner d (.rule (.oneOrMore content)) [again s ctx d.nonTerminals.size]
        (d'.addRepetitions d.nonTerminals.size (again s ctx d.nonTerminals.size) members)
  | field {ctx : Context} {owner : Nat} {d d' : Draft} {name : String} {content : Rule}
      {made : List Alternative}
      (h : Flattens s { ctx with field := some (d.addField name).2 } owner (d.addField name).1
        (.rule content) made d') :
      Flattens s ctx owner d (.rule (.field name content)) made d'
  | prec {ctx : Context} {owner : Nat} {d d' : Draft} {assoc : Option Assoc} {level : Int}
      {content : Rule} {made : List Alternative}
      (h : Flattens s { ctx with precedence := level, assoc := assoc } owner d (.rule content) made
        d') :
      Flattens s ctx owner d (.rule (.prec assoc level content)) made d'
  | done {ctx : Context} {owner : Nat} {d : Draft} {front : List Alternative} :
      Flattens s ctx owner d (.sequence front []) front d
  | next {ctx : Context} {owner : Nat} {d d₁ d' : Draft} {r : Rule} {rs : List Rule}
      {front following made : List Alternative} (hfirst : Flattens s ctx owner d (.rule r) following d₁)
      (hfew : front.length * following.length ≤ maxAlternatives)
      (hrest : Flattens s ctx owner d₁
        (.sequence (front.flatMap fun a => following.map fun b => a.append b) rs) made d') :
      Flattens s ctx owner d (.sequence front (r :: rs)) made d'
  | never {ctx : Context} {owner : Nat} {d : Draft} : Flattens s ctx owner d (.choice []) [] d
  | either {ctx : Context} {owner : Nat} {d d₁ d' : Draft} {r : Rule} {rs : List Rule}
      {first rest : List Alternative} (hfirst : Flattens s ctx owner d (.rule r) first d₁)
      (hrest : Flattens s ctx owner d₁ (.choice rs) rest d') :
      Flattens s ctx owner d (.choice (r :: rs)) (first ++ rest) d'

mutual

/-- What the alternatives of a rule are when flattening succeeds. -/
theorem flattens_of_alternatives {ctx : Context} {owner : Nat} {d d' : Draft} (r : Rule)
    {made : List Alternative} (hmade : alternatives s ctx owner d r = .ok (made, d')) :
    Flattens s ctx owner d (.rule r) made d' := by
  cases r with
  | blank =>
    rw [alternatives] at hmade
    cases hmade
    exact .blank
  | literal text =>
    rw [alternatives] at hmade
    obtain ⟨_, hsymbol, rfl, rfl⟩ := inlineToken_spec hmade
    exact .literal hsymbol
  | pattern value flags =>
    rw [alternatives] at hmade
    obtain ⟨_, hsymbol, rfl, rfl⟩ := inlineToken_spec hmade
    exact .pattern hsymbol
  | token content =>
    rw [alternatives] at hmade
    obtain ⟨_, hsymbol, rfl, rfl⟩ := inlineToken_spec hmade
    exact .token hsymbol
  | reference name =>
    rw [alternatives] at hmade
    split at hmade
    · rename_i symbol hsymbol
      cases hmade
      exact .reference hsymbol
    · cases hmade
  | seq members =>
    rw [alternatives] at hmade
    exact .seq (flattens_of_sequences members hmade)
  | choice members =>
    rw [alternatives] at hmade
    exact .choice (flattens_of_choices members hmade)
  | zeroOrMore content =>
    rw [alternatives] at hmade
    obtain ⟨⟨helper, d₁⟩, hstart, hmade⟩ := bind_eq_ok.mp hmade
    obtain ⟨⟨members, d₂⟩, hmembers, hmade⟩ := bind_eq_ok.mp hmade
    cases hmade
    obtain ⟨hcount, rfl, rfl⟩ := startHelper_spec hstart
    exact .zeroOrMore hcount (flattens_of_alternatives content hmembers)
  | oneOrMore content =>
    rw [alternatives] at hmade
    obtain ⟨⟨helper, d₁⟩, hstart, hmade⟩ := bind_eq_ok.mp hmade
    obtain ⟨⟨members, d₂⟩, hmembers, hmade⟩ := bind_eq_ok.mp hmade
    cases hmade
    obtain ⟨hcount, rfl, rfl⟩ := startHelper_spec hstart
    exact .oneOrMore hcount (flattens_of_alternatives content hmembers)
  | field name content =>
    rw [alternatives] at hmade
    exact .field (flattens_of_alternatives content hmade)
  | prec assoc level content =>
    rw [alternatives] at hmade
    exact .prec (flattens_of_alternatives content hmade)

/-- What the alternatives of a sequence are. -/
theorem flattens_of_sequences {ctx : Context} {owner : Nat} {d d' : Draft} (rs : List Rule)
    {front made : List Alternative} (hmade : sequences s ctx owner d front rs = .ok (made, d')) :
    Flattens s ctx owner d (.sequence front rs) made d' := by
  cases rs with
  | nil =>
    rw [sequences] at hmade
    cases hmade
    exact .done
  | cons r rs =>
    rw [sequences] at hmade
    obtain ⟨⟨following, d₁⟩, hfirst, hmade⟩ := bind_eq_ok.mp hmade
    dsimp only at hmade
    split at hmade
    · cases hmade
    · rename_i hfew
      exact .next (flattens_of_alternatives r hfirst) (Nat.le_of_not_lt hfew)
        (flattens_of_sequences rs hmade)

/-- What the alternatives of a choice are. -/
theorem flattens_of_choices {ctx : Context} {owner : Nat} {d d' : Draft} (rs : List Rule)
    {made : List Alternative} (hmade : choices s ctx owner d rs = .ok (made, d')) :
    Flattens s ctx owner d (.choice rs) made d' := by
  cases rs with
  | nil =>
    rw [choices] at hmade
    cases hmade
    exact .never
  | cons r rs =>
    rw [choices] at hmade
    obtain ⟨⟨first, d₁⟩, hfirst, hmade⟩ := bind_eq_ok.mp hmade
    obtain ⟨⟨rest, d₂⟩, hrest, hmade⟩ := bind_eq_ok.mp hmade
    cases hmade
    exact .either (flattens_of_alternatives r hfirst) (flattens_of_choices rs hrest)

end

/-- Flattening adds fields, helpers and the productions of these. -/
theorem Flattens.grows {piece : Piece} {made : List Alternative}
    (h : Flattens s ctx owner d piece made d') (howner : owner < d.nonTerminals.size) :
    Grows piece.fieldNames [] d d' := by
  induction h with
  | blank | literal | pattern | token | reference | done | never => exact .refl
  | seq _ ih | choice _ ih | prec _ ih => exact ih howner
  | zeroOrMore _ _ ih | oneOrMore _ _ ih =>
    exact (ih (lt_size_addHelper ..)).repetition howner
  | field _ ih => exact (ih (lt_size_addField howner)).field
  | next _ _ _ ihfirst ihrest | either _ _ ihfirst ihrest =>
    have hfirst := ihfirst howner
    exact hfirst.trans (ihrest (Nat.lt_of_lt_of_le howner hfirst.size_le))

/-! ### All rules -/

/-- What the rules add, one after the other: their fields, and productions of their phrase kinds. -/
theorem grows_of_addRules {rules : List (Nat × Rule)}
    (hkinds : ∀ e ∈ rules, e.1 < d.nonTerminals.size)
    (hadd : addRules s d rules = .ok d') :
    Grows (rules.flatMap (·.2.fieldNames)) (rules.map (·.1)) d d' := by
  induction rules generalizing d with
  | nil =>
    cases hadd
    exact .refl
  | cons entry rest ih =>
    obtain ⟨kind, r⟩ := entry
    rw [addRules] at hadd
    obtain ⟨⟨members, d₁⟩, hmembers, hadd⟩ := bind_eq_ok.mp hadd
    have hrule := (flattens_of_alternatives r hmembers).grows (hkinds _ (List.mem_cons_self ..))
    have hboth := hrule.trans (grows_foldl_addProduction d₁ kind members)
    have hrest := ih (fun e he => Nat.lt_of_lt_of_le
      (hkinds e (List.mem_cons_of_mem _ he)) hboth.size_le) hadd
    have hall := hboth.trans hrest
    rwa [List.append_nil] at hall

end Flatten

namespace Grammar

open Flatten

/-- The names of the fields in the phrases of the rules that are used, each where it comes first. -/
def fieldNames (g : Grammar) : List String :=
  (((g.phraseRules g.usedRules).filterMap fun i => g.rules[i]?).flatMap
    (·.2.fieldNames)).eraseDups

/-- Where no number comes twice, each is found at its place. -/
theorem findIdx?_eq_of_nodup {places : List Nat} (h : places.Nodup) {kind i : Nat}
    (hkind : places[kind]? = some i) : places.findIdx? (· = i) = some kind := by
  obtain ⟨hlt, hi⟩ := List.getElem?_eq_some_iff.mp hkind
  refine List.findIdx?_eq_some_iff_getElem.mpr ⟨hlt, decide_eq_true hi, fun j hj heq => ?_⟩
  have hj' := List.getElem?_eq_getElem (Nat.lt_trans hj hlt)
  rw [of_decide_eq_true heq, ← hkind] at hj'
  exact Nat.ne_of_lt hj ((List.getElem?_inj (Nat.lt_trans hj hlt) h).mp hj')

/-- The phrase rules with their phrase kinds. -/
def kindedRules (g : Grammar) (places : List Nat) : List (Nat × Rule) :=
  places.zipIdx.filterMap fun (i, kind) => g.rules[i]?.map fun entry => (kind, entry.2)

variable {g : Grammar} {prepared : PreparedGrammar}

/-- The phrase kinds of rules are the places of the rules among those that are used. -/
theorem mem_kindedRules {places : List Nat} {kind : Nat} {r : Rule} :
    (kind, r) ∈ g.kindedRules places ↔
      ∃ i name, places[kind]? = some i ∧ g.rules[i]? = some (name, r) := by
  simp only [kindedRules, List.mem_filterMap, List.mem_zipIdx_iff_getElem?, Option.map_eq_some_iff]
  constructor
  · rintro ⟨⟨i, k⟩, hi, ⟨name, r'⟩, hr, heq⟩
    obtain ⟨rfl, rfl⟩ := Prod.mk.inj heq
    exact ⟨i, name, hi, hr⟩
  · rintro ⟨i, name, hi, hr⟩
    exact ⟨(i, kind), hi, (name, r), hr, rfl⟩

/-- No two rules have the same phrase kind. -/
theorem nodup_kindedRules (places : List Nat) : ((g.kindedRules places).map (·.1)).Nodup := by
  rw [List.Nodup, List.pairwise_map, kindedRules, List.pairwise_filterMap]
  have hdistinct : (places.zipIdx.map (·.2)).Nodup := by
    rw [List.zipIdx_map_snd]
    exact List.nodup_range'
  refine (List.pairwise_map.mp hdistinct).imp fun {a b} hne x hx y hy => ?_
  obtain ⟨_, -, rfl⟩ := Option.map_eq_some_iff.mp hx
  obtain ⟨_, -, rfl⟩ := Option.map_eq_some_iff.mp hy
  exact hne

theorem map_snd_kindedRules (g : Grammar) (places : List Nat) :
    (g.kindedRules places).map (·.2) = (places.filterMap fun i => g.rules[i]?).map (·.2) := by
  have hfrom : ∀ start, ((places.zipIdx start).filterMap fun (i, kind) =>
      g.rules[i]?.map fun entry => (kind, entry.2)).map (·.2) =
        (places.filterMap fun i => g.rules[i]?).map (·.2) := by
    induction places with
    | nil => exact fun _ => rfl
    | cons i rest ih =>
      intro start
      cases h : g.rules[i]? <;> simp [List.zipIdx_cons, h, ih]
  exact hfrom 0

/-- What the steps of preparing a grammar make: terminals, a draft and groups of phrase kinds. -/
structure PreparedBy (g : Grammar) (terminals : Terminals) (d : Draft) (groups : List (List Nat))
    (prepared : PreparedGrammar) : Prop where
  named : g.checkNames = .ok ()
  numbered : g.terminals g.usedRules = .ok terminals
  counted : checkCount ⟨g, terminals, g.phraseRules g.usedRules⟩
    ⟨phraseKinds ⟨g, terminals, g.phraseRules g.usedRules⟩, #[], .empty, []⟩ = .ok ()
  flattened : addRules ⟨g, terminals, g.phraseRules g.usedRules⟩
    ⟨phraseKinds ⟨g, terminals, g.phraseRules g.usedRules⟩, #[], .empty, []⟩
    (g.kindedRules (g.phraseRules g.usedRules)) = .ok d
  productive : checkProductive terminals.vocabulary.terminals.size d = .ok ()
  grouped : conflictGroups ⟨g, terminals, g.phraseRules g.usedRules⟩ [] g.conflicts = .ok groups
  eq : prepared = {
    name := g.name
    terminals := terminals.vocabulary.terminals
    externalCount := g.externals.length
    nonTerminals := d.nonTerminals
    productions := d.productions
    fieldNames := d.fieldNames
    extras := terminals.extras
    word := terminals.word
    conflictGroups := groups }

/-- A grammar is prepared step by step. -/
theorem prepare_eq_ok :
    g.prepare = .ok prepared ↔ ∃ terminals d groups, g.PreparedBy terminals d groups prepared := by
  rw [prepare]
  constructor
  · intro h
    obtain ⟨_, hnames, h⟩ := bind_eq_ok.mp h
    obtain ⟨terminals, hterminals, h⟩ := bind_eq_ok.mp h
    obtain ⟨_, hcount, h⟩ := bind_eq_ok.mp h
    obtain ⟨d, hrules, h⟩ := bind_eq_ok.mp h
    obtain ⟨_, hproductive, h⟩ := bind_eq_ok.mp h
    obtain ⟨groups, hgroups, h⟩ := bind_eq_ok.mp h
    exact ⟨terminals, d, groups, hnames, hterminals, hcount, hrules, hproductive, hgroups,
      (Except.ok.inj h).symm⟩
  · rintro ⟨terminals, d, groups, hnames, hterminals, hcount, hrules, hproductive, hgroups, rfl⟩
    refine bind_eq_ok.mpr ⟨(), hnames, ?_⟩
    refine bind_eq_ok.mpr ⟨terminals, hterminals, ?_⟩
    refine bind_eq_ok.mpr ⟨(), hcount, ?_⟩
    refine bind_eq_ok.mpr ⟨d, hrules, ?_⟩
    refine bind_eq_ok.mpr ⟨(), hproductive, ?_⟩
    exact bind_eq_ok.mpr ⟨groups, hgroups, rfl⟩

/-- What the steps of preparing a grammar make, as far as productions go. -/
theorem exists_of_prepare (h : g.prepare = .ok prepared) :
    ∃ terminals d, g.terminals g.usedRules = .ok terminals ∧
      addRules ⟨g, terminals, g.phraseRules g.usedRules⟩
        ⟨phraseKinds ⟨g, terminals, g.phraseRules g.usedRules⟩, #[], .empty, []⟩
        (g.kindedRules (g.phraseRules g.usedRules)) = .ok d ∧
      prepared.terminals = terminals.vocabulary.terminals ∧
      prepared.nonTerminals = d.nonTerminals ∧ prepared.productions = d.productions ∧
      prepared.fieldNames = d.fieldNames := by
  obtain ⟨terminals, d, groups, hmade⟩ := prepare_eq_ok.mp h
  obtain rfl := hmade.eq
  exact ⟨terminals, d, hmade.numbered, hmade.flattened, rfl, rfl, rfl, rfl⟩

/-- The phrase kinds of the rules. -/
theorem getElem?_phraseKinds (s : Source) (kind : Nat) :
    (phraseKinds s)[kind]? = s.phraseRules[kind]?.map fun i =>
      ⟨s.grammar.nameAt i, i = 0 || isPublicName (s.grammar.nameAt i), none⟩ := by
  simp [phraseKinds]

theorem size_phraseKinds (s : Source) : (phraseKinds s).size = s.phraseRules.length := by
  simp [phraseKinds]

/-- At first there are the phrase kinds of the rules and nothing else. -/
theorem closed_phraseKinds (s : Source) : (Draft.mk (phraseKinds s) #[] .empty []).Closed where
  lhs_lt := fun p hp => absurd hp (Array.not_mem_empty p)
  parent_lt := by
    intro i kind parent hkind hparent
    rw [getElem?_phraseKinds] at hkind
    obtain ⟨_, -, rfl⟩ := Option.map_eq_some_iff.mp hkind
    cases hparent

/-- The fields of all rules are added in the order in which their names come first. -/
theorem fieldNames_kindedRules (g : Grammar) :
    ((g.kindedRules (g.phraseRules g.usedRules)).flatMap (·.2.fieldNames)).foldl addName [] =
      g.fieldNames := by
  have hnames : ∀ {α : Type} (entries : List (α × Rule)),
      entries.flatMap (·.2.fieldNames) = (entries.map (·.2)).flatMap Rule.fieldNames :=
    fun entries => (List.flatMap_map ..).symm
  rw [foldl_addName, hnames, map_snd_kindedRules, ← hnames, fieldNames, List.nil_append,
    List.filter_eq_self.mpr fun name _ => decide_eq_true List.not_mem_nil]

section

variable {s : Source} {d : Draft}

/-- The phrase kinds of rules come before those of helpers. -/
theorem fst_lt_of_mem_kindedRules {places : List Nat} {e : Nat × Rule}
    (h : e ∈ g.kindedRules places) : e.1 < places.length := by
  obtain ⟨i, name, hi, -⟩ := mem_kindedRules.mp h
  exact (List.getElem?_eq_some_iff.mp hi).choose

/-- What flattening adds to a draft that has the phrase kinds of rules and nothing else. -/
theorem grows_of_kindedRules
    (hadd : addRules s ⟨phraseKinds s, #[], .empty, []⟩ (s.grammar.kindedRules s.phraseRules) = .ok d) :
    Draft.Grows ((s.grammar.kindedRules s.phraseRules).flatMap (·.2.fieldNames))
      ((s.grammar.kindedRules s.phraseRules).map (·.1)) ⟨phraseKinds s, #[], .empty, []⟩ d := by
  refine grows_of_addRules (fun e he => ?_) hadd
  rw [size_phraseKinds]
  exact fst_lt_of_mem_kindedRules he

/-- All productions in the end are those of phrase kinds. -/
theorem closed_of_kindedRules
    (hadd : addRules s ⟨phraseKinds s, #[], .empty, []⟩ (s.grammar.kindedRules s.phraseRules) = .ok d) :
    d.Closed := by
  have hgrows := grows_of_kindedRules hadd
  refine hgrows.closed (closed_phraseKinds s) fun o ho => ?_
  obtain ⟨e, he, rfl⟩ := List.mem_map.mp ho
  refine Nat.lt_of_lt_of_le ?_ hgrows.size_le
  rw [size_phraseKinds]
  exact fst_lt_of_mem_kindedRules he

end

/-- Every production of a prepared grammar is one of a phrase kind. -/
theorem lhs_lt_of_prepare (h : g.prepare = .ok prepared) :
    ∀ p ∈ prepared.productions, p.lhs < prepared.nonTerminals.size := by
  obtain ⟨terminals, d, -, hadd, -, hkinds, hproductions, -⟩ := exists_of_prepare h
  rw [hkinds, hproductions]
  exact (closed_of_kindedRules hadd).lhs_lt

end Grammar

end LRWorkbench
