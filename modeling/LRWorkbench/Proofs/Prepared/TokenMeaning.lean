import LRWorkbench.Prepared.TokenPattern
import LRWorkbench.Proofs.Except
import LRWorkbench.Proofs.Regex.Composition
import LRWorkbench.Proofs.Regex.Enclosed
import Mathlib.Data.List.Forall2

/-!
# What token rules mean

A token rule describes pieces of a text (`Rule.Describes`): a text describes itself, a pattern what
its own expression matches, and the other rules what they say of their parts. The expression of a
token rule is put together as text, and yet it matches just these pieces
(`Rule.describes_of_tokenPattern`): no part runs into its neighbours, since each is read as one item
(`Rule.IsItem`) or up to what closes it (`Rule.IsEnclosed`).

This rests on the patterns. One that is no expression by itself may close its group and open another
(`Rule.tokenPattern_unbalanced`), and one that ends in a comment hides the end of its group. The whole
is read before a rule is accepted, but its patterns are not.
-/

namespace LRWorkbench

open Regex Regex.Read

namespace Rule

/-! ### What rules describe -/

/-- Whether the flags of a pattern ignore case. -/
def ignoresCase (flags : Option String) : Bool := decide ('i' ∈ (flags.getD "").toList)

/-- Whether a rule describes a piece of a text between two characters. -/
inductive Describes : Rule → Option Char → List Char → Option Char → Prop where
  | blank (before after : Option Char) : Describes .blank before [] after
  | literal (text : String) (before after : Option Char) :
    Describes (.literal text) before text.toList after
  | pattern {value : String} {flags : Option String} {regex : Regex} {before after : Option Char}
      {u : List Char} (alone : readWith? (caseFlags (ignoresCase flags)) value.toList = some regex)
      (h : regex.Matches before u after) : Describes (.pattern value flags) before u after
  | seqNil (before after : Option Char) : Describes (.seq []) before [] after
  | seqCons {r : Rule} {rs : List Rule} {before after : Option Char} {u v : List Char}
      (first : Describes r before u (v.head?.or after))
      (rest : Describes (.seq rs) (u.getLast?.or before) v after) :
      Describes (.seq (r :: rs)) before (u ++ v) after
  | choice {r : Rule} {rs : List Rule} {before after : Option Char} {u : List Char} (member : r ∈ rs)
      (h : Describes r before u after) : Describes (.choice rs) before u after
  | zeroOrMoreNil (r : Rule) (before after : Option Char) : Describes (.zeroOrMore r) before [] after
  | zeroOrMoreCons {r : Rule} {before after : Option Char} {u v : List Char}
      (first : Describes r before u (v.head?.or after))
      (rest : Describes (.zeroOrMore r) (u.getLast?.or before) v after) :
      Describes (.zeroOrMore r) before (u ++ v) after
  | oneOrMore {r : Rule} {before after : Option Char} {u v : List Char}
      (first : Describes r before u (v.head?.or after))
      (rest : Describes (.zeroOrMore r) (u.getLast?.or before) v after) :
      Describes (.oneOrMore r) before (u ++ v) after
  | token {r : Rule} {before after : Option Char} {u : List Char} (h : Describes r before u after) :
    Describes (.token r) before u after
  | prec {assoc : Option Assoc} {level : Int} {r : Rule} {before after : Option Char} {u : List Char}
      (h : Describes r before u after) : Describes (.prec assoc level r) before u after

mutual

/-- Whether each pattern in a rule has a property, and there is something to choose from in each
choice. -/
def Sound (p : String → Option String → Prop) : Rule → Prop
  | .pattern value flags => p value flags
  | .seq members => AllSound p members
  | .choice members => members ≠ [] ∧ AllSound p members
  | .zeroOrMore content | .oneOrMore content | .field _ content | .token content
  | .prec _ _ content => Sound p content
  | .blank | .literal _ | .reference _ => True

/-- Whether all of some rules are sound. -/
def AllSound (p : String → Option String → Prop) : List Rule → Prop
  | [] => True
  | r :: rs => Sound p r ∧ AllSound p rs

end

/-- Whether a pattern is an expression by itself and in a group of its own. The latter is more: a
comment may end with the pattern, but it hides the end of a group. -/
structure PatternStands (value : String) (flags : Option String) : Prop where
  alone : (readWith? (caseFlags (ignoresCase flags)) value.toList).isSome
  grouped : (parse? (opening (ignoresCase flags) ++ (value.toList ++ [')']))).isSome

/-- Whether the least length of what a pattern matches is known. -/
def LengthKnown (value : String) (flags : Option String) : Prop :=
  ∀ regex, readWith? (caseFlags (ignoresCase flags)) value.toList = some regex →
    regex.minLength ≠ none

/-! ### Expressions of rules -/

/-- Whether an expression means what a rule does, and the least length of a match is known if it is
known of the patterns. -/
structure Means (x : Regex) (r : Rule) : Prop where
  matches_iff : ∀ before u after, x.Matches before u after ↔ r.Describes before u after
  minLength_ne : r.Sound LengthKnown → x.minLength ≠ none

variable {x : Regex} {r : Rule} {rs : List Rule} {text tail : List Char} {names : List (List Char)}
  {fuel : Nat} {items : List Nested} {ignoreCase : Bool}

/-- The expression of a text matches the text. -/
theorem means_literal (text : String) : Means (ofText text.toList) (.literal text) where
  matches_iff before u after := by
    rw [matches_ofText_iff]
    constructor
    · rintro rfl
      exact .literal text before after
    · intro h
      cases h
      rfl
  minLength_ne _ := by
    cases htext : text.toList with
    | nil => exact Option.some_ne_none _
    | cons c cs =>
      obtain ⟨n, hn, -⟩ := minLength_ofText c cs
      rw [hn]
      exact Option.some_ne_none _

/-- What is blank matches the empty text. -/
theorem means_blank : Means .empty .blank where
  matches_iff before u after := by
    constructor
    · rintro ⟨⟩
      exact .blank ..
    · rintro ⟨⟩
      exact .empty ..
  minLength_ne _ := Option.some_ne_none _

/-- What is only enclosed means the same. -/
theorem Means.token (h : Means x r) : Means x (.token r) where
  matches_iff before u after := by
    rw [h.matches_iff]
    constructor
    · exact .token
    · rintro ⟨⟩
      assumption
  minLength_ne := h.minLength_ne

theorem Means.prec (h : Means x r) (assoc : Option Assoc) (level : Int) :
    Means x (.prec assoc level r) where
  matches_iff before u after := by
    rw [h.matches_iff]
    constructor
    · exact .prec
    · rintro ⟨⟩
      assumption
  minLength_ne := h.minLength_ne

/-- Any number of matches, with at least `least`, is one of the repetition. -/
theorem Means.repeated (h : Means x r) {before after : Option Char} {u : List Char} :
    (Regex.repeated x 0 none).Matches before u after ↔ Describes (.zeroOrMore r) before u after := by
  constructor
  · intro hmatch
    generalize hwhole : Regex.repeated x 0 none = whole at hmatch
    induction hmatch with
    | done r' most before after => exact .zeroOrMoreNil ..
    | more room ha hb iha ihb =>
      obtain ⟨rfl, rfl, rfl⟩ := Regex.repeated.inj hwhole
      exact .zeroOrMoreCons ((h.matches_iff ..).mp ha) (ihb rfl)
    | _ => cases hwhole
  · intro hdescribes
    generalize hwhole : Rule.zeroOrMore r = whole at hdescribes
    induction hdescribes with
    | zeroOrMoreNil r' before after => exact .done ..
    | zeroOrMoreCons first rest ihfirst ihrest =>
      obtain rfl := Rule.zeroOrMore.inj hwhole
      exact .more nofun ((h.matches_iff ..).mpr first) (ihrest rfl)
    | _ => cases hwhole

/-- Repetitions mean a Kleene star, and one more at least a plus. -/
theorem Means.zeroOrMore (h : Means x r) : Means (.repeated x 0 none) (.zeroOrMore r) where
  matches_iff _ _ _ := h.repeated
  minLength_ne hknown := minLength_repeated (h.minLength_ne hknown) 0 none

theorem Means.oneOrMore (h : Means x r) : Means (.repeated x 1 none) (.oneOrMore r) where
  matches_iff before u after := by
    constructor
    · intro hmatch
      cases hmatch with
      | more room ha hb => exact .oneOrMore ((h.matches_iff ..).mp ha) (h.repeated.mp hb)
    · intro hdescribes
      cases hdescribes with
      | oneOrMore first rest =>
        exact .more nofun ((h.matches_iff ..).mpr first) (h.repeated.mpr rest)
  minLength_ne hknown := minLength_repeated (h.minLength_ne hknown) 1 none

/-- Items that mean some rules, in order. -/
abbrev AllMean (xs : List Nested) (rs : List Rule) : Prop :=
  List.Forall₂ (fun x r => Means x.regex r) xs rs

variable {xs : List Nested}

/-- Each of several expressions has a length at least. -/
theorem AllMean.minLength_ne (h : AllMean xs rs) (hknown : AllSound LengthKnown rs) :
    ∀ x ∈ xs, x.regex.minLength ≠ none := by
  induction h with
  | nil => exact fun _ hx => absurd hx List.not_mem_nil
  | cons hxr _ ih =>
    intro y hy
    rcases List.mem_cons.mp hy with rfl | hy
    · exact hxr.minLength_ne hknown.1
    · exact ih hknown.2 y hy

/-- What items match in turn is what a sequence of their rules describes. -/
theorem AllMean.inTurn_iff (h : AllMean xs rs) {before after : Option Char} {u : List Char} :
    InTurn (xs.map (·.regex)) before u after ↔ Describes (.seq rs) before u after := by
  induction h generalizing before u with
  | nil =>
    constructor
    · intro hturn
      cases hturn
      exact .seqNil ..
    · intro hdescribes
      cases hdescribes
      exact .nil ..
  | cons hxr _ ih =>
    constructor
    · intro hturn
      cases hturn with
      | cons first rest => exact .seqCons ((hxr.matches_iff ..).mp first) (ih.mp rest)
    · intro hdescribes
      cases hdescribes with
      | seqCons first rest => exact .cons ((hxr.matches_iff ..).mpr first) (ih.mpr rest)

/-- What one of some branches matches is what one of their rules describes. -/
theorem AllMean.exists_iff (h : AllMean xs rs) {before after : Option Char} {u : List Char} :
    (∃ x ∈ xs, x.regex.Matches before u after) ↔ ∃ r ∈ rs, r.Describes before u after := by
  induction h with
  | nil => simp
  | cons hxr _ ih => simp only [List.mem_cons, exists_eq_or_imp, hxr.matches_iff, ih]

/-- A sequence means its members one after the other. -/
theorem means_sequence (h : AllMean items.reverse rs) : Means (sequence items).regex (.seq rs) where
  matches_iff before u after := by
    rw [matches_sequence_iff, inOrder, h.inTurn_iff]
  minLength_ne hknown :=
    minLength_sequence fun x hx => h.minLength_ne hknown x (List.mem_reverse.mpr hx)

/-- A choice means one of its members. There has to be one, since an empty choice would match the
empty text. -/
theorem means_choice (hne : rs ≠ []) (h : AllMean items.reverse rs) :
    Means (Read.choice items).regex (.choice rs) where
  matches_iff before u after := by
    have hitems : items ≠ [] := by
      rintro rfl
      cases h
      exact hne rfl
    have hany : (∃ x ∈ items.reverse, x.regex.Matches before u after) ↔
        ∃ r ∈ rs, r.Describes before u after := h.exists_iff
    simp only [List.mem_reverse] at hany
    rw [matches_choice_iff hitems, hany]
    constructor
    · rintro ⟨r, hr, hdescribes⟩
      exact .choice hr hdescribes
    · intro hdescribes
      cases hdescribes with
      | choice hr hdescribes => exact ⟨_, hr, hdescribes⟩
  minLength_ne hknown :=
    minLength_choice fun x hx => h.minLength_ne hknown.2 x (List.mem_reverse.mpr hx)

/-! ### Reading what was put together -/

/-- What may follow the expression of a rule: what ends an alternative or a group, or nothing. -/
def Ends (tail : List Char) : Prop :=
  tail.head? = none ∨ tail.head? = some ')' ∨ tail.head? = some '|'

/-- Whether a text is read as a sequence that means a rule, wherever an alternative ends behind it. -/
def IsSequence (text : List Char) (r : Rule) : Prop :=
  ∀ fuel tail names items s, Ends tail →
    sequenceItems fuel [] ⟨text ++ tail, .initial, names⟩ = some (items, s) →
    s.rest = tail ∧ s.flags = .initial ∧ Means (sequence items).regex r

/-- Whether a text is read as one item that means a rule, whatever follows. -/
def IsItem (text : List Char) (r : Rule) : Prop :=
  ∀ fuel items tail names out,
    sequenceItems fuel items ⟨text ++ tail, .initial, names⟩ = some out →
    ∃ fuel' names' x, x.form ≠ .setting ∧ Means x.regex r ∧
      sequenceItems fuel' (x :: items) ⟨tail, .initial, names'⟩ = some out

/-- Whether a text is read in a group up to its end and means a rule. -/
def IsEnclosed (ignoreCase : Bool) (text : List Char) (r : Rule) : Prop :=
  ∀ fuel names tail x s,
    alternatives fuel [] ⟨text ++ ')' :: tail, caseFlags ignoreCase, names⟩ = some (x, s) →
    s.rest = ')' :: tail ∧ Means x.regex r

/-- A sequence ends where an alternative does. -/
theorem eq_of_ends (htail : Ends tail) {out : List Nested × ReadState}
    (h : sequenceItems fuel items ⟨tail, .initial, names⟩ = some out) :
    out = (items, ⟨tail, .initial, names⟩) := by
  cases fuel with
  | zero => cases h
  | succ fuel =>
    have hread : sequenceItems (fuel + 1) items ⟨tail, .initial, names⟩ =
        some (items, ⟨tail, .initial, names⟩) := by
      rw [sequenceItems]
      cases tail with
      | nil => rfl
      | cons c tail =>
        rcases htail with hc | hc | hc
        · cases hc
        · obtain rfl := Option.some.inj hc
          rfl
        · obtain rfl := Option.some.inj hc
          rfl
    exact (Option.some.inj (hread.symm.trans h)).symm

/-- A text that is read for one rule is read for another one with the same meaning. -/
theorem IsSequence.of_means {r' : Rule} (h : IsSequence text r)
    (hmeans : ∀ x, Means x r → Means x r') : IsSequence text r' := by
  intro fuel tail names items s htail hread
  obtain ⟨hs, hflags, hr⟩ := h fuel tail names items s htail hread
  exact ⟨hs, hflags, hmeans _ hr⟩

theorem IsItem.of_means {r' : Rule} (h : IsItem text r) (hmeans : ∀ x, Means x r → Means x r') :
    IsItem text r' := by
  intro fuel items tail names out hread
  obtain ⟨fuel', names', x, hx, hr, hread⟩ := h fuel items tail names out hread
  exact ⟨fuel', names', x, hx, hmeans _ hr, hread⟩

/-- One item is a sequence. -/
theorem IsItem.isSequence (h : IsItem text r) : IsSequence text r := by
  intro fuel tail names items s htail hread
  obtain ⟨fuel', names', x, -, hmeans, hread⟩ := h fuel [] tail names _ hread
  obtain ⟨rfl, rfl⟩ := Prod.mk.inj (eq_of_ends htail hread)
  exact ⟨rfl, rfl, regex_sequence_singleton x ▸ hmeans⟩

/-- A sequence is what can stand between parentheses. -/
theorem IsSequence.isEnclosed (h : IsSequence text r) : IsEnclosed false text r := by
  intro fuel names tail x s hread
  obtain ⟨_, items, t, hitems, hrest⟩ := exists_of_alternatives hread
  obtain ⟨ht, -, hmeans⟩ := h _ _ _ _ _ (.inr (.inl rfl)) hitems
  rw [ht, if_neg (by simp)] at hrest
  obtain ⟨rfl, rfl⟩ := hrest
  exact ⟨ht, hmeans⟩

/-- With parentheses around it, that is one item. -/
theorem IsEnclosed.isItem (h : IsEnclosed ignoreCase text r) :
    IsItem (opening ignoreCase ++ text ++ [')']) r := by
  intro fuel items tail names out hread
  rw [List.append_assoc, List.append_assoc] at hread
  obtain ⟨_, inner, t, fuel', g, hinner, -, hregex, hform, hread⟩ := exists_of_opening hread
  obtain ⟨ht, hmeans⟩ := h _ _ _ _ _ hinner
  rw [ht] at hread
  exact ⟨fuel', t.names, g, hform, hregex ▸ hmeans, hread⟩

/-- A pattern that stands by itself means what it says. -/
theorem isEnclosed_pattern {value : String} {flags : Option String} (h : PatternStands value flags) :
    IsEnclosed (ignoresCase flags) value.toList (.pattern value flags) := by
  obtain ⟨regex, halone⟩ := Option.isSome_iff_exists.mp h.alone
  intro fuel names tail x s hread
  obtain ⟨rfl, hs⟩ := eq_of_readWith? halone h.grouped hread
  refine ⟨hs, fun before u after => ⟨.pattern halone, fun hdescribes => ?_⟩,
    fun hknown => hknown _ halone⟩
  cases hdescribes with
  | pattern halone' h =>
    obtain rfl := Option.some.inj (halone.symm.trans halone')
    exact h

/-- The characters of an escaped text are items, one for each. -/
theorem exists_of_escapeText {cs : List Char} {out : List Nested × ReadState}
    (h : sequenceItems fuel items ⟨escapeText cs ++ tail, .initial, names⟩ = some out) :
    ∃ fuel', sequenceItems fuel' ((cs.map itemOf).reverse ++ items) ⟨tail, .initial, names⟩ =
      some out := by
  induction cs generalizing fuel items with
  | nil => exact ⟨fuel, h⟩
  | cons c cs ih =>
    cases fuel with
    | zero => cases h
    | succ fuel =>
      rw [escapeText_cons, List.append_assoc, sequenceItems_escapeText] at h
      obtain ⟨fuel', h⟩ := ih h
      refine ⟨fuel', ?_⟩
      rw [List.map_cons, List.reverse_cons, List.append_assoc]
      exact h

/-- A literal is read as the sequence of its characters, each of them escaped if it has to be. -/
theorem isSequence_literal (text : String) :
    IsSequence (escapeText text.toList) (.literal text) := by
  intro fuel tail names items s htail h
  obtain ⟨fuel', h⟩ := exists_of_escapeText h
  obtain ⟨rfl, rfl⟩ := Prod.mk.inj (eq_of_ends htail h)
  rw [List.append_nil, (sequence_text text.toList).1]
  exact ⟨rfl, rfl, means_literal text⟩

/-- A repetition sign stands for a repetition of the last item, unless a further sign follows. -/
theorem repeatLast_of_ends (htail : Ends tail) {x : Nested} (hx : x.form ≠ .setting) (least : Nat) :
    repeatLast [x] least none ⟨tail, .initial, names⟩ =
      some ([⟨.repeated x.regex least none, x.depth + 1, x.form⟩], ⟨tail, .initial, names⟩) := by
  have hnext : tail.head? ≠ some '?' := by
    rcases htail with hhead | hhead | hhead <;> rw [hhead] <;> decide
  have hrepeated : repetition x.regex least none = .repeated x.regex least none := by
    simp [repetition]
  rw [repeatLast.eq_def]
  dsimp only
  rw [if_neg hx, Read.bind_apply]
  change (if tail.head? = some '?' then _ else _ : Read (List Nested)) ⟨tail, .initial, names⟩ = _
  rw [if_neg hnext, hrepeated]
  rfl

/-- A sign of repetition repeats the item before it, if no other sign follows. -/
theorem exists_of_repetition {sign : Char} {least : Nat} {x : Nested}
    (hsign : sign = '*' ∧ least = 0 ∨ sign = '+' ∧ least = 1) (htail : Ends tail)
    {out : List Nested × ReadState} (hx : x.form ≠ .setting)
    (h : sequenceItems fuel [x] ⟨sign :: tail, .initial, names⟩ = some out) :
    out = ([⟨.repeated x.regex least none, x.depth + 1, x.form⟩], ⟨tail, .initial, names⟩) := by
  cases fuel with
  | zero => cases h
  | succ fuel =>
    have hsteps : sequenceItems (fuel + 1) [x] ⟨sign :: tail, .initial, names⟩ =
        (repeatLast [x] least none >>= sequenceItems fuel) ⟨tail, .initial, names⟩ := by
      rw [sequenceItems]
      rcases hsign with ⟨rfl, rfl⟩ | ⟨rfl, rfl⟩ <;> rfl
    rw [hsteps, Read.bind_apply, repeatLast_of_ends htail hx] at h
    exact eq_of_ends htail h

/-- So an item with a star behind it is read as a repetition. -/
theorem IsItem.zeroOrMore (h : IsItem text r) : IsSequence (text ++ ['*']) (.zeroOrMore r) := by
  intro fuel tail names items s htail hread
  rw [List.append_assoc] at hread
  obtain ⟨_, names', x, hx, hmeans, hread⟩ := h _ _ _ _ _ hread
  have hout := exists_of_repetition (.inl ⟨rfl, rfl⟩) htail hx hread
  obtain ⟨rfl, rfl⟩ := Prod.mk.inj hout
  refine ⟨rfl, rfl, ?_⟩
  rw [regex_sequence_singleton]
  exact hmeans.zeroOrMore

/-- So is an item with a plus behind it. -/
theorem IsItem.oneOrMore (h : IsItem text r) : IsSequence (text ++ ['+']) (.oneOrMore r) := by
  intro fuel tail names items s htail hread
  rw [List.append_assoc] at hread
  obtain ⟨_, names', x, hx, hmeans, hread⟩ := h _ _ _ _ _ hread
  have hout := exists_of_repetition (.inr ⟨rfl, rfl⟩) htail hx hread
  obtain ⟨rfl, rfl⟩ := Prod.mk.inj hout
  refine ⟨rfl, rfl, ?_⟩
  rw [regex_sequence_singleton]
  exact hmeans.oneOrMore

/-- Texts that are read as sequences that mean some rules. -/
abbrev AllSequences (texts : List (List Char)) (rs : List Rule) : Prop :=
  List.Forall₂ IsSequence texts rs

/-- Groups that follow each other are items. -/
theorem exists_of_groups {texts : List (List Char)} (h : AllSequences texts rs)
    {out : List Nested × ReadState}
    (hread : sequenceItems fuel items
      ⟨(texts.flatMap fun text => opening false ++ text ++ [')']) ++ tail, .initial, names⟩ =
        some out) :
    ∃ fuel' names' new, AllMean new.reverse rs ∧
      sequenceItems fuel' (new ++ items) ⟨tail, .initial, names'⟩ = some out := by
  induction h generalizing fuel items names with
  | nil => exact ⟨fuel, names, [], .nil, hread⟩
  | cons htext _ ih =>
    rw [List.flatMap_cons, List.append_assoc] at hread
    obtain ⟨_, _, x, -, hmeans, hread⟩ := htext.isEnclosed.isItem _ _ _ _ _ hread
    obtain ⟨fuel', names', new, hnew, hread⟩ := ih hread
    refine ⟨fuel', names', new ++ [x], ?_, ?_⟩
    · rw [List.reverse_append]
      exact .cons hmeans hnew
    · rw [List.append_assoc]
      exact hread

/-- Members in parentheses are read one after the other. -/
theorem isSequence_seq {texts : List (List Char)} (h : AllSequences texts rs) :
    IsSequence (texts.flatMap fun text => opening false ++ text ++ [')']) (.seq rs) := by
  intro fuel tail names items s htail hread
  obtain ⟨_, _, new, hnew, hread⟩ := exists_of_groups h hread
  obtain ⟨rfl, rfl⟩ := Prod.mk.inj (eq_of_ends htail hread)
  rw [List.append_nil]
  exact ⟨rfl, rfl, means_sequence hnew⟩

/-- Texts with bars between them are branches. -/
theorem exists_of_branches {text : List Char} {texts : List (List Char)} (h : IsSequence text r)
    (hmore : AllSequences texts rs) {branches : List Nested} {x : Nested} {s : ReadState}
    (hread : alternatives fuel branches
      ⟨['|'].intercalate (text :: texts) ++ ')' :: tail, .initial, names⟩ = some (x, s)) :
    s.rest = ')' :: tail ∧
      ∃ new, AllMean new.reverse (r :: rs) ∧ x = Read.choice (new ++ branches) := by
  induction hmore generalizing text r fuel names branches with
  | nil =>
    obtain ⟨_, items, t, hitems, hrest⟩ := exists_of_alternatives hread
    rw [show ['|'].intercalate [text] = text by simp [List.intercalate]] at hitems
    obtain ⟨ht, -, hmeans⟩ := h _ _ _ _ _ (.inr (.inl rfl)) hitems
    rw [ht, if_neg (by simp)] at hrest
    obtain ⟨rfl, rfl⟩ := hrest
    exact ⟨ht, [sequence items], .cons hmeans .nil, rfl⟩
  | @cons text' r' texts rs h' hmore ih =>
    obtain ⟨_, items, t, hitems, hrest⟩ := exists_of_alternatives hread
    rw [show ['|'].intercalate (text :: text' :: texts) =
      text ++ '|' :: ['|'].intercalate (text' :: texts) by simp [List.intercalate],
      List.append_assoc] at hitems
    obtain ⟨ht, hflags, hmeans⟩ := h _ _ _ _ _ (.inr (.inr rfl)) hitems
    obtain ⟨rest, flags, names'⟩ := t
    obtain rfl : rest = _ := ht
    obtain rfl : flags = _ := hflags
    rw [if_pos (by rfl)] at hrest
    obtain ⟨hs, new, hnew, hx⟩ := ih h' hrest
    refine ⟨hs, new ++ [sequence items], ?_, ?_⟩
    · rw [List.reverse_append]
      exact .cons hmeans hnew
    · rw [List.append_assoc]
      exact hx

/-- Members with bars between them are read as a choice. -/
theorem isEnclosed_choice {texts : List (List Char)} (h : AllSequences texts rs) (hne : rs ≠ []) :
    IsEnclosed false (['|'].intercalate texts) (.choice rs) := by
  intro fuel names tail x s hread
  cases h with
  | nil => exact absurd rfl hne
  | cons htext hmore =>
    obtain ⟨hs, new, hnew, rfl⟩ := exists_of_branches htext hmore hread
    rw [List.append_nil]
    exact ⟨hs, means_choice hne hnew⟩

/-! ### The expression of a rule -/

variable {owner : String}

/-- A pattern is put into a group of its own, with its flag. -/
theorem exists_of_flaggedPattern {value : String} {flags : List Char} {text : String}
    (h : flaggedPattern owner value flags = .ok text) :
    text.toList = opening (decide ('i' ∈ flags)) ++ value.toList ++ [')'] := by
  rw [flaggedPattern] at h
  split at h
  · cases h
  · rw [← Except.ok.inj h, opening]
    by_cases hi : 'i' ∈ flags <;> simp [hi]

theorem toList_grouped (text : String) :
    ("(?:" ++ text ++ ")").toList = opening false ++ text.toList ++ [')'] := by
  simp [opening]

/-- What is repeated is one item: a group already, or put in a group. -/
theorem isItem_repeatable {text : String} (h : IsSequence text.toList r)
    (hgrouped : r.isGrouped = true → IsItem text.toList r) :
    IsItem (if r.isGrouped = true then text else "(?:" ++ text ++ ")").toList r := by
  split
  · rename_i hgroup
    exact hgrouped hgroup
  · rw [toList_grouped]
    exact h.isEnclosed.isItem

mutual

/-- The expression of a rule means it, as a sequence and, if it is one group, as an item. -/
theorem isSequence_patternText (r : Rule) {text : String} (hstands : r.Sound PatternStands)
    (h : r.patternText owner = .ok text) :
    IsSequence text.toList r ∧ (r.isGrouped = true → IsItem text.toList r) := by
  match r with
  | .blank =>
    obtain rfl := Except.ok.inj h
    refine ⟨?_, nofun⟩
    intro fuel tail names items s htail hread
    obtain ⟨rfl, rfl⟩ := Prod.mk.inj (eq_of_ends htail hread)
    exact ⟨rfl, rfl, means_blank⟩
  | .literal value =>
    obtain rfl := Except.ok.inj h
    refine ⟨?_, nofun⟩
    rw [String.toList_ofList]
    exact isSequence_literal value
  | .pattern value flags =>
    have hitem : IsItem text.toList (.pattern value flags) := by
      rw [exists_of_flaggedPattern h]
      exact (isEnclosed_pattern hstands).isItem
    exact ⟨hitem.isSequence, fun _ => hitem⟩
  | .seq members =>
    obtain ⟨parts, hparts, h⟩ := bind_eq_ok.mp h
    obtain rfl := Except.ok.inj h
    refine ⟨?_, nofun⟩
    have htexts := isSequence_seq (isSequence_patternTexts members hstands hparts)
    rw [String.toList_join, List.flatMap_map]
    rw [List.flatMap_map] at htexts
    simpa only [toList_grouped] using htexts
  | .choice members =>
    obtain ⟨parts, hparts, h⟩ := bind_eq_ok.mp h
    obtain rfl := Except.ok.inj h
    have hitem : IsItem ("(?:" ++ "|".intercalate parts ++ ")").toList (.choice members) := by
      rw [toList_grouped, String.toList_intercalate]
      exact (isEnclosed_choice (isSequence_patternTexts members hstands.2 hparts) hstands.1).isItem
    exact ⟨hitem.isSequence, fun _ => hitem⟩
  | .zeroOrMore content =>
    obtain ⟨part, hpart, h⟩ := bind_eq_ok.mp h
    obtain rfl := Except.ok.inj h
    refine ⟨?_, nofun⟩
    obtain ⟨hsequence, hitem⟩ := isSequence_patternText content hstands hpart
    rw [String.toList_append]
    exact (isItem_repeatable hsequence hitem).zeroOrMore
  | .oneOrMore content =>
    obtain ⟨part, hpart, h⟩ := bind_eq_ok.mp h
    obtain rfl := Except.ok.inj h
    refine ⟨?_, nofun⟩
    obtain ⟨hsequence, hitem⟩ := isSequence_patternText content hstands hpart
    rw [String.toList_append]
    exact (isItem_repeatable hsequence hitem).oneOrMore
  | .token content =>
    obtain ⟨hsequence, hitem⟩ := isSequence_patternText content hstands h
    exact ⟨hsequence.of_means fun _ => .token,
      fun hgrouped => (hitem hgrouped).of_means fun _ => .token⟩
  | .prec assoc level content =>
    obtain ⟨hsequence, hitem⟩ := isSequence_patternText content hstands h
    exact ⟨hsequence.of_means fun _ hmeans => hmeans.prec assoc level,
      fun hgrouped => (hitem hgrouped).of_means fun _ hmeans => hmeans.prec assoc level⟩
  | .reference name => cases h
  | .field name content => cases h

/-- The expressions of some rules mean them. -/
theorem isSequence_patternTexts (rs : List Rule) {texts : List String}
    (hstands : AllSound PatternStands rs) (h : patternTexts owner rs = .ok texts) :
    AllSequences (texts.map String.toList) rs := by
  match rs with
  | [] =>
    obtain rfl := Except.ok.inj h
    exact .nil
  | r :: rs =>
    obtain ⟨part, hpart, h⟩ := bind_eq_ok.mp h
    obtain ⟨parts, hparts, h⟩ := bind_eq_ok.mp h
    obtain rfl := Except.ok.inj h
    exact .cons (isSequence_patternText r hstands.1 hpart).1
      (isSequence_patternTexts rs hstands.2 hparts)

end

/-! ### The law -/

/-- **The expression of a token rule matches just what the rule describes.** Take a rule that is
accepted and whose patterns are expressions by themselves. Its expression matches a piece of a text
if and only if the rule describes it. The empty text is never described, if for each pattern the
least length of a match is known. -/
theorem describes_of_tokenPattern {text : String} {level : Int}
    (h : r.tokenPattern owner = .ok (text, level)) (hstands : r.Sound PatternStands) :
    ∃ regex, parse? text.toList = some regex ∧
      (∀ before u after, regex.Matches before u after ↔ r.Describes before u after) ∧
      (r.Sound LengthKnown → ∀ before after, ¬ r.Describes before [] after) := by
  obtain ⟨written, hwritten, h⟩ := bind_eq_ok.mp h
  split at h
  · cases h
  · rename_i regex hregex
    split at h
    · cases h
    · rename_i hlength
      obtain ⟨rfl, -⟩ := Prod.mk.inj (Except.ok.inj h)
      -- the whole is one alternative, and nothing follows it
      obtain ⟨_, x, s, hread, -, rfl⟩ :=
        exists_of_readWith? ((parse?_eq_readWith? _).symm.trans hregex)
      obtain ⟨_, items, t, hitems, hrest⟩ := exists_of_alternatives hread
      rw [← List.append_nil written.toList] at hitems
      obtain ⟨ht, -, hmeans⟩ :=
        (isSequence_patternText r hstands hwritten).1 _ _ _ _ _ (.inl rfl) hitems
      rw [ht, if_neg (by simp)] at hrest
      obtain ⟨rfl, -⟩ := hrest
      refine ⟨_, hregex, hmeans.matches_iff, fun hknown before after hempty => ?_⟩
      obtain ⟨n, hn⟩ := Option.ne_none_iff_exists'.mp (hmeans.minLength_ne hknown)
      have hzero := minLength_eq_zero hn ((hmeans.matches_iff ..).mpr hempty)
      rw [hzero] at hn
      exact hlength hn

/-- What is no expression by itself may be accepted as a pattern: in its group it is two. -/
theorem tokenPattern_unbalanced :
    (Rule.pattern "a)(?:b" none).tokenPattern "pair" = .ok ("(?:a)(?:b)", 0) ∧
      readWith? (caseFlags false) "a)(?:b".toList = none := by
  constructor
  · exact eq_ok_of_toOption (by decide +kernel)
  · decide +kernel

/-- A point and then some letters, of two kinds. -/
def dotted : Rule := .seq [.literal ".", .oneOrMore (.pattern "a|b" none)]

/-- A token whose expression needs all of this: an escape, groups and a repetition. -/
theorem describes_dotted :
    dotted.tokenPattern "dotted" = .ok ("(?:\\.)(?:(?:a|b)+)", 0) ∧ dotted.Sound PatternStands ∧
      dotted.Sound LengthKnown ∧ ∃ regex, parse? "(?:\\.)(?:(?:a|b)+)".toList = some regex ∧
        (∀ before u after, regex.Matches before u after ↔ dotted.Describes before u after) ∧
        ∀ before after, ¬ dotted.Describes before [] after := by
  have htext : dotted.tokenPattern "dotted" = .ok ("(?:\\.)(?:(?:a|b)+)", 0) :=
    eq_ok_of_toOption (by decide +kernel)
  have hstands : PatternStands "a|b" none := ⟨by decide +kernel, by decide +kernel⟩
  have hlength : (readWith? (caseFlags false) "a|b".toList).bind minLength = some 1 := by
    decide +kernel
  have hknown : LengthKnown "a|b" none := by
    intro regex hregex
    have hcase : ignoresCase none = false := by decide
    rw [hcase] at hregex
    rw [hregex] at hlength
    exact Option.ne_none_iff_exists'.mpr ⟨1, hlength⟩
  have hsound : dotted.Sound PatternStands := ⟨trivial, hstands, trivial⟩
  have hlengths : dotted.Sound LengthKnown := ⟨trivial, hknown, trivial⟩
  obtain ⟨regex, hregex, hmatches, hempty⟩ := describes_of_tokenPattern htext hsound
  exact ⟨htext, hsound, hlengths, regex, hregex, hmatches, hempty hlengths⟩

end Rule

end LRWorkbench
