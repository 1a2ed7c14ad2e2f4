import LRWorkbench.Proofs.Query.Reading

/-!
# What is spelled is read

Tokens that spell patterns are read in silence for these patterns (`accepts_patterns`), since what comes
next tells where a part ends: no capture belongs to a pattern behind its last one, and no quantifier or
capture to a child (`IsBehindChild`).

**Main statement.** `parse_eq_iff`: a query is read in silence just for what its tokens spell.
-/

namespace LRWorkbench.Query

open Reporting

namespace Read

variable {α β : Type} {t : Token} {rest : List Token} {fuel : Nat}

/-! ### Accepted tokens -/

/-- Whether a step takes some tokens in front of others away in silence and finds something. -/
def Accepts (p : Read α) (own rest : List Token) (a : α) : Prop :=
  ∀ last reported stop, p ⟨own ++ rest, last, reported, stop⟩ =
    (a, ⟨rest, spanBehind own last, reported, stop⟩)

/-- Whether no capture is next. -/
def IsBehindCaptures (rest : List Token) : Prop :=
  ∀ t ∈ rest.head?, t.kind ≠ .capture ∧ t.kind ≠ .atSign

/-- Whether what is next does not belong to a child in front of it. -/
def IsBehindChild (rest : List Token) : Prop :=
  ∀ t ∈ rest.head?, t.kind ≠ .capture ∧ t.kind ≠ .atSign ∧ t.kind.quantifier? = none

/-- What does not belong to a child is no capture of its pattern. -/
theorem IsBehindChild.captures (h : IsBehindChild rest) : IsBehindCaptures rest :=
  fun t ht => ⟨(h t ht).1, (h t ht).2.1⟩

section

variable {own own' cs : List Token} {p : Read α} {f : α → Read β} {f' : Unit → Read β}
  {next : Option Token → Read β} {a : α} {b : β}

/-- The second step takes what the first one leaves in front of the rest. -/
theorem Accepts.bind (hp : Accepts p own (own' ++ rest) a) (hf : Accepts (f a) own' rest b) :
    Accepts (p >>= f) (own ++ own') rest b := by
  intro last reported stop
  rw [bind_apply, List.append_assoc, hp, hf, spanBehind_append]

theorem Accepts.pure (a : α) (rest : List Token) : Accepts (pure a) [] rest a := fun _ _ _ => rfl

/-- What is made of the answer in the end. -/
theorem Accepts.answer {g : α → β} (hp : Accepts p own rest a) :
    Accepts (p >>= fun a => Pure.pure (g a)) own rest (g a) := by
  intro last reported stop
  rw [bind_apply, hp]
  rfl

theorem Accepts.bump (hf : Accepts (f' ()) own rest b) : Accepts (bump >>= f') (t :: own) rest b :=
  fun _ reported stop => hf t.span reported stop

/-- What the next token is decides what is done. -/
theorem Accepts.peek (hf : Accepts (next (some t)) (t :: own) rest b) :
    Accepts (peek? >>= next) (t :: own) rest b := hf

/-- At the end of the tokens, nothing is next. -/
theorem accepts_at {next : Option Token → Read β} (hnone : Accepts (next none) [] rest b)
    (hsome : ∀ t ∈ rest.head?, Accepts (next (some t)) [] rest b) :
    Accepts (peek? >>= next) [] rest b := by
  cases rest with
  | nil => exact hnone
  | cons t rest => exact hsome t rfl

/-- A step that only looks takes nothing. -/
theorem Accepts.look (hp : ∀ s, s.rest = own ++ rest → p s = (a, s)) (hf : Accepts (f a) own rest b) :
    Accepts (p >>= f) own rest b := by
  intro last reported stop
  rw [bind_apply, hp _ rfl, hf]

/-! ### Parts of patterns -/

/-- Captures are taken until there are no more. -/
theorem accepts_captures (hcs : AreCaptures cs) (hrest : IsBehindCaptures rest)
    (hfuel : cs.length ≤ fuel) : Accepts (captures fuel) cs rest (cs.map captureOf) := by
  induction cs generalizing fuel with
  | nil =>
    cases fuel with
    | zero => exact .pure [] rest
    | succ fuel =>
      rw [captures]
      refine accepts_at (.pure [] rest) fun t ht => ?_
      obtain ⟨hcapture, hat⟩ := hrest t ht
      dsimp only
      rw [if_neg hcapture, if_neg hat]
      exact .pure [] rest
  | cons c cs ih =>
    obtain ⟨hc, hcs⟩ := List.forall_mem_cons.mp hcs
    cases fuel with
    | zero => exact absurd hfuel (Nat.not_succ_le_zero _)
    | succ fuel =>
      rw [captures]
      refine .peek ?_
      dsimp only
      rw [if_pos hc]
      exact .bump (ih hcs (Nat.le_of_succ_le_succ hfuel)).answer

theorem accepts_plainCaptures (hcs : AreCaptures cs) (hrest : IsBehindCaptures rest)
    (hfuel : cs.length ≤ fuel) : Accepts (plainCaptures fuel) cs rest (cs.map captureOf) := by
  induction cs generalizing fuel with
  | nil =>
    cases fuel with
    | zero => exact .pure [] rest
    | succ fuel =>
      rw [plainCaptures]
      refine accepts_at (.pure [] rest) fun t ht => ?_
      dsimp only
      rw [if_neg (hrest t ht).1]
      exact .pure [] rest
  | cons c cs ih =>
    obtain ⟨hc, hcs⟩ := List.forall_mem_cons.mp hcs
    cases fuel with
    | zero => exact absurd hfuel (Nat.not_succ_le_zero _)
    | succ fuel =>
      rw [plainCaptures]
      refine .peek ?_
      dsimp only
      rw [if_pos hc]
      exact .bump (ih hcs (Nat.le_of_succ_le_succ hfuel)).answer

/-- A name, or the sign for any, is taken for the kind of a node. -/
theorem accepts_nodeKind {k : Token} {kind : Option Name} (hk : SpellsKind k kind) :
    Accepts (nodeKind k) [k] rest kind := by
  rw [nodeKind]
  cases hk with
  | any h =>
    rw [if_pos h]
    exact .bump (.pure none rest)
  | named h =>
    rw [if_neg (by simp [h]), if_pos h]
    exact .bump (.pure _ rest)

/-- A string is silent if its body has no errors. -/
theorem accepts_stringOf {value : List Char} (h : unescape (inside t.text) = (value, [])) :
    Accepts (stringOf t) [] rest (some ⟨String.ofList value, t.span⟩) := by
  intro last reported stop
  have hvalue : unescape ((t.text.drop 1).dropLast) = (value, []) := h
  rw [stringOf, hvalue]
  rfl

/-- A negated field takes its name. -/
theorem accepts_negatedField {n : Token} (hn : n.kind = .ident) (bang : Token) :
    Accepts (negatedField bang) [n] rest [nameOf n] := by
  rw [negatedField]
  refine .peek ?_
  dsimp only
  rw [if_pos hn]
  exact .bump (.pure _ rest)

/-- A quantifier is taken if there is one. Without it a child is there once. -/
theorem accepts_quantifier {sign : Token} {often : Quantifier}
    (hsign : sign.kind.quantifier? = some often) : Accepts quantifier [sign] rest often := by
  intro last reported stop
  rw [List.singleton_append, quantifier_apply, hsign]
  rfl

theorem accepts_quantifier_one (hrest : IsBehindChild rest) : Accepts quantifier [] rest .one := by
  intro last reported stop
  cases rest with
  | nil => rfl
  | cons t rest =>
    rw [List.nil_append, quantifier_apply, (hrest t rfl).2.2]
    rfl

/-! ### Patterns -/

/-- With so much fuel for the tokens ahead, what is spelled is read in silence. -/
structure Complete (fuel : Nat) : Prop where
  pattern : ∀ {own rest p}, SpellsPattern own p → IsBehindCaptures rest →
    5 * (own.length + rest.length) ≤ fuel → Accepts (pattern fuel) own rest (some p)
  form : ∀ {t own rest f}, SpellsForm (t :: own) f → 5 * (own.length + rest.length) + 4 ≤ fuel →
    Accepts (form fuel t) own rest (some f)
  node : ∀ {k ts closing rest kind children negated} opener, SpellsKind k kind →
    SpellsMembers ts children negated → closing.kind = .parenClose →
    5 * (ts.length + 2 + rest.length) + 3 ≤ fuel →
    Accepts (node fuel opener) (k :: (ts ++ [closing])) rest (some (.node kind children negated))
  members : ∀ {ts closing rest children negated} opener, SpellsMembers ts children negated →
    closing.kind = .parenClose → 5 * (ts.length + 1 + rest.length) + 2 ≤ fuel →
    Accepts (members fuel opener) (ts ++ [closing]) rest (children, negated)
  child : ∀ {ts p qs often more rest} field, SpellsPattern ts p → SpellsQuantifier qs often more →
    IsBehindChild rest → 5 * (ts.length + qs.length + rest.length) + 1 ≤ fuel →
    Accepts (child fuel field) (ts ++ qs) rest (some (.mk field (p.addCaptures more) often))
  choice : ∀ {ts closing rest ps} opener, SpellsAll ts ps → ps ≠ [] → closing.kind = .bracketClose →
    5 * (ts.length + 1 + rest.length) + 3 ≤ fuel →
    Accepts (choice fuel opener) (ts ++ [closing]) rest (some (.choice ps))
  alternatives : ∀ {ts closing rest ps} opener, SpellsAll ts ps → closing.kind = .bracketClose →
    5 * (ts.length + 1 + rest.length) + 1 ≤ fuel →
    Accepts (alternatives fuel opener) (ts ++ [closing]) rest ps

/-- A form is taken with its captures. -/
theorem Complete.pattern_succ (h : Complete fuel) {p : PatternSyntax} (hp : SpellsPattern own p)
    (hrest : IsBehindCaptures rest) (hfuel : 5 * (own.length + rest.length) ≤ fuel + 1) :
    Accepts (Read.pattern (fuel + 1)) own rest (some p) := by
  cases hp with
  | @mk t ts cs form hform hcs =>
    rw [List.length_cons, List.length_append] at hfuel
    rw [Read.pattern]
    have hform : Accepts (Read.form fuel t) ts (cs ++ rest) (some form) :=
      h.form hform (by rw [List.length_append]; omega)
    have hcaptures := accepts_captures hcs hrest ((List.sublist_append_left cs rest).length_le)
    refine .peek fun last reported stop => ?_
    dsimp only
    rw [List.cons_append, bind_apply, bump_apply, bind_apply, List.append_assoc, hform, bind_apply, get_apply,
      bind_apply, room_apply, bind_apply, hcaptures, getLast?_captures, ← spanBehind_append]
    rfl

/-- The first token says which form it is, and the rest is taken as that form. -/
theorem Complete.form_succ (h : Complete fuel) {f : FormSyntax} (hf : SpellsForm (t :: own) f)
    (hfuel : 5 * (own.length + rest.length) + 4 ≤ fuel + 1) :
    Accepts (Read.form (fuel + 1) t) own rest (some f) := by
  rw [Read.form]
  cases hf with
  | node hopening hkind hmembers hclosing =>
    rw [hopening]
    exact h.node t hkind hmembers hclosing (by simp at hfuel; omega)
  | wildcard ht =>
    rw [ht]
    exact .pure _ rest
  | text ht hvalue =>
    rw [ht]
    exact (accepts_stringOf hvalue).answer
  | choice hopening hall hsome hclosing =>
    rw [hopening]
    exact h.choice t hall hsome hclosing (by simp at hfuel; omega)

/-- The members of a node are taken up to its parenthesis. -/
theorem Complete.node_succ (h : Complete fuel) {k closing : Token} {ts : List Token}
    {kind : Option Name} {children : List ChildSyntax} {negated : List Name} (opener : Token)
    (hkind : SpellsKind k kind) (hmembers : SpellsMembers ts children negated)
    (hclosing : closing.kind = .parenClose)
    (hfuel : 5 * (ts.length + 2 + rest.length) + 3 ≤ fuel + 1) :
    Accepts (Read.node (fuel + 1) opener) (k :: (ts ++ [closing])) rest
      (some (.node kind children negated)) := by
  rw [Read.node]
  refine .peek ((accepts_nodeKind hkind).bind ?_)
  exact (h.members opener hmembers hclosing (by omega)).answer

/-- A choice takes its patterns, of which there has to be one, and its bracket. -/
theorem Complete.choice_succ (h : Complete fuel) {closing : Token} {ts : List Token}
    {ps : List PatternSyntax} (opener : Token) (hall : SpellsAll ts ps) (hsome : ps ≠ [])
    (hclosing : closing.kind = .bracketClose)
    (hfuel : 5 * (ts.length + 1 + rest.length) + 3 ≤ fuel + 1) :
    Accepts (Read.choice (fuel + 1) opener) (ts ++ [closing]) rest (some (.choice ps)) := by
  rw [Read.choice, ← List.append_nil (ts ++ [closing])]
  refine (h.alternatives opener hall hclosing (by simp; omega)).bind ?_
  rw [if_neg (by simpa using hsome)]
  exact .pure _ rest

/-- A child takes its pattern, then its quantifier, and then captures behind the quantifier. -/
theorem Complete.child_succ (h : Complete fuel) {ts qs : List Token} {p : PatternSyntax}
    {often : Quantifier} {more : List Name} (field : Option Name) (hp : SpellsPattern ts p)
    (hoften : SpellsQuantifier qs often more) (hrest : IsBehindChild rest)
    (hfuel : 5 * (ts.length + qs.length + rest.length) + 1 ≤ fuel + 1) :
    Accepts (Read.child (fuel + 1) field) (ts ++ qs) rest
      (some (.mk field (p.addCaptures more) often)) := by
  rw [Read.child]
  cases hoften with
  | one =>
    refine (h.pattern hp ?_ ?_).bind ?_
    · exact hrest.captures
    · simpa using Nat.le_of_succ_le_succ hfuel
    · have hone : Accepts quantifier [] ([] ++ rest) .one := accepts_quantifier_one hrest
      dsimp only
      refine hone.bind ?_
      exact .pure _ rest
  | @sign sign _ cs hsign hcs =>
    have hnext : IsBehindCaptures (sign :: cs ++ rest) := by
      rintro t ht
      obtain rfl := Option.some.inj ht
      constructor
      · intro hkind
        simp [hkind, TokenKind.quantifier?] at hsign
      · intro hkind
        simp [hkind, TokenKind.quantifier?] at hsign
    refine (h.pattern hp hnext (by simp at hfuel ⊢; omega)).bind ?_
    rw [← List.singleton_append]
    dsimp only
    refine (accepts_quantifier hsign).bind ?_
    rw [if_neg (quantifier?_ne_one hsign)]
    refine .look (a := (cs ++ rest).length) (fun s hs => ?_) ?_
    · rw [room_apply, hs]
    · exact (accepts_plainCaptures hcs hrest.captures ((List.sublist_append_left cs rest).length_le)).answer

/-- A pattern stands for a child without a field. -/
theorem accepts_members_starts {found : List ChildSyntax × List Name} {opener : Token}
    (ht : t.kind.starts = true) (h : Accepts (membersFrom fuel opener none) (t :: own) rest found) :
    Accepts (members (fuel + 1) opener) (t :: own) rest found := by
  intro last reported stop
  refine Eq.trans ?_ (h last reported stop)
  obtain ⟨kind, start, text⟩ := t
  rw [members]
  cases kind <;> first | rfl | cases ht

/-- A name before a colon is a field of the child behind it, and no pattern. -/
theorem accepts_members_field {found : List ChildSyntax × List Name} {opener n colon : Token}
    (hn : n.kind = .ident) (hcolon : colon.kind = .colon)
    (h : Accepts (membersFrom fuel opener (some (nameOf n))) own rest found) :
    Accepts (members (fuel + 1) opener) (n :: colon :: own) rest found := by
  intro last reported stop
  refine Eq.trans ?_ (h colon.span reported stop)
  obtain ⟨kind, start, text⟩ := n
  obtain ⟨kind', start', text'⟩ := colon
  obtain rfl := hn
  obtain rfl := hcolon
  rw [members]
  rfl

/-- Patterns in a row. -/
theorem accepts_cons {list more : Read (List PatternSyntax)} {ts : List Token} {p : PatternSyntax}
    {ps : List PatternSyntax} (hp : SpellsPattern ts p)
    (hfirst : Accepts (pattern fuel) ts (own ++ rest) (some p)) (hmore : Accepts more own rest ps)
    (hlist : ∀ t : Token, t.kind.starts = true → ∀ rest last reported stop,
      list ⟨t :: rest, last, reported, stop⟩ = (do
        let first ← pattern fuel
        let others ← more
        return first.toList ++ others : Read (List PatternSyntax)) ⟨t :: rest, last, reported, stop⟩) :
    Accepts list (ts ++ own) rest (p :: ps) := by
  have hthen : Accepts (do
      let first ← pattern fuel
      let others ← more
      return first.toList ++ others) (ts ++ own) rest (p :: ps) := hfirst.bind hmore.answer
  obtain ⟨t, ts, rfl, ht⟩ := hp.starts
  intro last reported stop
  exact (hlist t ht _ last reported stop).trans (hthen last reported stop)

/-- A pattern in a choice leaves the others to be taken. -/
theorem accepts_alternatives_cons {ts : List Token} {p : PatternSyntax} {ps : List PatternSyntax}
    {opener : Token} (hp : SpellsPattern ts p)
    (hfirst : Accepts (pattern fuel) ts (own ++ rest) (some p))
    (hmore : Accepts (alternatives fuel opener) own rest ps) :
    Accepts (alternatives (fuel + 1) opener) (ts ++ own) rest (p :: ps) := by
  refine accepts_cons hp hfirst hmore ?_
  rintro ⟨kind, start, text⟩ ht rest last reported stop
  rw [alternatives]
  cases kind <;> first | rfl | cases ht

/-- So does a pattern of the query. -/
theorem accepts_patterns_cons {ts : List Token} {p : PatternSyntax} {ps : List PatternSyntax}
    {tokens : Nat} (hp : SpellsPattern ts p)
    (hfirst : Accepts (pattern fuel) ts (own ++ rest) (some p))
    (hmore : Accepts (patterns fuel tokens) own rest ps) :
    Accepts (patterns fuel (tokens + 1)) (ts ++ own) rest (p :: ps) := by
  refine accepts_cons hp hfirst hmore ?_
  rintro ⟨kind, start, text⟩ ht rest last reported stop
  rw [patterns]
  cases kind <;> first | rfl | cases ht

/-- What a pattern starts with does not belong to what is in front of it. -/
theorem isBehindChild_of_starts (ht : t.kind.starts = true) : IsBehindChild (t :: rest) := by
  rintro _ ⟨⟩
  cases hkind : t.kind <;> simp_all [TokenKind.starts, TokenKind.quantifier?]

/-- No pattern begins with a capture. -/
theorem isBehindCaptures_of_all {ps : List PatternSyntax} (h : SpellsAll own ps)
    (hrest : IsBehindCaptures rest) : IsBehindCaptures (own ++ rest) := by
  cases h with
  | nil => exact hrest
  | cons hfirst =>
    obtain ⟨t, ts, rfl, ht⟩ := hfirst.starts
    exact (isBehindChild_of_starts ht).captures

/-- No member of a node begins with a capture or a quantifier. -/
theorem isBehindChild_of_members {children : List ChildSyntax} {negated : List Name}
    (h : SpellsMembers own children negated) (hrest : IsBehindChild rest) :
    IsBehindChild (own ++ rest) := by
  cases h with
  | nil => exact hrest
  | child hfirst =>
    cases hfirst with
    | mk hfield hpattern =>
      cases hfield with
      | none =>
        obtain ⟨t, ts, rfl, ht⟩ := hpattern.starts
        exact isBehindChild_of_starts ht
      | named hname =>
        rintro _ ⟨⟩
        simp [hname, TokenKind.quantifier?]
  | absent hbang =>
    rintro _ ⟨⟩
    simp [hbang, TokenKind.quantifier?]

/-- Members go on behind a child, whatever field it has. -/
theorem Complete.membersFrom (h : Complete fuel) {ts qs ts' : List Token} {closing : Token}
    {p : PatternSyntax} {often : Quantifier} {more : List Name} {children : List ChildSyntax}
    {negated : List Name} (opener : Token) (field : Option Name) (hp : SpellsPattern ts p)
    (hoften : SpellsQuantifier qs often more) (hmembers : SpellsMembers ts' children negated)
    (hclosing : closing.kind = .parenClose)
    (hfuel : 5 * (ts.length + qs.length + ts'.length + 1 + rest.length) + 1 ≤ fuel) :
    Accepts (Read.membersFrom fuel opener field) (ts ++ qs ++ (ts' ++ [closing])) rest
      (.mk field (p.addCaptures more) often :: children, negated) := by
  have hlength := List.length_pos_iff.mpr hp.ne_nil
  have hnext : IsBehindChild (ts' ++ [closing] ++ rest) := by
    rw [List.append_assoc]
    refine isBehindChild_of_members hmembers ?_
    rintro _ ⟨⟩
    simp [hclosing, TokenKind.quantifier?]
  refine (h.child field hp hoften hnext (by simp; omega)).bind ?_
  exact (h.members opener hmembers hclosing (by omega)).answer

/-- Each member is known by its first token, and by the second if that is a colon. -/
theorem Complete.members_succ (h : Complete fuel) {closing : Token} {ts : List Token}
    {children : List ChildSyntax} {negated : List Name} (opener : Token)
    (hmembers : SpellsMembers ts children negated) (hclosing : closing.kind = .parenClose)
    (hfuel : 5 * (ts.length + 1 + rest.length) + 2 ≤ fuel + 1) :
    Accepts (Read.members (fuel + 1) opener) (ts ++ [closing]) rest (children, negated) := by
  cases hmembers with
  | nil =>
    rw [Read.members]
    refine .peek ?_
    dsimp only
    rw [hclosing]
    exact .bump (.pure _ rest)
  | child hfirst hrest =>
    cases hfirst with
    | mk hfield hpattern hoften =>
      cases hfield with
      | none =>
        have hfrom : Accepts (Read.membersFrom fuel opener none) _ rest _ :=
          h.membersFrom opener none hpattern hoften hrest hclosing (by simp at hfuel; omega)
        obtain ⟨t, ts, rfl, ht⟩ := hpattern.starts
        simp only [List.nil_append, List.cons_append, List.append_assoc] at hfrom ⊢
        exact accepts_members_starts ht hfrom
      | @named n _ hname hcolon =>
        have hfrom : Accepts (Read.membersFrom fuel opener (some (nameOf n))) _ rest _ :=
          h.membersFrom opener _ hpattern hoften hrest hclosing (by simp at hfuel; omega)
        simp only [List.nil_append, List.cons_append, List.append_assoc] at hfrom ⊢
        exact accepts_members_field hname hcolon hfrom
  | @absent bang n ts _ _ hbang hname hrest =>
    rw [Read.members, List.cons_append, List.cons_append]
    refine .peek ?_
    dsimp only
    rw [hbang]
    refine .bump ?_
    rw [← List.singleton_append]
    refine (accepts_negatedField hname bang).bind ?_
    exact (h.members opener hrest hclosing (by simp at hfuel; omega)).answer

/-- The patterns of a choice are taken one by one. -/
theorem Complete.alternatives_succ (h : Complete fuel) {closing : Token} {ts : List Token}
    {ps : List PatternSyntax} (opener : Token) (hall : SpellsAll ts ps)
    (hclosing : closing.kind = .bracketClose)
    (hfuel : 5 * (ts.length + 1 + rest.length) + 1 ≤ fuel + 1) :
    Accepts (Read.alternatives (fuel + 1) opener) (ts ++ [closing]) rest ps := by
  cases hall with
  | nil =>
    rw [Read.alternatives]
    refine .peek ?_
    dsimp only
    rw [hclosing]
    exact .bump (.pure _ rest)
  | @cons ts _ ts' _ hfirst hrest =>
    have hlength := List.length_pos_iff.mpr hfirst.ne_nil
    have hnext : IsBehindCaptures (ts' ++ [closing] ++ rest) := by
      rw [List.append_assoc]
      refine isBehindCaptures_of_all hrest ?_
      rintro _ ⟨⟩
      simp [hclosing]
    rw [List.length_append] at hfuel
    rw [List.append_assoc]
    exact accepts_alternatives_cons hfirst (h.pattern hfirst hnext (by simp; omega))
      (h.alternatives opener hrest hclosing (by omega))

/-- The bounds hold for any fuel, by induction on it. -/
theorem complete (fuel : Nat) : Complete fuel := by
  induction fuel with
  | zero => exact {
      pattern := fun hp _ hfuel =>
        absurd hp.ne_nil (not_not.mpr (List.eq_nil_of_length_eq_zero (by omega)))
      form := fun _ hfuel => absurd hfuel (by omega)
      node := fun _ _ _ _ hfuel => absurd hfuel (by omega)
      members := fun _ _ _ hfuel => absurd hfuel (by omega)
      child := fun _ _ _ _ hfuel => absurd hfuel (by omega)
      choice := fun _ _ _ _ hfuel => absurd hfuel (by omega)
      alternatives := fun _ _ _ hfuel => absurd hfuel (by omega) }
  | succ fuel ih => exact {
      pattern := ih.pattern_succ
      form := ih.form_succ
      node := ih.node_succ
      members := ih.members_succ
      child := ih.child_succ
      choice := ih.choice_succ
      alternatives := ih.alternatives_succ }

/-- The patterns of a query are all taken, one for each round at most. -/
theorem accepts_patterns {ts : List Token} {ps : List PatternSyntax} {tokens : Nat}
    (h : SpellsAll ts ps) (hfuel : 5 * ts.length ≤ fuel) (htokens : ts.length ≤ tokens) :
    Accepts (patterns fuel tokens) ts [] ps := by
  induction tokens generalizing ts ps with
  | zero =>
    cases h with
    | nil => exact .pure [] []
    | cons hfirst => simp [hfirst.ne_nil] at htokens
  | succ tokens ih =>
    cases h with
    | nil =>
      rw [patterns]
      exact .pure _ _
    | @cons ts _ ts' _ hfirst hrest =>
      have hlength := List.length_pos_iff.mpr hfirst.ne_nil
      have hnext : IsBehindCaptures (ts' ++ []) :=
        isBehindCaptures_of_all hrest fun t ht => absurd ht (Option.not_mem_none t)
      rw [List.length_append] at hfuel htokens
      exact accepts_patterns_cons hfirst ((complete fuel).pattern hfirst hnext (by simp; omega))
        (ih hrest (by omega) (by omega))

end

end Read

/-! ### Queries -/

/-- What the reader of a query has in hand at first. -/
def readFrom (source : List Char) : ReadState :=
  ⟨lex source, .emptyAt 0, [], Text.byteLength source⟩

/-- The reader run on a query. -/
def readAll (source : List Char) : List PatternSyntax × ReadState :=
  Read.patterns (5 * (lex source).length + 5) (lex source).length (readFrom source)

/-- Parsing a query runs the reader on its tokens. -/
theorem parse_eq (source : List Char) :
    parse source = ((readAll source).1, (readAll source).2.reported.reverse) := rfl

/-- **A query is read in silence just for what its tokens spell.** -/
theorem parse_eq_iff {source : List Char} {ps : List PatternSyntax} :
    parse source = (ps, []) ↔ SpellsAll (lex source) ps := by
  rw [parse_eq]
  constructor
  · intro h
    obtain ⟨rfl, hquiet⟩ := Prod.mk.inj h
    have haccounts := Read.accounts_patterns (5 * (lex source).length + 5) (lex source).length
      (readFrom source)
    exact haccounts.found (List.reverse_eq_nil_iff.mp hquiet) (Nat.le_add_right _ 5) (Nat.le_refl _)
  · intro h
    have hrun := Read.accepts_patterns h (Nat.le_add_right _ 5) (Nat.le_refl _) (.emptyAt 0) []
      (Text.byteLength source)
    rw [List.append_nil] at hrun
    rw [readAll, readFrom, hrun]
    rfl

/-- A query of one pattern without captures. -/
theorem parse_of_form {source : List Char} {form : FormSyntax} (h : SpellsForm (lex source) form) :
    ∃ all, parse source = ([.mk form [] all], []) := by
  cases hlex : lex source with
  | nil =>
    rw [hlex] at h
    cases h
  | cons t ts =>
    rw [hlex] at h
    have hpattern := SpellsPattern.mk h (List.forall_mem_nil (fun c : Token => c.kind = .capture))
    have hall := SpellsAll.cons hpattern .nil
    rw [List.append_nil, List.append_nil, ← hlex] at hall
    exact ⟨_, parse_eq_iff.mpr hall⟩

end LRWorkbench.Query
