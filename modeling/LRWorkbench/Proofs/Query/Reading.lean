import LRWorkbench.Proofs.Query.Spelling
import LRWorkbench.Proofs.Except
import Mathlib.Data.List.Induction

/-!
# What is read in silence

What the reader of queries finds without reporting anything was spelled by the tokens that it took
(`accounts_patterns`): whatever is skipped is reported, and nothing reported is taken back.

The steps for patterns call each other, so that what is known of all of them goes by one induction on the
fuel (`Careful`).
-/

namespace LRWorkbench.Query

open Reporting

namespace Read

variable {α β γ : Type} {t : Token} {rest : List Token} {last : Span} {reported : List Diagnostic}
  {stop fuel : Nat}

/-! ### Steps -/

/-- Whether tokens were only read, and errors only reported. -/
structure Leads (s s' : ReadState) : Prop where
  rest : s'.rest <:+ s.rest
  reported : ∃ ds, s'.reported = ds ++ s.reported ∧ ∀ d ∈ ds, d.isError = true

instance : Reporting ReadState where
  reported := ReadState.reported
  Leads := Leads
  refl s := ⟨List.suffix_refl _, [], rfl, nofun⟩
  trans := by
    rintro s s' s'' ⟨hrest, ds, hds, herrors⟩ ⟨hrest', ds', hds', herrors'⟩
    refine ⟨hrest'.trans hrest, ds' ++ ds, ?_, ?_⟩
    · rw [hds', hds, List.append_assoc]
    · exact List.forall_mem_append.mpr ⟨herrors', herrors⟩
  grows h := h.reported

theorem peek?_apply (s : ReadState) : peek? s = (s.rest.head?, s) := rfl

theorem nextIs_apply (kind : TokenKind) (s : ReadState) :
    nextIs kind s = ((s.rest[1]?).any fun t => t.kind = kind, s) := rfl

theorem room_apply (s : ReadState) : room s = (s.rest.length, s) := rfl

theorem bump_apply : bump ⟨t :: rest, last, reported, stop⟩ = ((), ⟨rest, t.span, reported, stop⟩) := rfl

theorem quantifier_apply_nil :
    quantifier ⟨[], last, reported, stop⟩ = (.one, ⟨[], last, reported, stop⟩) := rfl

/-- A quantifier is taken if the next token is one. -/
theorem quantifier_apply : quantifier ⟨t :: rest, last, reported, stop⟩ =
    match t.kind.quantifier? with
      | some often => (often, ⟨rest, t.span, reported, stop⟩)
      | none => (.one, ⟨t :: rest, last, reported, stop⟩) := by
  obtain ⟨kind, start, text⟩ := t
  cases kind <;> rfl

/-- A quantifier says something else than once. -/
theorem quantifier?_ne_one {kind : TokenKind} {often : Quantifier}
    (h : kind.quantifier? = some often) : often ≠ .one := by
  cases kind <;> cases h <;> exact nofun

/-! ### What is taken -/

/-- Whether a step takes some tokens away, with something known of them and the answer. -/
def Takes (s : ReadState) (P : List Token → α → Prop) (a : α) (s' : ReadState) : Prop :=
  ∃ own, s.rest = own ++ s'.rest ∧ s'.last = spanBehind own s.last ∧ P own a

/-- Whether something is found that tokens spell. -/
def Finds (P : List Token → α → Prop) (own : List Token) (found : Option α) : Prop :=
  ∃ a, found = some a ∧ P own a

/-- Whether some tokens end with a closing sign. -/
def Closed (closing : TokenKind) (P : List Token → α → Prop) (own : List Token) (a : α) : Prop :=
  ∃ ts t, own = ts ++ [t] ∧ t.kind = closing ∧ P ts a

section

variable {s s' s'' : ReadState} {P : List Token → α → Prop} {Q : List Token → β → Prop}
  {R : List Token → γ → Prop} {a : α} {b : β} {c : γ}

/-- A step may take nothing away. -/
theorem Takes.nothing (h : P [] a) : Takes s P a s := ⟨[], rfl, rfl, h⟩

/-- A step may take one token. -/
theorem Takes.one (h : P [t] a) :
    Takes ⟨t :: rest, last, reported, stop⟩ P a ⟨rest, t.span, reported, stop⟩ := ⟨[t], rfl, rfl, h⟩

/-- What is known of the tokens may be put in other words. -/
theorem Takes.mono (h : Takes s P a s') (himp : ∀ own, P own a → Q own b) : Takes s Q b s' := by
  obtain ⟨own, hrest, hlast, hown⟩ := h
  exact ⟨own, hrest, hlast, himp own hown⟩

/-- There is less ahead behind something than in front of it. -/
theorem Takes.shorter (h : Takes s P a s') (hP : ∀ own, P own a → own ≠ []) :
    s'.rest.length < s.rest.length := by
  obtain ⟨own, hrest, -, hown⟩ := h
  rw [hrest, List.length_append]
  have hpos := List.length_pos_iff.mpr (hP own hown)
  omega

/-- A token that is taken first belongs to what is taken. -/
theorem Takes.cons (h : Takes ⟨rest, t.span, reported, stop⟩ P a s')
    (himp : ∀ own, P own a → Q (t :: own) b) : Takes ⟨t :: rest, last, reported, stop⟩ Q b s' := by
  obtain ⟨own, hrest, hlast, hown⟩ := h
  exact ⟨t :: own, congrArg (t :: ·) hrest, hlast, himp own hown⟩

/-- So do two of them. -/
theorem Takes.cons₂ {t' : Token} (h : Takes ⟨rest, t'.span, reported, stop⟩ P a s')
    (himp : ∀ own, P own a → Q (t :: t' :: own) b) :
    Takes ⟨t :: t' :: rest, last, reported, stop⟩ Q b s' := by
  obtain ⟨own, hrest, hlast, hown⟩ := h
  exact ⟨t :: t' :: own, congrArg (t :: t' :: ·) hrest, hlast, himp own hown⟩

/-- The last of several tokens says where the reader stands. -/
theorem spanBehind_append (ts ts' : List Token) (last : Span) :
    spanBehind (ts ++ ts') last = spanBehind ts' (spanBehind ts last) := List.foldl_append

/-- The span of the last capture is that of its token. -/
theorem getLast?_captures (cs : List Token) (last : Span) :
    ((cs.map captureOf).getLast?.map (·.span)).getD last = spanBehind cs last := by
  induction cs using List.reverseRecOn with
  | nil => rfl
  | append_singleton cs c =>
    rw [spanBehind_append, List.map_append, List.map_singleton, List.getLast?_concat]
    rfl

/-- What two steps take, one after the other. -/
theorem Takes.append (h : Takes s P a s') (h' : Takes s' Q b s'')
    (himp : ∀ own own', P own a → Q own' b → R (own ++ own') c) : Takes s R c s'' := by
  obtain ⟨own, hrest, hlast, hown⟩ := h
  obtain ⟨own', hrest', hlast', hown'⟩ := h'
  refine ⟨own ++ own', ?_, ?_, himp own own' hown hown'⟩
  · rw [hrest, hrest', List.append_assoc]
  · rw [hlast', hlast, spanBehind_append]

end

/-! ### What is read was spelled -/

/-- Going on to the next token reports nothing. -/
theorem leads_cons (t : Token) (rest : List Token) (last last' : Span) (reported : List Diagnostic)
    (stop : Nat) : Leads ⟨t :: rest, last, reported, stop⟩ ⟨rest, last', reported, stop⟩ :=
  ⟨List.suffix_cons t rest, [], rfl, nofun⟩

/-- Taking a token reports nothing. -/
theorem accounts_bump {f : Unit → Read β} {Q : β → ReadState → Prop}
    (h : Accounts (f ()) ⟨rest, t.span, reported, stop⟩ Q) :
    Accounts (bump >>= f) ⟨t :: rest, last, reported, stop⟩ Q :=
  .pass bump_apply (leads_cons ..) rfl h

/-- Behind a report there is nothing to show, since it was not silent. -/
theorem accounts_report {d : Diagnostic} (hd : d.isError = true) (s : ReadState) :
    Accounts (report d) s fun _ _ => False where
  leads := ⟨List.suffix_refl _, [d], rfl, by simpa using hd⟩
  found hquiet := List.cons_ne_self d s.reported hquiet

/-- Neither is there where a parenthesis is missing. -/
theorem accounts_unclosed {kind : Diagnostic.Kind} {opener : Token}
    (hkind : (Diagnostic.ofKind kind opener.span).isError = true) (s : ReadState) :
    Accounts (unclosed kind opener) s fun _ _ => False := by
  have herror (span : Span) :
      ((Diagnostic.ofKind kind opener.span).withRelated "never closed" span).isError = true := hkind
  exact .look (get_apply s) (accounts_report (herror _) s)

/-- Nothing is reported for all of some characters just if there are none. -/
theorem accounts_reports {d : Char → Diagnostic} (hd : ∀ c, (d c).isError = true) (cs : List Char)
    (s : ReadState) : Accounts (cs.forM fun c => report (d c)) s fun _ s' => cs = [] ∧ s' = s := by
  induction cs generalizing s with
  | nil => exact .pure ⟨rfl, rfl⟩
  | cons c cs ih =>
    change Accounts (report (d c) >>= fun _ => cs.forM fun c => report (d c)) s _
    exact .wrong (accounts_report (hd c) s) fun _ s' => (ih s').leads

/-- A string without errors is what its body means. -/
theorem accounts_stringOf (t : Token) (s : ReadState) : Accounts (stringOf t) s fun found s' =>
    s' = s ∧ ∃ value, unescape (inside t.text) = (value, []) ∧
      found = some ⟨String.ofList value, t.span⟩ := by
  rw [stringOf]
  rcases hvalue : unescape ((t.text.drop 1).dropLast) with ⟨value, wrong⟩
  dsimp only
  refine (accounts_reports (fun _ => rfl) wrong s).bind fun _ s' _ => .pure ?_
  rintro ⟨rfl, rfl⟩ _
  exact ⟨rfl, value, hvalue, rfl⟩

/-- Whether captures are read for what they name. -/
def AreNamed (cs : List Token) (names : List Name) : Prop := AreCaptures cs ∧ names = cs.map captureOf

theorem AreNamed.nil : AreNamed [] [] := ⟨nofun, rfl⟩

/-- A capture is named by its token, and more may follow. -/
theorem accounts_capture {more : Read (List Name)} (ht : t.kind = .capture)
    (hmore : ∀ s, Accounts more s (Takes s AreNamed)) :
    Accounts (do bump; let names ← more; return captureOf t :: names)
      ⟨t :: rest, last, reported, stop⟩ (Takes ⟨t :: rest, last, reported, stop⟩ AreNamed) := by
  refine accounts_bump ((hmore _).bind fun names s' _ => .pure fun htakes _ => ?_)
  refine htakes.cons fun cs hcs => ?_
  obtain ⟨hcs, rfl⟩ := hcs
  exact ⟨List.forall_mem_cons.mpr ⟨ht, hcs⟩, rfl⟩

/-- All captures behind a pattern are read for what they name. -/
theorem accounts_captures (s : ReadState) : Accounts (captures fuel) s (Takes s AreNamed) := by
  induction fuel generalizing s with
  | zero => exact .pure (.nothing .nil)
  | succ fuel ih =>
    obtain ⟨rest, last, reported, stop⟩ := s
    rw [captures]
    refine .look (peek?_apply _) ?_
    cases rest with
    | nil => exact .pure (.nothing .nil)
    | cons t rest =>
      dsimp only [List.head?_cons]
      split
      case isTrue h => exact accounts_capture h ih
      case isFalse =>
      split
      case isTrue =>
        exact accounts_bump (.wrong (accounts_report rfl _) fun _ s' => (ih s').leads)
      case isFalse => exact .pure (.nothing .nil)

/-- Captures that are followed by no quantifier are read alike. -/
theorem accounts_plainCaptures (s : ReadState) :
    Accounts (plainCaptures fuel) s (Takes s AreNamed) := by
  induction fuel generalizing s with
  | zero => exact .pure (.nothing .nil)
  | succ fuel ih =>
    obtain ⟨rest, last, reported, stop⟩ := s
    rw [plainCaptures]
    refine .look (peek?_apply _) ?_
    cases rest with
    | nil => exact .pure (.nothing .nil)
    | cons t rest =>
      dsimp only [List.head?_cons]
      split
      case isTrue h => exact accounts_capture h ih
      case isFalse => exact .pure (.nothing .nil)

/-- A quantifier is at most one token. -/
theorem accounts_quantifier (s : ReadState) : Accounts quantifier s (Takes s fun own often =>
    own = [] ∧ often = .one ∨ ∃ t, own = [t] ∧ t.kind.quantifier? = some often) := by
  obtain ⟨rest, last, reported, stop⟩ := s
  cases rest with
  | nil => exact .run quantifier_apply_nil (Reporting.refl _) (.nothing (.inl ⟨rfl, rfl⟩))
  | cons t rest =>
    cases hsign : t.kind.quantifier? with
    | none =>
      refine .run (quantifier_apply.trans (by rw [hsign])) (Reporting.refl _) ?_
      exact .nothing (.inl ⟨rfl, rfl⟩)
    | some often =>
      refine .run (quantifier_apply.trans (by rw [hsign])) (leads_cons ..) ?_
      exact .one (.inr ⟨t, rfl, hsign⟩)

/-- The kind of a node is one token, which spells it. -/
theorem accounts_nodeKind : Accounts (nodeKind t) ⟨t :: rest, last, reported, stop⟩
    (Takes ⟨t :: rest, last, reported, stop⟩ fun own kind => ∃ k, own = [k] ∧ SpellsKind k kind) := by
  rw [nodeKind]
  split
  case isTrue h => exact accounts_bump (.pure (.one ⟨t, rfl, .any h⟩))
  case isFalse =>
  split
  case isTrue h => exact accounts_bump (.pure (.one ⟨t, rfl, .named h⟩))
  case isFalse =>
    exact .wrong (accounts_report rfl _) fun _ s' => Reporting.refl s'

/-- A negated field has its name behind the sign. -/
theorem accounts_negatedField (bang : Token) (s : ReadState) : Accounts (negatedField bang) s
    (Takes s fun own names => ∃ n, own = [n] ∧ n.kind = .ident ∧ names = [nameOf n]) := by
  obtain ⟨rest, last, reported, stop⟩ := s
  rw [negatedField]
  refine .look (peek?_apply _) ?_
  cases rest with
  | nil => exact .wrong (accounts_report rfl _) fun _ s' => Reporting.refl s'
  | cons t rest =>
    dsimp only [List.head?_cons]
    split
    case isTrue h => exact accounts_bump (.pure (.one ⟨t, rfl, h, rfl⟩))
    case isFalse => exact .wrong (accounts_report rfl _) fun _ s' => Reporting.refl s'

/-- With so much fuel for the tokens ahead, no step of a pattern is cut off; what it reads in silence
was spelled. -/
structure Careful (fuel : Nat) : Prop where
  pattern : ∀ s, Accounts (pattern fuel) s fun a s' => 5 * s.rest.length ≤ fuel → s.rest ≠ [] →
    Takes s (Finds SpellsPattern) a s'
  form : ∀ t s, Accounts (form fuel t) s fun a s' => 5 * s.rest.length + 4 ≤ fuel →
    Takes s (Finds fun own => SpellsForm (t :: own)) a s'
  node : ∀ t s, t.kind = .parenOpen → Accounts (node fuel t) s fun a s' =>
    5 * s.rest.length + 3 ≤ fuel → Takes s (Finds fun own => SpellsForm (t :: own)) a s'
  members : ∀ opener s, Accounts (members fuel opener) s fun a s' => 5 * s.rest.length + 2 ≤ fuel →
    Takes s (Closed .parenClose fun ts found => SpellsMembers ts found.1 found.2) a s'
  child : ∀ field s, Accounts (child fuel field) s fun a s' => 5 * s.rest.length + 1 ≤ fuel →
    s.rest ≠ [] → Takes s (Finds fun own c =>
      own ≠ [] ∧ ∀ fs, SpellsField fs field → SpellsChild (fs ++ own) c) a s'
  choice : ∀ t s, t.kind = .bracketOpen → Accounts (choice fuel t) s fun a s' =>
    5 * s.rest.length + 3 ≤ fuel → Takes s (Finds fun own => SpellsForm (t :: own)) a s'
  alternatives : ∀ opener s, Accounts (alternatives fuel opener) s fun a s' =>
    5 * s.rest.length + 1 ≤ fuel → Takes s (Closed .bracketClose SpellsAll) a s'

/-- No pattern is found where no token was taken. -/
theorem ne_nil_of_finds {own : List Token} {found : Option PatternSyntax}
    (h : Finds SpellsPattern own found) : own ≠ [] := by
  obtain ⟨p, -, hp⟩ := h
  exact hp.ne_nil

/-- A pattern is a form with captures behind it. -/
theorem Careful.pattern_succ (h : Careful fuel) (s : ReadState) :
    Accounts (Read.pattern (fuel + 1)) s fun a s' => 5 * s.rest.length ≤ fuel + 1 → s.rest ≠ [] →
      Takes s (Finds SpellsPattern) a s' := by
  obtain ⟨rest, last, reported, stop⟩ := s
  rw [Read.pattern]
  refine .look (peek?_apply _) ?_
  cases rest with
  | nil => exact .pure fun _ hsome => absurd rfl hsome
  | cons t rest =>
    refine accounts_bump ((h.form t _).bind fun found s₁ _ => ?_)
    refine .look (get_apply s₁) (.look (room_apply s₁) ?_)
    refine (accounts_captures s₁).bind fun names s₂ _ => .pure ?_
    intro hcaptures _ hform _ hfuel _
    dsimp only [List.length_cons] at hfuel hform
    obtain ⟨ts, hrest, hlast, form, rfl, hts⟩ := hform (by omega)
    obtain ⟨cs, hrest', hlast', hcs, rfl⟩ := hcaptures
    dsimp only at hrest hlast
    refine ⟨t :: (ts ++ cs), ?_, ?_, _, rfl, ?_⟩
    · rw [hrest, hrest', List.cons_append, List.append_assoc]
    · rw [hlast', hlast, ← spanBehind_append]
      rfl
    · rw [getLast?_captures, hlast, ← spanBehind_append]
      exact .mk hts hcs

/-- The first token of a form says which one it is. -/
theorem Careful.form_succ (h : Careful fuel) (t : Token) (s : ReadState) :
    Accounts (Read.form (fuel + 1) t) s fun a s' => 5 * s.rest.length + 4 ≤ fuel + 1 →
      Takes s (Finds fun own => SpellsForm (t :: own)) a s' := by
  rw [Read.form]
  split
  case h_1 hkind => exact (h.node t s hkind).mono fun _ _ hnode hfuel => hnode (by omega)
  case h_2 hkind => exact (h.choice t s hkind).mono fun _ _ hchoice hfuel => hchoice (by omega)
  case h_3 hkind => exact .pure fun _ => .nothing ⟨_, rfl, .wildcard hkind⟩
  case h_4 hkind =>
    refine (accounts_stringOf t s).bind fun found s' _ => .pure ?_
    rintro ⟨rfl, value, hvalue, rfl⟩ _ _
    exact .nothing ⟨_, rfl, .text hkind hvalue⟩
  all_goals exact .wrong (accounts_report rfl s) fun _ s' => Reporting.refl s'

/-- A node is spelled by its kind and what is between its parentheses. -/
theorem Careful.node_succ (h : Careful fuel) (opener : Token) (s : ReadState)
    (hopener : opener.kind = .parenOpen) :
    Accounts (Read.node (fuel + 1) opener) s fun a s' => 5 * s.rest.length + 3 ≤ fuel + 1 →
      Takes s (Finds fun own => SpellsForm (opener :: own)) a s' := by
  obtain ⟨rest, last, reported, stop⟩ := s
  rw [Read.node]
  refine .look (peek?_apply _) ?_
  cases rest with
  | nil => exact .wrong (accounts_report rfl _) fun _ s' => Reporting.refl s'
  | cons t rest =>
    refine accounts_nodeKind.bind fun kind s₁ hleads =>
      (h.members opener s₁).bind fun found s₂ _ => .pure ?_
    intro hmembers _ hkind _ hfuel
    have hlength := hleads.rest.length_le
    have hmembers := hmembers (by dsimp only at hlength hfuel; omega)
    refine hkind.append hmembers ?_
    rintro own own' ⟨k, rfl, hk⟩ ⟨ts, closing, rfl, hclosing, hmembers⟩
    exact ⟨_, rfl, .node hopener hk hmembers hclosing⟩

/-- A choice is spelled by the patterns between its brackets. -/
theorem Careful.choice_succ (h : Careful fuel) (opener : Token) (s : ReadState)
    (hopener : opener.kind = .bracketOpen) :
    Accounts (Read.choice (fuel + 1) opener) s fun a s' => 5 * s.rest.length + 3 ≤ fuel + 1 →
      Takes s (Finds fun own => SpellsForm (opener :: own)) a s' := by
  rw [Read.choice]
  refine (h.alternatives opener s).bind fun found s₁ _ => ?_
  split
  case isTrue => exact .wrong (accounts_report rfl s₁) fun _ s' => Reporting.refl s'
  case isFalse hsome =>
    refine .pure fun halternatives _ hfuel => (halternatives (by omega)).mono ?_
    rintro own ⟨ts, closing, rfl, hclosing, hall⟩
    exact ⟨_, rfl, .choice hopener hall (by simpa using hsome) hclosing⟩

/-- A child is a pattern with a quantifier behind it, whatever spelled the field before it. -/
theorem Careful.child_succ (h : Careful fuel) (field : Option Name) (s : ReadState) :
    Accounts (Read.child (fuel + 1) field) s fun a s' => 5 * s.rest.length + 1 ≤ fuel + 1 →
      s.rest ≠ [] → Takes s (Finds fun own c =>
        own ≠ [] ∧ ∀ fs, SpellsField fs field → SpellsChild (fs ++ own) c) a s' := by
  rw [Read.child]
  refine (h.pattern s).bind fun found s₁ _ => ?_
  cases found with
  | none =>
    refine .pure fun hpattern _ hfuel hsome => ?_
    obtain ⟨_, _, _, _, hnone, _⟩ := hpattern (by omega) hsome
    cases hnone
  | some p =>
    dsimp only
    refine (accounts_quantifier s₁).bind fun often s₂ _ => ?_
    split
    case isTrue hone =>
      refine .pure fun hoften _ hpattern _ hfuel hsome => ?_
      refine (hpattern (by omega) hsome).append hoften ?_
      rintro own own' ⟨_, heq, hp⟩ (⟨rfl, -⟩ | ⟨t, -, hsign⟩)
      · obtain rfl := Option.some.inj heq
        obtain rfl := hone
        exact ⟨_, rfl, by simpa using hp.ne_nil, fun fs hfs => .mk hfs hp .one⟩
      · exact absurd hone (quantifier?_ne_one hsign)
    case isFalse hmany =>
      refine .look (room_apply s₂) ((accounts_plainCaptures s₂).bind fun more s₃ _ => .pure ?_)
      intro hmore _ hoften _ hpattern _ hfuel hsome
      have hend : Takes s₁ (fun own more => SpellsQuantifier own often more) more s₃ := by
        refine hoften.append hmore ?_
        rintro own own' (⟨-, hone⟩ | ⟨t, rfl, hsign⟩) ⟨hcs, rfl⟩
        · exact absurd hone hmany
        · exact .sign hsign hcs
      refine (hpattern (by omega) hsome).append hend ?_
      rintro own own' ⟨_, heq, hp⟩ hoften
      obtain rfl := Option.some.inj heq
      exact ⟨_, rfl, by simp [hp.ne_nil], fun fs hfs => .mk hfs hp hoften⟩

/-- The members of a node from a child on. -/
def membersFrom (fuel : Nat) (opener : Token) (field : Option Name) :
    Read (List ChildSyntax × List Name) := do
  let first ← child fuel field
  let (children, negated) ← members fuel opener
  return (first.toList ++ children, negated)

/-- Behind a field the members of a node go on with the child it is for. -/
theorem Careful.membersFrom (h : Careful fuel) (opener : Token) (field : Option Name)
    (s : ReadState) : Accounts (Read.membersFrom fuel opener field) s fun a s' =>
        5 * s.rest.length + 1 ≤ fuel → 2 ≤ fuel →
          Takes s (Closed .parenClose fun ts found => ∀ fs, SpellsField fs field →
            SpellsMembers (fs ++ ts) found.1 found.2) a s' := by
  refine (h.child field s).bind fun first s₁ hleads => (h.members opener s₁).bind fun found s₂ _ =>
    .pure ?_
  intro hmembers _ hchild _ hfuel htwo
  by_cases hsome : s.rest = []
  case pos =>
    -- at the end of the query nothing is reported here, but the closing sign is missing
    have hnone : s₁.rest = [] := by
      have hrest := hleads.rest
      rwa [hsome, List.suffix_nil] at hrest
    obtain ⟨own, hrest, -, ts, closing, rfl, -⟩ := hmembers (by rw [hnone]; exact htwo)
    simp [hnone] at hrest
  case neg =>
    have hchild := hchild hfuel hsome
    have hshorter := hchild.shorter fun own hown => by
      obtain ⟨c, -, hne, -⟩ := hown
      exact hne
    refine hchild.append (hmembers (by omega)) ?_
    rintro own own' ⟨c, rfl, -, hc⟩ ⟨ts, closing, rfl, hclosing, hmembers⟩
    refine ⟨own ++ ts, closing, (List.append_assoc ..).symm, hclosing, fun fs hfs => ?_⟩
    rw [← List.append_assoc]
    exact .child (hc fs hfs) hmembers

/-- The first token of a member says whether it is negated, a field, a child or the end of the
node. -/
theorem Careful.members_succ (h : Careful fuel) (opener : Token) (s : ReadState) :
    Accounts (Read.members (fuel + 1) opener) s fun a s' => 5 * s.rest.length + 2 ≤ fuel + 1 →
      Takes s (Closed .parenClose fun ts found => SpellsMembers ts found.1 found.2) a s' := by
  obtain ⟨rest, last, reported, stop⟩ := s
  rw [Read.members]
  refine .look (peek?_apply _) ?_
  cases rest with
  | nil => exact .wrong (accounts_unclosed rfl _) fun _ s' => Reporting.refl s'
  | cons t rest =>
    dsimp only [List.head?_cons]
    split
    case h_1 hkind => exact accounts_bump (.pure fun _ => .one ⟨[], t, rfl, hkind, .nil⟩)
    case h_2 hkind =>
      refine accounts_bump ((accounts_negatedField t _).bind fun names s₁ hleads =>
        (h.members opener s₁).bind fun found s₂ _ => .pure ?_)
      intro hmembers _ hname _ hfuel
      have hlength := hleads.rest.length_le
      dsimp only [List.length_cons] at hlength hfuel
      refine (hname.append (hmembers (by omega)) ?_).cons fun _ => id
      rintro own own' ⟨n, rfl, hn, rfl⟩ ⟨ts, closing, rfl, hclosing, hmembers⟩
      exact ⟨_, _, rfl, hclosing, .absent hkind hn hmembers⟩
    case h_7 =>
      refine .look (nextIs_apply .colon _) ?_
      dsimp only
      split
      case isTrue hfield =>
        obtain ⟨hname, hnext⟩ := Bool.and_eq_true_iff.mp hfield
        cases rest with
        | nil => cases hnext
        | cons colon rest =>
          refine accounts_bump (accounts_bump ?_)
          refine (h.membersFrom opener _ _).mono fun found s' hchild hfuel => ?_
          dsimp only [List.length_cons] at hchild hfuel
          refine (hchild (by omega) (by omega)).cons₂ ?_
          rintro own ⟨ts, closing, rfl, hclosing, hmembers⟩
          have hcolon : colon.kind = .colon := by simpa using hnext
          exact ⟨t :: colon :: ts, closing, rfl, hclosing,
            hmembers _ (.named (of_decide_eq_true hname) hcolon)⟩
      case isFalse hfield =>
        refine (h.membersFrom opener _ _).mono fun found s' hchild hfuel => ?_
        dsimp only [List.length_cons] at hchild hfuel
        refine (hchild (by omega) (by omega)).mono ?_
        rintro own ⟨ts, closing, rfl, hclosing, hmembers⟩
        exact ⟨ts, closing, rfl, hclosing, hmembers [] .none⟩
    all_goals
      exact accounts_bump (.wrong (accounts_report rfl _) fun _ _ => (h.members opener _).leads)

/-- The patterns of a choice are read up to its bracket. -/
theorem Careful.alternatives_succ (h : Careful fuel) (opener : Token) (s : ReadState) :
    Accounts (Read.alternatives (fuel + 1) opener) s fun a s' =>
      5 * s.rest.length + 1 ≤ fuel + 1 → Takes s (Closed .bracketClose SpellsAll) a s' := by
  obtain ⟨rest, last, reported, stop⟩ := s
  rw [Read.alternatives]
  refine .look (peek?_apply _) ?_
  cases rest with
  | nil => exact .wrong (accounts_unclosed rfl _) fun _ s' => Reporting.refl s'
  | cons t rest =>
    dsimp only [List.head?_cons]
    split
    case h_1 hkind => exact accounts_bump (.pure fun _ => .one ⟨[], t, rfl, hkind, .nil⟩)
    case h_2 =>
      exact accounts_bump (.wrong (accounts_report rfl _) fun _ _ => (h.alternatives opener _).leads)
    case h_3 =>
      refine (h.pattern _).bind fun first s₁ _ => (h.alternatives opener s₁).bind fun more s₂ _ =>
        .pure ?_
      intro hmore _ hfirst _ hfuel
      have hfirst := hfirst (Nat.le_of_succ_le_succ hfuel) (List.cons_ne_nil _ _)
      have hshorter : s₁.rest.length < (t :: rest).length := hfirst.shorter fun _ => ne_nil_of_finds
      refine hfirst.append (hmore (by omega)) ?_
      rintro own own' ⟨p, rfl, hp⟩ ⟨ts, closing, rfl, hclosing, hall⟩
      exact ⟨own ++ ts, closing, (List.append_assoc ..).symm, hclosing, .cons hp hall⟩

/-- The bounds hold for any fuel, by induction on it. -/
theorem careful (fuel : Nat) : Careful fuel := by
  induction fuel with
  | zero =>
    refine ⟨fun s => ?_, fun t s => ?_, fun t s _ => ?_, fun opener s => ?_, fun field s => ?_,
      fun t s _ => ?_, fun opener s => ?_⟩
    case refine_1 =>
      rw [pattern]
      exact .pure fun hfuel hsome => absurd (List.eq_nil_of_length_eq_zero (by omega)) hsome
    all_goals
      first | rw [form] | rw [node] | rw [members] | rw [child] | rw [choice] | rw [alternatives]
      exact .pure fun hfuel => absurd hfuel (by omega)
  | succ fuel ih => exact {
      pattern := ih.pattern_succ
      form := ih.form_succ
      node := ih.node_succ
      members := ih.members_succ
      child := ih.child_succ
      choice := ih.choice_succ
      alternatives := ih.alternatives_succ }

/-- With room for all tokens, the patterns that are read in silence are spelled by all of them. -/
theorem accounts_patterns (fuel tokens : Nat) (s : ReadState) : Accounts (patterns fuel tokens) s
    fun ps _ => 5 * s.rest.length ≤ fuel → s.rest.length ≤ tokens → SpellsAll s.rest ps := by
  induction tokens generalizing s with
  | zero =>
    refine .pure fun _ htokens => ?_
    rw [List.eq_nil_of_length_eq_zero (Nat.le_zero.mp htokens)]
    exact .nil
  | succ tokens ih =>
    obtain ⟨rest, last, reported, stop⟩ := s
    rw [patterns]
    refine .look (peek?_apply _) ?_
    cases rest with
    | nil => exact .pure fun _ _ => .nil
    | cons t rest =>
      dsimp only [List.head?_cons]
      split
      case h_6 =>
        refine ((careful fuel).pattern _).bind fun first s₁ _ => (ih s₁).bind fun more s₂ _ => .pure ?_
        intro hmore _ hfirst _ hfuel htokens
        have hfirst := hfirst hfuel (List.cons_ne_nil _ _)
        have hshorter : s₁.rest.length < (t :: rest).length := hfirst.shorter fun _ => ne_nil_of_finds
        have hmore := hmore (by omega) (by omega)
        obtain ⟨own, hrest, -, p, rfl, hp⟩ := hfirst
        dsimp only at hrest
        rw [hrest]
        exact .cons hp hmore
      all_goals
        exact accounts_bump (.wrong (accounts_report rfl _) fun _ s' => (ih s').leads)

end Read

end LRWorkbench.Query
