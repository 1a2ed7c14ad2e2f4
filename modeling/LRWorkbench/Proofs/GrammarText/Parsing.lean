import LRWorkbench.Proofs.Except
import LRWorkbench.Proofs.GrammarText.Meaning
import Mathlib.Data.List.Basic

/-!
# Steps of the parser

`Parse.Adds p ls depth a Q rest` says what the step `p` does when the lexemes `ls` are ahead: it
answers `a`, leaves the lexemes `rest`, reports nothing, and what it adds to the open node satisfies
`Q`. Most steps add trees that stand for rules (`Parse.Reads`). Steps are put together by `Adds.bind`,
and a step that only looks ahead is passed over by `Adds.look`.
-/

namespace LRWorkbench.GrammarText

/-- The kind of the first of some lexemes. -/
def headKind (ls : List Lexeme) : Option TokenKind := ls.head?.map (·.1)

/-- Whether a term starts with some lexemes; a name before `=` starts a rule instead. -/
def startsTerm (ls : List Lexeme) : Bool :=
  (headKind ls).any TokenKind.startsTerm &&
    !(decide (headKind ls = some .ident) && decide (headKind ls.tail = some .equals))

/-- Whether a statement starts with some lexemes. -/
def startsStatement (ls : List Lexeme) : Bool :=
  headKind ls = some .directive || (headKind ls = some .ident && headKind ls.tail = some .equals)

/-- Whether no more of a statement is among some lexemes. -/
def endsStatement (ls : List Lexeme) : Bool :=
  (headKind ls).isNone || headKind ls = some .semicolon || startsStatement ls

/-- Some trees that stand for rules, with the lexemes right among them. -/
def Tells (rs : List Rule) (own : List Lexeme) (ts : List Tree) : Prop :=
  Stands ts rs ∧ lexemesOf ts = own

/-- Trees side by side stand for the rules of both. -/
theorem Tells.append {rs rs' : List Rule} {own own' : List Lexeme} {ts ts' : List Tree}
    (h : Tells rs own ts) (h' : Tells rs' own' ts') : Tells (rs ++ rs') (own ++ own') (ts ++ ts') :=
  ⟨h.1.append h'.1, by rw [lexemesOf_append, h.2, h'.2]⟩

theorem Tells.nil : Tells [] [] [] := ⟨.nil, rfl⟩

/-- One node for a rule. -/
theorem Tells.node {kind : NodeKind} {children : List Tree} {r : Rule}
    (h : ruleOf? (.node kind children) = pure (some r)) : Tells [r] [] [.node kind children] :=
  ⟨.node h .nil, rfl⟩

/-! ### Tokens ahead -/

/-- Blanks and comments are no lexemes. -/
theorem lexemes_cons_of_isTrivia {t : Token} (h : t.kind.isTrivia = true) (ts : List Token) :
    lexemes (t :: ts) = lexemes ts := by
  rw [lexemes, List.filter_cons_of_neg (by simp [h]), ← lexemes]

theorem lexemes_cons_of_not_isTrivia {t : Token} (h : t.kind.isTrivia = false) (ts : List Token) :
    lexemes (t :: ts) = (t.kind, t.text) :: lexemes ts := by
  rw [lexemes, List.filter_cons_of_pos (by simp [h]), List.map_cons, ← lexemes]

/-- Where no lexeme is ahead there are only blanks and comments. -/
theorem lexemes_eq_nil {ts : List Token} :
    lexemes ts = [] ↔ ∀ t ∈ ts, (!t.kind.isTrivia) = false := by
  rw [lexemes, List.map_eq_nil_iff, List.filter_eq_nil_iff]
  simp

/-- Blanks and comments that stand first are no lexemes. -/
theorem lexemes_dropWhile (ts : List Token) :
    lexemes (ts.dropWhile fun t => t.kind.isTrivia) = lexemes ts := by
  induction ts with
  | nil => rfl
  | cons t ts ih =>
    cases h : t.kind.isTrivia with
    | true =>
      rw [lexemes_cons_of_isTrivia h, ← ih]
      exact congrArg lexemes (List.dropWhile_cons_of_pos h)
    | false => exact congrArg lexemes (List.dropWhile_cons_of_neg (by simp [h]))

/-- The token of the first lexeme, behind blanks and comments. -/
theorem exists_dropWhile {ts : List Token} {l : Lexeme} {ls : List Lexeme}
    (h : lexemes ts = l :: ls) : ∃ t ts', (ts.dropWhile fun t => t.kind.isTrivia) = t :: ts' ∧
      t.kind.isTrivia = false ∧ (t.kind, t.text) = l ∧ lexemes ts' = ls := by
  rw [← lexemes_dropWhile] at h
  cases hdrop : ts.dropWhile fun t => t.kind.isTrivia with
  | nil =>
    rw [hdrop] at h
    cases h
  | cons t ts' =>
    have hmeans : t.kind.isTrivia = false := by
      have hhead := List.head?_dropWhile_not (fun t : Token => t.kind.isTrivia) ts
      rw [hdrop] at hhead
      exact Bool.eq_false_iff.mpr fun heq => by simp [heq] at hhead
    rw [hdrop, lexemes_cons_of_not_isTrivia hmeans] at h
    obtain ⟨hl, hls⟩ := List.cons.inj h
    exact ⟨t, ts', rfl, hmeans, hl, hls⟩

theorem lexemes_length_le (ts : List Token) : (lexemes ts).length ≤ ts.length := by
  rw [lexemes, List.length_map]
  exact List.length_filter_le _ _

namespace Parse

variable {α β : Type}

/-! ### Looking ahead -/

/-- What is looked at is the first of the lexemes ahead. -/
theorem peek?_lexeme (s : ParseState) :
    (peek? s).map (fun t => (t.kind, t.text)) = (lexemes s.rest).head? := by
  rw [lexemes, List.head?_map, List.head?_filter, peek?]

theorem peek?_kind (s : ParseState) : (peek? s).map (·.kind) = headKind (lexemes s.rest) := by
  rw [headKind, ← peek?_lexeme, Option.map_map]
  rfl

/-- The questions that are asked ahead are answered by the lexemes. -/
theorem current_apply (s : ParseState) : current s = (headKind (lexemes s.rest), s) := by
  rw [← peek?_kind]
  rfl

theorem isAt_apply (kind : TokenKind) (s : ParseState) :
    isAt kind s = (decide (headKind (lexemes s.rest) = some kind), s) := by
  rw [← peek?_kind]
  rfl

theorem atEnd_apply (s : ParseState) : atEnd s = ((headKind (lexemes s.rest)).isNone, s) := by
  rw [← peek?_kind]
  rfl

theorem atQuantifier_apply (s : ParseState) :
    atQuantifier s = ((headKind (lexemes s.rest)).any TokenKind.isQuantifier, s) := by
  rw [← peek?_kind]
  rfl

theorem peekSecond?_kind (s : ParseState) :
    (peekSecond? s).map (·.kind) = headKind (lexemes s.rest).tail := by
  cases h : lexemes s.rest with
  | nil =>
    have hnone := lexemes_eq_nil.mp ((lexemes_dropWhile s.rest).trans h)
    rw [peekSecond?, List.find?_eq_none.mpr]
    · rfl
    · intro t ht hmeans
      rw [hnone t (List.mem_of_mem_drop ht)] at hmeans
      cases hmeans
  | cons l ls =>
    obtain ⟨t, ts, hdrop, -, -, rfl⟩ := exists_dropWhile h
    rw [peekSecond?, hdrop]
    exact peek?_kind { s with rest := ts }

theorem nextIs_apply (kind : TokenKind) (s : ParseState) :
    nextIs kind s = (decide (headKind (lexemes s.rest).tail = some kind), s) := by
  have hnext : nextIs kind s = (((peekSecond? s).map (·.kind)).any fun k => k = kind, s) := by
    rw [Option.any_map]
    rfl
  rw [hnext, peekSecond?_kind]
  cases headKind (lexemes s.rest).tail with
  | none => rfl
  | some k => simp

theorem atTermStart_apply (s : ParseState) :
    atTermStart s = (startsTerm (lexemes s.rest), s) := by
  rw [atTermStart, bind_apply, current_apply, startsTerm]
  dsimp only
  cases hstarts : (headKind (lexemes s.rest)).any TokenKind.startsTerm with
  | false => rfl
  | true =>
    rw [if_neg (by decide), bind_apply, isAt_apply, bind_apply, nextIs_apply]
    rfl

theorem atStatementStart_apply (s : ParseState) :
    atStatementStart s = (startsStatement (lexemes s.rest), s) := by
  rw [atStatementStart, bind_apply, isAt_apply, startsStatement]
  dsimp only
  cases decide (headKind (lexemes s.rest) = some .directive) with
  | true => rfl
  | false =>
    rw [if_neg Bool.false_ne_true, bind_apply, isAt_apply]
    dsimp only
    cases decide (headKind (lexemes s.rest) = some .ident) with
    | true => exact nextIs_apply .equals s
    | false => rfl

theorem atStatementEnd_apply (s : ParseState) :
    atStatementEnd s = (endsStatement (lexemes s.rest), s) := by
  rw [atStatementEnd, bind_apply, atEnd_apply, endsStatement]
  dsimp only
  cases (headKind (lexemes s.rest)).isNone with
  | true => rfl
  | false =>
    rw [if_neg Bool.false_ne_true, bind_apply, isAt_apply]
    dsimp only
    cases decide (headKind (lexemes s.rest) = some .semicolon) with
    | true => rfl
    | false => exact atStatementStart_apply s

/-! ### What a step adds -/

/-- What a step answers, adds to the open node and leaves ahead. -/
def Adds (p : Parse α) (ls : List Lexeme) (depth : Nat) (a : α) (Q : List Tree → Prop)
    (rest : List Lexeme) : Prop :=
  ∀ s : ParseState, lexemes s.rest = ls → s.depth = depth →
    ∃ s' ts, p s = (a, s') ∧ lexemes s'.rest = rest ∧ s'.depth = depth ∧
      s'.reported = s.reported ∧ s'.built = ts.reverse ++ s.built ∧ Q ts

/-- The step adds trees that stand for rules. -/
abbrev Reads (p : Parse α) (ls : List Lexeme) (depth : Nat) (a : α) (rs : List Rule)
    (own rest : List Lexeme) : Prop := Adds p ls depth a (Tells rs own) rest

variable {ls mid rest : List Lexeme} {depth : Nat} {a : α} {b : β} {Q : List Tree → Prop}

namespace Adds

/-- Two steps add what both add, and the second goes on where the first one stopped. -/
theorem bind {P R : List Tree → Prop} {p : Parse α} {f : α → Parse β}
    (hp : Adds p ls depth a P mid) (hf : Adds (f a) mid depth b R rest)
    (hQ : ∀ ts ts', P ts → R ts' → Q (ts ++ ts')) : Adds (p >>= f) ls depth b Q rest := by
  intro s hls hdepth
  obtain ⟨s₁, ts₁, hp, hmid, hdepth₁, hreported₁, hbuilt₁, hP⟩ := hp s hls hdepth
  obtain ⟨s₂, ts₂, hf, hrest, hdepth₂, hreported₂, hbuilt₂, hR⟩ := hf s₁ hmid hdepth₁
  refine ⟨s₂, ts₁ ++ ts₂, ?_, hrest, hdepth₂, hreported₂.trans hreported₁, ?_, hQ _ _ hP hR⟩
  · rw [bind_apply, hp]
    exact hf
  · rw [hbuilt₂, hbuilt₁, List.reverse_append, List.append_assoc]

/-- A step that only looks ahead adds nothing. -/
theorem look {p : Parse α} {f : α → Parse β}
    (hp : ∀ s, lexemes s.rest = ls → ∃ a, p s = (a, s) ∧ Adds (f a) ls depth b Q rest) :
    Adds (p >>= f) ls depth b Q rest := by
  intro s hls hdepth
  obtain ⟨a, hp, hf⟩ := hp s hls
  obtain ⟨s', ts, hf, h⟩ := hf s hls hdepth
  refine ⟨s', ts, ?_, h⟩
  rw [bind_apply, hp]
  exact hf

end Adds

/-- The same for steps that add trees for rules. -/
theorem Reads.bind {rs rs' : List Rule} {own own' : List Lexeme} {p : Parse α} {f : α → Parse β}
    (hp : Reads p ls depth a rs own mid) (hf : Reads (f a) mid depth b rs' own' rest) :
    Reads (p >>= f) ls depth b (rs ++ rs') (own ++ own') rest :=
  Adds.bind hp hf fun _ _ => Tells.append

/-- An answer alone adds nothing. -/
theorem adds_pure (a : α) (hQ : Q []) : Adds (pure a) ls depth a Q ls := fun s hls hdepth =>
  ⟨s, [], rfl, hls, hdepth, rfl, rfl, hQ⟩

/-- Where a bound is reached, nothing is added. -/
theorem adds_cutOff (hQ : Q []) : Adds cutOff ls depth () Q ls := fun _ hls hdepth =>
  ⟨_, [], rfl, hls, hdepth, rfl, rfl, hQ⟩

theorem reads_pure (a : α) : Reads (pure a) ls depth a [] [] ls := adds_pure a .nil

/-- A step whose answer is put in another way. -/
theorem Reads.answer {rs : List Rule} {own : List Lexeme} {p : Parse α} {f : α → β}
    (h : Reads p ls depth a rs own rest) (hb : f a = b) :
    Reads (p >>= fun a => pure (f a)) ls depth b rs own rest := by
  intro s hls hdepth
  obtain ⟨s', ts, hp, h⟩ := h s hls hdepth
  refine ⟨s', ts, ?_, h⟩
  rw [bind_apply, hp, ← hb]
  rfl

/-- Tokens stand for no rules. -/
theorem tells_leaves (ts : List Token) : Tells [] (lexemes ts) (ts.map Tree.leaf) := by
  have htokens : Tree.tokens (ts.map Tree.leaf) = ts := by
    induction ts with
    | nil => rfl
    | cons t ts ih => exact congrArg (t :: ·) ih
  refine ⟨?_, congrArg lexemes htokens⟩
  clear htokens
  induction ts with
  | nil => exact .nil
  | cons t ts ih => exact .leaf ih

/-- The blanks and comments that stand first. -/
theorem lexemes_takeWhile (ts : List Token) :
    lexemes (ts.takeWhile fun t => t.kind.isTrivia) = [] := by
  refine lexemes_eq_nil.mpr fun t ht => ?_
  have hall := List.all_eq_true.mp (List.all_takeWhile (p := fun t : Token => t.kind.isTrivia)) t ht
  rw [hall]
  rfl

/-- Tokens that mean nothing add no lexemes. -/
theorem reads_flush : Reads flush ls depth () [] [] ls := by
  intro s hls hdepth
  refine ⟨_, (s.rest.takeWhile fun t => t.kind.isTrivia).map Tree.leaf, rfl, ?_, hdepth, rfl, rfl,
    ?_⟩
  · exact (lexemes_dropWhile s.rest).trans hls
  · rw [← lexemes_takeWhile s.rest]
    exact tells_leaves _

/-- The next token that means something is taken with all before it. -/
theorem bump_apply {s : ParseState} {l : Lexeme} {ls : List Lexeme} (h : lexemes s.rest = l :: ls)
    {t : Token} {ts : List Token} (hdrop : (s.rest.dropWhile fun t => t.kind.isTrivia) = t :: ts) :
    bump s = ((), { s with
      built := .leaf t ::
        (((s.rest.takeWhile fun t => t.kind.isTrivia).map Tree.leaf).reverse ++ s.built)
      rest := ts
      lastEnd := t.span.stop }) := by
  have hend : atEnd s = (false, s) := by
    rw [atEnd_apply, h]
    rfl
  rw [bump, bind_apply, hend]
  dsimp only
  rw [if_neg Bool.false_ne_true, bind_apply, flush, modify_apply, modify_apply]
  dsimp only
  rw [hdrop]

/-- So is the first of the lexemes ahead. -/
theorem reads_bump (l : Lexeme) : Reads bump (l :: ls) depth () [] [l] ls := by
  intro s hls hdepth
  obtain ⟨t, ts, hdrop, hmeans, hl, hts⟩ := exists_dropWhile hls
  refine ⟨_, ((s.rest.takeWhile fun t => t.kind.isTrivia) ++ [t]).map Tree.leaf,
    bump_apply hls hdrop, hts, hdepth, rfl, ?_, ?_⟩
  · simp
  · have htells := tells_leaves ((s.rest.takeWhile fun t => t.kind.isTrivia) ++ [t])
    rw [lexemes_append, lexemes_takeWhile, lexemes_cons_of_not_isTrivia hmeans, hl] at htells
    exact htells

/-- A token that is asked for is taken if it is ahead. -/
theorem reads_eat {kind : TokenKind} {l : Lexeme} (h : l.1 = kind) :
    Reads (eat kind) (l :: ls) depth true [] [l] ls := by
  refine Adds.look fun s hls => ⟨true, ?_, ?_⟩
  · rw [isAt_apply, hls]
    exact congrArg (·, s) (decide_eq_true (congrArg some h))
  rw [if_pos rfl]
  exact (reads_bump l).bind (reads_pure true)

/-- If another one is ahead nothing is taken. -/
theorem eat_apply {kind : TokenKind} {s : ParseState} (h : headKind (lexemes s.rest) ≠ some kind) :
    eat kind s = (false, s) := by
  rw [eat, bind_apply, isAt_apply, decide_eq_false h]
  rfl

/-- Nothing is taken when another kind of lexeme is ahead. -/
theorem Adds.skip {kind : TokenKind} {f : Bool → Parse β} (h : headKind ls ≠ some kind)
    (hf : Adds (f false) ls depth b Q rest) : Adds (eat kind >>= f) ls depth b Q rest :=
  Adds.look fun _ hls => ⟨false, eat_apply (hls ▸ h), hf⟩

/-- What runs with no children built hands out its children. -/
theorem Adds.children {P : List Tree → Prop} {body : Parse Unit} {f : List Tree → Parse β}
    (hbody : Adds body ls depth () P mid)
    (hf : ∀ ts, P ts → Adds (f ts) mid depth b Q rest) :
    Adds (Parse.children body >>= f) ls depth b Q rest := by
  intro s hls hdepth
  obtain ⟨s₁, ts, hp, hmid, hdepth₁, hreported₁, hbuilt₁, hP⟩ :=
    hbody { s with built := [] } hls hdepth
  obtain ⟨s₂, ts₂, hf, hrest, hdepth₂, hreported₂, hbuilt₂, hQ⟩ :=
    hf ts hP { s₁ with built := s.built } hmid hdepth₁
  refine ⟨s₂, ts₂, ?_, hrest, hdepth₂, hreported₂.trans hreported₁, hbuilt₂, hQ⟩
  have hchildren : Parse.children body s = (ts, { s₁ with built := s.built }) := by
    rw [Parse.children, bind_apply, get_apply, bind_apply, modify_apply, bind_apply, hp]
    rw [List.append_nil] at hbuilt₁
    rw [bind_apply, get_apply, bind_apply, modify_apply, hbuilt₁, List.reverse_reverse]
    rfl
  rw [bind_apply, hchildren]
  exact hf

/-- Trees that are put into the open node are added to it. -/
theorem adds_append {ts : List Tree} (hQ : Q ts) : Adds (append ts) ls depth () Q ls :=
  fun _ hls hdepth => ⟨_, ts, rfl, hls, hdepth, rfl, rfl, hQ⟩

/-- One node, behind the blanks and comments that stand before it. -/
theorem Adds.node {P : List Tree → Prop} {kind : NodeKind} {body : Parse Unit}
    (hbody : Adds body ls depth () P rest)
    (hQ : ∀ blanks ts, Tells [] [] blanks → P ts → Q (blanks ++ [.node kind ts])) :
    Adds (Parse.node kind body) ls depth () Q rest := by
  refine Adds.bind (R := fun added => ∃ ts, P ts ∧ added = [.node kind ts]) reads_flush
    (hbody.children fun ts hts => adds_append ⟨ts, hts, rfl⟩) ?_
  rintro blanks _ hblanks ⟨ts, hts, rfl⟩
  exact hQ blanks ts hblanks hts

/-- A node stands for the rule that its content means. -/
theorem Reads.node {kind : NodeKind} {body : Parse Unit} {rs : List Rule} {r : Rule}
    (own : List Lexeme) (hmeans : ∀ ts, Tells rs own ts → ruleOf? (.node kind ts) = pure (some r))
    (hbody : Reads body ls depth () rs own rest) :
    Reads (Parse.node kind body) ls depth () [r] [] rest :=
  Adds.node hbody fun _ _ hblanks hts => hblanks.append (.node (hmeans _ hts))

/-- What a step builds, in a node of the kind that the step answers, if any. -/
theorem Adds.wrapped {P : List Tree → Prop} {kind : Option NodeKind}
    {body : Parse (Option NodeKind)} {rs : List Rule} {own : List Lexeme}
    (hbody : Adds body ls depth kind P rest)
    (htells : ∀ ts, P ts → Tells rs own (kind.elim ts fun kind => [.node kind ts])) :
    Reads (Parse.wrapped body) ls depth () rs own rest := by
  refine reads_flush.bind fun s hls hdepth => ?_
  obtain ⟨s', ts, hp, hrest, hdepth', hreported, hbuilt, hts⟩ :=
    hbody { s with built := [] } hls hdepth
  rw [List.append_nil] at hbuilt
  refine ⟨{ s' with built := (kind.elim ts fun kind => [.node kind ts]).reverse ++ s.built }, _,
    ?_, hrest, hdepth', hreported, rfl, htells ts hts⟩
  rw [bind_apply, get_apply, bind_apply, modify_apply, bind_apply, hp]
  rw [bind_apply, get_apply, bind_apply, modify_apply, hbuilt, List.reverse_reverse]
  cases kind <;> rfl

/-- So does a node that is made afterwards. -/
theorem Reads.wrapped {kind : NodeKind} {body : Parse (Option NodeKind)} {rs : List Rule}
    {own : List Lexeme} {r : Rule} (hbody : Reads body ls depth (some kind) rs own rest)
    (hmeans : ∀ ts, Tells rs own ts → ruleOf? (.node kind ts) = pure (some r)) :
    Reads (Parse.wrapped body) ls depth () [r] [] rest :=
  Adds.wrapped hbody fun ts hts => .node (hmeans ts hts)

/-- Content that gets no node stands for its rules. -/
theorem Reads.unwrapped {body : Parse (Option NodeKind)} {rs : List Rule} {own : List Lexeme}
    (hbody : Reads body ls depth none rs own rest) :
    Reads (Parse.wrapped body) ls depth () rs own rest :=
  Adds.wrapped hbody fun _ hts => hts

end Parse

end LRWorkbench.GrammarText
