import LRWorkbench.Proofs.GrammarText.Parsing
import LRWorkbench.Proofs.GrammarText.Spelling

/-!
# Nothing is lost

Whatever the parser does, it moves tokens from those ahead into the tree, from left to right, and a
step that is meant to get on takes one that means something (`Moves`, `Advances`). Every bound on how
often something may repeat or nest is above what the tokens ahead call for, so none is ever reached.

**Main statement.** `leaves_parse`: for every text the parser comes to its end by itself, with no token
left that means something, and the leaves of the tree are the tokens of the text, which spell the text.
-/

namespace LRWorkbench.GrammarText

/-- The tokens of some trees, one tree after the other. -/
theorem Tree.leavesOf_append (ts ts' : List Tree) :
    leavesOf (ts ++ ts') = leavesOf ts ++ leavesOf ts' := by
  induction ts with
  | nil => rfl
  | cons t ts ih => rw [List.cons_append, leavesOf, leavesOf, ih, List.append_assoc]

theorem Tree.leavesOf_map_leaf (ts : List Token) : leavesOf (ts.map leaf) = ts := by
  induction ts with
  | nil => rfl
  | cons t ts ih => exact congrArg (t :: ·) ih

/-- A node has the tokens of its children. -/
theorem Tree.leavesOf_node (kind : NodeKind) (ts : List Tree) :
    leavesOf [.node kind ts] = leavesOf ts := by
  rw [leavesOf, leavesOf, List.append_nil, leaves]

/-! ### Moves -/

/-- The number of tokens ahead that mean something. -/
def ParseState.ahead (s : ParseState) : Nat := (lexemes s.rest).length

/-- From one state to another, tokens went from those ahead into the open node, and no bound was
reached. -/
structure Moves (s s' : ParseState) : Prop where
  taken : ∃ taken, s.rest = taken ++ s'.rest ∧
    Tree.leavesOf s'.built.reverse = Tree.leavesOf s.built.reverse ++ taken
  isCutOff : s'.isCutOff = s.isCutOff

/-- Among the tokens that went into the open node, some mean something. -/
structure Advances (s s' : ParseState) : Prop extends Moves s s' where
  ahead_lt : s'.ahead < s.ahead

variable {s s' s'' : ParseState}

/-- What a step reports is of no account for the tokens. -/
theorem Moves.of_eq (hrest : s'.rest = s.rest) (hbuilt : s'.built = s.built)
    (hcut : s'.isCutOff = s.isCutOff) : Moves s s' :=
  ⟨⟨[], hrest.symm, by rw [hbuilt, List.append_nil]⟩, hcut⟩

theorem Moves.refl (s : ParseState) : Moves s s := .of_eq rfl rfl rfl

/-- Tokens that two steps take, one after the other, go into the node in this order. -/
theorem Moves.trans (h : Moves s s') (h' : Moves s' s'') : Moves s s'' := by
  obtain ⟨⟨taken, hrest, hbuilt⟩, hcut⟩ := h
  obtain ⟨⟨taken', hrest', hbuilt'⟩, hcut'⟩ := h'
  refine ⟨⟨taken ++ taken', ?_, ?_⟩, hcut'.trans hcut⟩
  · rw [hrest, hrest', List.append_assoc]
  · rw [hbuilt', hbuilt, List.append_assoc]

/-- No token comes back. -/
theorem Moves.ahead_le (h : Moves s s') : s'.ahead ≤ s.ahead := by
  obtain ⟨taken, hrest, -⟩ := h.taken
  rw [ParseState.ahead, ParseState.ahead, hrest, lexemes_append, List.length_append]
  omega

/-- A step that takes something does so whatever comes behind it. -/
theorem Advances.trans (h : Advances s s') (h' : Moves s' s'') : Advances s s'' :=
  ⟨h.toMoves.trans h', Nat.lt_of_le_of_lt h'.ahead_le h.ahead_lt⟩

/-- A step that takes something does so whatever comes before it. -/
theorem Moves.advances (h : Moves s s') (h' : Advances s' s'') : Advances s s'' :=
  ⟨h.trans h'.toMoves, Nat.lt_of_lt_of_le h'.ahead_lt h.ahead_le⟩

/-- Trees that are spelled like what was built since go to the children that were built before. -/
theorem Moves.close {ts : List Tree} (h : Moves { s with built := [] } s')
    (hts : Tree.leavesOf ts = Tree.leavesOf s'.built.reverse) :
    Moves s { s' with built := ts.reverse ++ s.built } := by
  obtain ⟨⟨taken, hrest, hbuilt⟩, hcut⟩ := h
  refine ⟨⟨taken, hrest, ?_⟩, hcut⟩
  dsimp only
  rw [List.reverse_append, List.reverse_reverse, Tree.leavesOf_append, hts, hbuilt]
  rfl

namespace Parse

variable {α β : Type} {p : Parse α} {f : α → Parse β} {a : α}

/-- A step that only looks ahead is passed over. -/
theorem look_apply (hp : p s = (a, s)) : (p >>= f) s = f a s := by
  rw [bind_apply, hp]

/-- One step after the other, the second told only where the first leads. -/
theorem moves_bind (hp : Moves s (p s).2) (hf : ∀ a s', Moves s s' → Moves s' (f a s').2) :
    Moves s ((p >>= f) s).2 := hp.trans (hf _ _ hp)

/-- Of two steps the first one takes something, and the second one no more than what is left. -/
theorem advances_bind (hp : Advances s (p s).2) (hf : ∀ a s', Advances s s' → Moves s' (f a s').2) :
    Advances s ((p >>= f) s).2 := hp.trans (hf _ _ hp)

theorem currentSpan_apply (s : ParseState) :
    currentSpan s = (((peek? s).map Token.span).getD (Span.emptyAt s.stop), s) := rfl

/-! ### Building -/

/-- Tokens that mean nothing go into the open node before a node is opened. -/
theorem moves_flush (s : ParseState) : Moves s (flush s).2 := by
  refine ⟨⟨s.rest.takeWhile fun t => t.kind.isTrivia, ?_, ?_⟩, rfl⟩
  · exact (List.takeWhile_append_dropWhile).symm
  · change Tree.leavesOf (((s.rest.takeWhile fun t => t.kind.isTrivia).map Tree.leaf).reverse ++
      s.built).reverse = _
    rw [List.reverse_append, List.reverse_reverse, Tree.leavesOf_append, Tree.leavesOf_map_leaf]

/-- They are no lexemes. -/
theorem lexemes_flush (s : ParseState) : lexemes (flush s).2.rest = lexemes s.rest :=
  lexemes_dropWhile s.rest

/-- The next token is taken, if there is one. -/
theorem advances_bump (h : 0 < s.ahead) : Advances s (bump s).2 := by
  obtain ⟨l, ls, hls⟩ := List.exists_cons_of_length_pos h
  obtain ⟨t, ts, hdrop, hmeans, -, hts⟩ := exists_dropWhile hls
  have hrest : s.rest = ((s.rest.takeWhile fun t => t.kind.isTrivia) ++ [t]) ++ ts := by
    rw [List.append_assoc, List.singleton_append, ← hdrop, List.takeWhile_append_dropWhile]
  rw [bump_apply hls hdrop]
  refine ⟨⟨⟨_, hrest, ?_⟩, rfl⟩, ?_⟩
  · dsimp only
    rw [List.reverse_cons, List.reverse_append, List.reverse_reverse, Tree.leavesOf_append,
      Tree.leavesOf_append, Tree.leavesOf_map_leaf, List.append_assoc]
    rfl
  · rw [ParseState.ahead, ParseState.ahead, hls, hts]
    exact Nat.lt_succ_self _

/-- The next token that means something goes into the open node, with those before it. -/
theorem moves_bump (s : ParseState) : Moves s (bump s).2 := by
  rcases Nat.eq_zero_or_pos s.ahead with hnone | hpos
  · have hend : atEnd s = (true, s) := by
      rw [atEnd_apply, List.eq_nil_of_length_eq_zero hnone]
      rfl
    rw [bump, look_apply hend]
    exact .refl s
  · exact (advances_bump hpos).toMoves

/-- A token of a kind is taken if it stands there, else nothing happens. -/
theorem eat_cases (kind : TokenKind) (s : ParseState) :
    ((eat kind s).1 = true ∧ Advances s (eat kind s).2) ∨ eat kind s = (false, s) := by
  rw [eat, look_apply (isAt_apply kind s)]
  split
  case isTrue h =>
    have hpos : 0 < s.ahead := by
      rcases hls : lexemes s.rest with _ | ⟨l, ls⟩
      · rw [hls] at h
        cases h
      · rw [ParseState.ahead, hls]
        exact Nat.succ_pos _
    exact .inl ⟨rfl, advances_bump hpos⟩
  case isFalse => exact .inr rfl

theorem moves_eat (kind : TokenKind) (s : ParseState) : Moves s (eat kind s).2 := by
  rcases eat_cases kind s with ⟨-, h⟩ | h
  · exact h.toMoves
  · rw [h]
    exact .refl s

/-- The state in front of the first child of a node. -/
def opened (s : ParseState) : ParseState := { (flush s).2 with built := [] }

/-- Opening a node leaves the tokens that mean something ahead. -/
theorem ahead_opened (s : ParseState) : (opened s).ahead = s.ahead :=
  congrArg List.length (lexemes_flush s)

/-- The tokens of a node follow those that were there. -/
theorem moves_node {body : Parse Unit} (kind : NodeKind)
    (h : ∀ s', lexemes s'.rest = lexemes s.rest → Moves s' (body s').2) :
    Moves s (node kind body s).2 := by
  have hbody : Moves (opened s) (body (opened s)).2 := h _ (lexemes_flush s)
  have hnode : node kind body s = append [.node kind (body (opened s)).2.built.reverse]
      { (body (opened s)).2 with built := (flush s).2.built } := rfl
  rw [hnode]
  exact (moves_flush s).trans (hbody.close (s := (flush s).2) (Tree.leavesOf_node kind _))

/-- A node takes something if its content does. -/
theorem advances_node {body : Parse Unit} (kind : NodeKind)
    (h : ∀ s', lexemes s'.rest = lexemes s.rest → Advances s' (body s').2) :
    Advances s (node kind body s).2 := by
  refine ⟨moves_node kind fun s' hs' => (h s' hs').toMoves, ?_⟩
  have hbody : Advances (opened s) (body (opened s)).2 := h _ (lexemes_flush s)
  exact Nat.lt_of_lt_of_eq hbody.ahead_lt (ahead_opened s)

/-- It does not matter for the tokens whether they end up in a node. -/
theorem moves_wrapped {body : Parse (Option NodeKind)}
    (h : ∀ s', lexemes s'.rest = lexemes s.rest → Moves s' (body s').2) :
    Moves s (wrapped body s).2 := by
  have hbody : Moves (opened s) (body (opened s)).2 := h _ (lexemes_flush s)
  refine (moves_flush s).trans ?_
  rw [wrapped, bind_apply, bind_apply, get_apply, bind_apply, modify_apply, bind_apply]
  have hopened : body { (flush s).2 with built := [] } = body (opened s) := rfl
  dsimp only
  rw [hopened, bind_apply, get_apply, bind_apply, modify_apply]
  cases (body (opened s)).1 with
  | some kind => exact hbody.close (s := (flush s).2) (Tree.leavesOf_node kind _)
  | none => exact hbody.close (s := (flush s).2) rfl

/-! ### Reports and skipping -/

/-- The step does nothing but report. -/
def Reports (p : Parse Unit) : Prop :=
  ∀ s, ∃ reported lastReport, p s = ((), { s with reported := reported, lastReport := lastReport })

/-- A step that only reports leaves the tokens where they are. -/
theorem Reports.moves {p : Parse Unit} (hp : Reports p) (s : ParseState) : Moves s (p s).2 := by
  obtain ⟨reported, lastReport, hp⟩ := hp s
  rw [hp]
  exact .of_eq rfl rfl rfl

/-- What stands ahead of a report still stands ahead behind it. -/
theorem Reports.bind_advances {p : Parse Unit} {f : Unit → Parse β} (hp : Reports p)
    (hf : ∀ s', lexemes s'.rest = lexemes s.rest → Advances s' (f () s').2) :
    Advances s ((p >>= f) s).2 := by
  refine (hp.moves s).advances (hf _ ?_)
  obtain ⟨reported, lastReport, hp⟩ := hp s
  rw [hp]

theorem reports_report (place : Nat) (d : Diagnostic) : Reports (report place d) := by
  intro s
  rw [report, modify_apply]
  by_cases h : s.lastReport = some place
  · exact ⟨s.reported, s.lastReport, by rw [if_pos h]⟩
  · exact ⟨_, _, by rw [if_neg h]⟩

theorem reports_error (kind : Diagnostic.Kind) : Reports (error kind) := fun s =>
  reports_report _ _ s

theorem reports_errorWith (kind : Diagnostic.Kind) (detail : String) :
    Reports (errorWith kind detail) := fun s => reports_report _ _ s

theorem reports_unclosed (kind : Diagnostic.Kind) (message : String) (opener : Span) :
    Reports (unclosed kind message opener) := fun s => reports_report _ _ s

/-- Where a token of some kind is ahead, one is. -/
theorem ahead_pos_of_headKind {kind : TokenKind} (h : headKind (lexemes s.rest) = some kind) :
    0 < s.ahead := by
  cases hls : lexemes s.rest with
  | nil =>
    rw [hls] at h
    cases h
  | cons l ls =>
    rw [ParseState.ahead, hls]
    exact Nat.succ_pos _

theorem ahead_eq_zero_of_headKind (h : headKind (lexemes s.rest) = none) : s.ahead = 0 := by
  rw [headKind, Option.map_eq_none_iff, List.head?_eq_none_iff] at h
  rw [ParseState.ahead, h]
  rfl

/-- A token that fits nowhere is kept in an error node. -/
theorem advances_bumpAsError (h : 0 < s.ahead) : Advances s (bumpAsError s).2 := by
  rw [bumpAsError, look_apply (atEnd_apply s), if_neg]
  · refine advances_node .error fun s' hs' => advances_bump ?_
    rw [ParseState.ahead, hs']
    exact h
  · intro hnone
    rw [ahead_eq_zero_of_headKind (Option.isNone_iff_eq_none.mp hnone)] at h
    exact Nat.lt_irrefl 0 h

/-- Before the end of a statement there is something ahead. -/
theorem ahead_pos_of_endsStatement (h : endsStatement (lexemes s.rest) = false) : 0 < s.ahead := by
  cases hkind : headKind (lexemes s.rest) with
  | none =>
    rw [endsStatement, hkind] at h
    cases h
  | some kind => exact ahead_pos_of_headKind hkind

/-- A statement is skipped token by token, so that it takes no more fuel than tokens ahead. -/
theorem moves_skipStatement {fuel : Nat} (hfuel : s.ahead < fuel) :
    Moves s (skipStatement fuel s).2 := by
  induction fuel generalizing s with
  | zero => exact absurd hfuel (Nat.not_lt_zero _)
  | succ fuel ih =>
    rw [skipStatement, look_apply (atStatementEnd_apply s)]
    split
    case isTrue => exact .refl s
    case isFalse h =>
      have hbump := advances_bump (ahead_pos_of_endsStatement (Bool.eq_false_iff.mpr h))
      have hlt := hbump.ahead_lt
      exact hbump.toMoves.trans (ih (by omega))

/-- Something is skipped unless the statement ends here. -/
theorem advances_skipStatement {fuel : Nat} (hfuel : s.ahead < fuel)
    (h : endsStatement (lexemes s.rest) = false) : Advances s (skipStatement fuel s).2 := by
  cases fuel with
  | zero => exact absurd hfuel (Nat.not_lt_zero _)
  | succ fuel =>
    have hbump := advances_bump (ahead_pos_of_endsStatement h)
    have hlt := hbump.ahead_lt
    rw [skipStatement, look_apply (atStatementEnd_apply s), h, if_neg Bool.false_ne_true]
    exact hbump.trans (moves_skipStatement (by omega))

/-- There is room for every token ahead. -/
theorem ahead_lt_room (s : ParseState) : s.ahead < s.rest.length + 1 :=
  Nat.lt_succ_of_le (lexemes_length_le s.rest)

theorem room_apply (s : ParseState) : room s = (s.rest.length + 1, s) := rfl

/-- So are tokens up to the next statement. -/
theorem moves_skipToStatement {fuel : Nat} (hfuel : s.ahead < fuel) :
    Moves s (skipToStatement fuel s).2 := by
  induction fuel generalizing s with
  | zero => exact absurd hfuel (Nat.not_lt_zero _)
  | succ fuel ih =>
    rw [skipToStatement, look_apply (current_apply s)]
    cases hkind : headKind (lexemes s.rest) with
    | none => exact .refl s
    | some kind =>
      have hbump := advances_bump (ahead_pos_of_headKind hkind)
      have hlt := hbump.ahead_lt
      have hskip : Moves s ((do bump; skipToStatement fuel : Parse Unit) s).2 :=
        hbump.toMoves.trans (ih (by omega))
      cases kind
      case ident => exact .refl s
      case directive => exact .refl s
      all_goals exact hskip

/-- Something is skipped where no statement starts. -/
theorem advances_skipToStatement {fuel : Nat} {kind : TokenKind} (hfuel : s.ahead < fuel)
    (hkind : headKind (lexemes s.rest) = some kind) (hident : kind ≠ .ident)
    (hdirective : kind ≠ .directive) : Advances s (skipToStatement fuel s).2 := by
  cases fuel with
  | zero => exact absurd hfuel (Nat.not_lt_zero _)
  | succ fuel =>
    have hbump := advances_bump (ahead_pos_of_headKind hkind)
    have hlt := hbump.ahead_lt
    have hskip : Advances s ((do bump; skipToStatement fuel : Parse Unit) s).2 :=
      hbump.trans (moves_skipToStatement (by omega))
    rw [skipToStatement, look_apply (current_apply s), hkind]
    cases kind
    case ident => exact absurd rfl hident
    case directive => exact absurd rfl hdirective
    all_goals exact hskip

/-- A semicolon that is missing takes no token. -/
theorem moves_expectSemicolon (s : ParseState) : Moves s (expectSemicolon s).2 := by
  refine moves_bind (moves_eat .semicolon s) fun eaten s _ => ?_
  cases eaten with
  | true => exact .refl s
  | false =>
    rw [if_neg Bool.false_ne_true, look_apply (atEnd_apply s), look_apply (atStatementStart_apply s)]
    split
    case isTrue => exact (reports_report _ _).moves s
    case isFalse =>
      refine moves_bind (moves_node .error fun s _ => ?_) fun _ s _ =>
        moves_bind (moves_eat .semicolon s) fun _ s _ => .refl s
      refine moves_bind ((reports_errorWith _ _).moves s) fun _ s _ => ?_
      rw [look_apply (room_apply s)]
      exact moves_skipStatement (ahead_lt_room s)

/-- Nor does a parenthesis that is missing. -/
theorem moves_expectCloseParen (opener : Span) (s : ParseState) :
    Moves s (expectCloseParen opener s).2 := by
  refine moves_bind (moves_eat .parenClose s) fun eaten s _ => ?_
  split
  · exact .refl s
  · exact (reports_unclosed _ _ _).moves s

/-! ### Expressions -/

/-- Where a term starts there is something ahead. -/
theorem ahead_pos_of_startsTerm (h : startsTerm (lexemes s.rest) = true) : 0 < s.ahead := by
  cases hkind : headKind (lexemes s.rest) with
  | none =>
    rw [startsTerm, hkind] at h
    cases h
  | some kind => exact ahead_pos_of_headKind hkind

/-- No statement ends where a term starts. -/
theorem endsStatement_of_startsTerm {ls : List Lexeme} (h : startsTerm ls = true) :
    endsStatement ls = false := by
  rw [startsTerm, Bool.and_eq_true, Option.any_eq_true] at h
  obtain ⟨⟨kind, hkind, hstarts⟩, hnot⟩ := h
  have hsemicolon : kind ≠ .semicolon := by
    rintro rfl
    cases hstarts
  have hdirective : kind ≠ .directive := by
    rintro rfl
    cases hstarts
  rw [hkind] at hnot
  simp only [endsStatement, startsStatement, hkind]
  simpa [hsemicolon, hdirective, imp_iff_not_or] using hnot

/-- With so much fuel for the tokens ahead, no step of an expression is cut off; those that are made
where something stands take it. -/
structure Suffices (fuel : Nat) : Prop where
  exprOrError : ∀ {s} context, 8 * s.ahead + 7 ≤ fuel → Moves s (exprOrError fuel context s).2
  expr : ∀ {s}, 8 * s.ahead + 6 ≤ fuel → Moves s (expr fuel s).2
  seq : ∀ {s}, 8 * s.ahead + 5 ≤ fuel → Moves s (seq fuel s).2
  seqItems : ∀ {s}, 8 * s.ahead + 4 ≤ fuel → Moves s (seqItems fuel s).2
  postfixed : ∀ {s}, 8 * s.ahead + 3 ≤ fuel → startsTerm (lexemes s.rest) = true →
    Advances s (postfixed fuel s).2
  term : ∀ {s}, 8 * s.ahead + 2 ≤ fuel → startsTerm (lexemes s.rest) = true →
    Advances s (term fuel s).2
  branches : ∀ {s}, 8 * s.ahead + 1 ≤ fuel → Moves s (branches fuel s).2
  quantifiers : ∀ {s} inner, 8 * s.ahead + 1 ≤ fuel →
    Moves { s with built := inner.reverse ++ s.built } (quantifiers fuel inner s).2
  field : ∀ {s}, 8 * s.ahead + 1 ≤ fuel → 0 < s.ahead → Advances s (field fuel s).2
  group : ∀ {s}, 8 * s.ahead + 1 ≤ fuel → 0 < s.ahead → Advances s (group fuel s).2
  prec : ∀ {s} plain, 8 * s.ahead + 1 ≤ fuel → 0 < s.ahead → Advances s (prec fuel plain s).2
  tokenCall : ∀ {s}, 8 * s.ahead + 1 ≤ fuel → 0 < s.ahead → Advances s (tokenCall fuel s).2

variable {fuel : Nat}

/-- The tokens that mean something are counted by the lexemes. -/
theorem ahead_eq (h : lexemes s'.rest = lexemes s.rest) : s'.ahead = s.ahead :=
  congrArg List.length h

/-- Each step calls the next with the bound of the table less one, and with fewer tokens ahead where
the bounds go up again. -/
theorem Suffices.exprOrError_succ (h : Suffices fuel) (context : String)
    (hfuel : 8 * s.ahead + 7 ≤ fuel + 1) : Moves s (Parse.exprOrError (fuel + 1) context s).2 := by
  rw [Parse.exprOrError, look_apply (atTermStart_apply s), look_apply (isAt_apply .pipe s),
    look_apply (atQuantifier_apply s)]
  split
  · exact h.expr (by omega)
  · exact (reports_errorWith _ _).moves s

/-- The first row of an expression, and then its branches. -/
theorem Suffices.expr_succ (h : Suffices fuel) (hfuel : 8 * s.ahead + 6 ≤ fuel + 1) :
    Moves s (Parse.expr (fuel + 1) s).2 := by
  rw [Parse.expr]
  refine moves_wrapped fun s₁ hs₁ => ?_
  have hahead := ahead_eq hs₁
  refine moves_bind (moves_eat .pipe s₁) fun leading s₂ h₂ => ?_
  have h₂ := h₂.ahead_le
  refine moves_bind (h.seq (by omega)) fun _ s₃ h₃ => ?_
  have h₃ := h₃.ahead_le
  exact moves_bind (h.branches (by omega)) fun _ s₄ _ => .refl s₄

/-- A branch begins with a bar, which is a token less for the row behind it. -/
theorem Suffices.branches_succ (h : Suffices fuel) (hfuel : 8 * s.ahead + 1 ≤ fuel + 1) :
    Moves s (Parse.branches (fuel + 1) s).2 := by
  rw [Parse.branches, bind_apply]
  rcases eat_cases .pipe s with ⟨heat, hadvances⟩ | heat
  · rw [heat]
    have hlt := hadvances.ahead_lt
    refine hadvances.toMoves.trans (moves_bind (h.seq (by omega)) fun _ s₂ h₂ => ?_)
    have h₂ := h₂.ahead_le
    exact moves_bind (h.branches (by omega)) fun _ s₃ _ => .refl s₃
  · rw [heat]
    exact .refl s

/-- A row is made of its terms. -/
theorem Suffices.seq_succ (h : Suffices fuel) (hfuel : 8 * s.ahead + 5 ≤ fuel + 1) :
    Moves s (Parse.seq (fuel + 1) s).2 := by
  rw [Parse.seq]
  refine moves_wrapped fun s₁ hs₁ => ?_
  have hahead := ahead_eq hs₁
  exact moves_bind (h.seqItems (by omega)) fun _ s₂ _ => .refl s₂

/-- Where the token ahead passes a test there is one. -/
theorem ahead_pos_of_any {test : TokenKind → Bool}
    (h : (headKind (lexemes s.rest)).any test = true) : 0 < s.ahead := by
  obtain ⟨kind, hkind, -⟩ := (Option.any_eq_true _ _).mp h
  exact ahead_pos_of_headKind hkind

/-- A report about the next token and its being set aside. -/
theorem advances_reportedToken {p : Parse Unit} {f : Unit → Parse β} (hp : Reports p)
    (hpos : 0 < s.ahead) (hf : ∀ s', Advances s s' → Moves s' (f () s').2) :
    Advances s ((do p; bumpAsError; f () : Parse β) s).2 := by
  have hadvances : Advances s ((do p; bumpAsError : Parse Unit) s).2 :=
    hp.bind_advances fun s' hs' => advances_bumpAsError (by rw [ahead_eq hs']; exact hpos)
  exact hadvances.trans (hf _ hadvances)

/-- Every term takes a token, so that the rest of the row has fewer ahead. -/
theorem Suffices.seqItems_succ (h : Suffices fuel) (hfuel : 8 * s.ahead + 4 ≤ fuel + 1) :
    Moves s (Parse.seqItems (fuel + 1) s).2 := by
  have hmore (s₁ : ParseState) (h₁ : Advances s s₁) : Moves s₁ (Parse.seqItems fuel s₁).2 := by
    have hlt := h₁.ahead_lt
    exact h.seqItems (by omega)
  rw [Parse.seqItems, look_apply (atTermStart_apply s)]
  split
  case isTrue hstarts =>
    refine (advances_bind (h.postfixed (by omega) hstarts) fun _ s₁ h₁ => ?_).toMoves
    exact moves_bind (hmore s₁ h₁) fun _ s₂ _ => .refl s₂
  case isFalse =>
  rw [look_apply (atQuantifier_apply s)]
  split
  case isTrue hquantifier =>
    exact (advances_reportedToken (f := fun _ => Parse.seqItems fuel) (reports_error _)
      (ahead_pos_of_any hquantifier) hmore).toMoves
  case isFalse =>
  rw [look_apply (isAt_apply .garbage s)]
  split
  case isTrue hgarbage =>
    have hpos := ahead_pos_of_headKind (of_decide_eq_true hgarbage)
    exact (advances_reportedToken (f := fun _ => Parse.seqItems fuel) (reports_errorWith _ _) hpos
      hmore).toMoves
  case isFalse => exact .refl s

/-- A term with what stands behind it takes what the term takes. -/
theorem Suffices.postfixed_succ (h : Suffices fuel) (hfuel : 8 * s.ahead + 3 ≤ fuel + 1)
    (hstarts : startsTerm (lexemes s.rest) = true) :
    Advances s (Parse.postfixed (fuel + 1) s).2 := by
  have hopened : startsTerm (lexemes (opened s).rest) = true :=
    (congrArg startsTerm (lexemes_flush s)).trans hstarts
  have hahead := ahead_opened s
  have hterm : Advances (opened s) (Parse.term fuel (opened s)).2 := h.term (by omega) hopened
  have hlt := hterm.ahead_lt
  have hpostfixed : Parse.postfixed (fuel + 1) s =
      Parse.quantifiers fuel (Parse.term fuel (opened s)).2.built.reverse
        { (Parse.term fuel (opened s)).2 with built := (flush s).2.built } := by
    rw [Parse.postfixed]
    rfl
  rw [hpostfixed]
  -- where the term was read no longer matters, only that it took something
  generalize (Parse.term fuel (opened s)).2 = s₁ at hterm hlt ⊢
  have hinner : Moves (flush s).2 { s₁ with built := s₁.built.reverse.reverse ++ (flush s).2.built } :=
    hterm.toMoves.close (s := (flush s).2) rfl
  have hquantifiers := h.quantifiers (s := { s₁ with built := (flush s).2.built })
    s₁.built.reverse (show 8 * s₁.ahead + 1 ≤ fuel by omega)
  refine ⟨(moves_flush s).trans (hinner.trans hquantifiers), ?_⟩
  exact Nat.lt_of_le_of_lt hquantifiers.ahead_le (show s₁.ahead < s.ahead by omega)

/-- Every quantifier is a token. -/
theorem Suffices.quantifiers_succ (h : Suffices fuel) (inner : List Tree)
    (hfuel : 8 * s.ahead + 1 ≤ fuel + 1) :
    Moves { s with built := inner.reverse ++ s.built } (Parse.quantifiers (fuel + 1) inner s).2 := by
  rw [Parse.quantifiers, look_apply (atQuantifier_apply s)]
  split
  case isFalse => exact .refl _
  case isTrue hquantifier =>
    have hbump : Advances { s with built := [] } (bump { s with built := [] }).2 :=
      advances_bump (s := { s with built := [] }) (ahead_pos_of_any (s := s) hquantifier)
    have hchildren : children bump s = ((bump { s with built := [] }).2.built.reverse,
      { (bump { s with built := [] }).2 with built := s.built }) := rfl
    rw [bind_apply, hchildren]
    generalize (bump { s with built := [] }).2 = s₁ at hbump ⊢
    have hlt : s₁.ahead < s.ahead := hbump.ahead_lt
    have hquantifiers := h.quantifiers (s := { s₁ with built := s.built })
      [.node .quantified (inner ++ s₁.built.reverse)] (show 8 * s₁.ahead + 1 ≤ fuel by omega)
    refine Moves.trans ?_ hquantifiers
    obtain ⟨⟨taken, hrest, hbuilt⟩, hcut⟩ := hbump.toMoves
    refine ⟨⟨taken, hrest, ?_⟩, hcut⟩
    dsimp only at hbuilt ⊢
    rw [List.reverse_append, List.reverse_append, List.reverse_reverse, List.reverse_reverse,
      Tree.leavesOf_append, Tree.leavesOf_append, Tree.leavesOf_node, Tree.leavesOf_append, hbuilt,
      List.append_assoc]
    rfl

/-- A term that is not too deep, by the kind of its first token. -/
theorem Suffices.term_succ (h : Suffices fuel) (hfuel : 8 * s.ahead + 2 ≤ fuel + 1)
    (hstarts : startsTerm (lexemes s.rest) = true) : Advances s (Parse.term (fuel + 1) s).2 := by
  rw [Parse.term, look_apply (get_apply s)]
  split
  -- too deep: the rest of the statement is set aside, and no statement ends at a term
  case isTrue =>
    refine (reports_errorWith _ _).bind_advances fun s₁ hs₁ => advances_node .error fun s₂ hs₂ => ?_
    rw [look_apply (room_apply s₂)]
    refine advances_skipStatement (ahead_lt_room s₂) (endsStatement_of_startsTerm ?_)
    rw [hs₂, hs₁]
    exact hstarts
  case isFalse =>
    have hdeeper : Moves s { s with depth := s.depth + 1 } := .of_eq rfl rfl rfl
    have hpos := ahead_pos_of_startsTerm hstarts
    rw [bind_apply, modify_apply]
    refine hdeeper.advances ?_
    rw [look_apply (current_apply _)]
    dsimp only
    have hahead : ({ s with depth := s.depth + 1 } : ParseState).ahead = s.ahead := rfl
    generalize ({ s with depth := s.depth + 1 } : ParseState) = s₁ at hahead ⊢
    -- what a term can be: a step of its own, one token, or one token that is reported
    have hleave {p : Parse Unit} (hp : Advances s₁ (p s₁).2) :
        Advances s₁ ((do p; modify fun s => { s with depth := s.depth - 1 } : Parse Unit) s₁).2 :=
      advances_bind hp fun _ s₂ _ => .of_eq rfl rfl rfl
    have hleaf (kind : NodeKind) : Advances s₁ (node kind bump s₁).2 :=
      advances_node kind fun s' hs' => advances_bump (by rw [ahead_eq hs']; omega)
    have hreported {p : Parse Unit} (kind : NodeKind) (hp : Reports p) :
        Advances s₁ ((do p; node kind bump : Parse Unit) s₁).2 :=
      hp.bind_advances fun s' hs' =>
        advances_node kind fun s'' hs'' => advances_bump (by rw [ahead_eq hs'', ahead_eq hs']; omega)
    have hwrong := advances_reportedToken (s := s₁)
      (f := fun _ => modify fun s => { s with depth := s.depth - 1 })
      (reports_errorWith .unexpectedToken "not a valid expression") (by omega)
      fun s₂ _ => .of_eq rfl rfl rfl
    cases hkind : headKind (lexemes s.rest) with
    | none =>
      rw [ahead_eq_zero_of_headKind hkind] at hpos
      cases hpos
    | some kind =>
    cases kind
    case ident =>
      dsimp only
      rw [look_apply (nextIs_apply .colon s₁)]
      split
      · exact hleave (h.field (by omega) (by omega))
      · exact hleave (hleaf .ref)
    case stringLiteral => exact hleave (hleaf .str)
    case regexLiteral => exact hleave (hleaf .regex)
    case unterminatedString => exact hleave (hreported .str (reports_error _))
    case unterminatedRegex => exact hleave (hreported .regex (reports_error _))
    case parenOpen => exact hleave (h.group (by omega) (by omega))
    case kwPrec => exact hleave (h.prec true (by omega) (by omega))
    case kwPrecLeft => exact hleave (h.prec false (by omega) (by omega))
    case kwPrecRight => exact hleave (h.prec false (by omega) (by omega))
    case kwToken => exact hleave (h.tokenCall (by omega) (by omega))
    all_goals exact hwrong

/-- A field takes its name before anything else. -/
theorem Suffices.field_succ (h : Suffices fuel) (hfuel : 8 * s.ahead + 1 ≤ fuel + 1)
    (hpos : 0 < s.ahead) : Advances s (Parse.field (fuel + 1) s).2 := by
  rw [Parse.field]
  refine advances_node .field fun s₁ hs₁ => ?_
  have hahead := ahead_eq hs₁
  refine advances_bind (advances_bump (by omega)) fun _ s₂ h₂ => ?_
  have h₂ := h₂.ahead_lt
  refine moves_bind (moves_bump s₂) fun _ s₃ h₃ => ?_
  have h₃ := h₃.ahead_le
  rw [look_apply (atTermStart_apply s₃)]
  split
  case isTrue hterm => exact (h.term (by omega) hterm).toMoves
  case isFalse => exact (reports_errorWith _ _).moves s₃

/-- A group takes its parenthesis. -/
theorem Suffices.group_succ (h : Suffices fuel) (hfuel : 8 * s.ahead + 1 ≤ fuel + 1)
    (hpos : 0 < s.ahead) : Advances s (Parse.group (fuel + 1) s).2 := by
  rw [Parse.group]
  refine advances_node .group fun s₁ hs₁ => ?_
  have hahead := ahead_eq hs₁
  rw [look_apply (currentSpan_apply s₁)]
  refine advances_bind (advances_bump (by omega)) fun _ s₂ h₂ => ?_
  have h₂ := h₂.ahead_lt
  exact moves_bind (h.exprOrError _ (by omega)) fun _ s₃ _ => moves_expectCloseParen _ s₃

/-- A token takes its keyword. -/
theorem Suffices.tokenCall_succ (h : Suffices fuel) (hfuel : 8 * s.ahead + 1 ≤ fuel + 1)
    (hpos : 0 < s.ahead) : Advances s (Parse.tokenCall (fuel + 1) s).2 := by
  rw [Parse.tokenCall]
  refine advances_node .tokenCall fun s₁ hs₁ => ?_
  have hahead := ahead_eq hs₁
  refine advances_bind (advances_bump (by omega)) fun _ s₂ h₂ => ?_
  have h₂ := h₂.ahead_lt
  rw [look_apply (isAt_apply .parenOpen s₂)]
  split
  · exact moves_bind ((reports_errorWith _ _).moves s₂) fun _ s₃ _ => .refl s₃
  · rw [look_apply (currentSpan_apply s₂)]
    refine moves_bind (moves_bump s₂) fun _ s₃ h₃ => ?_
    have h₃ := h₃.ahead_le
    exact moves_bind (h.exprOrError _ (by omega)) fun _ s₄ _ => moves_expectCloseParen _ s₄

/-- A precedence takes its keyword. -/
theorem Suffices.prec_succ (h : Suffices fuel) (plain : Bool) (hfuel : 8 * s.ahead + 1 ≤ fuel + 1)
    (hpos : 0 < s.ahead) : Advances s (Parse.prec (fuel + 1) plain s).2 := by
  rw [Parse.prec]
  refine advances_node .prec fun s₁ hs₁ => ?_
  have hahead := ahead_eq hs₁
  refine advances_bind (advances_bump (by omega)) fun _ s₂ h₂ => ?_
  have h₂ := h₂.ahead_lt
  rw [look_apply (isAt_apply .parenOpen s₂)]
  split
  · exact moves_bind ((reports_errorWith _ _).moves s₂) fun _ s₃ _ => .refl s₃
  · rw [look_apply (currentSpan_apply s₂)]
    refine moves_bind (moves_bump s₂) fun _ s₃ h₃ => ?_
    have h₃ := h₃.ahead_le
    -- with or without a level the content and the closing parenthesis follow
    have hrest {s₄ : ParseState} (h₄ : Moves s₃ s₄) : Moves s₄ ((do
        Parse.exprOrError fuel "inside precedence"
        expectCloseParen (((peek? s₂).map Token.span).getD (Span.emptyAt s₂.stop)) :
          Parse Unit) s₄).2 := by
      have h₄ := h₄.ahead_le
      exact moves_bind (h.exprOrError _ (by omega)) fun _ s₅ _ => moves_expectCloseParen _ s₅
    refine moves_bind (moves_eat .integer s₃) fun level s₄ h₄ => ?_
    dsimp only
    split
    case isTrue =>
      refine moves_bind (moves_eat .comma s₄) fun comma s₅ h₅ => ?_
      split
      · exact moves_bind ((reports_errorWith _ _).moves s₅) fun _ s₆ h₆ =>
          hrest (h₄.trans (h₅.trans h₆))
      · exact hrest (h₄.trans h₅)
    case isFalse =>
      split
      · exact moves_bind ((reports_errorWith _ _).moves s₄) fun _ s₅ h₅ => hrest (h₄.trans h₅)
      · exact hrest h₄

/-- The bounds hold for any fuel, by induction on it. -/
theorem suffices_all (fuel : Nat) : Suffices fuel := by
  induction fuel with
  | zero => constructor <;> intros <;> omega
  | succ fuel ih =>
    exact {
      exprOrError := fun context hfuel => ih.exprOrError_succ context hfuel
      expr := ih.expr_succ
      seq := ih.seq_succ
      seqItems := ih.seqItems_succ
      postfixed := ih.postfixed_succ
      term := ih.term_succ
      branches := ih.branches_succ
      quantifiers := fun inner hfuel => ih.quantifiers_succ inner hfuel
      field := ih.field_succ
      group := ih.group_succ
      prec := fun plain hfuel hpos => ih.prec_succ plain hfuel hpos
      tokenCall := ih.tokenCall_succ }

/-! ### Statements -/

/-- The fuel for the body of a rule is counted off the tokens ahead. -/
theorem moves_exprOrError (context : String) {tokens : Nat} (h : s.ahead < tokens) :
    Moves s (exprOrError (fuelOf tokens) context s).2 := by
  refine (suffices_all _).exprOrError context ?_
  rw [fuelOf]
  omega

/-- A rule takes its name at least. -/
theorem advances_rule (h : 0 < s.ahead) : Advances s (rule s).2 := by
  refine advances_node .ruleDef fun s₁ hs₁ => ?_
  refine advances_bind (advances_bump (by rw [ahead_eq hs₁]; exact h)) fun _ s₂ _ => ?_
  have hbody (s₃ : ParseState) : Moves s₃ ((do
      if ← isAt .semicolon then node .seq (return)
      else exprOrError (fuelOf (← room)) "after `=` in rule"
      expectSemicolon : Parse Unit) s₃).2 := by
    rw [look_apply (isAt_apply .semicolon s₃)]
    split
    · exact moves_bind (moves_node .seq fun s₄ _ => .refl s₄) fun _ s₄ _ => moves_expectSemicolon s₄
    · rw [look_apply (room_apply s₃)]
      exact moves_bind (moves_exprOrError _ (ahead_lt_room s₃)) fun _ s₄ _ => moves_expectSemicolon s₄
  refine moves_bind (moves_eat .equals s₂) fun equals s₃ _ => ?_
  dsimp only
  split
  · exact moves_bind ((reports_error _).moves s₃) fun _ s₄ _ => hbody s₄
  · exact hbody s₃

/-- The names of a group are tokens, one for each round. -/
theorem moves_groupNames {fuel : Nat} (hfuel : s.ahead < fuel) : Moves s (groupNames fuel s).2 := by
  induction fuel generalizing s with
  | zero => exact absurd hfuel (Nat.not_lt_zero _)
  | succ fuel ih =>
    have hmore (s₁ : ParseState) (h₁ : Advances s s₁) : Moves s₁ (groupNames fuel s₁).2 := by
      have hlt := h₁.ahead_lt
      exact ih (by omega)
    rw [groupNames, look_apply (isAt_apply .bracketClose s), look_apply (atStatementEnd_apply s)]
    split
    case isTrue => exact .refl s
    case isFalse hmeans =>
      rw [bind_apply]
      rcases eat_cases .ident s with ⟨heat, hadvances⟩ | heat
      · rw [heat]
        exact hadvances.toMoves.trans (hmore _ hadvances)
      · rw [heat]
        have hends : endsStatement (lexemes s.rest) = false := by
          rw [Bool.or_eq_true, not_or] at hmeans
          exact Bool.eq_false_iff.mpr hmeans.2
        exact (advances_reportedToken (f := fun _ => groupNames fuel) (reports_error _)
          (ahead_pos_of_endsStatement hends) hmore).toMoves

/-- A group of conflicting rules takes its bracket at least, a directive its keyword. -/
theorem advances_conflictGroup (h : 0 < s.ahead) : Advances s (conflictGroup s).2 := by
  refine advances_node .conflictGroup fun s₁ hs₁ => ?_
  rw [look_apply (currentSpan_apply s₁)]
  refine advances_bind (advances_bump (by rw [ahead_eq hs₁]; exact h)) fun _ s₂ _ => ?_
  rw [look_apply (room_apply s₂)]
  refine moves_bind (moves_groupNames (ahead_lt_room s₂)) fun _ s₃ _ => ?_
  refine moves_bind (moves_eat .bracketClose s₃) fun closed s₄ _ => ?_
  split
  · exact (reports_unclosed _ _ _).moves s₄
  · exact .refl s₄

/-- A step that takes something whenever its test holds is not repeated too often. -/
theorem moves_repeatWhile {test : Parse Bool} {step : Parse Unit} (holds : List Lexeme → Bool)
    (htest : ∀ s, test s = (holds (lexemes s.rest), s)) {fuel : Nat} (hfuel : s.ahead < fuel)
    (hstep : ∀ s', s'.ahead ≤ s.ahead → holds (lexemes s'.rest) = true → Advances s' (step s').2) :
    Moves s (repeatWhile test step fuel s).2 := by
  induction fuel generalizing s with
  | zero => exact absurd hfuel (Nat.not_lt_zero _)
  | succ fuel ih =>
    rw [repeatWhile, look_apply (htest s)]
    split
    case isTrue hholds =>
      refine (advances_bind (hstep s (Nat.le_refl _) hholds) fun _ s₁ h₁ => ?_).toMoves
      have hlt := h₁.ahead_lt
      exact ih (by omega) fun s' hs' => hstep s' (Nat.le_trans hs' h₁.toMoves.ahead_le)
    case isFalse => exact .refl s

theorem advances_directive (h : 0 < s.ahead) : Advances s (directive s).2 := by
  refine advances_node .directiveDecl fun s₁ hs₁ => ?_
  rw [look_apply (get_apply s₁)]
  dsimp only
  refine advances_bind (advances_bump (by rw [ahead_eq hs₁]; exact h)) fun _ s₂ _ => ?_
  rw [look_apply (room_apply s₂)]
  have hroom := ahead_lt_room s₂
  have hpostfixed (s₃ : ParseState) (h₃ : s₃.ahead ≤ s₂.ahead)
      (hstarts : startsTerm (lexemes s₃.rest) = true) :
      Advances s₃ (postfixed (fuelOf (s₂.rest.length + 1)) s₃).2 := by
    refine (suffices_all _).postfixed ?_ hstarts
    rw [fuelOf]
    omega
  have hend {p : Parse Unit} (hp : Moves s₂ (p s₂).2) :
      Moves s₂ ((do p; expectSemicolon : Parse Unit) s₂).2 :=
    moves_bind hp fun _ s₃ _ => moves_expectSemicolon s₃
  split
  · refine moves_bind (moves_eat .ident s₂) fun name s₃ _ => ?_
    split
    · exact moves_bind ((reports_error _).moves s₃) fun _ s₄ _ => moves_expectSemicolon s₄
    · exact moves_expectSemicolon s₃
  split
  · refine hend (moves_repeatWhile (fun ls => headKind ls = some .ident) (isAt_apply .ident) hroom ?_)
    exact fun s₃ _ hident => advances_bump (ahead_pos_of_headKind (of_decide_eq_true hident))
  split
  · exact hend (moves_repeatWhile startsTerm atTermStart_apply hroom hpostfixed)
  split
  · refine hend (moves_repeatWhile (fun ls => headKind ls = some .bracketOpen)
      (isAt_apply .bracketOpen) hroom ?_)
    exact fun s₃ _ hopen => advances_conflictGroup (ahead_pos_of_headKind (of_decide_eq_true hopen))
  · exact hend (moves_skipStatement hroom)

/-- **All tokens get into the tree**: statements are read until none is ahead, with a round for each
token at most. -/
theorem moves_statements {fuel : Nat} (hfuel : s.ahead < fuel) :
    Moves s (statements fuel s).2 ∧ (statements fuel s).2.ahead = 0 := by
  induction fuel generalizing s with
  | zero => exact absurd hfuel (Nat.not_lt_zero _)
  | succ fuel ih =>
    have hmore {p : Parse Unit} (hp : Advances s (p s).2) :
        Moves s ((do p; statements fuel : Parse Unit) s).2 ∧
          ((do p; statements fuel : Parse Unit) s).2.ahead = 0 := by
      have hlt := hp.ahead_lt
      obtain ⟨hmoves, hnone⟩ := ih (s := (p s).2) (by omega)
      exact ⟨hp.toMoves.trans hmoves, hnone⟩
    rw [statements, look_apply (current_apply s)]
    cases hkind : headKind (lexemes s.rest) with
    | none => exact ⟨.refl s, ahead_eq_zero_of_headKind hkind⟩
    | some kind =>
      have hpos := ahead_pos_of_headKind hkind
      cases kind
      case directive => exact hmore (advances_directive hpos)
      case ident => exact hmore (advances_rule hpos)
      all_goals
        refine hmore (advances_node .error fun s₁ hs₁ => (reports_errorWith _ _).bind_advances
          fun s₂ hs₂ => ?_)
        have hkind₂ := (congrArg headKind (hs₂.trans hs₁)).trans hkind
        rw [look_apply (room_apply s₂)]
        exact advances_skipToStatement (ahead_lt_room s₂) hkind₂ nofun nofun

end Parse

/-- No token left ahead means something, and those that are ahead follow the leaves built. -/
theorem moves_parseState (source : List Char) :
    Moves (Parse.start (lex source) (offset (Text.byteLength source))) (parseState source) ∧
      (parseState source).ahead = 0 :=
  Parse.moves_statements (Nat.lt_succ_of_le (lexemes_length_le _))

/-- The tokens of a text are the leaves of its tree. -/
theorem leaves_tree (source : List Char) : (parse source).tree.leaves = lex source := by
  obtain ⟨⟨⟨taken, hrest, hbuilt⟩, -⟩, -⟩ := moves_parseState source
  change Tree.leavesOf ((parseState source).built.reverse ++ (parseState source).rest.map .leaf) = _
  rw [Tree.leavesOf_append, Tree.leavesOf_map_leaf, hbuilt]
  exact hrest.symm

end LRWorkbench.GrammarText
