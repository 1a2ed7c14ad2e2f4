import LRWorkbench.Proofs.GrammarText.Lossless

/-!
# Gaps are reported

There is a **gap** in the tree of a grammar text where tokens fit nowhere, or where a node lacks the
expression that it is for (`Tree.hasGap`). Of two reports in a row at one place only the first one is
made, but a report that is left out had one before it. So the place of the latest report tells whether
there were any, and every step is one of two kinds: behind it there has been a report (`Parse.Alarms`),
or what it built has no gaps unless there has been one (`Parse.Builds`).

Where the parser stops at a bound it reports nothing, but no bound is ever reached (`moves_parseState`).
So a tree with a gap comes with an error (`exists_error_of_hasGap`).
-/

namespace LRWorkbench

namespace GrammarText

/-! ### Gaps -/

/-- The kinds of nodes that are for an expression. -/
def NodeKind.needsExpr : NodeKind → Bool
  | ruleDef | quantified | group | field | prec | tokenCall => true
  | _ => false

namespace Tree

/-- Whether a tree stands for an expression. -/
def isExpr : Tree → Bool
  | leaf _ => false
  | node kind _ => kind.isExpr

/-- Whether a node has tokens that fit nowhere, or lacks its expression. -/
def isGap (kind : NodeKind) (children : List Tree) : Bool :=
  kind = .error || (kind.needsExpr && !children.any isExpr)

mutual

/-- Whether there is a gap anywhere in a tree. -/
def hasGap : Tree → Bool
  | leaf _ => false
  | node kind children => isGap kind children || anyGap children

/-- Whether there is a gap anywhere in some trees. -/
def anyGap : List Tree → Bool
  | [] => false
  | t :: ts => hasGap t || anyGap ts

end

/-- There is a gap in some trees if there is one in one of them. -/
theorem anyGap_eq_any (ts : List Tree) : anyGap ts = ts.any hasGap := by
  induction ts with
  | nil => rfl
  | cons t ts ih => rw [anyGap, List.any_cons, ih]

theorem anyGap_append (ts ts' : List Tree) : anyGap (ts ++ ts') = (anyGap ts || anyGap ts') := by
  simp only [anyGap_eq_any, List.any_append]

/-- Tokens have no gaps in them. -/
theorem anyGap_map_leaf (ts : List Token) : anyGap (ts.map leaf) = false := by
  induction ts with
  | nil => rfl
  | cons t ts ih => exact ih

end Tree

/-! ### Quiet and alarm -/

/-- Whether nothing was reported or cut off so far. -/
structure ParseState.IsQuiet (s : ParseState) : Prop where
  lastReport : s.lastReport = none
  isCutOff : s.isCutOff = false

/-- Whether there is an error if something was reported. -/
def ParseState.IsSound (s : ParseState) : Prop :=
  s.lastReport ≠ none → ∃ d ∈ s.reported, d.isError = true

namespace Parse

variable {α β : Type} {p : Parse α} {f : α → Parse β} {shows : α → Prop} {shows' : β → Prop}

/-- A step that takes no report back, and reports nothing but errors. -/
structure Passes (p : Parse α) : Prop where
  isQuiet : ∀ s, (p s).2.IsQuiet → s.IsQuiet
  isSound : ∀ s, s.IsSound → (p s).2.IsSound

/-- A step that builds trees without gaps unless something is reported. There is an expression among
them when its answer `shows` so. -/
structure Builds (p : Parse α) (shows : α → Prop) : Prop extends Passes p where
  built : ∀ s, (p s).2.IsQuiet → ∃ added, (p s).2.built = added.reverse ++ s.built ∧
    Tree.anyGap added = false ∧ (shows (p s).1 → added.any Tree.isExpr = true)

/-- A step behind which something has been reported. -/
structure Alarms (p : Parse α) : Prop extends Passes p where
  loud : ∀ s, ¬ (p s).2.IsQuiet

/-- A step that changes nothing. -/
def Looks (p : Parse α) : Prop := ∀ s, (p s).2 = s

/-- A step all of whose answers have a property. -/
def Answers (p : Parse α) (P : α → Prop) : Prop := ∀ s, P (p s).1

/-! ### One step after the other -/

theorem passes_pure (a : α) : Passes (pure a) := ⟨fun _ h => h, fun _ h => h⟩

/-- One step after the other takes no report back if neither does. -/
theorem Passes.bind (hp : p.Passes) (hf : ∀ a, (f a).Passes) : (p >>= f).Passes where
  isQuiet s h := hp.isQuiet s ((hf _).isQuiet _ h)
  isSound s h := (hf _).isSound _ (hp.isSound s h)

/-- What has been reported stays so in the steps behind. -/
theorem Alarms.bind (hp : p.Alarms) (hf : ∀ a, (f a).Passes) : (p >>= f).Alarms where
  toPasses := hp.toPasses.bind hf
  loud s h := hp.loud s ((hf _).isQuiet _ h)

/-- Behind an alarm nothing has to be known of what was built. -/
theorem Alarms.builds (hp : p.Alarms) : p.Builds shows where
  toPasses := hp.toPasses
  built s h := absurd h (hp.loud s)

/-- An answer may show less than it does. -/
theorem Builds.mono {more : α → Prop} (hp : p.Builds more) (himp : ∀ a, shows a → more a) :
    p.Builds shows where
  toPasses := hp.toPasses
  built s h := by
    obtain ⟨added, hbuilt, hgap, hexpr⟩ := hp.built s h
    exact ⟨added, hbuilt, hgap, fun hshows => hexpr (himp _ hshows)⟩

/-- What is known of the expressions that a step builds need not be used. -/
theorem Builds.forget (hp : p.Builds shows) : p.Builds fun _ => False := hp.mono fun _ => False.elim

/-- One step after the other, the second of which may build an expression. -/
theorem Builds.bind (hp : p.Builds shows) (hf : ∀ a, (f a).Builds shows') :
    (p >>= f).Builds shows' where
  toPasses := hp.toPasses.bind fun a => (hf a).toPasses
  built s h := by
    obtain ⟨added', hbuilt', hgap', hexpr'⟩ := (hf (p s).1).built (p s).2 h
    obtain ⟨added, hbuilt, hgap, -⟩ := hp.built s ((hf _).isQuiet _ h)
    refine ⟨added ++ added', ?_, ?_, fun hshows => ?_⟩
    · rw [bind_apply, hbuilt', hbuilt, List.reverse_append, List.append_assoc]
    · rw [Tree.anyGap_append, hgap, hgap']
      rfl
    · rw [List.any_append, hexpr' hshows, Bool.or_true]

/-- One step after the other, the first of which builds an expression. -/
theorem Builds.before (hp : p.Builds fun _ => True) (hf : ∀ a, (f a).Builds fun _ => False) :
    (p >>= f).Builds shows' where
  toPasses := hp.toPasses.bind fun a => (hf a).toPasses
  built s h := by
    obtain ⟨added', hbuilt', hgap', -⟩ := (hf (p s).1).built (p s).2 h
    obtain ⟨added, hbuilt, hgap, hexpr⟩ := hp.built s ((hf _).isQuiet _ h)
    refine ⟨added ++ added', ?_, ?_, fun _ => ?_⟩
    · rw [bind_apply, hbuilt', hbuilt, List.reverse_append, List.append_assoc]
    · rw [Tree.anyGap_append, hgap, hgap']
      rfl
    · rw [List.any_append, hexpr trivial, Bool.true_or]

/-- The same step with another answer. -/
theorem Builds.answer (hp : p.Builds shows) {g : α → β} (himp : ∀ a, shows' (g a) → shows a) :
    (p >>= fun a => pure (g a)).Builds shows' where
  toPasses := hp.toPasses.bind fun _ => passes_pure _
  built s h := by
    obtain ⟨added, hbuilt, hgap, hexpr⟩ := hp.built s h
    exact ⟨added, hbuilt, hgap, fun hshows => hexpr (himp _ hshows)⟩

/-- A step that changes nothing builds nothing. -/
theorem Looks.builds (hp : p.Looks) : p.Builds fun _ => False where
  isQuiet s h := hp s ▸ h
  isSound s h := (hp s).symm ▸ h
  built s _ := ⟨[], congrArg ParseState.built (hp s), rfl, nofun⟩

/-- The last step gives the answer. -/
theorem Answers.bind {P : β → Prop} (hf : ∀ a, (f a).Answers P) : (p >>= f).Answers P := fun _ =>
  hf _ _

theorem builds_pure {a : α} (h : ¬ shows a) : Builds (pure a) shows where
  toPasses := passes_pure a
  built _ _ := ⟨[], rfl, rfl, fun hshows => absurd hshows h⟩

/-- It does not matter which way a step goes if both build without gaps. -/
theorem Builds.ite {c : Prop} [Decidable c] {p q : Parse α} (hp : p.Builds shows)
    (hq : q.Builds shows) : (if c then p else q).Builds shows := by
  split
  · exact hp
  · exact hq

/-! ### Looking ahead -/

/-- Looking at the tokens ahead changes nothing, whatever is asked of them. -/
theorem looks_current : current.Looks := fun _ => rfl

theorem looks_isAt (kind : TokenKind) : (isAt kind).Looks := fun _ => rfl

theorem looks_nextIs (kind : TokenKind) : (nextIs kind).Looks := fun _ => rfl

theorem looks_atEnd : atEnd.Looks := fun _ => rfl

theorem looks_atQuantifier : atQuantifier.Looks := fun _ => rfl

theorem looks_currentSpan : currentSpan.Looks := fun _ => rfl

theorem looks_room : room.Looks := fun _ => rfl

theorem looks_get : Looks (get : Parse ParseState) := fun _ => rfl

theorem looks_atTermStart : atTermStart.Looks := fun s => congrArg Prod.snd (atTermStart_apply s)

theorem looks_atStatementStart : atStatementStart.Looks := fun s =>
  congrArg Prod.snd (atStatementStart_apply s)

theorem looks_atStatementEnd : atStatementEnd.Looks := fun s =>
  congrArg Prod.snd (atStatementEnd_apply s)

/-! ### Building -/

/-- A step that adds trees and reports nothing. -/
theorem builds_of_adds (h : ∀ s, ∃ added rest lastEnd depth, (p s).2 = { s with
      built := added.reverse ++ s.built, rest := rest, lastEnd := lastEnd, depth := depth } ∧
    Tree.anyGap added = false ∧ (shows (p s).1 → added.any Tree.isExpr = true)) :
    p.Builds shows where
  isQuiet s hquiet := by
    obtain ⟨added, rest, lastEnd, depth, hp, -⟩ := h s
    rw [hp] at hquiet
    exact ⟨hquiet.lastReport, hquiet.isCutOff⟩
  isSound s hsound := by
    obtain ⟨added, rest, lastEnd, depth, hp, -⟩ := h s
    rw [hp]
    exact hsound
  built s _ := by
    obtain ⟨added, rest, lastEnd, depth, hp, hadded⟩ := h s
    exact ⟨added, by rw [hp], hadded⟩

/-- Tokens that mean nothing are leaves, so they leave no gap. -/
theorem builds_flush : flush.Builds fun _ => False :=
  builds_of_adds fun s => ⟨(s.rest.takeWhile fun t => t.kind.isTrivia).map .leaf, _, _, _, rfl,
    Tree.anyGap_map_leaf _, nofun⟩

/-- So are tokens that are taken. -/
theorem builds_bump : bump.Builds fun _ => False := by
  refine looks_atEnd.builds.bind fun atEnd => .ite (builds_pure id) ?_
  refine builds_flush.bind fun _ => builds_of_adds fun s => ?_
  rw [modify_apply]
  cases s.rest with
  | nil => exact ⟨[], _, _, _, rfl, rfl, nofun⟩
  | cons t rest => exact ⟨[.leaf t], _, _, _, rfl, rfl, nofun⟩

/-- A token is taken only if it is there. -/
theorem builds_eat (kind : TokenKind) : (eat kind).Builds fun _ => False :=
  (looks_isAt kind).builds.bind fun _ =>
    .ite (builds_bump.bind fun _ => builds_pure id) (builds_pure id)

/-- Trees that are put into the open node are built there. -/
theorem builds_append {ts : List Tree} (h : Tree.anyGap ts = false) :
    (append ts).Builds fun _ => ts.any Tree.isExpr = true :=
  builds_of_adds fun s => ⟨ts, s.rest, s.lastEnd, s.depth, rfl, h, id⟩

theorem passes_append (ts : List Tree) : (append ts).Passes where
  isQuiet _ h := ⟨h.lastReport, h.isCutOff⟩
  isSound _ h := h

/-! ### Nodes -/

/-- What is built inside a node takes no report back. -/
theorem Passes.children {body : Parse Unit} (h : body.Passes) : (Parse.children body).Passes where
  isQuiet s hquiet := by
    have hbody := h.isQuiet { s with built := [] } ⟨hquiet.lastReport, hquiet.isCutOff⟩
    exact ⟨hbody.lastReport, hbody.isCutOff⟩
  isSound s hsound := h.isSound { s with built := [] } hsound

/-- What is done with the children that a step builds may count on what is known of them. -/
theorem Builds.children {body : Parse Unit} {f : List Tree → Parse β} {shows : Prop}
    (h : body.Builds fun _ => shows) (hpasses : ∀ inner, (f inner).Passes)
    (hf : ∀ inner, Tree.anyGap inner = false → (shows → inner.any Tree.isExpr = true) →
      (f inner).Builds shows') : (Parse.children body >>= f).Builds shows' where
  toPasses := h.toPasses.children.bind hpasses
  built s hquiet := by
    have hbody := (hpasses _).isQuiet _ hquiet
    obtain ⟨inner, hinner, hgap, hexpr⟩ :=
      h.built { s with built := [] } ⟨hbody.lastReport, hbody.isCutOff⟩
    have hanswer : (Parse.children body s).1 = inner := by
      change (body { s with built := [] }).2.built.reverse = inner
      rw [hinner, List.append_nil, List.reverse_reverse]
    rw [← hanswer] at hgap hexpr
    exact (hf _ hgap hexpr).built _ hquiet

theorem Passes.node {body : Parse Unit} (kind : NodeKind) (h : body.Passes) :
    (Parse.node kind body).Passes :=
  builds_flush.toPasses.bind fun _ => h.children.bind fun _ => passes_append _

/-- What has been reported inside a node has been reported behind it. -/
theorem Alarms.node {body : Parse Unit} (kind : NodeKind) (h : body.Alarms) :
    (Parse.node kind body).Alarms where
  toPasses := h.toPasses.node kind
  loud s hquiet := h.loud (opened s) ⟨hquiet.lastReport, hquiet.isCutOff⟩

/-- A node that is not for an expression, or has one. -/
theorem Builds.node {body : Parse Unit} {shows : Prop} (kind : NodeKind)
    (h : body.Builds fun _ => shows) (hkind : kind ≠ .error)
    (hneeds : kind.needsExpr = true → shows) :
    (Parse.node kind body).Builds fun _ => kind.isExpr = true := by
  refine builds_flush.bind fun _ => h.children (fun _ => passes_append _) fun inner hgap hexpr => ?_
  have hnode : Tree.isGap kind inner = false := by
    rw [Tree.isGap, decide_eq_false hkind, Bool.false_or, Bool.and_eq_false_imp]
    intro hkind
    rw [hexpr (hneeds hkind)]
    rfl
  refine (builds_append ?_).mono fun _ hkind => ?_
  · rw [Tree.anyGap, Tree.hasGap, hnode, hgap]
    rfl
  · rw [List.any_cons, Tree.isExpr, hkind]
    rfl

/-- A node that is not for an expression. -/
theorem Builds.plainNode {body : Parse Unit} (kind : NodeKind) (h : body.Builds fun _ => False)
    (hkind : kind ≠ .error) (hneeds : kind.needsExpr = false) :
    (Parse.node kind body).Builds fun _ => kind.isExpr = true :=
  h.node kind hkind fun hneeds' => nomatch hneeds.symm.trans hneeds'

/-- What a step built, in a node if its answer asks for one. -/
def wrap (inner : List Tree) : Option NodeKind → List Tree
  | some kind => [.node kind inner]
  | none => inner

/-- A node that is made afterwards holds what was built since it would have been opened. -/
theorem wrapped_apply (body : Parse (Option NodeKind)) (s : ParseState) :
    (wrapped body s).2 = { (body (opened s)).2 with
      built := (wrap (body (opened s)).2.built.reverse (body (opened s)).1).reverse ++
        (flush s).2.built } := by
  rw [wrapped, bind_apply, bind_apply, get_apply, bind_apply, modify_apply, bind_apply]
  have hopened : body { (flush s).2 with built := [] } = body (opened s) := rfl
  dsimp only
  rw [hopened, bind_apply, get_apply, bind_apply, modify_apply]
  cases (body (opened s)).1 <;> rfl

/-- Either there is an expression, or a node is asked for that stands for one and needs none. -/
theorem Builds.wrapped {body : Parse (Option NodeKind)} (h : body.Builds fun kind => kind = none)
    (hkind : body.Answers fun answer => ∀ kind ∈ answer, kind = .alt ∨ kind = .seq) :
    (Parse.wrapped body).Builds fun _ => True where
  isQuiet s hquiet := by
    rw [wrapped_apply] at hquiet
    have hopened := h.isQuiet (opened s) ⟨hquiet.lastReport, hquiet.isCutOff⟩
    exact ⟨hopened.lastReport, hopened.isCutOff⟩
  isSound s hsound := by
    rw [wrapped_apply]
    exact h.isSound (opened s) hsound
  built s hquiet := by
    rw [wrapped_apply] at hquiet ⊢
    obtain ⟨inner, hinner, hgap, hexpr⟩ := h.built (opened s) ⟨hquiet.lastReport, hquiet.isCutOff⟩
    have hbuilt : (body (opened s)).2.built.reverse = inner := by
      rw [hinner, List.reverse_append, List.reverse_reverse]
      exact List.nil_append _
    rw [hbuilt]
    refine ⟨(s.rest.takeWhile fun t => t.kind.isTrivia).map .leaf ++ wrap inner (body (opened s)).1,
      ?_, ?_, fun _ => ?_⟩
    · rw [List.reverse_append, List.append_assoc]
      rfl
    · rw [Tree.anyGap_append, Tree.anyGap_map_leaf, Bool.false_or]
      cases hanswer : (body (opened s)).1 with
      | none => exact hgap
      | some kind =>
        rcases hkind _ _ hanswer with rfl | rfl <;>
          simp [wrap, Tree.anyGap, Tree.hasGap, Tree.isGap, NodeKind.needsExpr, hgap]
    · rw [List.any_append, Bool.or_eq_true]
      refine .inr ?_
      cases hanswer : (body (opened s)).1 with
      | none => exact hexpr hanswer
      | some kind => rcases hkind _ _ hanswer with rfl | rfl <;> rfl

/-! ### Reports -/

/-- Behind the report of an error something has been reported, even if the error itself was dropped
because the one before stands at the same place. -/
theorem alarms_report {d : Diagnostic} (h : d.isError = true) (place : Nat) :
    (report place d).Alarms := by
  have hlast (s : ParseState) : (report place d s).2.lastReport = some place := by
    rw [report, modify_apply]
    by_cases hsame : s.lastReport = some place
    · simp [hsame]
    · simp [hsame]
  have hloud (s : ParseState) : ¬ (report place d s).2.IsQuiet := fun hquiet => by
    cases (hlast s).symm.trans hquiet.lastReport
  refine ⟨⟨fun s hquiet => absurd hquiet (hloud s), fun s hsound => ?_⟩, hloud⟩
  -- a report that is left out had one before it
  rw [report, modify_apply]
  by_cases hsame : s.lastReport = some place
  · rw [if_pos hsame]
    exact hsound
  · rw [if_neg hsame]
    exact fun _ => ⟨d, List.mem_cons_self .., h⟩

/-- A step that only looks does not keep the next one from reporting. -/
theorem Looks.alarms (hp : p.Looks) (hf : ∀ a, (f a).Alarms) : (p >>= f).Alarms where
  toPasses := hp.builds.toPasses.bind fun a => (hf a).toPasses
  loud _ := (hf _).loud _

theorem alarms_error {kind : Diagnostic.Kind} (h : kind.severity = .error) : (error kind).Alarms :=
  looks_currentSpan.alarms fun span => alarms_report (d := .ofKind kind span) (decide_eq_true h) _

theorem alarms_errorWith {kind : Diagnostic.Kind} (h : kind.severity = .error) (detail : String) :
    (errorWith kind detail).Alarms :=
  looks_currentSpan.alarms fun span =>
    alarms_report (d := (Diagnostic.ofKind kind span).withDetail detail) (decide_eq_true h) _

theorem alarms_unclosed {kind : Diagnostic.Kind} (h : kind.severity = .error) (message : String)
    (opener : Span) : (unclosed kind message opener).Alarms :=
  looks_currentSpan.alarms fun span => alarms_report
    (d := (Diagnostic.ofKind kind ⟨opener.start, span.stop⟩).withRelated message opener)
    (decide_eq_true h) _

/-- Being cut off counts as being reported. -/
theorem alarms_cutOff : cutOff.Alarms where
  isQuiet _ h := nomatch h.isCutOff
  isSound _ h := h
  loud _ h := nomatch h.isCutOff

/-! ### Skipping -/

/-- A token that fits nowhere is put into an error node, which is a gap; only what reports it first
may do so. -/
theorem passes_bumpAsError : bumpAsError.Passes :=
  looks_atEnd.builds.toPasses.bind fun atEnd => by
    cases atEnd with
    | true => exact passes_pure _
    | false => exact builds_bump.toPasses.node .error

/-- The rest of a statement goes into the open node as it is. -/
theorem builds_skipStatement (fuel : Nat) : (skipStatement fuel).Builds fun _ => False := by
  induction fuel with
  | zero => exact alarms_cutOff.builds
  | succ fuel ih =>
    exact looks_atStatementEnd.builds.bind fun _ =>
      .ite (builds_pure id) (builds_bump.bind fun _ => ih)

theorem builds_expectSemicolon : expectSemicolon.Builds fun _ => False := by
  refine (builds_eat .semicolon).bind fun _ => .ite (builds_pure id) ?_
  refine looks_atEnd.builds.bind fun _ => looks_atStatementStart.builds.bind fun _ => .ite ?_ ?_
  · exact looks_get.builds.bind fun _ =>
      ((alarms_report rfl _).bind fun _ => passes_pure _).builds
  · have hskip : (do errorWith .unexpectedToken "expected `;`"; skipStatement (← room)).Alarms :=
      (alarms_errorWith rfl _).bind fun _ =>
        (looks_room.builds.bind fun _ => builds_skipStatement _).toPasses
    exact ((hskip.node .error).bind fun _ =>
      (builds_eat .semicolon).toPasses.bind fun _ => passes_pure _).builds

theorem builds_expectCloseParen (opener : Span) :
    (expectCloseParen opener).Builds fun _ => False :=
  (builds_eat .parenClose).bind fun _ =>
    .ite (builds_pure id) (alarms_unclosed rfl _ opener).builds

/-! ### Expressions -/

/-- With some fuel, whatever is meant to be an expression is one unless something is reported. -/
structure Expresses (fuel : Nat) : Prop where
  exprOrError : ∀ context, (Parse.exprOrError fuel context).Builds fun _ => True
  expr : (Parse.expr fuel).Builds fun _ => True
  branches : (Parse.branches fuel).Builds fun _ => False
  seq : (Parse.seq fuel).Builds fun _ => True
  seqItems : (Parse.seqItems fuel).Builds fun count => 0 < count
  postfixed : (Parse.postfixed fuel).Builds fun _ => True
  passesQuantifiers : ∀ inner, (Parse.quantifiers fuel inner).Passes
  quantifiers : ∀ inner, Tree.anyGap inner = false → inner.any Tree.isExpr = true →
    (Parse.quantifiers fuel inner).Builds fun _ => True
  term : (Parse.term fuel).Builds fun _ => True
  field : (Parse.field fuel).Builds fun _ => True
  group : (Parse.group fuel).Builds fun _ => True
  prec : ∀ plain, (Parse.prec fuel plain).Builds fun _ => True
  tokenCall : (Parse.tokenCall fuel).Builds fun _ => True

variable {fuel : Nat}

/-- Where an expression is missing, that is reported. -/
theorem Expresses.exprOrError_succ (h : Expresses fuel) (context : String) :
    (Parse.exprOrError (fuel + 1) context).Builds fun _ => True := by
  refine looks_atTermStart.builds.bind fun _ => (looks_isAt .pipe).builds.bind fun _ =>
    looks_atQuantifier.builds.bind fun _ => .ite h.expr ?_
  exact (alarms_errorWith rfl context).builds

/-- An expression is a row of terms, or a choice of rows. -/
theorem Expresses.expr_succ (h : Expresses fuel) :
    (Parse.expr (fuel + 1)).Builds fun _ => True := by
  refine Builds.wrapped ?_ ?_
  · exact (builds_eat .pipe).bind fun _ => h.seq.before fun _ =>
      h.branches.bind fun _ => builds_pure id
  · refine .bind fun leading => .bind fun _ => .bind fun more _ => ?_
    change ∀ kind ∈ if leading || more then some NodeKind.alt else none, _
    split
    · rintro kind ⟨⟩
      exact .inl rfl
    · nofun

/-- The branches behind the first one add to the choice. -/
theorem Expresses.branches_succ (h : Expresses fuel) :
    (Parse.branches (fuel + 1)).Builds fun _ => False := by
  refine (builds_eat .pipe).bind fun _ => .ite ?_ (builds_pure id)
  exact h.seq.forget.bind fun _ => h.branches.bind fun _ => builds_pure id

/-- A row without terms is reported, as is nothing else. -/
theorem Expresses.seq_succ (h : Expresses fuel) :
    (Parse.seq (fuel + 1)).Builds fun _ => True := by
  refine Builds.wrapped (h.seqItems.answer fun count hnone => ?_) (.bind fun count _ => ?_)
  · split at hnone
    · omega
    · cases hnone
  · change ∀ kind ∈ if count = 1 then none else some NodeKind.seq, _
    split
    · nofun
    · rintro kind ⟨⟩
      exact .inr rfl

/-- A row of terms that is counted as not empty has a term. -/
theorem Expresses.seqItems_succ (h : Expresses fuel) :
    (Parse.seqItems (fuel + 1)).Builds fun count => 0 < count := by
  have hskipped {p : Parse Unit} (hp : p.Alarms) :
      (do p; bumpAsError; Parse.seqItems fuel : Parse Nat).Builds fun count => 0 < count :=
    (hp.bind fun _ => passes_bumpAsError.bind fun _ => h.seqItems.toPasses).builds
  refine looks_atTermStart.builds.bind fun _ => .ite ?_ ?_
  · exact h.postfixed.before fun _ => h.seqItems.forget.bind fun _ => builds_pure id
  refine looks_atQuantifier.builds.bind fun _ => .ite (hskipped (alarms_error rfl)) ?_
  refine (looks_isAt .garbage).builds.bind fun _ => .ite (hskipped (alarms_errorWith rfl _)) ?_
  exact builds_pure (Nat.lt_irrefl 0)

/-- The term that quantifiers stand behind is an expression, and so is what they make of it. -/
theorem Expresses.postfixed_succ (h : Expresses fuel) :
    (Parse.postfixed (fuel + 1)).Builds fun _ => True :=
  builds_flush.bind fun _ => h.term.children h.passesQuantifiers fun inner hgap hexpr =>
    h.quantifiers inner hgap (hexpr trivial)

/-- Quantifiers take no report back, whatever they stand behind. -/
theorem Expresses.passesQuantifiers_succ (h : Expresses fuel) (inner : List Tree) :
    (Parse.quantifiers (fuel + 1) inner).Passes := by
  refine looks_atQuantifier.builds.toPasses.bind fun _ => ?_
  split
  · exact builds_bump.toPasses.children.bind fun _ => h.passesQuantifiers _
  · exact passes_append inner

/-- Quantifiers stand around the term before them. -/
theorem Expresses.quantifiers_succ (h : Expresses fuel) (inner : List Tree)
    (hgap : Tree.anyGap inner = false) (hexpr : inner.any Tree.isExpr = true) :
    (Parse.quantifiers (fuel + 1) inner).Builds fun _ => True := by
  refine looks_atQuantifier.builds.bind fun _ => .ite ?_ ?_
  · refine builds_bump.children (fun _ => h.passesQuantifiers _) fun sign hsign _ =>
      h.quantifiers _ ?_ rfl
    simp [Tree.anyGap, Tree.hasGap, Tree.isGap, Tree.anyGap_append, hgap, hsign, hexpr]
  · exact (builds_append hgap).mono fun _ _ => hexpr

/-- A token alone in a node for an expression is an expression. -/
theorem builds_leafNode {kind : NodeKind} (h : kind ≠ .error) (hneeds : kind.needsExpr = false)
    (hexpr : kind.isExpr = true) : (node kind bump).Builds fun _ => True :=
  (builds_bump.plainNode kind h hneeds).mono fun _ _ => hexpr

/-- Each way for a term to begin leads to an expression or to a report. -/
theorem Expresses.term_succ (h : Expresses fuel) :
    (Parse.term (fuel + 1)).Builds fun _ => True := by
  refine looks_get.builds.bind fun s => .ite ?_ ?_
  · refine ((alarms_errorWith rfl _).bind fun _ => Passes.node .error ?_).builds
    exact (looks_room.builds.bind fun _ => builds_skipStatement _).toPasses
  have hdepth (g : Nat → Nat) : Builds (modify fun s : ParseState => { s with depth := g s.depth })
      fun _ => False :=
    builds_of_adds fun s => ⟨[], s.rest, s.lastEnd, g s.depth, rfl, rfl, nofun⟩
  have hleave {p : Parse Unit} (hp : p.Builds fun _ => True) :
      (do p; modify fun s => { s with depth := s.depth - 1 } : Parse Unit).Builds fun _ => True :=
    hp.before fun _ => hdepth (· - 1)
  have hreported {p : Parse Unit} (kind : NodeKind) (hp : p.Alarms) :
      (do p; node kind bump : Parse Unit).Builds fun _ => True :=
    (hp.bind fun _ => builds_bump.toPasses.node kind).builds
  have hwrong : (do errorWith .unexpectedToken "not a valid expression"; bumpAsError :
      Parse Unit).Builds fun _ => True :=
    ((alarms_errorWith rfl _).bind fun _ => passes_bumpAsError).builds
  refine (hdepth (· + 1)).bind fun _ => looks_current.builds.bind fun kind => ?_
  cases kind with
  | none => exact hleave hwrong
  | some kind =>
    cases kind
    case ident =>
      refine (looks_nextIs .colon).builds.bind fun _ => .ite (hleave h.field) ?_
      exact hleave (builds_leafNode nofun rfl rfl)
    case stringLiteral => exact hleave (builds_leafNode nofun rfl rfl)
    case regexLiteral => exact hleave (builds_leafNode nofun rfl rfl)
    case unterminatedString => exact hleave (hreported .str (alarms_error rfl))
    case unterminatedRegex => exact hleave (hreported .regex (alarms_error rfl))
    case parenOpen => exact hleave h.group
    case kwPrec => exact hleave (h.prec true)
    case kwPrecLeft => exact hleave (h.prec false)
    case kwPrecRight => exact hleave (h.prec false)
    case kwToken => exact hleave h.tokenCall
    all_goals exact hleave hwrong

/-- A field has an expression behind its name, unless that is reported. -/
theorem Expresses.field_succ (h : Expresses fuel) :
    (Parse.field (fuel + 1)).Builds fun _ => True := by
  have hbody : (do
      bump
      bump
      if ← atTermStart then Parse.term fuel
      else errorWith .expectedExpression "after field name" : Parse Unit).Builds fun _ => True :=
    builds_bump.bind fun _ => builds_bump.bind fun _ => looks_atTermStart.builds.bind fun _ =>
      .ite h.term (alarms_errorWith rfl _).builds
  exact (hbody.node .field nofun fun _ => trivial).mono fun _ _ => rfl

/-- An expression up to its closing parenthesis. -/
theorem Expresses.enclosed (h : Expresses fuel) (context : String) (opener : Span) :
    (do Parse.exprOrError fuel context; expectCloseParen opener : Parse Unit).Builds fun _ => True :=
  (h.exprOrError context).before fun _ => builds_expectCloseParen opener

/-- A group has an expression in its parentheses, unless that is reported. -/
theorem Expresses.group_succ (h : Expresses fuel) :
    (Parse.group (fuel + 1)).Builds fun _ => True := by
  refine (Builds.node .group ?_ nofun fun _ => trivial).mono fun _ _ => rfl
  exact looks_currentSpan.builds.bind fun opener => builds_bump.bind fun _ => h.enclosed _ opener

/-- So has a token. -/
theorem Expresses.tokenCall_succ (h : Expresses fuel) :
    (Parse.tokenCall (fuel + 1)).Builds fun _ => True := by
  refine (Builds.node .tokenCall ?_ nofun fun _ => trivial).mono fun _ _ => rfl
  refine builds_bump.bind fun _ => (looks_isAt .parenOpen).builds.bind fun _ => .ite ?_ ?_
  · exact ((alarms_errorWith rfl _).bind fun _ => passes_pure _).builds
  · exact looks_currentSpan.builds.bind fun opener => builds_bump.bind fun _ => h.enclosed _ opener

/-- So has a precedence. -/
theorem Expresses.prec_succ (h : Expresses fuel) (plain : Bool) :
    (Parse.prec (fuel + 1) plain).Builds fun _ => True := by
  refine (Builds.node .prec ?_ nofun fun _ => trivial).mono fun _ _ => rfl
  refine builds_bump.bind fun _ => (looks_isAt .parenOpen).builds.bind fun _ => .ite ?_ ?_
  · exact ((alarms_errorWith rfl _).bind fun _ => passes_pure _).builds
  refine looks_currentSpan.builds.bind fun opener => builds_bump.bind fun _ => ?_
  -- with or without a level, the content and the closing parenthesis follow
  have hrest := h.enclosed "inside precedence" opener
  have hwrong {p : Parse Unit} (hp : p.Alarms) :
      (do p; Parse.exprOrError fuel "inside precedence"; expectCloseParen opener :
        Parse Unit).Builds fun _ => True :=
    (hp.bind fun _ => hrest.toPasses).builds
  refine (builds_eat .integer).bind fun _ => .ite ?_ (.ite ?_ hrest)
  · exact (builds_eat .comma).bind fun _ => .ite (hwrong (alarms_errorWith rfl _)) hrest
  · exact hwrong (alarms_errorWith rfl _)

/-- With whatever fuel: without any, being cut off is reported. -/
theorem expresses_all (fuel : Nat) : Expresses fuel := by
  induction fuel with
  | zero =>
    exact {
      exprOrError := fun _ => alarms_cutOff.builds
      expr := alarms_cutOff.builds
      branches := (alarms_cutOff.bind fun _ => passes_pure _).builds
      seq := alarms_cutOff.builds
      seqItems := (alarms_cutOff.bind fun _ => passes_pure _).builds
      postfixed := alarms_cutOff.builds
      passesQuantifiers := fun inner => alarms_cutOff.toPasses.bind fun _ => passes_append inner
      quantifiers := fun inner _ _ => (alarms_cutOff.bind fun _ => passes_append inner).builds
      term := alarms_cutOff.builds
      field := alarms_cutOff.builds
      group := alarms_cutOff.builds
      prec := fun _ => alarms_cutOff.builds
      tokenCall := alarms_cutOff.builds }
  | succ fuel ih =>
    exact {
      exprOrError := ih.exprOrError_succ
      expr := ih.expr_succ
      branches := ih.branches_succ
      seq := ih.seq_succ
      seqItems := ih.seqItems_succ
      postfixed := ih.postfixed_succ
      passesQuantifiers := ih.passesQuantifiers_succ
      quantifiers := ih.quantifiers_succ
      term := ih.term_succ
      field := ih.field_succ
      group := ih.group_succ
      prec := ih.prec_succ
      tokenCall := ih.tokenCall_succ }

/-! ### Statements -/

/-- A rule has an expression behind its name, unless that is reported. -/
theorem builds_rule : rule.Builds fun _ => False := by
  refine (Builds.node .ruleDef ?_ nofun fun _ => trivial).forget
  have hbody : (do
      if ← isAt .semicolon then node .seq (return)
      else exprOrError (fuelOf (← room)) "after `=` in rule"
      expectSemicolon : Parse Unit).Builds fun _ => True := by
    refine (looks_isAt .semicolon).builds.bind fun _ => .ite ?_ ?_
    · refine Builds.before ?_ fun _ => builds_expectSemicolon
      exact ((builds_pure id).plainNode .seq nofun rfl).mono fun _ _ => rfl
    · exact looks_room.builds.bind fun _ =>
        ((expresses_all _).exprOrError _).before fun _ => builds_expectSemicolon
  refine builds_bump.bind fun _ => (builds_eat .equals).bind fun _ => .ite ?_ hbody
  exact ((alarms_error rfl).bind fun _ => hbody.toPasses).builds

theorem builds_groupNames (fuel : Nat) : (groupNames fuel).Builds fun _ => False := by
  induction fuel with
  | zero => exact alarms_cutOff.builds
  | succ fuel ih =>
    refine (looks_isAt .bracketClose).builds.bind fun _ =>
      looks_atStatementEnd.builds.bind fun _ => .ite (builds_pure id) ?_
    refine (builds_eat .ident).bind fun _ => .ite ?_ ih
    exact ((alarms_error rfl).bind fun _ => passes_bumpAsError.bind fun _ => ih.toPasses).builds

/-- A group of conflicting rules has names in it, or that is reported. -/
theorem builds_conflictGroup : conflictGroup.Builds fun _ => False := by
  refine (Builds.plainNode .conflictGroup ?_ nofun rfl).forget
  refine looks_currentSpan.builds.bind fun _ => builds_bump.bind fun _ =>
    looks_room.builds.bind fun _ => (builds_groupNames _).bind fun _ =>
      (builds_eat .bracketClose).bind fun _ => .ite ?_ (builds_pure id)
  exact (alarms_unclosed rfl _ _).builds

/-- A loop builds without gaps if its step does. -/
theorem builds_repeatWhile {test : Parse Bool} {step : Parse Unit} (htest : test.Looks)
    (hstep : step.Builds fun _ => False) (fuel : Nat) :
    (repeatWhile test step fuel).Builds fun _ => False := by
  induction fuel with
  | zero => exact alarms_cutOff.builds
  | succ fuel ih =>
    exact htest.builds.bind fun _ => .ite (hstep.bind fun _ => ih) (builds_pure id)

/-- Directives take names and groups, and report what is neither. -/
theorem builds_directive : directive.Builds fun _ => False := by
  refine (Builds.plainNode .directiveDecl ?_ nofun rfl).forget
  have hend {p : Parse Unit} (hp : p.Builds fun _ => False) :
      (do p; expectSemicolon : Parse Unit).Builds fun _ => False :=
    hp.bind fun _ => builds_expectSemicolon
  refine looks_get.builds.bind fun s => builds_bump.bind fun _ => looks_room.builds.bind fun fuel =>
    .ite ?_ (.ite ?_ (.ite ?_ (.ite ?_ ?_)))
  · refine (builds_eat .ident).bind fun _ => .ite ?_ builds_expectSemicolon
    exact ((alarms_error rfl).bind fun _ => builds_expectSemicolon.toPasses).builds
  · exact hend (builds_repeatWhile (looks_isAt .ident) builds_bump _)
  · exact hend (builds_repeatWhile looks_atTermStart (expresses_all _).postfixed.forget _)
  · exact hend (builds_repeatWhile (looks_isAt .bracketOpen) builds_conflictGroup _)
  · exact hend (builds_skipStatement _)

/-- What starts no statement is reported before it is skipped. -/
theorem builds_skipToStatement (fuel : Nat) : (skipToStatement fuel).Builds fun _ => False := by
  induction fuel with
  | zero => exact alarms_cutOff.builds
  | succ fuel ih =>
    refine looks_current.builds.bind fun kind => ?_
    split
    all_goals first | exact builds_pure id | exact builds_bump.bind fun _ => ih

/-- **No gaps without a report**: statements are built without gaps as long as all is quiet. -/
theorem builds_statements (fuel : Nat) : (statements fuel).Builds fun _ => False := by
  induction fuel with
  | zero => exact alarms_cutOff.builds
  | succ fuel ih =>
    refine looks_current.builds.bind fun kind => ?_
    split
    · exact builds_pure id
    · exact builds_directive.bind fun _ => ih
    · exact builds_rule.bind fun _ => ih
    · have hwrong : (do
          errorWith .unexpectedToken "expected a rule or a directive"
          skipToStatement (← room) : Parse Unit).Alarms :=
        (alarms_errorWith rfl _).bind fun _ =>
          (looks_room.builds.bind fun _ => builds_skipToStatement _).toPasses
      exact ((hwrong.node .error).bind fun _ => ih.toPasses).builds

end Parse

/-- **Gaps are reported.** If there is a gap anywhere in the tree of a text, parsing reports an
error. -/
theorem exists_error_of_hasGap {source : List Char} (h : (parse source).tree.hasGap = true) :
    ∃ d ∈ (parse source).diagnostics, d.isError = true := by
  have hbuilds := Parse.builds_statements ((lex source).length + 1)
  have hsound : (parseState source).IsSound := hbuilds.isSound _ (absurd rfl)
  by_cases hlast : (parseState source).lastReport = none
  · have hcut : (parseState source).isCutOff = false := (moves_parseState source).1.isCutOff
    obtain ⟨added, hbuilt, hgap, -⟩ := hbuilds.built _ ⟨hlast, hcut⟩
    have hbuilt : (parseState source).built = added.reverse := by
      rw [← List.append_nil added.reverse]
      exact hbuilt
    change Tree.hasGap (.node .root ((parseState source).built.reverse ++
      (parseState source).rest.map .leaf)) = true at h
    rw [hbuilt, List.reverse_reverse, Tree.hasGap, Tree.anyGap_append, hgap,
      Tree.anyGap_map_leaf] at h
    cases h
  · obtain ⟨d, hd, herror⟩ := hsound hlast
    exact ⟨d, List.mem_reverse.mpr hd, herror⟩

end GrammarText

end LRWorkbench
