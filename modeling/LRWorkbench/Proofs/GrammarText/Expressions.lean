import LRWorkbench.Proofs.GrammarText.Parsing
import Mathlib.Data.List.Basic

/-!
# Reading expressions back

The parser reads a rule off the expression that it is written as (`Parse.reads_expression`), however
the expression goes on behind it. The fuel that a step needs depends on how many lexemes it takes.
-/

namespace LRWorkbench.GrammarText

/-! ### What stands behind -/

/-- Whether a lexeme behind a term leaves the term as it is. -/
def endsTerm (kind : Option TokenKind) : Bool := kind ≠ some .colon && kind ≠ some .equals

/-- Whether a lexeme stands behind the terms of a row. -/
def endsRow (kind : Option TokenKind) : Bool :=
  kind = some .parenClose || kind = some .pipe || kind = some .semicolon

/-- Whether a lexeme stands behind an expression. -/
def endsExpression (kind : Option TokenKind) : Bool :=
  kind = some .parenClose || kind = some .semicolon

/-- What ends an expression ends its last row and starts no other branch. -/
theorem endsRow_of_endsExpression {kind : Option TokenKind} (h : endsExpression kind = true) :
    endsRow kind = true ∧ kind ≠ some .pipe := by
  rcases kind with _ | kind
  · cases h
  · cases kind <;> first | cases h; done | exact ⟨rfl, by decide⟩

/-- What ends a row ends its last term: it is no quantifier and starts no further term. -/
theorem endsTerm_of_endsRow {kind : Option TokenKind} (h : endsRow kind = true) :
    endsTerm kind = true ∧ kind.any TokenKind.isQuantifier = false ∧
      kind.any TokenKind.startsTerm = false ∧ kind ≠ some .garbage := by
  rcases kind with _ | kind
  · cases h
  · cases kind <;> first | cases h; done | exact ⟨rfl, rfl, rfl, by decide⟩

/-- The next term ends the one before it. -/
theorem endsTerm_of_startsTerm {kind : TokenKind} (h : kind.startsTerm = true) :
    endsTerm (some kind) = true ∧ kind.isQuantifier = false ∧ kind ≠ .pipe := by
  cases kind <;> first | cases h; done | exact ⟨rfl, rfl, by decide⟩

/-- A quantifier ends the operand that it stands behind. -/
theorem endsTerm_of_isQuantifier {kind : TokenKind} (h : kind.isQuantifier = true) :
    endsTerm (some kind) = true := by
  cases kind <;> first | cases h; done | rfl

/-- An operand starts a term. -/
theorem exists_enclosed {r : Rule} (h : isWritable r = true) :
    ∃ l ls, enclosed r (expression r) = l :: ls ∧ l.1.startsTerm = true := by
  rw [enclosed]
  cases r with
  | blank => cases h
  | literal _ | pattern _ _ | reference _ => exact ⟨_, _, rfl, rfl⟩
  | seq _ | choice _ | zeroOrMore _ | oneOrMore _ | field _ _ | token _ | prec _ _ _ =>
    exact ⟨_, _, rfl, rfl⟩

/-- A token that may start a term does so, unless it is a name that `=` makes a rule of. -/
theorem startsTerm_cons {l : Lexeme} {ls : List Lexeme} (hl : l.1.startsTerm = true)
    (hls : endsTerm (headKind ls) = true) : startsTerm (l :: ls) = true := by
  have hequals : headKind ls ≠ some .equals := of_decide_eq_true (Bool.and_eq_true_iff.mp hls).2
  have hhead : headKind (l :: ls) = some l.1 := rfl
  rw [startsTerm, hhead, Option.any_some, hl, List.tail_cons, decide_eq_false hequals]
  simp

/-- What is written for an operand starts a term. -/
theorem startsTerm_enclosed {r : Rule} (h : isWritable r = true) {rest : List Lexeme}
    (hrest : endsTerm (headKind rest) = true) :
    startsTerm (enclosed r (expression r) ++ rest) = true := by
  rw [enclosed]
  cases r with
  | blank => cases h
  | literal _ | pattern _ _ | reference _ => exact startsTerm_cons rfl hrest
  | seq _ | choice _ | zeroOrMore _ | oneOrMore _ | field _ _ | token _ | prec _ _ _ => rfl

theorem isWritable_of_mem {rs : List Rule} (h : areWritable rs = true) {r : Rule} (hr : r ∈ rs) :
    isWritable r = true := by
  induction rs with
  | nil => cases hr
  | cons r' rs ih =>
    obtain ⟨hr', hrs⟩ := Bool.and_eq_true_iff.mp h
    rcases List.mem_cons.mp hr with rfl | hr
    · exact hr'
    · exact ih hrs hr

/-- Behind an operand may stand another. -/
theorem endsTerm_operands {rs : List Rule} (h : areWritable rs = true) {rest : List Lexeme}
    (hrest : endsRow (headKind rest) = true) : endsTerm (headKind (operands rs ++ rest)) = true ∧
      (headKind (operands rs ++ rest)).any TokenKind.isQuantifier = false := by
  cases rs with
  | nil =>
    obtain ⟨hends, hquantifier, -, -⟩ := endsTerm_of_endsRow hrest
    exact ⟨hends, hquantifier⟩
  | cons r rs =>
    obtain ⟨l, ls, hls, hstarts⟩ := exists_enclosed (Bool.and_eq_true_iff.mp h).1
    obtain ⟨hends, hquantifier, -⟩ := endsTerm_of_startsTerm hstarts
    rw [operands, hls]
    exact ⟨hends, hquantifier⟩

/-- Behind a branch may stand another. -/
theorem endsRow_alternatives (rs : List Rule) {rest : List Lexeme}
    (hrest : endsRow (headKind rest) = true) :
    endsRow (headKind (alternatives rs ++ rest)) = true := by
  cases rs with
  | nil => exact hrest
  | cons r rs => rfl

/-- An expression starts a term or is a choice. -/
theorem startsTerm_expression {r : Rule} (h : isWritable r = true) {rest : List Lexeme}
    (hrest : endsRow (headKind rest) = true) :
    startsTerm (expression r ++ rest) = true ∨ headKind (expression r ++ rest) = some .pipe := by
  have hterm := (endsTerm_of_endsRow hrest).1
  cases r with
  | blank => cases h
  | literal _ | pattern _ _ | reference _ => exact .inl (startsTerm_cons rfl hterm)
  | seq members =>
    obtain ⟨hlength, hmembers⟩ := Bool.and_eq_true_iff.mp h
    cases members with
    | nil => cases hlength
    | cons r rs =>
      obtain ⟨hr, hrs⟩ := Bool.and_eq_true_iff.mp hmembers
      rw [expression, operands, List.append_assoc]
      exact .inl (startsTerm_enclosed hr (endsTerm_operands hrs hrest).1)
  | choice members =>
    cases members with
    | nil => cases h
    | cons r rs => exact .inr rfl
  | zeroOrMore content | oneOrMore content =>
    have hcontent : isWritable content = true := h
    rw [expression, List.append_assoc]
    exact .inl (startsTerm_enclosed hcontent rfl)
  | field _ _ | token _ => exact .inl rfl
  | prec assoc _ _ =>
    rcases assoc with _ | _ | _ <;> exact .inl rfl

/-- A term does not start with other tokens. -/
theorem headKind_ne_of_startsTerm {ls : List Lexeme} (h : startsTerm ls = true) {kind : TokenKind}
    (hkind : kind.startsTerm = false) : headKind ls ≠ some kind := by
  intro hhead
  rw [startsTerm, hhead, Option.any_some, hkind] at h
  cases h

namespace Parse

variable {α : Type} {ls rest : List Lexeme} {depth fuel : Nat} {r : Rule} {rs : List Rule}
  {own : List Lexeme} {Q : List Tree → Prop}

/-! ### Terms -/

/-- The step for a term, by the kind of its first token. -/
def termAt (fuel : Nat) : Option TokenKind → Parse Unit
  | some .ident => do
    if ← nextIs .colon then field fuel else node .ref bump
  | some .stringLiteral => node .str bump
  | some .regexLiteral => node .regex bump
  | some .unterminatedString => do
    error .unterminatedString
    node .str bump
  | some .unterminatedRegex => do
    error .unterminatedPattern
    node .regex bump
  | some .parenOpen => group fuel
  | some .kwPrec => prec fuel true
  | some .kwPrecLeft | some .kwPrecRight => prec fuel false
  | some .kwToken => tokenCall fuel
  | _ => do
    errorWith .unexpectedToken "not a valid expression"
    bumpAsError

/-- Within the bound on depth a term is read by the kind of its first token, one level further
down. -/
theorem term_apply {s : ParseState} (h : s.depth < maxDepth) : term (fuel + 1) s =
    (modify fun s => { s with depth := s.depth - 1 } : Parse Unit)
      (termAt fuel (headKind (lexemes s.rest)) { s with depth := s.depth + 1 }).2 := by
  rw [term, bind_apply, get_apply]
  dsimp only
  rw [if_neg (Nat.not_le_of_lt h), bind_apply, modify_apply, bind_apply, current_apply]
  dsimp only
  cases headKind (lexemes s.rest) with
  | none => rfl
  | some kind =>
    cases kind with
    | ident =>
      dsimp only
      rw [termAt, bind_apply, nextIs_apply, bind_apply, nextIs_apply]
      dsimp only
      split <;> rfl
    | _ => rfl

/-- A term is one term deeper than what is around it. -/
theorem reads_term (hdepth : depth < maxDepth)
    (h : Adds (termAt fuel (headKind ls)) ls (depth + 1) () Q rest) :
    Adds (term (fuel + 1)) ls depth () Q rest := by
  intro s hls hs
  obtain ⟨s', ts, hp, hrest, hdepth', hreported, hbuilt, hQ⟩ :=
    h { s with depth := s.depth + 1 } hls (congrArg (· + 1) hs)
  refine ⟨{ s' with depth := s'.depth - 1 }, ts, ?_, hrest, ?_, hreported, hbuilt, hQ⟩
  · rw [term_apply (hs ▸ hdepth), hls, hp, modify_apply]
  · rw [hdepth', Nat.add_sub_cancel]

/-- A string is read as a literal. -/
theorem reads_literal (hdepth : depth < maxDepth) (text : String) :
    Reads (term (fuel + 1)) (.string text :: rest) depth () [.literal text] [] rest :=
  reads_term hdepth (Reads.node _ (fun _ hts => Stands.str hts.2) (reads_bump _))

/-- A pattern between slashes is read as one. -/
theorem reads_pattern (hdepth : depth < maxDepth) {value : String} {flags : Option String}
    (h : isWritablePattern value flags = true) :
    Reads (term (fuel + 1)) (.pattern value flags :: rest) depth () [.pattern value flags] []
      rest :=
  reads_term hdepth (Reads.node _ (fun _ hts => Stands.regex h hts.2) (reads_bump _))

/-- A name without a colon behind it is read as a reference. -/
theorem reads_reference (hdepth : depth < maxDepth) (name : String)
    (hrest : endsTerm (headKind rest) = true) :
    Reads (term (fuel + 1)) (.name name :: rest) depth () [.reference name] [] rest := by
  have hcolon : headKind rest ≠ some .colon := of_decide_eq_true (Bool.and_eq_true_iff.mp hrest).1
  refine reads_term hdepth (Adds.look fun s hls => ⟨false, ?_, ?_⟩)
  · rw [nextIs_apply, hls, List.tail_cons, decide_eq_false hcolon]
  · exact Reads.node _ (fun _ hts => Stands.ref hts.2) (reads_bump _)

/-- A name before a colon is read as a field of what stands behind it. -/
theorem reads_field (hdepth : depth < maxDepth) (name : String)
    (hstarts : startsTerm ls = true)
    (h : Reads (term fuel) ls (depth + 1) () [r] [] rest) :
    Reads (term (fuel + 2)) (.name name :: .colon :: ls) depth () [.field name r] [] rest := by
  refine reads_term hdepth (Adds.look fun s hls => ⟨true, ?_, ?_⟩)
  · rw [nextIs_apply, hls]
    rfl
  refine Reads.node [.name name, .colon] (fun _ hts => Stands.field hts.1 hts.2) ?_
  refine (reads_bump _).bind ((reads_bump _).bind (Adds.look fun s hls => ⟨true, ?_, h⟩))
  rw [atTermStart_apply, hls, hstarts]

/-! ### Expressions in parentheses -/

/-- The parenthesis that is expected is there. -/
theorem reads_expectCloseParen (opener : Span) :
    Reads (expectCloseParen opener) (.parenClose :: rest) depth () [] [.parenClose] rest :=
  (reads_eat rfl).bind (reads_pure ())

/-- An expression is read where one starts. -/
theorem reads_exprOrError (context : String)
    (hstarts : startsTerm ls = true ∨ headKind ls = some .pipe)
    (h : Reads (expr fuel) ls depth () [r] [] rest) :
    Reads (exprOrError (fuel + 1) context) ls depth () [r] [] rest := by
  refine Adds.look fun s hls => ⟨startsTerm ls, by rw [atTermStart_apply, hls], ?_⟩
  refine Adds.look fun s hls => ⟨decide (headKind ls = some .pipe), by rw [isAt_apply, hls], ?_⟩
  refine Adds.look fun s hls => ⟨_, atQuantifier_apply s, ?_⟩
  rw [if_pos]
  · exact h
  · rcases hstarts with hstarts | hpipe
    · rw [hstarts]
      rfl
    · rw [decide_eq_true hpipe, Bool.or_true, Bool.true_or]

variable (hstarts : startsTerm (ls ++ .parenClose :: rest) = true ∨
    headKind (ls ++ .parenClose :: rest) = some .pipe)
  (h : Reads (expr fuel) (ls ++ .parenClose :: rest) (depth + 1) () [r] [] (.parenClose :: rest))

include hstarts h

/-- An expression between parentheses is read up to the closing one. -/
theorem reads_enclosed (context : String) (opener : Span) :
    Reads (do
      exprOrError (fuel + 1) context
      expectCloseParen opener) (ls ++ .parenClose :: rest) (depth + 1) () [r] [.parenClose] rest :=
  (reads_exprOrError context hstarts h).bind (reads_expectCloseParen opener)

/-- Parentheses alone mean what they enclose. -/
theorem reads_group (hdepth : depth < maxDepth) :
    Reads (term (fuel + 3)) (.parenOpen :: (ls ++ .parenClose :: rest)) depth () [r] [] rest := by
  refine reads_term hdepth
    (Reads.node [.parenOpen, .parenClose] (fun _ hts => Stands.group hts.1) (Adds.look fun s _ => ?_))
  exact ⟨_, rfl, (reads_bump _).bind (reads_enclosed hstarts h _ _)⟩

/-- With their keyword before them they make a token. -/
theorem reads_tokenCall (hdepth : depth < maxDepth) :
    Reads (term (fuel + 3)) (.token :: .parenOpen :: (ls ++ .parenClose :: rest)) depth ()
      [.token r] [] rest := by
  refine reads_term hdepth
    (Reads.node [.token, .parenOpen, .parenClose] (fun _ hts => Stands.tokenCall hts.1) ?_)
  refine (reads_bump _).bind (Adds.look fun s hls => ⟨true, ?_, ?_⟩)
  · rw [isAt_apply, hls]
    rfl
  · exact Adds.look fun s _ => ⟨_, rfl, (reads_bump _).bind (reads_enclosed hstarts h _ _)⟩

/-- With a level in them they make a precedence, if the level is in the range that is read. -/
theorem reads_prec (hdepth : depth < maxDepth) (assoc : Option Assoc) {level : Int}
    (hlevel : -2147483648 ≤ level ∧ level ≤ 2147483647) :
    Reads (term (fuel + 3))
      (.precedence assoc :: .parenOpen :: .level level :: .comma :: (ls ++ .parenClose :: rest))
      depth () [.prec assoc level r] [] rest := by
  have hbody (plain : Bool) : Reads (prec (fuel + 2) plain)
      (.precedence assoc :: .parenOpen :: .level level :: .comma :: (ls ++ .parenClose :: rest))
      (depth + 1) () [.prec assoc level r] [] rest := by
    refine Reads.node [.precedence assoc, .parenOpen, .level level, .comma, .parenClose]
      (fun _ hts => Stands.prec hts.1 hlevel hts.2) ?_
    refine (reads_bump _).bind (Adds.look fun s hls => ⟨true, ?_, ?_⟩)
    · rw [isAt_apply, hls]
      rfl
    refine Adds.look fun s _ => ⟨_, rfl, (reads_bump _).bind ((reads_eat rfl).bind ?_)⟩
    exact (reads_eat rfl).bind (reads_enclosed hstarts h _ _)
  rcases assoc with _ | _ | _ <;> exact reads_term hdepth (hbody _)

omit hstarts h

/-! ### Repetitions -/

/-- Without a quantifier ahead the term stays as it is. -/
theorem reads_quantifiers (hrest : (headKind rest).any TokenKind.isQuantifier = false)
    {ts : List Tree} (hts : Tells rs own ts) :
    Reads (quantifiers fuel ts) rest depth () rs own rest := by
  cases fuel with
  | zero => exact Reads.bind (adds_cutOff .nil) (adds_append hts)
  | succ fuel =>
    refine Adds.look fun s hls => ⟨false, ?_, adds_append hts⟩
    rw [atQuantifier_apply, hls, hrest]

/-- A term that nothing repeats. -/
theorem reads_postfixed (h : Reads (term fuel) ls depth () [r] [] rest)
    (hrest : (headKind rest).any TokenKind.isQuantifier = false) :
    Reads (postfixed (fuel + 1)) ls depth () [r] [] rest :=
  reads_flush.bind (h.children fun _ hts => reads_quantifiers hrest hts)

/-- A term and a sign that repeats it. -/
theorem reads_repeated {sign : Lexeme} {repeated : Rule} (hsign : sign.1.isQuantifier = true)
    (hmeans : ∀ ts, Tells [r] [sign] ts → ruleOf? (.node .quantified ts) = pure (some repeated))
    (h : Reads (term (fuel + 1)) ls depth () [r] [] (sign :: rest))
    (hrest : (headKind rest).any TokenKind.isQuantifier = false) :
    Reads (postfixed (fuel + 2)) ls depth () [repeated] [] rest := by
  refine reads_flush.bind (h.children fun ts hts => Adds.look fun s hls => ⟨true, ?_, ?_⟩)
  · rw [atQuantifier_apply, hls]
    exact congrArg (·, s) hsign
  rw [if_pos rfl]
  exact (reads_bump sign).children fun ts' hts' =>
    reads_quantifiers hrest (.node (hmeans _ (hts.append hts')))

/-! ### Rows -/

/-- The terms of a row end where no more stand. -/
theorem reads_noItems (hrest : endsRow (headKind rest) = true) :
    Reads (seqItems fuel) rest depth 0 [] [] rest := by
  obtain ⟨-, hquantifier, hstarts, hgarbage⟩ := endsTerm_of_endsRow hrest
  cases fuel with
  | zero => exact Reads.bind (adds_cutOff .nil) (reads_pure 0)
  | succ fuel =>
    refine Adds.look fun s hls => ⟨false, ?_, Adds.look fun s hls => ⟨false, ?_,
      Adds.look fun s hls => ⟨false, ?_, reads_pure 0⟩⟩⟩
    · rw [atTermStart_apply, hls, startsTerm, hstarts]
      rfl
    · rw [atQuantifier_apply, hls, hquantifier]
    · rw [isAt_apply, hls, decide_eq_false hgarbage]

/-- One more term in a row. -/
theorem reads_item {count : Nat} {mid : List Lexeme} (hstarts : startsTerm ls = true)
    (h : Reads (postfixed fuel) ls depth () [r] [] mid)
    (hs : Reads (seqItems fuel) mid depth count rs [] rest) :
    Reads (seqItems (fuel + 1)) ls depth (count + 1) (r :: rs) [] rest := by
  refine Adds.look fun s hls => ⟨true, by rw [atTermStart_apply, hls, hstarts], ?_⟩
  exact h.bind (hs.answer rfl)

/-- A row of one term. -/
theorem reads_single (hstarts : startsTerm ls = true)
    (h : Reads (postfixed fuel) ls depth () [r] [] rest) (hrest : endsRow (headKind rest) = true) :
    Reads (seq (fuel + 2)) ls depth () [r] [] rest :=
  Reads.unwrapped ((reads_item hstarts h (reads_noItems hrest)).bind (reads_pure none))

/-- A row of no terms, or of several. -/
theorem reads_row {count : Nat} (hcount : count ≠ 1)
    (hmeans : ∀ ts, Stands ts rs → ruleOf? (.node .seq ts) = pure (some r))
    (h : Reads (seqItems fuel) ls depth count rs [] rest) :
    Reads (seq (fuel + 1)) ls depth () [r] [] rest := by
  exact Reads.wrapped (h.answer (if_neg hcount)) fun ts hts => hmeans ts hts.1

/-! ### Choices -/

/-- The branches of a choice end where no bar stands. -/
theorem reads_noBranches (hrest : headKind rest ≠ some .pipe) :
    Reads (branches fuel) rest depth false [] [] rest := by
  cases fuel with
  | zero => exact Reads.bind (adds_cutOff .nil) (reads_pure false)
  | succ fuel => exact Adds.skip hrest (reads_pure false)

/-- One more branch of a choice. -/
theorem reads_branch {more : Bool} {mid : List Lexeme}
    (h : Reads (seq fuel) ls depth () [r] [] mid)
    (hs : Reads (branches fuel) mid depth more rs own rest) :
    Reads (branches (fuel + 1)) (.pipe :: ls) depth true (r :: rs) (.pipe :: own) rest :=
  (reads_eat rfl).bind (h.bind (hs.answer rfl))

/-- A choice, whose first branch stands after a bar too. -/
theorem reads_choice {more : Bool} {mid : List Lexeme}
    (h : Reads (seq fuel) ls depth () [r] [] mid)
    (hs : Reads (branches fuel) mid depth more rs own rest) :
    Reads (expr (fuel + 1)) (.pipe :: ls) depth () [.choice (r :: rs)] [] rest := by
  refine Reads.wrapped ?_ fun ts (hts : Tells _ (.pipe :: own) ts) => Stands.alt hts.1
  exact (reads_eat rfl).bind (h.bind (hs.answer rfl))

/-- A row where a choice could stand. -/
theorem reads_noChoice (h : Reads (seq fuel) ls depth () [r] [] rest)
    (hls : headKind ls ≠ some .pipe) (hrest : headKind rest ≠ some .pipe) :
    Reads (expr (fuel + 1)) ls depth () [r] [] rest :=
  Reads.unwrapped (Adds.skip hls (h.bind ((reads_noBranches hrest).answer rfl)))

/-! ### Rules -/

/-- A rule is read back where it stands as an expression. -/
def ReadsBack (r : Rule) : Prop := ∀ ⦃fuel depth : Nat⦄ ⦃rest : List Lexeme⦄,
  8 * (expression r).length + 4 ≤ fuel → depth + depthOf r ≤ maxDepth →
    endsExpression (headKind rest) = true →
    Reads (expr fuel) (expression r ++ rest) depth () [r] [] rest

/-- An operand is read back as the rule, with or without parentheses around it. -/
theorem reads_operand (hr : isWritable r = true) (h : ReadsBack r)
    (hfuel : 8 * (enclosed r (expression r)).length ≤ fuel)
    (hdepth : depth + enclosedDepth r (depthOf r) ≤ maxDepth)
    (hrest : endsTerm (headKind rest) = true) :
    Reads (term fuel) (enclosed r (expression r) ++ rest) depth () [r] [] rest := by
  cases hatom : isAtom r with
  | true =>
    rw [enclosed, if_pos hatom] at hfuel ⊢
    rw [enclosedDepth, if_pos hatom] at hdepth
    cases r with
    | blank => cases hr
    | literal text =>
      obtain ⟨fuel, rfl⟩ : ∃ n, fuel = n + 1 := ⟨fuel - 1, by simp [expression] at hfuel; omega⟩
      exact reads_literal hdepth text
    | pattern value flags =>
      obtain ⟨fuel, rfl⟩ : ∃ n, fuel = n + 1 := ⟨fuel - 1, by simp [expression] at hfuel; omega⟩
      exact reads_pattern hdepth hr
    | reference name =>
      obtain ⟨fuel, rfl⟩ : ∃ n, fuel = n + 1 := ⟨fuel - 1, by simp [expression] at hfuel; omega⟩
      exact reads_reference hdepth name hrest
    | seq _ | choice _ | zeroOrMore _ | oneOrMore _ | field _ _ | token _ | prec _ _ _ =>
      cases hatom
  | false =>
    rw [enclosed, if_neg (by simp [hatom])] at hfuel ⊢
    rw [enclosedDepth, if_neg (by simp [hatom])] at hdepth
    simp only [List.length_cons, List.length_append, List.length_nil] at hfuel
    obtain ⟨fuel, rfl⟩ : ∃ n, fuel = n + 3 := ⟨fuel - 3, by omega⟩
    rw [List.cons_append, List.append_assoc, List.singleton_append]
    exact reads_group (startsTerm_expression hr rfl)
      (h (by omega) (by omega) rfl) (by omega)

/-- Operands one behind the other are read back as a row of rules. -/
theorem reads_operands (hrs : areWritable rs = true) (h : ∀ r ∈ rs, ReadsBack r)
    (hfuel : 8 * (operands rs).length + 2 ≤ fuel) (hdepth : depth + depthOfAll rs ≤ maxDepth)
    (hrest : endsRow (headKind rest) = true) :
    Reads (seqItems fuel) (operands rs ++ rest) depth rs.length rs [] rest := by
  induction rs generalizing fuel with
  | nil => exact reads_noItems hrest
  | cons r rs ih =>
    obtain ⟨hr, hrs⟩ := Bool.and_eq_true_iff.mp hrs
    obtain ⟨l, ls, hls, -⟩ := exists_enclosed hr
    obtain ⟨hends, hquantifier⟩ := endsTerm_operands hrs hrest
    have hlength : (enclosed r (expression r)).length = ls.length + 1 := by rw [hls]; rfl
    rw [operands, List.length_append] at hfuel
    rw [depthOfAll] at hdepth
    obtain ⟨fuel, rfl⟩ : ∃ n, fuel = n + 2 := ⟨fuel - 2, by omega⟩
    rw [operands, List.append_assoc]
    refine reads_item (startsTerm_enclosed hr hends) (reads_postfixed ?_ hquantifier)
      (ih hrs (fun r hr => h r (.tail _ hr)) (by omega) (by omega))
    exact reads_operand hr (h r (.head _)) (by omega) (by omega) hends

/-- A branch is an operand, or empty. -/
theorem reads_branchOf (hr : (r == .blank || isWritable r) = true)
    (h : isWritable r = true → ReadsBack r)
    (hfuel : 8 * (enclosed r (expression r)).length + 3 ≤ fuel)
    (hdepth : depth + enclosedDepth r (depthOf r) ≤ maxDepth)
    (hrest : endsRow (headKind rest) = true) :
    Reads (seq fuel) (enclosed r (expression r) ++ rest) depth () [r] [] rest := by
  obtain ⟨fuel, rfl⟩ : ∃ n, fuel = n + 3 := ⟨fuel - 3, by omega⟩
  rcases Bool.or_eq_true_iff.mp hr with hblank | hr
  · obtain rfl := eq_blank_of_beq hblank
    exact reads_row (by decide) (fun _ hts => Stands.emptySeq hts) (reads_noItems hrest)
  · obtain ⟨hends, hquantifier, -, -⟩ := endsTerm_of_endsRow hrest
    exact reads_single (startsTerm_enclosed hr hends)
      (reads_postfixed (reads_operand hr (h hr) (by omega) hdepth hends) hquantifier) hrest

/-- Branches are read back with the bars before them. -/
theorem reads_alternatives (hrs : areBranches rs = true)
    (h : ∀ r ∈ rs, isWritable r = true → ReadsBack r)
    (hfuel : 8 * (alternatives rs).length ≤ fuel) (hdepth : depth + depthOfAll rs ≤ maxDepth)
    (hrest : endsExpression (headKind rest) = true) :
    Reads (branches fuel) (alternatives rs ++ rest) depth (!rs.isEmpty) rs
      (rs.map fun _ => .pipe) rest := by
  obtain ⟨hrow, hpipe⟩ := endsRow_of_endsExpression hrest
  induction rs generalizing fuel with
  | nil => exact reads_noBranches hpipe
  | cons r rs ih =>
    obtain ⟨hr, hrs⟩ := Bool.and_eq_true_iff.mp hrs
    rw [alternatives, List.length_cons, List.length_append] at hfuel
    rw [depthOfAll] at hdepth
    obtain ⟨fuel, rfl⟩ : ∃ n, fuel = n + 1 := ⟨fuel - 1, by omega⟩
    rw [alternatives, List.cons_append, List.append_assoc]
    have htail := @ih fuel hrs (fun r hr => h r (.tail _ hr)) (by omega) (by omega)
    exact reads_branch (reads_branchOf hr (h r (.head _)) (by omega) (by omega)
      (endsRow_alternatives rs hrow)) htail

namespace ReadsBack

/-- What is neither a row nor a choice is read back off the term that it is, with what repeats it. -/
theorem of_postfixed
    (h : ∀ ⦃fuel depth : Nat⦄ ⦃rest : List Lexeme⦄, 8 * (expression r).length + 1 ≤ fuel →
      depth + depthOf r ≤ maxDepth → endsRow (headKind rest) = true →
      startsTerm (expression r ++ rest) = true ∧
        Reads (postfixed fuel) (expression r ++ rest) depth () [r] [] rest) : ReadsBack r := by
  intro fuel depth rest hfuel hdepth hrest
  obtain ⟨hrow, hpipe⟩ := endsRow_of_endsExpression hrest
  obtain ⟨fuel, rfl⟩ : ∃ n, fuel = n + 3 := ⟨fuel - 3, by omega⟩
  obtain ⟨hstarts, h⟩ := @h fuel _ _ (by omega) hdepth hrow
  exact reads_noChoice (reads_single hstarts h hrow) (headKind_ne_of_startsTerm hstarts rfl) hpipe

/-- What is written as a term is read back off it. -/
theorem of_term
    (h : ∀ ⦃fuel depth : Nat⦄ ⦃rest : List Lexeme⦄, 8 * (expression r).length ≤ fuel →
      depth + depthOf r ≤ maxDepth → endsTerm (headKind rest) = true →
      startsTerm (expression r ++ rest) = true ∧
        Reads (term fuel) (expression r ++ rest) depth () [r] [] rest) : ReadsBack r := by
  refine of_postfixed fun fuel depth rest hfuel hdepth hrest => ?_
  obtain ⟨hends, hquantifier, -, -⟩ := endsTerm_of_endsRow hrest
  obtain ⟨fuel, rfl⟩ : ∃ n, fuel = n + 1 := ⟨fuel - 1, by omega⟩
  obtain ⟨hstarts, h⟩ := @h fuel _ _ (by omega) hdepth hends
  exact ⟨hstarts, reads_postfixed h hquantifier⟩

/-- Rules that are one term are read back as such. -/
theorem literal (text : String) : ReadsBack (.literal text) := of_term fun fuel depth rest hfuel hdepth hrest => by
  obtain ⟨fuel, rfl⟩ : ∃ n, fuel = n + 1 := ⟨fuel - 1, by simp [expression] at hfuel; omega⟩
  exact ⟨startsTerm_cons rfl hrest, reads_literal hdepth text⟩

theorem pattern {value : String} {flags : Option String} (h : isWritablePattern value flags = true) :
    ReadsBack (.pattern value flags) := of_term fun fuel depth rest hfuel hdepth hrest => by
  obtain ⟨fuel, rfl⟩ : ∃ n, fuel = n + 1 := ⟨fuel - 1, by simp [expression] at hfuel; omega⟩
  exact ⟨startsTerm_cons rfl hrest, reads_pattern hdepth h⟩

theorem reference (name : String) : ReadsBack (.reference name) :=
  of_term fun fuel depth rest hfuel hdepth hrest => by
    obtain ⟨fuel, rfl⟩ : ∃ n, fuel = n + 1 := ⟨fuel - 1, by simp [expression] at hfuel; omega⟩
    exact ⟨startsTerm_cons rfl hrest, reads_reference hdepth name hrest⟩

/-- A sequence is read back as a row, since its members are no sequences without parentheses. -/
theorem seq {members : List Rule} (hlength : 2 ≤ members.length)
    (hmembers : areWritable members = true) (h : ∀ r ∈ members, ReadsBack r) :
    ReadsBack (.seq members) := by
  intro fuel depth rest hfuel hdepth hrest
  obtain ⟨hrow, hpipe⟩ := endsRow_of_endsExpression hrest
  rw [expression] at hfuel ⊢
  change depth + depthOfAll members ≤ maxDepth at hdepth
  obtain ⟨fuel, rfl⟩ : ∃ n, fuel = n + 2 := ⟨fuel - 2, by omega⟩
  refine reads_noChoice (reads_row (by omega) (fun _ hts => Stands.seq hts hlength)
    (reads_operands hmembers h (by omega) hdepth hrow)) ?_ hpipe
  cases members with
  | nil => cases hlength
  | cons r rs =>
    obtain ⟨hr, hrs⟩ := Bool.and_eq_true_iff.mp hmembers
    rw [operands, List.append_assoc]
    exact headKind_ne_of_startsTerm (startsTerm_enclosed hr (endsTerm_operands hrs hrow).1) rfl

/-- A choice is read back with its first branch and those behind it. -/
theorem choice {r : Rule} {rs : List Rule} (hmembers : areBranches (r :: rs) = true)
    (h : ∀ r' ∈ r :: rs, isWritable r' = true → ReadsBack r') :
    ReadsBack (.choice (r :: rs)) := by
  intro fuel depth rest hfuel hdepth hrest
  obtain ⟨hr, hrs⟩ := Bool.and_eq_true_iff.mp hmembers
  rw [expression, alternatives, List.length_cons, List.length_append] at hfuel
  change depth + max (enclosedDepth r (depthOf r)) (depthOfAll rs) ≤ maxDepth at hdepth
  obtain ⟨fuel, rfl⟩ : ∃ n, fuel = n + 1 := ⟨fuel - 1, by omega⟩
  rw [expression, alternatives, List.cons_append, List.append_assoc]
  refine reads_choice (reads_branchOf hr (h r (.head _)) (by omega) (by omega)
      (endsRow_alternatives rs (endsRow_of_endsExpression hrest).1))
    (reads_alternatives hrs (fun r' hr' => h r' (.tail _ hr')) (by omega) (by omega) hrest)

/-- Repetitions are read back from the quantifier behind the operand. -/
theorem quantified {content repeated : Rule} {sign : Lexeme} (hcontent : isWritable content = true)
    (h : ReadsBack content) (hsign : sign.1.isQuantifier = true)
    (hmeans : ∀ ts, Tells [content] [sign] ts →
      ruleOf? (.node .quantified ts) = pure (some repeated))
    (hwritten : expression repeated = enclosed content (expression content) ++ [sign])
    (hdeep : depthOf repeated = enclosedDepth content (depthOf content)) : ReadsBack repeated :=
  of_postfixed fun fuel depth rest hfuel hdepth hrest => by
    rw [hwritten, List.length_append, List.length_singleton] at hfuel
    rw [hdeep] at hdepth
    obtain ⟨fuel, rfl⟩ : ∃ n, fuel = n + 2 := ⟨fuel - 2, by omega⟩
    rw [hwritten, List.append_assoc]
    have hends : endsTerm (headKind ([sign] ++ rest)) = true := endsTerm_of_isQuantifier hsign
    exact ⟨startsTerm_enclosed hcontent hends,
      reads_repeated hsign hmeans (reads_operand hcontent h (by omega) hdepth hends)
        (endsTerm_of_endsRow hrest).2.1⟩

theorem zeroOrMore {content : Rule} (hcontent : isWritable content = true)
    (h : ReadsBack content) : ReadsBack (.zeroOrMore content) :=
  quantified hcontent h rfl (fun _ hts => Stands.star hts.1 hts.2) (by rw [expression]) rfl

theorem oneOrMore {content : Rule} (hcontent : isWritable content = true)
    (h : ReadsBack content) : ReadsBack (.oneOrMore content) :=
  quantified hcontent h rfl (fun _ hts => Stands.plus hts.1 hts.2) (by rw [expression]) rfl

/-- Fields, tokens and precedences enclose what they are made of. -/
theorem field (name : String) {content : Rule} (hcontent : isWritable content = true)
    (h : ReadsBack content) : ReadsBack (.field name content) :=
  of_term fun fuel depth rest hfuel hdepth hrest => by
    rw [expression, List.length_cons, List.length_cons] at hfuel
    change depth + (enclosedDepth content (depthOf content) + 1) ≤ maxDepth at hdepth
    obtain ⟨fuel, rfl⟩ : ∃ n, fuel = n + 2 := ⟨fuel - 2, by omega⟩
    rw [expression, List.cons_append, List.cons_append]
    exact ⟨rfl, reads_field (by omega) name (startsTerm_enclosed hcontent hrest)
      (reads_operand hcontent h (by omega) (by omega) hrest)⟩

theorem token {content : Rule} (hcontent : isWritable content = true) (h : ReadsBack content) :
    ReadsBack (.token content) :=
  of_term fun fuel depth rest hfuel hdepth hrest => by
    rw [expression, List.length_cons, List.length_cons, List.length_append,
      List.length_singleton] at hfuel
    change depth + (depthOf content + 1) ≤ maxDepth at hdepth
    obtain ⟨fuel, rfl⟩ : ∃ n, fuel = n + 3 := ⟨fuel - 3, by omega⟩
    rw [expression, List.cons_append, List.cons_append, List.append_assoc]
    exact ⟨rfl, reads_tokenCall (startsTerm_expression hcontent rfl)
      (h (by omega) (by omega) rfl) (by omega)⟩

theorem prec (assoc : Option Assoc) {level : Int}
    (hlevel : -2147483648 ≤ level ∧ level ≤ 2147483647) {content : Rule}
    (hcontent : isWritable content = true) (h : ReadsBack content) :
    ReadsBack (.prec assoc level content) :=
  of_term fun fuel depth rest hfuel hdepth hrest => by
    have hstarts : startsTerm (expression (.prec assoc level content) ++ rest) = true := by
      rcases assoc with _ | _ | _ <;> rfl
    refine ⟨hstarts, ?_⟩
    simp only [expression, List.length_cons, List.length_append] at hfuel
    change depth + (depthOf content + 1) ≤ maxDepth at hdepth
    obtain ⟨fuel, rfl⟩ : ∃ n, fuel = n + 3 := ⟨fuel - 3, by omega⟩
    rw [expression, List.cons_append, List.cons_append, List.cons_append, List.cons_append,
      List.append_assoc]
    exact reads_prec (startsTerm_expression hcontent rfl) (h (by omega) (by omega) rfl)
      (by omega) assoc hlevel

end ReadsBack

mutual

/-- **Reading back.** The parser reads a rule back off the expression that it is written as. -/
theorem readsBack (r : Rule) (hr : isWritable r = true) : ReadsBack r := by
  cases r with
  | blank => cases hr
  | literal text => exact .literal text
  | pattern value flags => exact .pattern hr
  | reference name => exact .reference name
  | seq members =>
    obtain ⟨hlength, hmembers⟩ := Bool.and_eq_true_iff.mp hr
    exact .seq (of_decide_eq_true hlength) hmembers fun r hmem =>
      readsBack_all members r hmem (isWritable_of_mem hmembers hmem)
  | choice members =>
    obtain ⟨hlength, hmembers⟩ := Bool.and_eq_true_iff.mp hr
    have hall := readsBack_all members
    cases members with
    | nil => cases hlength
    | cons r rs => exact .choice hmembers hall
  | zeroOrMore content => exact .zeroOrMore hr (readsBack content hr)
  | oneOrMore content => exact .oneOrMore hr (readsBack content hr)
  | field name content =>
    have hcontent := (Bool.and_eq_true_iff.mp hr).2
    exact .field name hcontent (readsBack content hcontent)
  | token content => exact .token hr (readsBack content hr)
  | prec assoc level content =>
    obtain ⟨hlevel, hcontent⟩ := Bool.and_eq_true_iff.mp hr
    obtain ⟨hlow, hhigh⟩ := Bool.and_eq_true_iff.mp hlevel
    exact .prec assoc ⟨of_decide_eq_true hlow, of_decide_eq_true hhigh⟩ hcontent
      (readsBack content hcontent)

/-- All rules that can be written are read back, by induction on the rule. -/
theorem readsBack_all (rs : List Rule) : ∀ r ∈ rs, isWritable r = true → ReadsBack r := by
  intro r hmem hr
  cases rs with
  | nil => cases hmem
  | cons r' rs =>
    rcases List.mem_cons.mp hmem with rfl | hmem
    · exact readsBack r hr
    · exact readsBack_all rs r hmem hr

end

end Parse

end LRWorkbench.GrammarText
