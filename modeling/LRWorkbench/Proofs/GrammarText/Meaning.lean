import LRWorkbench.Proofs.GrammarText.Lexing
import Mathlib.Data.List.Basic

/-!
# Trees of written rules

`Stands children rules` says that the expressions among some trees stand for rules, whatever blanks
and comments are between them. What a node stands for follows from what its children stand for and
from the lexemes right below it: `Stands.group`, `Stands.field` and so on are one lemma for each kind
of node.
-/

namespace LRWorkbench.GrammarText

/-- The tokens right below a node that mean something. -/
def lexemesOf (children : List Tree) : List Lexeme := lexemes (Tree.tokens children)

/-- Whether the expressions among some trees stand for rules, without anything to report. -/
inductive Stands : List Tree → List Rule → Prop where
  | nil : Stands [] []
  | leaf {t : Token} {ts : List Tree} {rs : List Rule} (rest : Stands ts rs) :
      Stands (.leaf t :: ts) rs
  | node {kind : NodeKind} {children ts : List Tree} {r : Rule} {rs : List Rule}
      (means : ruleOf? (.node kind children) = pure (some r)) (rest : Stands ts rs) :
      Stands (.node kind children :: ts) (r :: rs)

/-- Lexemes of tokens side by side. -/
theorem lexemes_append (ts ts' : List Token) : lexemes (ts ++ ts') = lexemes ts ++ lexemes ts' := by
  simp [lexemes]

theorem tokens_append (ts ts' : List Tree) :
    Tree.tokens (ts ++ ts') = Tree.tokens ts ++ Tree.tokens ts' := by
  induction ts with
  | nil => rfl
  | cons t ts ih =>
    cases t with
    | leaf token => exact congrArg (token :: ·) ih
    | node kind children => exact ih

theorem lexemesOf_append (ts ts' : List Tree) :
    lexemesOf (ts ++ ts') = lexemesOf ts ++ lexemesOf ts' := by
  rw [lexemesOf, tokens_append, lexemes_append]
  rfl

/-- A search among tokens that passes over blanks and comments depends on the lexemes only. -/
theorem find?_tokens {p : TokenKind → Bool} (hp : ∀ kind, kind.isTrivia = true → p kind = false)
    (ts : List Token) : (ts.find? fun t => p t.kind).map (fun t => (t.kind, t.text)) =
      (lexemes ts).find? fun l => p l.1 := by
  induction ts with
  | nil => rfl
  | cons t ts ih =>
    cases htrivia : t.kind.isTrivia with
    | true =>
      rw [List.find?_cons_of_neg (by simp [hp _ htrivia]), ih, lexemes, lexemes,
        List.filter_cons_of_neg (by simp [htrivia])]
    | false =>
      rw [lexemes, List.filter_cons_of_pos (by simp [htrivia]), List.map_cons, ← lexemes]
      rw [List.find?_cons, List.find?_cons]
      cases hfound : p t.kind with
      | true => rfl
      | false => exact ih

/-- The token that is found right below a node. -/
theorem exists_find? (p : TokenKind → Bool) (hp : ∀ kind, kind.isTrivia = true → p kind = false)
    {children : List Tree} {l : Lexeme} (h : (lexemesOf children).find? (fun l => p l.1) = some l) :
    ∃ t, (Tree.tokens children).find? (fun t => p t.kind) = some t ∧ t.kind = l.1 ∧ t.text = l.2 := by
  rw [lexemesOf, ← find?_tokens hp] at h
  obtain ⟨t, ht, rfl⟩ := Option.map_eq_some_iff.mp h
  exact ⟨t, ht, rfl, rfl⟩

/-! ### Literals -/

/-- A character that is no backslash stands for itself. -/
theorem unescapeFrom_of_plain {c : Char} (h : c ≠ '\\') (fuel offset : Nat) (cs : List Char) :
    unescapeFrom (fuel + 1) offset (c :: cs) =
      (unescapeFrom fuel (offset + c.utf8Size) cs).map (c :: ·) := by
  rw [unescapeFrom]
  exact fun heq => h heq

/-- A backslash makes another character of the one behind it. -/
theorem unescapeFrom_of_pair {c d : Char} (hu : d ≠ 'u') (h : escaped? d = some c)
    (fuel offset : Nat) (cs : List Char) : unescapeFrom (fuel + 1) offset ('\\' :: d :: cs) =
      (unescapeFrom fuel (offset + 2) cs).map (c :: ·) := by
  rw [unescapeFrom]
  · rw [h]
  · exact hu

/-- What is written for a string is resolved to the string, as long as there is fuel for its
characters. -/
theorem unescapeFrom_escapeString (cs : List Char) {fuel : Nat}
    (hfuel : (escapeString cs).length ≤ fuel) (offset : Nat) :
    unescapeFrom fuel offset (escapeString cs) = .ok cs := by
  induction cs generalizing fuel offset with
  | nil => cases fuel <;> rfl
  | cons c cs ih =>
    rw [escapeString_cons] at hfuel ⊢
    rcases escapeChar_cases c with ⟨heq, -, hback, -⟩ | ⟨d, heq, -, hu, hescaped⟩
    · rw [heq, List.singleton_append, List.length_cons] at hfuel
      obtain ⟨fuel, rfl⟩ : ∃ rest, fuel = rest + 1 := ⟨fuel - 1, by omega⟩
      rw [heq, List.singleton_append, unescapeFrom_of_plain hback, ih (by omega)]
      rfl
    · rw [heq, List.cons_append, List.singleton_append, List.length_cons, List.length_cons] at hfuel
      obtain ⟨fuel, rfl⟩ : ∃ rest, fuel = rest + 1 := ⟨fuel - 1, by omega⟩
      rw [heq, List.cons_append, List.singleton_append, unescapeFrom_of_pair hu hescaped,
        ih (by omega)]
      rfl

/-- What is whole stops nothing. -/
theorem breakUnless_true : breakUnless true = pure () := by
  funext s
  have hwhole : { s with isBroken := s.isBroken || !true } = s := by
    rw [Bool.not_true, Bool.or_false]
  exact congrArg (fun s => (pure ((), s) : Id (Unit × _))) hwhole

/-- The token of a written string stands for the literal. -/
theorem literalOf_eq {t : Token} {text : String} (hkind : t.kind = (Lexeme.string text).1)
    (htext : t.text = (Lexeme.string text).2) : literalOf t = pure (.literal text) := by
  have hkind : t.kind = .stringLiteral := hkind
  have hbody : t.text.tail.dropLast = escapeString text.toList := by
    rw [htext]
    exact List.dropLast_concat
  have hquotes : hasQuotes t = true := by
    have hclosing : '"'.utf8Size = 1 := rfl
    rw [hasQuotes, htext]
    simp [Lexeme.string, hclosing]
  have hread : unescape t.text.tail.dropLast = .ok text.toList := by
    rw [hbody, unescape, unescapeFrom_escapeString _ (Nat.le_refl _)]
  rw [literalOf, hquotes, breakUnless_true, pure_bind, if_pos hkind]
  dsimp only
  rw [hread]
  dsimp only
  rw [String.ofList_toList]

theorem plainSlashes_of_plain {c : Char} {cs : List Char} (h : c = '\\' → cs.head? ≠ some '/') :
    plainSlashes (c :: cs) = c :: plainSlashes cs := by
  rw [plainSlashes]
  rintro ds rfl rfl
  exact h rfl rfl

/-- The slashes of a pattern that were escaped are plain again. -/
theorem plainSlashes_escapeSlashes (cs : List Char) : plainSlashes (escapeSlashes cs) = cs := by
  induction cs with
  | nil => rfl
  | cons c cs ih =>
    rw [escapeSlashes_cons]
    split
    · rename_i hslash
      rw [List.cons_append, List.singleton_append, plainSlashes, ih, hslash]
    · rw [List.singleton_append, plainSlashes_of_plain, ih]
      -- a slash never comes first
      intro _
      cases cs with
      | nil => simp [escapeSlashes]
      | cons d ds =>
        rw [escapeSlashes_cons]
        split
        · simp
        · rename_i hd
          simpa using hd

/-- Flags are what follows the last slash, since there are no slashes among them. -/
theorem splitAtLastSlash_append (body : List Char) {flags : List Char}
    (h : flags.all isLowerCase = true) : splitAtLastSlash (body ++ '/' :: flags) = (body, flags) := by
  have hspan : Text.spanChars (fun c => decide (c ≠ '/')) (flags.reverse ++ '/' :: body.reverse) =
      (flags.reverse, '/' :: body.reverse) := by
    refine spanChars_of_all (List.all_eq_true.mpr fun c hc => ?_) rfl _
    have hlower := List.all_eq_true.mp h c (List.mem_reverse.mp hc)
    refine decide_eq_true ?_
    rintro rfl
    cases hlower
  have hreverse : (body ++ '/' :: flags).reverse = flags.reverse ++ '/' :: body.reverse := by
    simp
  rw [splitAtLastSlash, hreverse, hspan]
  simp

/-- The token of a written pattern has its value and its flags. -/
theorem patternParts_eq {value : String} {flags : Option String}
    (h : isWritablePattern value flags = true) :
    patternParts true (escapeSlashes value.toList ++ '/' :: (flags.getD "").toList) =
      (value, flags) := by
  rw [isWritablePattern, Bool.and_eq_true_iff] at h
  cases flags with
  | none =>
    rw [patternParts, if_pos rfl]
    have hsplit := splitAtLastSlash_append (escapeSlashes value.toList)
      (show ((none : Option String).getD "").toList.all isLowerCase = true from rfl)
    rw [hsplit]
    dsimp only
    rw [plainSlashes_escapeSlashes, String.ofList_toList]
    rfl
  | some flags =>
    obtain ⟨hne, hflags⟩ := Bool.and_eq_true_iff.mp h.2
    rw [patternParts, if_pos rfl, Option.getD_some,
      splitAtLastSlash_append (escapeSlashes value.toList) hflags]
    dsimp only
    rw [plainSlashes_escapeSlashes, String.ofList_toList, if_neg, String.ofList_toList]
    rw [List.isEmpty_iff, String.toList_eq_nil_iff]
    exact of_decide_eq_true hne

/-- The digits of a number are read as the number. -/
theorem foldl_toDigits (n : Nat) :
    (Nat.toDigits 10 n).foldl (fun n d => 10 * n + (d.toNat - 48)) 0 = n :=
  Nat.ofDigitChars_toDigits (by decide) (by decide)

/-- A number is read back from its digits. -/
theorem decimal?_toDigits (n : Nat) : decimal? (Nat.toDigits 10 n) = some n := by
  rw [decimal?, if_neg, foldl_toDigits]
  rw [List.isEmpty_iff]
  exact Nat.toDigits_ne_nil

/-- So is one with a sign. -/
theorem integer?_digitsOf (level : Int) : integer? (digitsOf level) = some level := by
  cases level with
  | ofNat n =>
    have hdecimal := decimal?_toDigits n
    obtain ⟨c, cs, hdigits, hc, -⟩ := exists_toDigits n
    have hminus : c ≠ '-' := by
      rintro rfl
      cases hc
    rw [digitsOf]
    rw [hdigits] at hdecimal ⊢
    rw [integer?, hdecimal]
    · rfl
    · rintro digits heq
      exact absurd (List.cons.inj heq).1 hminus
  | negSucc n =>
    rw [digitsOf, integer?, decimal?_toDigits]
    rfl

/-- The level of a precedence is read back if it is in range. -/
theorem levelOf_eq {t : Token} {level : Int} (hlevel : -2147483648 ≤ level ∧ level ≤ 2147483647)
    (htext : t.text = (Lexeme.level level).2) : levelOf (some t) = pure level := by
  have htext : t.text = digitsOf level := htext
  rw [levelOf, htext, integer?_digitsOf, Option.filter_some, if_pos (decide_eq_true hlevel)]

namespace Stands

variable {children : List Tree} {r : Rule} {rs : List Rule}

/-- Trees side by side stand for the rules of both. -/
theorem append {ts ts' : List Tree} {rs' : List Rule} (h : Stands ts rs) (h' : Stands ts' rs') :
    Stands (ts ++ ts') (rs ++ rs') := by
  induction h with
  | nil => exact h'
  | leaf _ ih => exact .leaf ih
  | node means _ ih => exact .node means ih

mutual

/-- All rules that some trees stand for are found in them, in order. -/
theorem rulesOf_eq {ts : List Tree} {rules : List Rule} (h : Stands ts rules) :
    rulesOf ts = pure rules := by
  induction h with
  | nil => rfl
  | leaf _ ih =>
    rw [rulesOf, ruleOf?, pure_bind]
    exact ih
  | node means _ ih =>
    rw [rulesOf, means, pure_bind]
    dsimp only
    rw [ih, pure_bind]

/-- So is the first of them. -/
theorem firstRule_eq {ts : List Tree} {first : Rule} {rules : List Rule}
    (h : Stands ts (first :: rules)) : firstRule ts = pure first := by
  generalize hall : first :: rules = all at h
  induction h with
  | nil => cases hall
  | leaf _ ih =>
    rw [firstRule, ruleOf?, pure_bind]
    exact ih hall
  | node means _ _ =>
    obtain ⟨rfl, -⟩ := List.cons.inj hall
    rw [firstRule, means, pure_bind]

end

/-- A choice is of what its children stand for. -/
theorem alt (h : Stands children rs) : ruleOf? (.node .alt children) = pure (some (.choice rs)) := by
  rw [ruleOf?, h.rulesOf_eq, pure_bind]

/-- So is a sequence of two or more. -/
theorem seq (h : Stands children rs) (hlength : 2 ≤ rs.length) :
    ruleOf? (.node .seq children) = pure (some (.seq rs)) := by
  rw [ruleOf?, h.rulesOf_eq, pure_bind]
  rcases rs with _ | ⟨_, _ | _⟩
  · cases hlength
  · exact absurd hlength (Nat.not_succ_le_self 1)
  · rfl

/-- A sequence of none is blank. -/
theorem emptySeq (h : Stands children []) :
    ruleOf? (.node .seq children) = pure (some .blank) := by
  rw [ruleOf?, h.rulesOf_eq, pure_bind]

/-- No sign that repeats is a blank. -/
theorem isQuantifier_of_isTrivia {kind : TokenKind} (h : kind.isTrivia = true) :
    kind.isQuantifier = false := by
  cases kind <;> first | rfl | cases h

/-- A quantifier makes a repetition of its operand. -/
theorem star (h : Stands children [r]) (hown : lexemesOf children = [.star]) :
    ruleOf? (.node .quantified children) = pure (some (.zeroOrMore r)) := by
  obtain ⟨t, ht, hkind, -⟩ := exists_find? TokenKind.isQuantifier
    (fun _ => isQuantifier_of_isTrivia) (by rw [hown]; rfl)
  have hkind : t.kind = .star := hkind
  rw [ruleOf?, h.firstRule_eq, pure_bind, ht]
  dsimp only
  rw [if_pos hkind]

theorem plus (h : Stands children [r]) (hown : lexemesOf children = [.plus]) :
    ruleOf? (.node .quantified children) = pure (some (.oneOrMore r)) := by
  obtain ⟨t, ht, hkind, -⟩ := exists_find? TokenKind.isQuantifier
    (fun _ => isQuantifier_of_isTrivia) (by rw [hown]; rfl)
  have hkind : t.kind = .plus := hkind
  rw [ruleOf?, h.firstRule_eq, pure_bind, ht]
  dsimp only
  rw [hkind]
  rfl

/-- A group stands for what is in its parentheses. -/
theorem group (h : Stands children [r]) : ruleOf? (.node .group children) = pure (some r) := by
  rw [ruleOf?, h.firstRule_eq, pure_bind]

theorem tokenCall (h : Stands children [r]) :
    ruleOf? (.node .tokenCall children) = pure (some (.token r)) := by
  rw [ruleOf?, h.firstRule_eq, pure_bind]

/-- The name that stands first right below a node. -/
theorem nameOf?_eq {name : String} {rest : List Lexeme}
    (hown : lexemesOf children = .name name :: rest) : nameOf? children = some name := by
  obtain ⟨t, ht, -, htext⟩ := exists_find? (fun kind => decide (kind = .ident))
    (fun kind h => by cases kind <;> first | rfl | cases h) (by rw [hown]; rfl)
  have htext : t.text = name.toList := htext
  rw [nameOf?, Tree.token?, ht, Option.map_some, htext, String.ofList_toList]

/-- A field has the name before the colon. -/
theorem field {name : String} (h : Stands children [r])
    (hown : lexemesOf children = [.name name, .colon]) :
    ruleOf? (.node .field children) = pure (some (.field name r)) := by
  rw [ruleOf?, h.firstRule_eq, pure_bind, nameOf?_eq hown]

/-- Nodes of one token stand for what the token means. -/
theorem ref {name : String} (hown : lexemesOf children = [.name name]) :
    ruleOf? (.node .ref children) = pure (some (.reference name)) := by
  rw [ruleOf?, nameOf?_eq hown]

theorem str {text : String} (hown : lexemesOf children = [.string text]) :
    ruleOf? (.node .str children) = pure (some (.literal text)) := by
  obtain ⟨t, ht, hkind, htext⟩ := exists_find?
    (fun kind => decide (kind = .stringLiteral ∨ kind = .unterminatedString))
    (fun kind h => by cases kind <;> first | rfl | cases h) (by rw [hown]; rfl)
  rw [ruleOf?, ht]
  dsimp only
  rw [literalOf_eq hkind htext, pure_bind]

theorem regex {value : String} {flags : Option String} (h : isWritablePattern value flags = true)
    (hown : lexemesOf children = [.pattern value flags]) :
    ruleOf? (.node .regex children) = pure (some (.pattern value flags)) := by
  obtain ⟨t, ht, hkind, htext⟩ := exists_find?
    (fun kind => decide (kind = .regexLiteral ∨ kind = .unterminatedRegex))
    (fun kind h => by cases kind <;> first | rfl | cases h) (by rw [hown]; rfl)
  have hterminated : decide (t.kind = .regexLiteral) = true := decide_eq_true hkind
  have htail : t.text.tail = escapeSlashes value.toList ++ '/' :: (flags.getD "").toList := by
    rw [htext, Lexeme.pattern, List.tail_cons]
  have hwhole : t.text.isEmpty = false := by rw [htext, Lexeme.pattern, List.isEmpty_cons]
  rw [ruleOf?, ht]
  dsimp only
  rw [hterminated, htail, patternParts_eq h, hwhole, Bool.not_false, breakUnless_true, pure_bind]

/-- A precedence has the associativity of its keyword and the level behind it. -/
theorem prec {assoc : Option Assoc} {level : Int} (h : Stands children [r])
    (hlevel : -2147483648 ≤ level ∧ level ≤ 2147483647)
    (hown : lexemesOf children =
      [.precedence assoc, .parenOpen, .level level, .comma, .parenClose]) :
    ruleOf? (.node .prec children) = pure (some (.prec assoc level r)) := by
  have hfirst : (Lexeme.precedence assoc).1 ≠ .integer := by
    rcases assoc with _ | _ | _ <;> decide
  obtain ⟨t, ht, -, htext⟩ := exists_find? (fun kind => decide (kind = .integer))
    (fun kind h => by cases kind <;> first | rfl | cases h)
    (show (lexemesOf children).find? (fun l => decide (l.1 = .integer)) = some (.level level) by
      rw [hown, List.find?_cons_of_neg (by simpa using hfirst)]
      rfl)
  obtain ⟨t', ht', hkind, -⟩ := exists_find?
    (fun kind => decide (kind = .kwPrec ∨ kind = .kwPrecLeft ∨ kind = .kwPrecRight))
    (fun kind h => by cases kind <;> first | rfl | cases h)
    (show (lexemesOf children).find? (fun l => decide (l.1 = .kwPrec ∨ l.1 = .kwPrecLeft ∨
        l.1 = .kwPrecRight)) = some (.precedence assoc) by
      rw [hown]
      rcases assoc with _ | _ | _ <;> rfl)
  rw [ruleOf?, Tree.token?, ht, levelOf_eq hlevel htext, pure_bind, h.firstRule_eq, pure_bind, ht']
  dsimp only
  rw [hkind]
  rcases assoc with _ | _ | _ <;> rfl

end Stands

end LRWorkbench.GrammarText
