import LRWorkbench.Proofs.GrammarText.Printing
import LRWorkbench.Proofs.GrammarText.Spelling
import Mathlib.Data.List.Basic

/-!
# Cutting grammar texts into tokens

The lexer cuts a written grammar into its lexemes (`lexemes_lex_text`): each of them is the longest
token at its place, since a blank stands behind it (`Lexeme.IsToken`).
-/

namespace LRWorkbench.GrammarText

open Text

/-- Whether a character stands behind lexemes. -/
def IsBlank (c : Char) : Prop := c = ' ' ∨ c = '\n'

/-- Whether a lexeme is cut off a text when a blank stands behind it. -/
structure Lexeme.IsToken (l : Lexeme) : Prop where
  lexeme : ∀ c rest, IsBlank c → lexeme? (l.2 ++ c :: rest) = some (l.1, l.2, c :: rest)
  means : l.1.isTrivia = false
  begins : ∃ c cs, l.2 = c :: cs ∧ c ≠ ' ' ∧ c ≠ '\t'

/-! ### Spans -/

/-- Characters of a sort are taken up to the first one that is not. -/
theorem spanChars_of_all {p : Char → Bool} {cs : List Char} (h : cs.all p = true) {c : Char}
    (hc : p c = false) (rest : List Char) : spanChars p (cs ++ c :: rest) = (cs, c :: rest) := by
  induction cs with
  | nil =>
    rw [List.nil_append, spanChars, if_neg (Bool.eq_false_iff.mp hc)]
  | cons d cs ih =>
    obtain ⟨hd, hcs⟩ := Bool.and_eq_true_iff.mp (List.all_cons.symm.trans h)
    rw [List.cons_append, spanChars, if_pos hd, ih hcs]

/-- Blanks end a name. -/
theorem isNameChar_of_isBlank {c : Char} (h : IsBlank c) : isNameChar c = false := by
  rcases h with rfl | rfl <;> rfl

/-- Blanks end a number. -/
theorem isDigit_of_isBlank {c : Char} (h : IsBlank c) : isDigit c = false := by
  rcases h with rfl | rfl <;> rfl

/-- Blanks end the flags of a pattern. -/
theorem isLowerCase_of_isBlank {c : Char} (h : IsBlank c) : isLowerCase c = false := by
  rcases h with rfl | rfl <;> rfl

/-! ### Signs, names and numbers -/

/-- A sign is a token of one character. -/
theorem isToken_sign {c : Char} {kind : TokenKind} (h : sign? c = some kind)
    (hmeans : kind.isTrivia = false) (hblank : c ≠ ' ' ∧ c ≠ '\t') :
    Lexeme.IsToken (kind, [c]) where
  lexeme := by
    intro d rest _
    rw [List.singleton_append]
    unfold lexeme?
    dsimp only
    rw [h]
  means := hmeans
  begins := ⟨c, [], rfl, hblank⟩

/-- The signs. -/
def signs : List Char := ['(', ')', '[', ']', ',', ':', ';', '=', '|', '*', '+', '?', '\n']

/-- A character of a class without signs is no sign. -/
theorem sign?_eq_none {p : Char → Bool} (hp : (signs.all fun d => !p d) = true) {c : Char}
    (hc : p c = true) : sign? c = none := by
  have hne : ∀ d ∈ signs, c ≠ d := by
    rintro d hd rfl
    have hnot := List.all_eq_true.mp hp c hd
    rw [hc] at hnot
    cases hnot
  simp only [signs, List.mem_cons, List.not_mem_nil, or_false, forall_eq_or_imp, forall_eq] at hne
  simp [sign?, hne]

/-- A name is a token that is no keyword. -/
theorem isToken_name {name : String} (h : isName name = true) : (Lexeme.name name).IsToken := by
  rw [isName, Bool.and_eq_true_iff, Bool.and_eq_true_iff] at h
  obtain ⟨⟨hchars, hprec⟩, htoken⟩ := h
  have hprec : name.toList ≠ "prec".toList := fun heq =>
    of_decide_eq_true hprec (String.toList_inj.mp heq)
  have htoken : name.toList ≠ "token".toList := fun heq =>
    of_decide_eq_true htoken (String.toList_inj.mp heq)
  cases hname : name.toList with
  | nil =>
    rw [hname] at hchars
    cases hchars
  | cons c cs =>
    rw [hname] at hchars hprec htoken
    obtain ⟨hc, hcs⟩ := Bool.and_eq_true_iff.mp hchars
    have hall : (c :: cs).all isNameChar = true := by
      rw [List.all_cons, hcs, Bool.and_true, isNameChar]
      exact decide_eq_true (.inl hc)
    refine ⟨fun d rest hd => ?_, rfl, c, cs, hname, ?_⟩
    · have hword : lexWord (c :: cs ++ d :: rest) = (.ident, c :: cs, d :: rest) := by
        rw [lexWord, spanChars_of_all hall (isNameChar_of_isBlank hd)]
        dsimp only
        rw [if_neg hprec, if_neg htoken]
      rw [Lexeme.name, hname]
      unfold lexeme?
      dsimp only [List.cons_append]
      rw [sign?_eq_none (by decide) hc]
      dsimp only
      rw [if_pos hc, ← List.cons_append, hword]
    · constructor
      · rintro rfl
        cases hc
      · rintro rfl
        cases hc

/-- The keywords for precedences differ in what stands behind their dot. -/
theorem isToken_precedence (assoc : Option Assoc) : (Lexeme.precedence assoc).IsToken := by
  refine ⟨fun c rest hc => ?_, ?_, ?_⟩
  · rcases assoc with _ | _ | _ <;> rcases hc with rfl | rfl <;> rfl
  · rcases assoc with _ | _ | _ <;> rfl
  · rcases assoc with _ | _ | _ <;> exact ⟨_, _, rfl, by decide, by decide⟩

theorem isToken_token : Lexeme.token.IsToken where
  lexeme := by
    rintro c rest (rfl | rfl) <;> rfl
  means := rfl
  begins := ⟨_, _, rfl, by decide, by decide⟩

theorem all_toDigits (n : Nat) : (Nat.toDigits 10 n).all isDigit = true := by
  refine List.all_eq_true.mpr fun c hc => ?_
  have hdigit := Nat.isDigit_of_mem_toDigits (by decide) (by decide) hc
  rw [Char.isDigit, Bool.and_eq_true_iff] at hdigit
  exact decide_eq_true ⟨of_decide_eq_true hdigit.1, of_decide_eq_true hdigit.2⟩

/-- A number starts with a digit and has nothing but digits in it. -/
theorem exists_toDigits (n : Nat) : ∃ c cs, Nat.toDigits 10 n = c :: cs ∧ isDigit c = true ∧
    cs.all isDigit = true := by
  have hall := all_toDigits n
  cases hdigits : Nat.toDigits 10 n with
  | nil => exact absurd hdigits Nat.toDigits_ne_nil
  | cons c cs =>
    rw [hdigits, List.all_cons, Bool.and_eq_true_iff] at hall
    exact ⟨c, cs, rfl, hall⟩

theorem isLetter_of_isDigit {c : Char} (h : isDigit c = true) : isLetter c = false := by
  have hdigit : '0' ≤ c ∧ c ≤ '9' := of_decide_eq_true h
  refine decide_eq_false ?_
  rintro (hletter | hletter | rfl)
  · exact absurd (Char.le_trans hletter.1 hdigit.2) (by decide)
  · exact absurd (Char.le_trans hletter.1 hdigit.2) (by decide)
  · exact absurd hdigit.2 (by decide)

/-- Digits, with a sign before them or not, are one token. -/
theorem isToken_level (n : Int) : (Lexeme.level n).IsToken := by
  have hdigits : ∀ m : Nat, Lexeme.IsToken (.integer, Nat.toDigits 10 m) := by
    intro m
    obtain ⟨c, cs, hm, hc, hcs⟩ := exists_toDigits m
    have hblank : ¬(c = ' ' ∨ c = '\t') := by
      rintro (rfl | rfl)
      · cases hc
      · cases hc
    refine ⟨fun d rest hd => ?_, rfl, c, cs, hm, not_or.mp hblank⟩
    rw [hm]
    unfold lexeme?
    dsimp only [List.cons_append]
    rw [sign?_eq_none (by decide) hc]
    dsimp only
    rw [if_neg (Bool.eq_false_iff.mp (isLetter_of_isDigit hc)), if_neg hblank, if_pos hc,
      spanChars_of_all hcs (isDigit_of_isBlank hd)]
  cases n with
  | ofNat m => exact hdigits m
  | negSucc m =>
    obtain ⟨c, cs, hm, hc, hcs⟩ := exists_toDigits (m + 1)
    refine ⟨fun d rest hd => ?_, rfl, _, _, rfl, by decide, by decide⟩
    rw [Lexeme.level, digitsOf, hm]
    change (if isDigit c = true then some (TokenKind.integer,
      '-' :: c :: (spanChars isDigit (cs ++ d :: rest)).1,
      (spanChars isDigit (cs ++ d :: rest)).2) else none) = _
    rw [if_pos hc, spanChars_of_all hcs (isDigit_of_isBlank hd)]

/-! ### Strings and patterns -/

section

variable {closing : Char}

/-- The body of a literal stops before the closing character. -/
theorem literalBody_of_closing (h : closing ≠ '\\') (cs : List Char) :
    literalBody closing (closing :: cs) = ([], closing :: cs) := by
  rw [literalBody]
  · rw [if_pos (.inl rfl)]
  · exact fun _ _ hback => absurd hback h

/-- Other characters are taken as they are. -/
theorem literalBody_of_plain {c : Char} (hclosing : c ≠ closing) (hback : c ≠ '\\')
    (hline : c ≠ '\n') (cs : List Char) : literalBody closing (c :: cs) =
      (c :: (literalBody closing cs).1, (literalBody closing cs).2) := by
  rw [literalBody]
  · rw [if_neg (not_or.mpr ⟨hclosing, not_or.mpr ⟨hback, hline⟩⟩)]
  · exact fun _ _ heq => absurd heq hback

/-- A backslash is taken with the character behind it. -/
theorem literalBody_of_pair {c : Char} (h : c ≠ '\n') (cs : List Char) :
    literalBody closing ('\\' :: c :: cs) =
      ('\\' :: c :: (literalBody closing cs).1, (literalBody closing cs).2) := by
  rw [literalBody, if_neg h]

end

/-- A character in a string stands for itself or is escaped. -/
theorem escapeChar_cases (c : Char) :
    escapeChar c = [c] ∧ c ≠ '"' ∧ c ≠ '\\' ∧ c ≠ '\n' ∨
      ∃ d, escapeChar c = ['\\', d] ∧ d ≠ '\n' ∧ d ≠ 'u' ∧ escaped? d = some c := by
  rw [escapeChar]
  split
  · rename_i h
    exact .inr ⟨'n', rfl, by decide, by decide, h ▸ rfl⟩
  split
  · rename_i h
    exact .inr ⟨'r', rfl, by decide, by decide, h ▸ rfl⟩
  split
  · rename_i h
    exact .inr ⟨'t', rfl, by decide, by decide, h ▸ rfl⟩
  split
  · rename_i h
    exact .inr ⟨'"', rfl, by decide, by decide, by rw [h]; rfl⟩
  split
  · rename_i h
    exact .inr ⟨'\\', rfl, by decide, by decide, by rw [h]; rfl⟩
  · rename_i hline _ _ hquote hback
    exact .inl ⟨rfl, hquote, hback, hline⟩

theorem escapeString_cons (c : Char) (cs : List Char) :
    escapeString (c :: cs) = escapeChar c ++ escapeString cs := List.flatMap_cons

/-- What is written for a string is the body of its literal, since quotes in it are escaped. -/
theorem literalBody_escapeString (cs rest : List Char) :
    literalBody '"' (escapeString cs ++ '"' :: rest) = (escapeString cs, '"' :: rest) := by
  induction cs with
  | nil => exact literalBody_of_closing (by decide) rest
  | cons c cs ih =>
    rw [escapeString_cons, List.append_assoc]
    rcases escapeChar_cases c with ⟨heq, hquote, hback, hline⟩ | ⟨d, heq, hline, -, -⟩
    · rw [heq, List.singleton_append, literalBody_of_plain hquote hback hline, ih]
      rfl
    · rw [heq, List.cons_append, List.singleton_append, literalBody_of_pair hline, ih]
      rfl

/-- A string is a token, whatever is in it. -/
theorem isToken_string (text : String) : (Lexeme.string text).IsToken where
  lexeme := by
    intro c rest _
    rw [Lexeme.string, List.cons_append, List.append_assoc, List.singleton_append]
    change some (lexString (escapeString text.toList ++ '"' :: c :: rest)) = _
    rw [lexString, literalBody_escapeString]
    rfl
  means := rfl
  begins := ⟨_, _, rfl, by decide, by decide⟩

theorem escapeSlashes_cons (c : Char) (cs : List Char) :
    escapeSlashes (c :: cs) = (if c = '/' then ['\\', '/'] else [c]) ++ escapeSlashes cs :=
  List.flatMap_cons

/-- What is written for a pattern is the body of its literal, since slashes in it are escaped. -/
theorem literalBody_escapeSlashes {cs : List Char} (h : isPaired cs = true) (rest : List Char) :
    literalBody '/' (escapeSlashes cs ++ '/' :: rest) = (escapeSlashes cs, '/' :: rest) := by
  induction cs using isPaired.induct with
  | case1 => exact literalBody_of_closing (by decide) rest
  | case2 c cs ih =>
    rw [isPaired, Bool.and_eq_true_iff, Bool.and_eq_true_iff] at h
    obtain ⟨⟨hslash, hline⟩, hrest⟩ := h
    rw [escapeSlashes_cons, if_neg (by decide), escapeSlashes_cons,
      if_neg (of_decide_eq_true hslash), List.append_assoc, List.append_assoc,
      List.singleton_append, List.singleton_append, literalBody_of_pair (of_decide_eq_true hline),
      ih hrest]
    rfl
  | case3 c cs hpair ih =>
    rw [isPaired, Bool.and_eq_true_iff, Bool.and_eq_true_iff] at h
    · obtain ⟨⟨hback, hline⟩, hrest⟩ := h
      rw [escapeSlashes_cons, List.append_assoc]
      split
      · rename_i hslash
        rw [List.cons_append, List.singleton_append, literalBody_of_pair (by decide), ih hrest]
        rfl
      · rename_i hslash
        rw [List.singleton_append, literalBody_of_plain hslash (of_decide_eq_true hback)
          (of_decide_eq_true hline), ih hrest]
        rfl
    · exact hpair

/-- A slash starts a pattern, unless a second one makes it a comment. -/
theorem lexeme?_of_slash {d : Char} (h : d ≠ '/') (cs : List Char) :
    lexeme? ('/' :: d :: cs) = lexRegex? (d :: cs) := by
  have hsign : sign? '/' = none := rfl
  have hletter : isLetter '/' = false := rfl
  have hdigit : isDigit '/' = false := rfl
  simp [lexeme?, hsign, hletter, hdigit, h]

/-- A pattern that can be written is a token: it is not empty, has no line breaks, and no backslash
of it stands alone. -/
theorem isToken_pattern {value : String} {flags : Option String}
    (h : isWritablePattern value flags = true) : (Lexeme.pattern value flags).IsToken := by
  rw [isWritablePattern, Bool.and_eq_true_iff, Bool.and_eq_true_iff] at h
  obtain ⟨⟨hvalue, hpaired⟩, hflags⟩ := h
  have hflags : (flags.getD "").toList.all isLowerCase = true := by
    cases flags with
    | none => rfl
    | some flags => exact (Bool.and_eq_true_iff.mp hflags).2
  obtain ⟨d, ds, hbody, hslash⟩ : ∃ d ds, escapeSlashes value.toList = d :: ds ∧ d ≠ '/' := by
    cases hlist : value.toList with
    | nil => exact absurd (String.toList_eq_nil_iff.mp hlist) (of_decide_eq_true hvalue)
    | cons d ds =>
      rw [escapeSlashes_cons]
      split
      · exact ⟨_, _, rfl, by decide⟩
      · rename_i hslash
        exact ⟨_, _, rfl, hslash⟩
  refine ⟨fun c rest hc => ?_, rfl, _, _, rfl, by decide, by decide⟩
  have hlex : lexRegex? (escapeSlashes value.toList ++ '/' :: ((flags.getD "").toList ++ c :: rest)) =
      some (.regexLiteral, '/' :: (escapeSlashes value.toList ++ '/' :: (flags.getD "").toList),
        c :: rest) := by
    rw [lexRegex?, literalBody_escapeSlashes hpaired]
    have hne : (escapeSlashes value.toList).isEmpty = false := by
      rw [hbody]
      rfl
    dsimp only
    rw [if_neg (Bool.eq_false_iff.mp hne)]
    exact congrArg (fun span => some (TokenKind.regexLiteral,
      '/' :: (escapeSlashes value.toList ++ '/' :: span.1), span.2))
      (spanChars_of_all hflags (isLowerCase_of_isBlank hc) rest)
  rw [Lexeme.pattern, List.cons_append, List.append_assoc, List.cons_append]
  rw [hbody, List.cons_append] at hlex ⊢
  exact (lexeme?_of_slash hslash _).trans hlex

/-! ### Texts -/

/-- Parentheses are tokens. -/
theorem isToken_enclosed {r : Rule} {ls : List Lexeme} (h : ∀ l ∈ ls, l.IsToken) :
    ∀ l ∈ enclosed r ls, l.IsToken := by
  rw [enclosed]
  split
  · exact h
  · intro l hl
    rcases List.mem_cons.mp hl with rfl | hl
    · exact isToken_sign rfl rfl (by decide)
    rcases List.mem_append.mp hl with hl | hl
    · exact h l hl
    · rw [List.mem_singleton.mp hl]
      exact isToken_sign rfl rfl (by decide)

theorem eq_blank_of_beq {r : Rule} (h : (r == .blank) = true) : r = .blank := by
  cases r <;> first | rfl | cases h

mutual

/-- All lexemes of a rule are tokens. -/
theorem isToken_expression (r : Rule) (h : r = .blank ∨ isWritable r = true) :
    ∀ l ∈ expression r, l.IsToken := by
  intro l hl
  cases r with
  | blank => cases hl
  | literal text =>
    rw [List.mem_singleton.mp hl]
    exact isToken_string text
  | pattern value flags =>
    rw [List.mem_singleton.mp hl]
    exact isToken_pattern (h.resolve_left (by simp))
  | reference name =>
    rw [List.mem_singleton.mp hl]
    exact isToken_name (h.resolve_left (by simp))
  | seq members =>
    exact isToken_operands members (Bool.and_eq_true_iff.mp (h.resolve_left (by simp))).2 l hl
  | choice members =>
    exact isToken_alternatives members (Bool.and_eq_true_iff.mp (h.resolve_left (by simp))).2 l hl
  | zeroOrMore content | oneOrMore content =>
    have hcontent := isToken_expression content (.inr (h.resolve_left (by simp)))
    rcases List.mem_append.mp hl with hl | hl
    · exact isToken_enclosed hcontent l hl
    · rw [List.mem_singleton.mp hl]
      exact isToken_sign rfl rfl (by decide)
  | field name content =>
    obtain ⟨hname, hwritable⟩ := Bool.and_eq_true_iff.mp (h.resolve_left (by simp))
    rcases List.mem_cons.mp hl with rfl | hl
    · exact isToken_name hname
    rcases List.mem_cons.mp hl with rfl | hl
    · exact isToken_sign rfl rfl (by decide)
    · exact isToken_enclosed (isToken_expression content (.inr hwritable)) l hl
  | token content =>
    have hcontent := isToken_expression content (.inr (h.resolve_left (by simp)))
    rcases List.mem_cons.mp hl with rfl | hl
    · exact isToken_token
    rcases List.mem_cons.mp hl with rfl | hl
    · exact isToken_sign rfl rfl (by decide)
    rcases List.mem_append.mp hl with hl | hl
    · exact hcontent l hl
    · rw [List.mem_singleton.mp hl]
      exact isToken_sign rfl rfl (by decide)
  | prec assoc level content =>
    obtain ⟨-, hwritable⟩ := Bool.and_eq_true_iff.mp (h.resolve_left (by simp))
    rcases List.mem_cons.mp hl with rfl | hl
    · exact isToken_precedence assoc
    rcases List.mem_cons.mp hl with rfl | hl
    · exact isToken_sign rfl rfl (by decide)
    rcases List.mem_cons.mp hl with rfl | hl
    · exact isToken_level level
    rcases List.mem_cons.mp hl with rfl | hl
    · exact isToken_sign rfl rfl (by decide)
    rcases List.mem_append.mp hl with hl | hl
    · exact isToken_expression content (.inr hwritable) l hl
    · rw [List.mem_singleton.mp hl]
      exact isToken_sign rfl rfl (by decide)

/-- So all that is written for rules is made of tokens. -/
theorem isToken_operands (rs : List Rule) (h : areWritable rs = true) :
    ∀ l ∈ operands rs, l.IsToken := by
  intro l hl
  cases rs with
  | nil => cases hl
  | cons r rs =>
    obtain ⟨hr, hrs⟩ := Bool.and_eq_true_iff.mp h
    rcases List.mem_append.mp hl with hl | hl
    · exact isToken_enclosed (isToken_expression r (.inr hr)) l hl
    · exact isToken_operands rs hrs l hl

theorem isToken_alternatives (rs : List Rule) (h : areBranches rs = true) :
    ∀ l ∈ alternatives rs, l.IsToken := by
  intro l hl
  cases rs with
  | nil => cases hl
  | cons r rs =>
    obtain ⟨hr, hrs⟩ := Bool.and_eq_true_iff.mp h
    have hr : r = .blank ∨ isWritable r = true := (Bool.or_eq_true_iff.mp hr).imp eq_blank_of_beq id
    rcases List.mem_cons.mp hl with rfl | hl
    · exact isToken_sign rfl rfl (by decide)
    rcases List.mem_append.mp hl with hl | hl
    · exact isToken_enclosed (isToken_expression r hr) l hl
    · exact isToken_alternatives rs hrs l hl

end

end LRWorkbench.GrammarText
