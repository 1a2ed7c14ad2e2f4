import LRWorkbench.Proofs.Query.ReadingBack

/-!
# Tidying queries

A query that is read in silence has the tokens that its patterns are written with, once these are tidied
(`Tidies`): strings are spelled in one way, the fields that a node does not have stand behind its children,
and captures in front of quantifiers. Nothing else is made different, left out or added.

**Main statement.** `parse_accepts_queries`: the reader accepts the queries whose tokens spell patterns, reads
back what is written, and finds only what can be written with the same tokens, tidied.
-/

namespace LRWorkbench.Query

open Read (nameOf captureOf unescape)

/-! ### Tidied lexemes -/

/-- Whether lexemes become others by spelling strings in one way, and by moving fields that a node does not
have behind its children and captures in front of quantifiers. -/
inductive Tidies : List Lexeme → List Lexeme → Prop
  | refl (ls) : Tidies ls ls
  | trans {ls ls' ls''} (h : Tidies ls ls') (h' : Tidies ls' ls'') : Tidies ls ls''
  | append {ls ls' us us'} (h : Tidies ls ls') (h' : Tidies us us') : Tidies (ls ++ us) (ls' ++ us')
  /-- A string may be spelled in another way if that stands for the same text. -/
  | respell {literal : List Char} {text : Name}
    (h : unescape (inside literal) = (text.text.toList, [])) :
    Tidies [(.stringLiteral, literal)] [.string text]
  /-- A field that the node does not have moves behind a child. -/
  | postpone (n : Name) (c : ChildSyntax) :
    Tidies (absentLexemes n ++ c.lexemes) (c.lexemes ++ absentLexemes n)
  /-- A capture moves in front of a quantifier. -/
  | advance (often : Quantifier) (n : Name) :
    Tidies (often.lexemes ++ [.capture n]) ([.capture n] ++ often.lexemes)

namespace Tidies

theorem behind (front : List Lexeme) {ls ls' : List Lexeme} (h : Tidies ls ls') :
    Tidies (front ++ ls) (front ++ ls') := .append (.refl front) h

theorem before (back : List Lexeme) {ls ls' : List Lexeme} (h : Tidies ls ls') :
    Tidies (ls ++ back) (ls' ++ back) := .append h (.refl back)

/-- All the fields that a node does not have move behind its children, one after the other. -/
theorem postponeAll (n : Name) (cs : List ChildSyntax) :
    Tidies (absentLexemes n ++ childrenLexemes cs) (childrenLexemes cs ++ absentLexemes n) := by
  induction cs with
  | nil => exact .refl _
  | cons c cs ih =>
    have hfirst := (postpone n c).before (childrenLexemes cs)
    have hrest := ih.behind c.lexemes
    rw [List.append_assoc, List.append_assoc] at hfirst
    rw [childrenLexemes, List.append_assoc]
    exact hfirst.trans hrest

/-- A quantifier moves behind all the captures that follow it. -/
theorem advanceAll (often : Quantifier) (captures : List Name) :
    Tidies (often.lexemes ++ captures.map .capture) (captures.map .capture ++ often.lexemes) := by
  induction captures with
  | nil =>
    rw [List.map_nil, List.append_nil]
    exact .refl _
  | cons n captures ih =>
    have hfirst := (advance often n).before (captures.map .capture)
    have hrest := ih.behind [.capture n]
    rw [List.append_assoc, List.append_assoc] at hfirst
    exact hfirst.trans hrest

end Tidies

/-! ### Parts of patterns -/

/-- Whether all of some tokens are spelled as their kinds say. -/
def AllFit (ts : List Token) : Prop := ∀ t ∈ ts, t.Fits

theorem AllFit.cons {t : Token} {ts : List Token} (h : AllFit (t :: ts)) : t.Fits ∧ AllFit ts :=
  List.forall_mem_cons.mp h

theorem AllFit.append {ts ts' : List Token} (h : AllFit (ts ++ ts')) : AllFit ts ∧ AllFit ts' :=
  List.forall_mem_append.mp h

theorem lexeme_eq_name {t : Token} (h : t.kind = .ident) : t.lexeme = .name (nameOf t) := by
  rw [Token.lexeme, h, Lexeme.name, nameOf, String.toList_ofList]

/-- The kind of a node is spelled like a name, so there is nothing to tidy in it. -/
theorem tidies_kind {k : Token} {kind : Option Name} (h : SpellsKind k kind) (hfit : k.Fits) :
    kind.all (isIdent ·.text) = true ∧ k.lexeme = kindLexeme kind := by
  cases h with
  | any hk => exact ⟨rfl, hfit.of_kind hk⟩
  | named hk => exact ⟨hfit.of_kind hk, lexeme_eq_name hk⟩

/-- A field label has nothing to tidy either. -/
theorem tidies_field {fs : List Token} {field : Option Name} (h : SpellsField fs field)
    (hfit : AllFit fs) : field.all (isIdent ·.text) = true ∧ lexemes fs = fieldLexemes field := by
  cases h with
  | none => exact ⟨rfl, rfl⟩
  | named hname hcolon =>
    obtain ⟨hn, hfit⟩ := hfit.cons
    obtain ⟨hc, -⟩ := hfit.cons
    have hlexeme : Token.lexeme _ = .colon := hc.of_kind hcolon
    refine ⟨hn.of_kind hname, ?_⟩
    rw [lexemes, List.map_cons, List.map_singleton, lexeme_eq_name hname, hlexeme]
    rfl

theorem tidies_captures {cs : List Token} (h : AreCaptures cs) (hfit : AllFit cs) :
    (cs.map captureOf).all (isCaptureName ·.text) = true ∧
      lexemes cs = (cs.map captureOf).map .capture := by
  induction cs with
  | nil => exact ⟨rfl, rfl⟩
  | cons c cs ih =>
    obtain ⟨hc, hcs⟩ := List.forall_mem_cons.mp h
    obtain ⟨hfirst, hrest⟩ := hfit.cons
    obtain ⟨hname, hlexeme⟩ : isCaptureName (captureOf c).text = true ∧
      c.lexeme = .capture (captureOf c) := hfirst.of_kind hc
    obtain ⟨hnames, hlexemes⟩ := ih hcs hrest
    refine ⟨?_, ?_⟩
    · rw [List.map_cons, List.all_cons, hname, hnames, Bool.and_self]
    · rw [List.map_cons, List.map_cons, ← hlexeme, ← hlexemes]
      rfl

theorem lexemes_of_quantifier? {t : Token} {often : Quantifier} (h : t.kind.quantifier? = some often)
    (hfit : t.Fits) : [t.lexeme] = often.lexemes := by
  cases hkind : t.kind <;> rw [hkind] at h <;> cases h <;> exact hfit.of_kind hkind

/-- The captures behind a quantifier belong to the pattern before it, so they move in front. -/
theorem tidies_quantifier {qs : List Token} {often : Quantifier} {more : List Name}
    (h : SpellsQuantifier qs often more) (hfit : AllFit qs) :
    more.all (isCaptureName ·.text) = true ∧
      Tidies (lexemes qs) (more.map .capture ++ often.lexemes) := by
  cases h with
  | one => exact ⟨rfl, .refl _⟩
  | @sign t _ cs hsign hcs =>
    obtain ⟨ht, hfit⟩ := hfit.cons
    obtain ⟨hnames, hlexemes⟩ := tidies_captures hcs hfit
    have hall : lexemes (t :: cs) = often.lexemes ++ (cs.map captureOf).map .capture := by
      rw [← lexemes_of_quantifier? hsign ht, ← hlexemes]
      rfl
    rw [hall]
    exact ⟨hnames, .advanceAll often _⟩

/-! ### Patterns -/

/-- The captures of a pattern are written at its end. -/
theorem lexemes_addCaptures (p : PatternSyntax) (more : List Name) :
    (p.addCaptures more).lexemes = p.lexemes ++ more.map .capture := by
  obtain ⟨form, captures, span⟩ := p
  rw [PatternSyntax.addCaptures, PatternSyntax.lexemes, PatternSyntax.lexemes, List.map_append,
    List.append_assoc]

theorem isWritable_addCaptures (p : PatternSyntax) (more : List Name) :
    (p.addCaptures more).isWritable = (p.isWritable && more.all (isCaptureName ·.text)) := by
  obtain ⟨form, captures, span⟩ := p
  rw [PatternSyntax.addCaptures, PatternSyntax.isWritable, PatternSyntax.isWritable, List.all_append,
    Bool.and_assoc]

mutual

/-- What spells a pattern is its own spelling, tidied, and the pattern can be written. The five
statements go by the derivation together: a form has members, a member may be a child, and a child
is a pattern. -/
theorem tidies_pattern : ∀ {ts : List Token} {p : PatternSyntax}, SpellsPattern ts p → AllFit ts →
    p.isWritable = true ∧ Tidies (lexemes ts) p.lexemes
  | _, _, @SpellsPattern.mk t ts cs form hform hcs, hfit => by
    rw [← List.cons_append] at hfit ⊢
    obtain ⟨hts, hcaptures⟩ := hfit.append
    obtain ⟨hwritable, htidies⟩ := tidies_form hform hts
    obtain ⟨hnames, hlexemes⟩ := tidies_captures hcs hcaptures
    refine ⟨Bool.and_eq_true_iff.mpr ⟨hwritable, hnames⟩, ?_⟩
    rw [lexemes_append, hlexemes]
    exact htidies.before _

/-- The part of `tidies_pattern` about forms. -/
theorem tidies_form : ∀ {ts : List Token} {form : FormSyntax}, SpellsForm ts form → AllFit ts →
    form.isWritable = true ∧ Tidies (lexemes ts) form.lexemes
  | _, _, @SpellsForm.node opening k ts closing kind _ _ hopening hkind hmembers hclosing, hfit => by
    obtain ⟨hfirst, hfit⟩ := hfit.cons
    obtain ⟨hsecond, hfit⟩ := hfit.cons
    obtain ⟨hts, hlast⟩ := hfit.append
    have hopen : opening.lexeme = .parenOpen := hfirst.of_kind hopening
    have hclose : closing.lexeme = .parenClose := hlast.cons.1.of_kind hclosing
    obtain ⟨hname, hk⟩ := tidies_kind hkind hsecond
    obtain ⟨hchildren, hnegated, htidies⟩ := tidies_members hmembers hts
    have hall : lexemes (opening :: k :: (ts ++ [closing])) =
        [.parenOpen, kindLexeme kind] ++ (lexemes ts ++ [.parenClose]) := by
      rw [← hopen, ← hk, ← hclose, lexemes, List.map_cons, List.map_cons, List.map_append]
      rfl
    refine ⟨?_, ?_⟩
    · rw [FormSyntax.isWritable, hname, hchildren, hnegated]
      rfl
    · rw [hall]
      exact (htidies.before [.parenClose]).behind [.parenOpen, kindLexeme kind]
  | _, _, @SpellsForm.wildcard t ht, hfit => by
    have hlexeme : t.lexeme = .underscore := hfit.cons.1.of_kind ht
    rw [lexemes, List.map_singleton, hlexeme]
    exact ⟨rfl, .refl _⟩
  | _, _, @SpellsForm.text t value ht hvalue, _ => by
    rw [lexemes, List.map_singleton, Token.lexeme, ht]
    exact ⟨rfl, .respell (by rw [hvalue, String.toList_ofList])⟩
  | _, _, @SpellsForm.choice opening ts closing alternatives hopening hall hsome hclosing, hfit => by
    obtain ⟨hfirst, hfit⟩ := hfit.cons
    obtain ⟨hts, hlast⟩ := hfit.append
    have hopen : opening.lexeme = .bracketOpen := hfirst.of_kind hopening
    have hclose : closing.lexeme = .bracketClose := hlast.cons.1.of_kind hclosing
    obtain ⟨hwritable, htidies⟩ := tidies_all hall hts
    have hlexemes : lexemes (opening :: (ts ++ [closing])) =
        [.bracketOpen] ++ (lexemes ts ++ [.bracketClose]) := by
      rw [← hopen, ← hclose, lexemes, List.map_cons, List.map_append]
      rfl
    refine ⟨?_, ?_⟩
    · rw [FormSyntax.isWritable, hwritable, Bool.and_true]
      simpa using hsome
    · rw [hlexemes]
      exact (htidies.before [.bracketClose]).behind [.bracketOpen]

/-- The part of `tidies_pattern` about lists of patterns. -/
theorem tidies_all : ∀ {ts : List Token} {ps : List PatternSyntax}, SpellsAll ts ps → AllFit ts →
    areWritable ps = true ∧ Tidies (lexemes ts) (allLexemes ps)
  | _, _, .nil, _ => ⟨rfl, .refl _⟩
  | _, _, .cons hfirst hrest, hfit => by
    obtain ⟨hts, hts'⟩ := hfit.append
    obtain ⟨hp, htidies⟩ := tidies_pattern hfirst hts
    obtain ⟨hps, htidies'⟩ := tidies_all hrest hts'
    rw [lexemes_append]
    exact ⟨Bool.and_eq_true_iff.mpr ⟨hp, hps⟩, htidies.append htidies'⟩

/-- The part of `tidies_pattern` about members, where the fields that a node does not have are
moved. -/
theorem tidies_members : ∀ {ts : List Token} {children : List ChildSyntax} {negated : List Name},
    SpellsMembers ts children negated → AllFit ts → areWritableChildren children = true ∧
      negated.all (isIdent ·.text) = true ∧
      Tidies (lexemes ts) (childrenLexemes children ++ negated.flatMap absentLexemes)
  | _, _, _, .nil, _ => ⟨rfl, rfl, .refl _⟩
  | _, _, _, .child hfirst hrest, hfit => by
    obtain ⟨hts, hts'⟩ := hfit.append
    obtain ⟨hc, htidies⟩ := tidies_child hfirst hts
    obtain ⟨hcs, hnegated, htidies'⟩ := tidies_members hrest hts'
    refine ⟨Bool.and_eq_true_iff.mpr ⟨hc, hcs⟩, hnegated, ?_⟩
    rw [lexemes_append, childrenLexemes, List.append_assoc]
    exact htidies.append htidies'
  | _, _, _, @SpellsMembers.absent bang n ts children negated hbang hname hrest, hfit => by
    obtain ⟨hfirst, hfit⟩ := hfit.cons
    obtain ⟨hsecond, hts⟩ := hfit.cons
    obtain ⟨hcs, hnegated, htidies⟩ := tidies_members hrest hts
    have hident : isIdent (nameOf n).text = true := hsecond.of_kind hname
    have hlexeme : bang.lexeme = .bang := hfirst.of_kind hbang
    have hall : lexemes (bang :: n :: ts) = absentLexemes (nameOf n) ++ lexemes ts := by
      rw [absentLexemes, ← lexeme_eq_name hname, ← hlexeme]
      rfl
    refine ⟨hcs, Bool.and_eq_true_iff.mpr ⟨hident, hnegated⟩, ?_⟩
    -- the field moves behind all children, in front of the other fields
    have hmove := (Tidies.postponeAll (nameOf n) children).before (negated.flatMap absentLexemes)
    rw [List.append_assoc, List.append_assoc] at hmove
    rw [hall, List.flatMap_cons]
    exact (htidies.behind _).trans hmove

/-- The part of `tidies_pattern` about children, where the captures behind a quantifier are
moved. -/
theorem tidies_child : ∀ {ts : List Token} {c : ChildSyntax}, SpellsChild ts c → AllFit ts →
    c.isWritable = true ∧ Tidies (lexemes ts) c.lexemes
  | _, _, .mk hfield hpattern hoften, hfit => by
    obtain ⟨hfs, hfit⟩ := hfit.append
    obtain ⟨hts, hqs⟩ := hfit.append
    obtain ⟨hname, hlexemes⟩ := tidies_field hfield hfs
    obtain ⟨hp, htidies⟩ := tidies_pattern hpattern hts
    obtain ⟨hmore, htidies'⟩ := tidies_quantifier hoften hqs
    refine ⟨?_, ?_⟩
    · rw [ChildSyntax.isWritable, isWritable_addCaptures, hname, hp, hmore]
      rfl
    · rw [lexemes_append, lexemes_append, hlexemes, ChildSyntax.lexemes, lexemes_addCaptures,
        List.append_assoc]
      exact (htidies.append htidies').behind _

end

end LRWorkbench.Query
