import LRWorkbench.Proofs.Regex.InStep
import LRWorkbench.Proofs.Text.Bytes

/-!
# Expressions in groups

Whatever is read stays in step (`Regex.Read.tracks_alternatives`). So an expression that can be read
alone is read the same in a group that no later parenthesis can close (`Regex.eq_of_closed`), and if it
can be read in a group of its own too, in front of any closing parenthesis (`Regex.eq_of_readWith?`).
-/

namespace LRWorkbench.Regex

namespace Read

open Text

variable {α : Type} {past w : List Char} {s b : ReadState}

/-! ### Characters and escapes -/

/-- A character is named by its code wherever the expression stands. -/
theorem local_charOf (n : Nat) : Local past w (charOf n) := by
  rw [charOf]
  exact .ite (fun _ => .pure rfl) fun _ => .fail

theorem local_hexDigits (count n : Nat) : Local past w (hexDigits count n) := by
  induction count generalizing n with
  | zero => exact .pure rfl
  | succ count ih =>
    rw [hexDigits]
    refine local_peek.next fun c => ?_
    split
    · exact .fail
    · exact tracks_bumpAndSpace.skip fun _ _ => .checkedBoth (ih _)

/-- A code in braces ends before any parenthesis; how much fuel is left does not matter once it is
found. -/
theorem tracks_hexBraced (m k : Nat) (n : Option Nat) :
    Tracks past w Eq (hexBraced m n) (hexBraced k n) := by
  refine .ofFuel (fun _ => rfl) (fun m k ih n => ?_) m k n
  rw [hexBraced.eq_def, hexBraced.eq_def]
  dsimp only
  refine local_advance.next fun _ => local_peek.next fun c => .ite (fun _ => ?_) fun _ => ?_
  · refine tracks_bumpAndSpace.skip fun _ _ => ?_
    split
    · exact .fail
    · exact .pure rfl
  · cases hexDigit? c with
    | none => exact .fail
    | some d => exact ih _

/-- So characters are read the same however they are named by codes. -/
theorem local_hexChar : Local past w hexChar := by
  rw [hexChar]
  refine local_peek.next fun kind => local_advance.next fun _ => local_peek.next fun c =>
    .ite (fun _ => ?_) fun _ => ?_
  · exact .anyState fun s b =>
      (tracks_hexBraced _ _ _).next fun n => (local_charOf n).next fun _ => .pure rfl
  · exact (local_hexDigits _ _).next fun n => (local_charOf n).next fun _ => .pure rfl

theorem local_foldAndNegate (negated : Bool) (s : CharSet) : Local past w (foldAndNegate negated s) := by
  rw [foldAndNegate]
  refine .flags fun s b hflags => ?_
  dsimp only
  rw [hflags]
  refine .ite (fun _ => .pure rfl) fun _ => .checked fun _ => .pure rfl

/-- The name of a class in braces has no parenthesis in it. -/
theorem tracks_bracedName (m k : Nat) (acc : List Char) :
    Tracks past w Eq (bracedName m acc) (bracedName k acc) := by
  refine .ofFuel (fun _ => rfl) (fun m k ih acc => ?_) m k acc
  rw [bracedName, bracedName]
  exact local_advance.next fun _ => local_peek.next fun c =>
    .ite (fun _ => local_bump.next fun _ => .pure rfl) fun _ => ih _

theorem local_namedClass : Local past w namedClass := by
  rw [namedClass]
  refine local_peek.next fun kind => local_advance.next fun _ => local_peek.next fun c => ?_
  dsimp only
  -- in each case what was found, if anything, is looked at last
  suffices hfound : ∀ found : Option CharSet, Local past w _ by
    refine .ite (fun _ => .anyState fun s b => (tracks_bracedName _ _ _).next fun name => ?_) fun _ =>
      .checked fun _ => tracks_bumpAndSpace.skip fun _ _ => (Tracks.pure rfl).next hfound
    split
    · exact (Tracks.pure rfl).next hfound
    · split
      · exact (Tracks.pure rfl).next hfound
      · split
        · exact (Tracks.pure rfl).next hfound
        · exact (Tracks.pure rfl).next hfound
  intro found
  refine .flags fun s b hflags => ?_
  rw [hflags]
  refine .checked fun _ => ?_
  cases found with
  | none => exact .fail
  | some s => exact local_foldAndNegate _ s

/-- Classes are named the same in a group. -/
theorem local_shorthandClass (c : Char) : Local past w (shorthandClass c) := by
  rw [shorthandClass]
  refine .flags fun s b hflags => ?_
  dsimp only
  rw [hflags]
  exact .ite (fun _ => .pure rfl) fun _ => .checked fun _ => .pure rfl

/-- So are the kinds of boundaries of words. -/
theorem tracks_lookName (m k : Nat) (acc : List Char) :
    Tracks past w Eq (lookName m acc) (lookName k acc) := by
  refine .ofFuel (fun _ => rfl) (fun m k ih acc => ?_) m k acc
  rw [lookName, lookName]
  refine tracks_peek?.bind (fun _ => .inl rfl) ?_
  rintro c d (rfl | ⟨rfl, rfl⟩)
  · cases c with
    | none => exact .pure rfl
    | some c => exact .ite (fun _ => tracks_bumpAndSpace.skip fun _ _ => ih _) fun _ => .pure rfl
  · exact .pure rfl

/-- A step that looks ahead and may go back to where it began. -/
theorem tracks_saved {f : ReadState → Char → Read α} {goesBack : Char → Bool} {a : α}
    (hf : ∀ s b c, Tracks past w Eq (f s c) (f b c)) : Local past w (do
      let saved ← get
      advance
      let c ← peek
      if goesBack c then do
        set saved
        pure a
      else f saved c) where
  stays {s r s'} h := by
    rw [bind_apply, get_apply, Option.bind_some, bind_apply] at h
    obtain ⟨⟨u, t⟩, ht, h⟩ := Option.bind_eq_some_iff.mp h
    obtain ⟨c, -, h⟩ := exists_of_peek h
    cases hback : goesBack c with
    | true =>
      rw [hback, if_pos rfl] at h
      obtain ⟨-, rfl⟩ := Prod.mk.inj (Option.some.inj h)
      exact List.suffix_rfl
    | false =>
      rw [hback, if_neg Bool.false_ne_true] at h
      have hadvance : Local past w advance := local_advance
      exact ((hf s s c).stays h).trans (hadvance.stays ht)
  inStep {s b r s' q b'} hin h hne h' := by
    rw [bind_apply, get_apply, Option.bind_some, bind_apply] at h h'
    obtain ⟨⟨u, t⟩, ht, h⟩ := Option.bind_eq_some_iff.mp h
    obtain ⟨⟨u', t'⟩, ht', h'⟩ := Option.bind_eq_some_iff.mp h'
    have hin' := hin.of_advance ht ht'
    obtain ⟨c, hc, h⟩ := exists_of_peek h
    obtain ⟨d, hd, h'⟩ := exists_of_peek h'
    obtain rfl := hin'.head_eq hc hd
    cases hback : goesBack c with
    | true =>
      rw [hback, if_pos rfl] at h h'
      obtain ⟨rfl, rfl⟩ := Prod.mk.inj (Option.some.inj h)
      obtain ⟨rfl, rfl⟩ := Prod.mk.inj (Option.some.inj h')
      exact ⟨rfl, hin⟩
    | false =>
      rw [hback, if_neg Bool.false_ne_true] at h h'
      exact (hf s b c).inStep hin' h hne h'

/-- Both see a character, unless it is the parenthesis, or neither does. -/
theorem SameNext.eq_some_iff {c d : Option Char} (h : SameNext c d) {e : Char} (he : e ≠ ')') :
    c = some e ↔ d = some e := by
  rcases h with rfl | ⟨rfl, rfl⟩
  · exact Iff.rfl
  · exact iff_of_false (fun heq => he (Option.some.inj heq).symm) nofun

theorem local_specialBoundary (words : WordKind) : Local past w (specialBoundary words) := by
  rw [specialBoundary]
  refine tracks_peek?.bind (fun _ => .inl rfl) fun c d hcd => ?_
  simp only [ne_eq, hcd.eq_some_iff (e := '\x7b') (by decide)]
  refine .ite (fun _ => .pure rfl) fun _ => tracks_saved fun s b c => ?_
  refine (tracks_lookName _ _ _).next fun name => local_peek.next fun c => .checked fun _ =>
    local_bump.next fun _ => ?_
  split
  · exact .pure rfl
  · exact .fail

/-- Whatever follows a backslash is read the same. -/
theorem local_escape : Local past w escape := by
  rw [escape]
  refine local_bump.next fun _ => local_peek.next fun c => .checked fun _ => .ite (fun _ => ?_)
    fun _ => .ite (fun _ => ?_) fun _ => local_bump.next fun _ => .ite (fun _ => ?_)
    fun _ => .ite (fun _ => .pure rfl) fun _ => .flags fun s b hflags => ?_
  · exact local_hexChar.next fun _ => .pure rfl
  · exact local_namedClass.next fun _ => .pure rfl
  · exact (local_shorthandClass c).next fun _ => .pure rfl
  · dsimp only
    rw [hflags]
    split
    all_goals first
      | exact .pure rfl
      | exact (local_specialBoundary _).next fun _ => .pure rfl
      | exact .fail

theorem local_charRegex (c : Char) : Local past w (charRegex c) := by
  rw [charRegex]
  refine .flags fun s b hflags => ?_
  dsimp only
  rw [hflags]
  exact .ite (fun _ => .pure rfl) fun _ => .ite (fun _ => .pure rfl) fun _ =>
    .ite (fun _ => .pure rfl) fun _ => .pure rfl

/-! ### Classes -/

theorem local_classChar (c : Char) : Local past w (classChar c) := by
  rw [classChar]
  refine .flags fun s b hflags => ?_
  rw [hflags]
  exact .ite (fun _ => .pure rfl) fun _ => .ite (fun _ => .pure rfl) fun _ => .fail

theorem local_apply (op : SetOp) (a b : CharSet) : Local past w (op.apply a b) := by
  rw [SetOp.apply]
  exact (local_foldAndNegate false a).next fun _ =>
    (local_foldAndNegate false b).next fun _ => .pure rfl

theorem local_value (r : ClassReading) : Local past w r.value := by
  rw [ClassReading.value]
  split
  · exact .pure rfl
  · exact (local_apply _ _ _).next fun _ => .pure rfl

/-- So is one member of a bracketed class. -/
theorem local_classItem : Local past w classItem := by
  rw [classItem]
  refine local_peek.next fun c => .ite (fun _ => local_escape.next fun e => ?_) fun _ =>
    local_bump.next fun _ => .pure rfl
  cases e with
  | char c asByte =>
    refine .flags fun s b hflags => ?_
    rw [hflags]
    exact .checked fun _ => .pure rfl
  | set s => exact .pure rfl
  | look l => exact .fail

/-- The class of ASCII characters that a text names, and what follows the bracket that closes the
name. -/
def asciiName? (rest : List Char) : Option (CharSet × List Char) :=
  (dropPrefix? [':', ']'] (spanChars (fun c => c ≠ ':') rest).2).bind fun behind =>
    (asciiClass? (String.ofList (spanChars (fun c => c ≠ ':') rest).1)).map (·, behind)

/-- Whether a sign of negation stands at the front of a text, and what follows it. -/
def afterCaret : List Char → Bool × List Char
  | '^' :: rest => (true, rest)
  | rest => (false, rest)

/-- The class of ASCII characters at the front of a text: whether it is complemented, what it is, and
what follows it. -/
def asciiFront? (rest : List Char) : Option (Bool × CharSet × List Char) :=
  (dropPrefix? ['[', ':'] rest).bind fun rest =>
    (asciiName? (afterCaret rest).2).map ((afterCaret rest).1, ·)

/-- Without a caret the class is not complemented. -/
theorem afterCaret_of_ne {u : List Char} (h : ∀ rest, u = '^' :: rest → False) :
    afterCaret u = (false, u) := by
  rw [afterCaret]
  exact h

/-- The name of a class of ASCII characters may be complemented. -/
theorem asciiFront?_of_afterCaret {u rest : List Char} {negated : Bool}
    (h : afterCaret u = (negated, rest)) :
    asciiFront? ('[' :: ':' :: u) = (asciiName? rest).map (negated, ·) := by
  change (asciiName? (afterCaret u).2).map ((afterCaret u).1, ·) = _
  rw [h]

/-- A class of ASCII characters is looked up at the front of what is left, and nothing is taken if
there is none. -/
theorem asciiClass_apply (s : ReadState) : asciiClass s =
    (asciiFront? s.rest).elim (some (none, s)) fun front =>
      (foldAndNegate front.1 front.2.1 { s with rest := front.2.2 }).bind fun found =>
        some (some found.1, found.2) := by
  obtain ⟨rest, flags, names⟩ := s
  rw [asciiClass, bind_apply, get_apply, Option.bind_some]
  dsimp only
  split
  case h_1 =>
    split
    case' h_1 u => rw [asciiFront?_of_afterCaret (rfl : afterCaret ('^' :: u) = (true, u))]
    case' h_2 hcaret => rw [asciiFront?_of_afterCaret (afterCaret_of_ne hcaret)]
    -- from here on it makes no difference whether the class is complemented
    all_goals
      rw [asciiName?]
      dsimp only
      generalize (spanChars _ _).2 = behind
      generalize asciiClass? _ = found
      cases hbehind : dropPrefix? [':', ']'] behind with
      | none =>
        split
        · cases hbehind
        · rfl
      | some rest =>
        obtain rfl := append_of_dropPrefix? hbehind
        cases found <;> rfl
  case h_2 hfront =>
    rw [asciiFront?]
    cases hrest : dropPrefix? ['[', ':'] rest with
    | none => rfl
    | some u => exact absurd (append_of_dropPrefix? hrest).symm (hfront u)

/-- The names of classes of ASCII characters hold no parenthesis. -/
theorem asciiClass?_eq_none {name : String} (h : ')' ∈ name.toList) : asciiClass? name = none := by
  unfold asciiClass?
  split
  all_goals first
    | rfl
    | exact absurd h (by decide)

/-- Characters that run on from one text into the next. -/
theorem spanChars_eq (p : Char → Bool) (v u : List Char) : spanChars p (v ++ u) =
    if v.all p then (v ++ (spanChars p u).1, (spanChars p u).2)
    else ((spanChars p v).1, (spanChars p v).2 ++ u) := by
  induction v with
  | nil => rfl
  | cons c v ih =>
    rw [List.cons_append, spanChars, spanChars, List.all_cons, ih]
    cases p c with
    | false => rfl
    | true =>
      rw [Bool.true_and, if_pos rfl, if_pos rfl]
      cases v.all p <;> rfl

theorem spanChars_of_all {p : Char → Bool} {v : List Char} (h : v.all p = true) :
    spanChars p v = (v, []) := by
  have heq := spanChars_eq p v []
  rw [List.append_nil, if_pos h, spanChars, List.append_nil] at heq
  exact heq

/-- A parenthesis behind the text does not make a name of what was none. -/
theorem asciiName?_closing (v t : List Char) :
    asciiName? (v ++ ')' :: t) = (asciiName? v).map fun found => (found.1, found.2 ++ ')' :: t) := by
  rw [asciiName?, asciiName?, spanChars_eq]
  by_cases hall : v.all fun c => c ≠ ':'
  · -- the name would hold the parenthesis
    rw [if_pos hall, spanChars_of_all hall, asciiClass?_eq_none (by simp [spanChars])]
    exact Option.bind_eq_none_iff.mpr fun _ _ => rfl
  · rw [if_neg hall]
    dsimp only
    rw [dropPrefix?_closing (by decide) _ (.inr ⟨t, rfl⟩)]
    cases dropPrefix? [':', ']'] (spanChars (fun c => decide (c ≠ ':')) v).2 with
    | none => rfl
    | some behind => cases asciiClass? _ <;> rfl

theorem afterCaret_closing (v t : List Char) :
    afterCaret (v ++ ')' :: t) = ((afterCaret v).1, (afterCaret v).2 ++ ')' :: t) := by
  cases v with
  | nil => rfl
  | cons c v =>
    by_cases hc : c = '^'
    · rw [hc]
      rfl
    · have hcaret : ∀ u, afterCaret (c :: u) = (false, c :: u) := fun u =>
        afterCaret_of_ne fun rest heq => hc (List.cons.inj heq).1
      rw [List.cons_append, hcaret, hcaret]
      rfl

theorem asciiFront?_closing (v t : List Char) : asciiFront? (v ++ ')' :: t) =
    (asciiFront? v).map fun found => (found.1, found.2.1, found.2.2 ++ ')' :: t) := by
  rw [asciiFront?, asciiFront?, dropPrefix?_closing (by decide) _ (.inr ⟨t, rfl⟩)]
  cases dropPrefix? ['[', ':'] v with
  | none => rfl
  | some u =>
    rw [Option.map_some, Option.bind_some, Option.bind_some, afterCaret_closing, asciiName?_closing]
    cases asciiName? (afterCaret u).2 <;> rfl

/-- What is behind the name of a class is left. -/
theorem asciiFront?_suffix {rest : List Char} {found : Bool × CharSet × List Char}
    (h : asciiFront? rest = some found) : found.2.2 <:+ rest := by
  obtain ⟨u, hu, h⟩ := Option.bind_eq_some_iff.mp h
  obtain ⟨⟨set, behind⟩, hname, rfl⟩ := Option.map_eq_some_iff.mp h
  obtain ⟨after, hafter, hname⟩ := Option.bind_eq_some_iff.mp hname
  obtain ⟨_, -, heq⟩ := Option.map_eq_some_iff.mp hname
  obtain ⟨-, rfl⟩ := Prod.mk.inj heq
  have hcaret : (afterCaret u).2 <:+ u := by
    rw [afterCaret.eq_def]
    split
    · exact List.suffix_cons ..
    · exact List.suffix_rfl
  have hcolon := List.IsSuffix.trans ⟨_, append_of_dropPrefix? hafter⟩ ⟨_, spanChars_append ..⟩
  exact (hcolon.trans hcaret).trans ⟨_, append_of_dropPrefix? hu⟩

/-- So whether a class of ASCII characters stands here is settled before the parenthesis. -/
theorem local_asciiClass : Local past w asciiClass where
  stays {s r s'} h := by
    rw [asciiClass_apply] at h
    cases hfront : asciiFront? s.rest with
    | none =>
      rw [hfront] at h
      obtain ⟨-, rfl⟩ := Prod.mk.inj (Option.some.inj h)
      exact List.suffix_rfl
    | some found =>
      rw [hfront] at h
      obtain ⟨⟨set, t⟩, ht, h⟩ := Option.bind_eq_some_iff.mp h
      obtain ⟨-, rfl⟩ := Prod.mk.inj (Option.some.inj h)
      have hfold : Local past w (foldAndNegate found.1 found.2.1) := local_foldAndNegate ..
      exact (hfold.stays ht).trans (asciiFront?_suffix hfront)
  inStep {s b r s' q b'} hin h hne h' := by
    obtain ⟨v, hs, hb⟩ := hin.rest
    have hfront : asciiFront? b.rest =
        (asciiFront? v).map fun found => (found.1, found.2.1, found.2.2 ++ w) := by
      rw [hb]
      rcases hin.closed with rfl | ⟨t, rfl⟩
      · simp
      · exact asciiFront?_closing v t
    rw [asciiClass_apply, hs, asciiFront?_closing] at h
    rw [asciiClass_apply, hfront] at h'
    cases hv : asciiFront? v with
    | none =>
      rw [hv] at h h'
      obtain ⟨rfl, rfl⟩ := Prod.mk.inj (Option.some.inj h)
      obtain ⟨rfl, rfl⟩ := Prod.mk.inj (Option.some.inj h')
      exact ⟨rfl, hin⟩
    | some found =>
      obtain ⟨negated, set, rest⟩ := found
      rw [hv] at h h'
      have hin' : InStep past w { s with rest := rest ++ ')' :: past } { b with rest := rest ++ w } :=
        ⟨⟨rest, rfl, rfl⟩, hin.closing, hin.flags⟩
      exact ((local_foldAndNegate negated set).next fun _ => .pure rfl).inStep hin' h hne h'

/-- Whether a dash is followed by something else than a bracket or a dash decides how both go on. -/
theorem local_dash {x y : Read α} (hx : Local past w x) (hy : Local past w y) : Local past w (do
    let c ← peek
    let second ← peekSpace?
    if c ≠ '-' ∨ second = some ']' ∨ second = some '-' then x
    else do
      advance
      y) where
  stays {s r s'} h := by
    obtain ⟨c, -, h⟩ := exists_of_peek h
    change (if c ≠ '-' ∨ (skipSpace s.flags (s.rest.drop 1)).head? = some ']' ∨
      (skipSpace s.flags (s.rest.drop 1)).head? = some '-' then x
      else advance >>= fun _ => y) s = some (r, s') at h
    exact (Tracks.ite (fun _ => hx) fun _ => local_advance.next fun _ => hy).stays h
  inStep {s b r s' q b'} hin h hne h' := by
    obtain ⟨c, hhead, hx'⟩ := exists_of_peek h
    obtain ⟨d, hd, hy'⟩ := exists_of_peek h'
    obtain rfl := hin.head_eq hhead hd
    obtain ⟨v, hs, hb⟩ := hin.rest
    change (if c ≠ '-' ∨ (skipSpace s.flags (s.rest.drop 1)).head? = some ']' ∨
      (skipSpace s.flags (s.rest.drop 1)).head? = some '-' then x
      else advance >>= fun _ => y) s = some (r, s') at hx'
    change (if c ≠ '-' ∨ (skipSpace b.flags (b.rest.drop 1)).head? = some ']' ∨
      (skipSpace b.flags (b.rest.drop 1)).head? = some '-' then x
      else advance >>= fun _ => y) b = some (q, b') at hy'
    -- Where no dash stands, the second character does not matter, so it may differ.
    by_cases hdash : c ≠ '-'
    · rw [if_pos (.inl hdash)] at hx' hy'
      exact hx.inStep hin hx' hne hy'
    · obtain rfl := Decidable.not_not.mp hdash
      cases v with
      | nil =>
        rw [hs] at hhead
        cases hhead
      | cons e v =>
        have hrest : s.rest.drop 1 = v ++ ')' :: past := by rw [hs]; rfl
        have hrest' : b.rest.drop 1 = v ++ w := by rw [hb]; rfl
        rw [hrest] at hx'
        rw [hrest', ← hin.flags] at hy'
        -- The second character is the same for both, unless a comment runs into the end of the
        -- text.
        rcases skipSpace_closing s.flags v hin.closing with ⟨v', hv, hv'⟩ | ⟨hle, hhidden⟩
        · have hnext := sameNext_append v' hin.closing
          rw [hv] at hx'
          rw [hv'] at hy'
          simp only [← hnext.eq_some_iff (e := ']') (by decide),
            ← hnext.eq_some_iff (e := '-') (by decide)] at hy'
          exact (Tracks.ite (fun _ => hx) fun _ => local_advance.next fun _ => hy).inStep
            hin hx' hne hy'
        · -- a comment hides the parenthesis, so there is nothing to advance to for one of them
          rcases hin.closing with rfl | ⟨rfl, -⟩
          · rw [List.append_nil, hhidden, if_neg (by simp), bind_apply] at hy'
            obtain ⟨⟨u, t₂⟩, ht₂, -⟩ := Option.bind_eq_some_iff.mp hy'
            refine absurd ?_ (advance_eq_some ht₂).1
            rw [hrest', List.append_nil, ← hin.flags, hhidden]
          · have hnil := List.eq_nil_of_length_eq_zero (Nat.le_zero.mp hle)
            rw [hnil, if_neg (by simp), bind_apply] at hx'
            obtain ⟨⟨u, t₂⟩, ht₂, -⟩ := Option.bind_eq_some_iff.mp hx'
            exact absurd (hrest ▸ hnil) (advance_eq_some ht₂).1

theorem local_classRange : Local past w classRange := by
  rw [classRange]
  refine local_classItem.next fun first => local_bumpSpace.next fun _ => local_dash ?_ ?_
  · cases first with
    | inl c => exact (local_classChar c).next fun _ => .pure rfl
    | inr s => exact .pure rfl
  · refine local_classItem.next fun second => ?_
    split
    · exact .ite (fun _ => (local_classChar _).next fun _ => (local_classChar _).next fun _ => .pure rfl)
        fun _ => .fail
    · exact .fail

/-- Going forward leaves fewer characters. -/
theorem length_of_advance {s' : ReadState} {u : Unit} {n : Nat} (h : advance s = some (u, s'))
    (hn : s.rest.length ≤ n + 1) : s'.rest.length ≤ n := by
  rw [(advance_eq_some h).2]
  refine Nat.le_trans (skipSpace_suffix _ _).length_le ?_
  rw [List.length_drop]
  omega

/-- What stands at the front of a class is the same, given as many steps as there are characters. -/
theorem inStep_classFront {m k : Nat} {r r₁ r₂ : ClassReading} {s' b' : ReadState}
    (hin : InStep past w s b) (hm : s.rest.length ≤ m) (hk : b.rest.length ≤ k)
    (h : classFront m r s = some (r₁, s')) (hne : past.length < s'.rest.length)
    (h' : classFront k r b = some (r₂, b')) : r₁ = r₂ ∧ InStep past w s' b' := by
  obtain ⟨v, hs, hb⟩ := hin.rest
  induction m generalizing k r s b v with
  | zero =>
    rw [hs] at hm
    simp at hm
  | succ m ih =>
    rw [classFront] at h
    obtain ⟨c, hhead, h₁⟩ := exists_of_peek h
    cases k with
    | zero =>
      -- the second one is at its end, where the first one sees the parenthesis
      have hnil : v ++ w = [] := by rw [← hb]; exact List.eq_nil_of_length_eq_zero (Nat.le_zero.mp hk)
      rw [hs, (List.append_eq_nil_iff.mp hnil).1] at hhead
      obtain rfl := Option.some.inj hhead
      obtain ⟨rfl, rfl⟩ := Prod.mk.inj (Option.some.inj h₁)
      obtain ⟨rfl, rfl⟩ := Prod.mk.inj (Option.some.inj h')
      exact ⟨rfl, hin⟩
    | succ k =>
      rw [classFront] at h'
      obtain ⟨d, hd, h₂⟩ := exists_of_peek h'
      obtain rfl := hin.head_eq hhead hd
      by_cases hdash : c = '-'
      · rw [if_pos hdash, bind_apply] at h₁ h₂
        obtain ⟨⟨u, s₁⟩, hs₁, h₁⟩ := Option.bind_eq_some_iff.mp h₁
        obtain ⟨⟨u', b₁⟩, hb₁, h₂⟩ := Option.bind_eq_some_iff.mp h₂
        have hin₁ := hin.of_advance hs₁ hb₁
        obtain ⟨v₁, hv, hv'⟩ := hin₁.rest
        exact ih hin₁ (length_of_advance hs₁ hm) (length_of_advance hb₁ hk) h₁ h₂ v₁ hv hv'
      · rw [if_neg hdash] at h₁ h₂
        exact (Tracks.ite (fun _ => local_advance.next fun _ => .pure rfl) fun _ => .pure rfl).inStep hin
          h₁ hne h₂

/-- The front of a class is taken from what is left. -/
theorem classFront_suffix {n : Nat} {r r' : ClassReading} {s' : ReadState}
    (h : classFront n r s = some (r', s')) : s'.rest <:+ s.rest := by
  have hadvance : Local [] [] advance := local_advance
  induction n generalizing r s with
  | zero =>
    obtain ⟨-, rfl⟩ := Prod.mk.inj (Option.some.inj h)
    exact List.suffix_rfl
  | succ n ih =>
    rw [classFront] at h
    obtain ⟨c, -, h⟩ := exists_of_peek h
    split at h
    · obtain ⟨⟨_, t⟩, ht, h⟩ := Option.bind_eq_some_iff.mp h
      exact (ih h).trans (hadvance.stays ht)
    · split at h
      · obtain ⟨⟨_, t⟩, ht, h⟩ := Option.bind_eq_some_iff.mp h
        obtain ⟨-, rfl⟩ := Prod.mk.inj (Option.some.inj h)
        exact hadvance.stays ht
      · obtain ⟨-, rfl⟩ := Prod.mk.inj (Option.some.inj h)
        exact List.suffix_rfl

/-- The front of a class has no parenthesis, whatever fuel it is read with. -/
theorem local_classFront (r : ClassReading) : Local past w (do
    let s ← get
    classFront s.rest.length r) where
  stays {s r' s'} h := by
    rw [bind_apply, get_apply, Option.bind_some] at h
    exact classFront_suffix h
  inStep hin h hne h' := inStep_classFront hin (Nat.le_refl _) (Nat.le_refl _) h hne h'

/-- The second character is of importance only if the first one is not the parenthesis. -/
theorem tracks_two {f g : Char → Option Char → Read α}
    (h : ∀ c d d', c = ')' ∨ SameNext d d' → Tracks past w R (f c d) (g c d')) :
    Tracks past w R (peek >>= fun c => peekSecond? >>= f c) (peek >>= fun c => peekSecond? >>= g c) where
  stays hx := by
    obtain ⟨c, -, hx⟩ := exists_of_peek hx
    exact (h c _ _ (.inr (.inl rfl))).stays hx
  inStep {s b r s' q b'} hin hx hne hy := by
    obtain ⟨c, hhead, hx'⟩ := exists_of_peek hx
    obtain ⟨d, hd, hy'⟩ := exists_of_peek hy
    obtain rfl := hin.head_eq hhead hd
    obtain ⟨v, hs, hb⟩ := hin.rest
    refine (h c _ _ ?_).inStep hin hx' hne hy'
    rw [hs, hb]
    cases v with
    | nil =>
      rw [hs] at hhead
      exact .inl (Option.some.inj hhead).symm
    | cons e v => exact .inr (sameNext_append v hin.closing)

/-- Classes are read the same. -/
theorem tracks_class (m : Nat) : ∀ k, Tracks past w Eq (bracketed m) (bracketed k) ∧
    ∀ r, Tracks past w Eq (classItems m r) (classItems k r) := by
  induction m with
  | zero => exact fun k => ⟨.fail, fun r => .fail⟩
  | succ m ih =>
    have hbracketed : ∀ k, Tracks past w Eq (bracketed (m + 1)) (bracketed (k + 1)) := by
      intro k
      rw [bracketed, bracketed]
      refine local_advance.next fun _ => local_peek.next fun c => ?_
      have hrest : Tracks past w Eq _ _ := (local_classFront .start).next fun front =>
        ((ih k).2 front).next fun found =>
          (local_foldAndNegate (decide (c = '^')) found.1).next fun s =>
            (Tracks.pure (rfl : (s, found.2 + 1) = _))
      simp only [bind_assoc] at hrest
      exact .ite (fun _ => local_advance.next fun _ => hrest) fun _ => hrest
    have hitems : ∀ k r, Tracks past w Eq (classItems (m + 1) r) (classItems (k + 1) r) := by
      intro k r
      rw [classItems, classItems]
      refine local_bumpSpace.next fun _ => tracks_two fun c d d' hnext => ?_
      have hsecond : ∀ e, e ≠ ')' → (c = e ∧ d = some e ↔ c = e ∧ d' = some e) := fun e he =>
        and_congr_right fun hc => (hnext.resolve_left fun h => he (hc.symm.trans h)).eq_some_iff he
      have hoperation : ∀ op, Tracks past w Eq (do
          bump
          bump
          let left ← r.value
          classItems m ⟨some (op, left.1, left.2), [], 0, 0⟩) (do
          bump
          bump
          let left ← r.value
          classItems k ⟨some (op, left.1, left.2), [], 0, 0⟩) := fun op =>
        local_bump.next fun _ => local_bump.next fun _ => (local_value r).next fun found => (ih k).2 _
      simp only [hsecond '&' (by decide), hsecond '-' (by decide), hsecond '~' (by decide)]
      refine .ite (fun _ => local_asciiClass.next fun found => ?_) fun _ => .ite (fun _ => ?_)
        fun _ => .ite (fun _ => hoperation _) fun _ => .ite (fun _ => hoperation _)
        fun _ => .ite (fun _ => hoperation _) fun _ => ?_
      · cases found with
        | some s => exact (ih k).2 _
        | none => exact (ih k).1.next fun found => (ih k).2 _
      · exact local_bump.next fun _ => local_value r
      · exact local_classRange.next fun s => (ih k).2 _
    rintro (- | k)
    · exact ⟨(hbracketed 0).fail_right, fun r => (hitems 0 r).fail_right⟩
    · exact ⟨hbracketed k, hitems k⟩

/-! ### Groups and repetitions -/

/-- Flags end before a colon or a parenthesis of their own. -/
theorem tracks_readFlags (m k : Nat) (seen : List Char) (flags : Flags) :
    Tracks past w Eq (readFlags m seen flags) (readFlags k seen flags) := by
  refine .ofFuel (f := fun n (found : List Char × Flags) => readFlags n found.1 found.2)
    (fun _ => rfl) (fun m k ih found => ?_) m k (seen, flags)
  obtain ⟨seen, flags⟩ := found
  dsimp only
  rw [readFlags, readFlags]
  have hmore : ∀ c flags, Tracks past w Eq (bump >>= fun _ => readFlags m (c :: seen) flags)
      (bump >>= fun _ => readFlags k (c :: seen) flags) :=
    fun c flags => local_bump.next fun _ => ih (c :: seen, flags)
  refine local_peek.next fun c => .ite (fun _ => .checked fun _ => .pure rfl) fun _ =>
    .checked fun _ => .ite (fun _ => (Tracks.pure rfl).next fun flags => hmore c flags) fun _ => ?_
  cases setFlag flags c !seen.contains '-' with
  | none => exact .fail_bind
  | some flags => exact (Tracks.pure rfl).next fun flags => hmore c flags

/-- The name of a group has no parenthesis in it. -/
theorem tracks_groupName (m k : Nat) (acc : List Char) :
    Tracks past w Eq (groupName m acc) (groupName k acc) := by
  refine .ofFuel (fun _ => rfl) (fun m k ih acc => ?_) m k acc
  rw [groupName, groupName]
  exact local_peek.next fun c => local_bump.next fun _ => .ite (fun _ => .pure rfl) fun _ =>
    .checked fun _ => ih _

/-- Names of groups are told apart by what was read before. -/
theorem local_addName (name : List Char) : Local past w (addName name) := by
  rw [addName]
  refine .checked fun _ => .anyState fun s b => .checkedBoth ?_
  exact .modify (fun _ => List.suffix_rfl) fun _ _ h _ => ⟨h.rest, h.closing, h.flags⟩

/-- A closing parenthesis is no blank. -/
theorem dropWhile_closing {p : Char → Bool} (hp : p ')' = false) (v : List Char)
    (hw : w = [] ∨ ∃ t, w = ')' :: t) : (v ++ w).dropWhile p = v.dropWhile p ++ w := by
  induction v with
  | nil =>
    rcases hw with rfl | ⟨t, rfl⟩
    · rfl
    · exact List.dropWhile_cons_of_neg (by simp [hp])
  | cons c v ih =>
    rw [List.cons_append, List.dropWhile_cons, List.dropWhile_cons, ih]
    split <;> rfl

/-- Blanks between the parts of a count are skipped the same. -/
theorem local_skipBlanks : Local past w skipBlanks := by
  refine .modify (fun s => List.dropWhile_suffix _) fun s b h _ => ?_
  obtain ⟨v, hs, hb⟩ := h.rest
  refine ⟨⟨v.dropWhile Unicode.space.contains, ?_, ?_⟩, h.closing, h.flags⟩
  · rw [hs, dropWhile_closing contains_space_closing v (.inr ⟨past, rfl⟩)]
  · rw [hb, dropWhile_closing contains_space_closing v h.closed]

/-- The digits of a count end before a parenthesis. -/
theorem tracks_countDigits (m k : Nat) (acc : List Char) :
    Tracks past w Eq (countDigits m acc) (countDigits k acc) := by
  refine .ofFuel (fun _ => rfl) (fun m k ih acc => ?_) m k acc
  rw [countDigits, countDigits]
  refine tracks_peek?.bind (fun _ => .inl rfl) ?_
  rintro c d (rfl | ⟨rfl, rfl⟩)
  · cases c with
    | none => exact .pure rfl
    | some c => exact .ite (fun _ => tracks_bumpAndSpace.skip fun _ _ => ih _) fun _ => .pure rfl
  · exact .pure rfl

theorem local_countNumber : Local past w countNumber := by
  rw [countNumber]
  refine local_skipBlanks.next fun _ => .anyState fun s b => (tracks_countDigits _ _ _).next fun digits =>
    .checked fun _ => local_skipBlanks.next fun _ => ?_
  exact .ite (fun _ => .pure rfl) fun _ => .fail

/-- So counted repetitions are read the same. -/
theorem local_counts : Local past w counts := by
  rw [counts]
  refine local_advance.next fun _ => local_countNumber.next fun least => local_peek.next fun c => ?_
  dsimp only
  -- in each case a count at most is read last, or there is none
  suffices hdone : ∀ most : Option Nat, Local past w _ by
    refine .ite (fun _ => local_advance.next fun _ => local_peek.next fun c => ?_) fun _ => ?_
    · exact .ite (fun _ => (Tracks.pure rfl).next hdone) fun _ =>
        local_countNumber.next fun n => (Tracks.pure rfl).next hdone
    · exact (Tracks.pure rfl).next hdone
  intro most
  refine local_peek.next fun c => .checked fun _ => tracks_bumpAndSpace.skip fun _ _ => ?_
  cases most with
  | none => exact .pure rfl
  | some m => exact .checked fun _ => .pure rfl

/-- A repetition is of what was read last. -/
theorem local_repeatLast (items : List Nested) (least : Nat) (most : Option Nat) :
    Local past w (repeatLast items least most) := by
  cases items with
  | nil => exact .fail
  | cons x before =>
    rw [repeatLast.eq_def]
    refine .checked fun _ => tracks_peek?.bind (fun _ => .inl rfl) fun c d hcd => ?_
    simp only [hcd.eq_some_iff (e := '?') (by decide)]
    exact .ite (fun _ => local_bump.next fun _ => .pure rfl) fun _ => .pure rfl

/-- A primitive, be it a class, an escape or a character, is read the same. -/
theorem local_primitive : Local past w primitive := by
  rw [primitive]
  refine local_peek.next fun c => .flags fun s b hflags => ?_
  dsimp only
  rw [hflags]
  refine .ite (fun _ => local_escape.next fun e => ?_) fun _ => local_bump.next fun _ =>
    .ite (fun _ => .checked fun _ => .pure rfl) fun _ => .ite (fun _ => .pure rfl) fun _ =>
    .ite (fun _ => .pure rfl) fun _ => (local_charRegex c).next fun _ => .pure rfl
  cases e with
  | char c asByte => exact .checked fun _ => (local_charRegex c).next fun _ => .pure rfl
  | set s => exact .pure rfl
  | look l => exact .pure rfl

/-- Expressions are read the same. -/
theorem tracks_alternatives (m : Nat) : ∀ k,
    (∀ branches, Tracks past w Eq (alternatives m branches) (alternatives k branches)) ∧
    (∀ items, Tracks past w Eq (sequenceItems m items) (sequenceItems k items)) ∧
    Tracks past w Eq (group m) (group k) ∧
    ∀ outer captures,
      Tracks past w Eq (groupBody m outer captures) (groupBody k outer captures) := by
  -- The induction is on the left reader's fuel. The right one has its own, since the text behind
  -- the group may be of any length.
  induction m with
  | zero => exact fun k => ⟨fun _ => .fail, fun _ => .fail, .fail, fun _ _ => .fail⟩
  | succ m ih =>
    have halternatives : ∀ k branches,
        Tracks past w Eq (alternatives (m + 1) branches) (alternatives (k + 1) branches) := by
      intro k branches
      rw [alternatives, alternatives]
      refine ((ih k).2.1 []).next fun items => tracks_peek?.bind (fun _ => .inl rfl) fun c d hcd => ?_
      simp only [hcd.eq_some_iff (e := '|') (by decide)]
      exact .ite (fun _ => local_bump.next fun _ => (ih k).1 _) fun _ => .pure rfl
    have hitems : ∀ k items,
        Tracks past w Eq (sequenceItems (m + 1) items) (sequenceItems (k + 1) items) := by
      intro k items
      rw [sequenceItems, sequenceItems]
      -- What the signs of repetition have in common: the last item is repeated, and reading goes
      -- on.
      have hrepeat : ∀ least most, Tracks past w Eq (repeatLast items least most >>= sequenceItems m)
          (repeatLast items least most >>= sequenceItems k) := fun least most =>
        (local_repeatLast items least most).next (ih k).2.1
      -- Either both readers see the same character, or the left one sees the parenthesis and the
      -- right one the end.
      refine local_bumpSpace.next fun _ => tracks_peek?.bind (fun _ => .inl rfl) ?_
      rintro c d (rfl | ⟨rfl, rfl⟩)
      · split
        · exact .pure rfl
        · exact .pure rfl
        · exact .pure rfl
        · exact (ih k).2.2.1.next fun g => (ih k).2.1 _
        · exact .anyState fun s b => (tracks_class _ _).1.next fun found => (ih k).2.1 _
        · exact local_bump.next fun _ => hrepeat 0 (some 1)
        · exact local_bump.next fun _ => hrepeat 0 none
        · exact local_bump.next fun _ => hrepeat 1 none
        · exact .checked fun _ => local_counts.next fun found => hrepeat _ _
        · exact local_primitive.next fun x => (ih k).2.1 _
      · exact .pure rfl
    have hgroup : ∀ k, Tracks past w Eq (group (m + 1)) (group (k + 1)) := by
      intro k
      rw [group, group]
      refine local_bump.next fun _ => local_bumpSpace.next fun _ => ?_
      -- Looking ahead and behind is refused by both.
      refine (Tracks.forIn _ fun ahead hahead => ?_).next fun _ => .flags fun s b hflags => ?_
      · refine (local_bumpIf ?_).next fun found => .ite (fun _ => .fail_bind) fun _ => .pure rfl
        simp only [List.mem_cons, List.not_mem_nil, or_false] at hahead
        rcases hahead with rfl | rfl | rfl | rfl <;> decide
      · rw [hflags]
        refine (local_bumpIf (by decide)).next fun _ => (local_bumpIf (by decide)).next fun _ =>
          .ite (fun _ => ?_) fun _ => (local_bumpIf (by decide)).next fun _ => .ite (fun _ => ?_)
          fun _ => (ih k).2.2.2 _ _
        · exact .anyState fun s b => (tracks_groupName _ _ _).next fun name =>
            (local_addName name).next fun _ => (ih k).2.2.2 _ _
        · exact .anyState fun s b => (tracks_readFlags _ _ _ _).next fun found => local_peek.next fun c =>
            local_bump.next fun _ => (local_setFlags _).next fun _ =>
              .ite (fun _ => .checked fun _ => .pure rfl) fun _ => (ih k).2.2.2 _ _
    have hbody : ∀ k outer captures, Tracks past w Eq (groupBody (m + 1) outer captures)
        (groupBody (k + 1) outer captures) := by
      intro k outer captures
      rw [groupBody, groupBody]
      refine ((ih k).1 []).next fun inner => tracks_peek?.bind (fun _ => .inl rfl) fun c d hcd => ?_
      exact .checkedBoth (local_bump.next fun _ => (local_setFlags outer).next fun _ => .pure rfl)
    rintro (- | k)
    · exact ⟨fun _ => (halternatives 0 _).fail_right, fun _ => (hitems 0 _).fail_right,
        (hgroup 0).fail_right, fun _ _ => (hbody 0 _ _).fail_right⟩
    · exact ⟨halternatives k, hitems k, hgroup k, hbody k⟩

end Read

/-! ### Expressions alone and in groups -/

open Read

/-- The expression of a text under some flags. -/
def readWith? (flags : Flags) (text : List Char) : Option Regex := do
  let (r, s) ← (alternatives (4 * text.length + 4) []).run ⟨text, flags, []⟩
  if !s.rest.isEmpty then none
  if r.depth > maxDepth then none
  return r.regex

/-- An expression is read under the flags at the start. -/
theorem parse?_eq_readWith? (text : List Char) : parse? text = readWith? .initial text := rfl

/-- What is read takes all of the text. -/
theorem exists_of_readWith? {flags : Flags} {text : List Char} {r : Regex}
    (h : readWith? flags text = some r) : ∃ fuel x s,
      alternatives fuel [] ⟨text, flags, []⟩ = some (x, s) ∧ s.rest = [] ∧ x.regex = r := by
  obtain ⟨⟨x, s⟩, hread, h⟩ := Option.bind_eq_some_iff.mp h
  dsimp only at h
  split at h
  · cases h
  · rename_i hrest
    split at h
    · cases h
    · exact ⟨_, x, s, hread, by simpa using hrest, Option.some.inj h⟩

/-- The flags at the start, but for whether case is ignored. -/
def caseFlags (ignoreCase : Bool) : Flags := { Flags.initial with ignoreCase := ignoreCase }

/-- What opens a group in which case is ignored or not. -/
def opening (ignoreCase : Bool) : List Char :=
  if ignoreCase then "(?i:".toList else "(?:".toList

variable {ignoreCase : Bool} {fuel : Nat} {items : List Nested} {v u : List Char}
  {names : List (List Char)}

/-- An opening parenthesis starts a group. -/
theorem sequenceItems_opening :
    sequenceItems (fuel + 1) items ⟨opening ignoreCase ++ u, .initial, names⟩ =
      (group fuel >>= fun g => sequenceItems fuel (g :: items))
        ⟨opening ignoreCase ++ u, .initial, names⟩ := by
  cases ignoreCase with
  | true =>
    rw [sequenceItems]
    rfl
  | false =>
    rw [sequenceItems]
    rfl

/-- What opens a group sets its flags. -/
theorem group_opening : group (fuel + 1) ⟨opening ignoreCase ++ u, .initial, names⟩ =
    groupBody fuel .initial false ⟨u, caseFlags ignoreCase, names⟩ := by
  cases ignoreCase with
  | true =>
    rw [group]
    rfl
  | false =>
    rw [group]
    rfl

/-- The body of a group is read up to its parenthesis, and the flags from outside hold again behind
it. -/
theorem exists_of_groupBody {outer : Flags} {s s' : ReadState} {g : Nested}
    (h : groupBody fuel outer false s = some (g, s')) : ∃ fuel' inner t,
      alternatives fuel' [] s = some (inner, t) ∧ t.rest.head? = some ')' ∧
        g.regex = inner.regex ∧ g.form ≠ .setting ∧ s' = ⟨t.rest.drop 1, outer, t.names⟩ := by
  cases fuel with
  | zero => cases h
  | succ fuel =>
    rw [groupBody, Read.bind_apply] at h
    obtain ⟨⟨inner, t⟩, hinner, h⟩ := Option.bind_eq_some_iff.mp h
    change (if t.rest.head? ≠ some ')' then _ else _ : Read Nested) t = some (g, s') at h
    split at h
    · cases h
    · rename_i hclosed
      obtain ⟨rfl, rfl⟩ := Prod.mk.inj (Option.some.inj h)
      refine ⟨fuel, inner, t, hinner, Decidable.not_not.mp hclosed, rfl, ?_, rfl⟩
      dsimp only
      split <;> decide

/-- A group is one item: what is read up to its closing parenthesis. -/
theorem exists_of_opening {out : List Nested × ReadState}
    (h : sequenceItems fuel items ⟨opening ignoreCase ++ u, .initial, names⟩ = some out) :
    ∃ fuel' inner t fuel'' g, alternatives fuel' [] ⟨u, caseFlags ignoreCase, names⟩ = some (inner, t) ∧
      t.rest.head? = some ')' ∧ g.regex = inner.regex ∧ g.form ≠ .setting ∧
      sequenceItems fuel'' (g :: items) ⟨t.rest.drop 1, .initial, t.names⟩ = some out := by
  cases fuel with
  | zero => cases h
  | succ fuel =>
    rw [sequenceItems_opening, Read.bind_apply] at h
    obtain ⟨⟨g, s⟩, hg, h⟩ := Option.bind_eq_some_iff.mp h
    cases fuel with
    | zero => cases hg
    | succ fuel =>
      rw [group_opening] at hg
      obtain ⟨fuel', inner, t, hinner, hhead, hregex, hform, rfl⟩ := exists_of_groupBody hg
      exact ⟨fuel', inner, t, fuel + 1, g, hinner, hhead, hregex, hform, h⟩

/-- Alternatives are sequences with bars between them. -/
theorem exists_of_alternatives {branches : List Nested} {s s' : ReadState} {x : Nested}
    (h : alternatives fuel branches s = some (x, s')) : ∃ fuel' items t,
      sequenceItems fuel' [] s = some (items, t) ∧
        (if t.rest.head? = some '|' then
          alternatives fuel' (sequence items :: branches) { t with rest := t.rest.drop 1 } =
            some (x, s')
        else x = choice (sequence items :: branches) ∧ s' = t) := by
  cases fuel with
  | zero => cases h
  | succ fuel =>
    rw [alternatives, Read.bind_apply] at h
    obtain ⟨⟨items, t⟩, hitems, h⟩ := Option.bind_eq_some_iff.mp h
    refine ⟨fuel, items, t, hitems, ?_⟩
    change (if t.rest.head? = some '|' then _ else _ : Read Nested) t = some (x, s') at h
    split
    · rename_i hbar
      rw [if_pos hbar] at h
      exact h
    · rename_i hbar
      rw [if_neg hbar] at h
      obtain ⟨rfl, rfl⟩ := Prod.mk.inj (Option.some.inj h)
      exact ⟨rfl, rfl⟩

/-- **An expression that can be read alone is read the same in a group**, if no other parenthesis can
close the group than the one behind the expression. -/
theorem eq_of_closed {flags : Flags} {r : Regex} {past : List Char}
    (halone : readWith? flags v = some r) (hpast : ')' ∉ past) {x : Nested} {s : ReadState}
    (h : alternatives fuel [] ⟨v ++ ')' :: past, flags, names⟩ = some (x, s))
    (hclosed : s.rest.head? = some ')') : x.regex = r ∧ s.rest = ')' :: past := by
  obtain ⟨_, alone, t, hread, hend, rfl⟩ := exists_of_readWith? halone
  have htracks : ∀ m k, Tracks past [] Eq (alternatives m []) (alternatives k []) := fun m k =>
    (tracks_alternatives m k).1 []
  -- the parenthesis that is seen is not one behind the first
  have hlt : past.length < s.rest.length := by
    refine Nat.not_le.mp fun hle => ?_
    have hsuffix : s.rest <:+ past := List.suffix_of_suffix_length_le ((htracks fuel fuel).stays h)
      ((List.suffix_cons ..).trans (List.suffix_append ..)) hle
    exact hpast (hsuffix.subset (List.mem_of_mem_head? hclosed))
  have hin : InStep past [] ⟨v ++ ')' :: past, flags, names⟩ ⟨v, flags, []⟩ :=
    ⟨⟨v, rfl, (List.append_nil v).symm⟩, .inl rfl, rfl⟩
  obtain ⟨rfl, hstep⟩ := (htracks _ _).inStep hin h hlt hread
  obtain ⟨v', hs, ht⟩ := hstep.rest
  rw [hend, List.append_nil] at ht
  subst ht
  exact ⟨rfl, hs⟩

/-- **An expression that can be read alone and in a group of its own is read the same in every
group.** -/
theorem eq_of_readWith? {r : Regex} (halone : readWith? (caseFlags ignoreCase) v = some r)
    (hgroup : (parse? (opening ignoreCase ++ (v ++ [')']))).isSome) {t : List Char} {x : Nested}
    {s : ReadState}
    (h : alternatives fuel [] ⟨v ++ ')' :: t, caseFlags ignoreCase, names⟩ = some (x, s)) :
    x.regex = r ∧ s.rest = ')' :: t := by
  -- the first reader has the group of the expression alone
  obtain ⟨whole, hwhole⟩ := Option.isSome_iff_exists.mp hgroup
  rw [parse?_eq_readWith?] at hwhole
  obtain ⟨_, _, _, hread, -, -⟩ := exists_of_readWith? hwhole
  obtain ⟨_, _, _, hitems, -⟩ := exists_of_alternatives hread
  obtain ⟨_, first, t₁, _, _, hfirst, hhead, -⟩ := exists_of_opening hitems
  obtain ⟨rfl, ht₁⟩ := eq_of_closed halone List.not_mem_nil hfirst hhead
  -- the one in the other group, which is in step with it, stops there too
  obtain ⟨rfl, hstep⟩ := ((tracks_alternatives _ _).1 []).inStep
    (⟨⟨v, rfl, rfl⟩, .inr ⟨rfl, t, rfl⟩, rfl⟩ : InStep [] (')' :: t)
      ⟨v ++ [')'], caseFlags ignoreCase, []⟩ ⟨v ++ ')' :: t, caseFlags ignoreCase, names⟩)
    hfirst (by simp [ht₁]) h
  obtain ⟨v', ht₁', hs⟩ := hstep.rest
  rw [ht₁] at ht₁'
  obtain rfl := (List.append_left_eq_self.mp ht₁'.symm)
  exact ⟨rfl, hs⟩

end LRWorkbench.Regex
