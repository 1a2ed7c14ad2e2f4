import LRWorkbench.Regex.Parser

/-!
# Texts as expressions

A text in which the characters with a meaning are escaped is read as the expression of just that
text (`Regex.parse?_escapeText`), which matches it (`Regex.matchesAll_ofText`). Escaping keeps texts
apart (`Regex.escapeText_inj`).
-/

namespace LRWorkbench.Regex

/-- The expression of a text. -/
def ofText : List Char → Regex
  | [] => .empty
  | [c] => .chars (.singleton c)
  | c :: cs => .seq (.chars (.singleton c)) (ofText cs)

theorem escapeText_cons (c : Char) (cs : List Char) :
    escapeText (c :: cs) = escapeText [c] ++ escapeText cs := by
  simp [escapeText]

theorem escapeText_of_isMeta {c : Char} (h : Read.isMeta c = true) : escapeText [c] = ['\\', c] := by
  simp [escapeText, h]

theorem escapeText_of_not_isMeta {c : Char} (h : Read.isMeta c = false) : escapeText [c] = [c] := by
  simp [escapeText, h]

/-! ### Reading -/

namespace Read

/-! A step is a function of what is left to read. -/

theorem bind_apply {α β : Type} (x : Read α) (f : α → Read β) (s : ReadState) :
    (x >>= f) s = (x s).bind fun found => f found.1 found.2 := rfl

theorem pure_apply {α : Type} (a : α) (s : ReadState) : (pure a : Read α) s = some (a, s) := rfl

theorem get_apply (s : ReadState) : (get : Read ReadState) s = some (s, s) := rfl

theorem modify_apply (f : ReadState → ReadState) (s : ReadState) :
    (modify f : Read Unit) s = some ((), f s) := rfl

variable {c : Char} (rest : List Char) (names : List (List Char))

/-- The item that one character is read as. -/
def itemOf (c : Char) : Nested := ⟨.chars (.singleton c), 0, .plain⟩

/-- A character without a meaning is read as itself. -/
theorem primitive_of_not_isMeta (h : isMeta c = false) :
    primitive ⟨c :: rest, .initial, names⟩ = some (itemOf c, ⟨rest, .initial, names⟩) := by
  simp only [isMeta, List.mem_cons, List.not_mem_nil, or_false, decide_eq_false_iff_not,
    not_or] at h
  simp [primitive, peek, bump, h, charRegex, Flags.initial, itemOf, bind_apply,
    pure_apply, get_apply, modify_apply]

/-- A character with a meaning is read as itself behind a backslash. -/
theorem primitive_of_isMeta (h : isMeta c = true) :
    primitive ⟨'\\' :: c :: rest, .initial, names⟩ = some (itemOf c, ⟨rest, .initial, names⟩) := by
  simp only [isMeta, List.mem_cons, List.not_mem_nil, or_false, decide_eq_true_eq] at h
  rcases h with rfl | rfl | rfl | rfl | rfl | rfl | rfl | rfl | rfl | rfl | rfl | rfl | rfl | rfl |
    rfl | rfl | rfl | rfl <;> rfl

/-- One more character of a text is one more item. -/
theorem sequenceItems_escapeText (fuel : Nat) (items : List Nested) :
    sequenceItems (fuel + 1) items ⟨escapeText [c] ++ rest, .initial, names⟩ =
      sequenceItems fuel (itemOf c :: items) ⟨rest, .initial, names⟩ := by
  have hverbose : Flags.initial.verbose = false := rfl
  rw [sequenceItems]
  cases h : isMeta c with
  | true =>
    rw [escapeText_of_isMeta h]
    have hread := primitive_of_isMeta rest names h
    simp [bumpSpace, peek?, bind_apply, get_apply, modify_apply, hread, hverbose]
  | false =>
    rw [escapeText_of_not_isMeta h]
    have hread := primitive_of_not_isMeta rest names h
    simp only [isMeta, List.mem_cons, List.not_mem_nil, or_false, decide_eq_false_iff_not,
      not_or] at h
    simp [bumpSpace, peek?, bind_apply, get_apply, modify_apply, hread, hverbose, h]

/-- Texts have no groups and no repetitions, so reading them is a matter of one character after the
other. -/
theorem sequenceItems_text (cs : List Char) {fuel : Nat} (hfuel : cs.length < fuel)
    (items : List Nested) :
    sequenceItems fuel items ⟨escapeText cs, .initial, names⟩ =
      some ((cs.map itemOf).reverse ++ items, ⟨[], .initial, names⟩) := by
  induction cs generalizing fuel items with
  | nil =>
    obtain ⟨fuel, rfl⟩ := Nat.exists_eq_succ_of_ne_zero (Nat.ne_of_gt hfuel)
    rw [sequenceItems]
    rfl
  | cons c cs ih =>
    obtain ⟨fuel, rfl⟩ := Nat.exists_eq_succ_of_ne_zero (Nat.ne_of_gt (Nat.zero_lt_of_lt hfuel))
    rw [escapeText_cons, sequenceItems_escapeText, ih (Nat.lt_of_succ_lt_succ hfuel)]
    simp

/-- No character is left out of a sequence. -/
theorem filter_itemOf (cs : List Char) :
    (cs.map itemOf).filter (!·.isEmpty) = cs.map itemOf := by
  refine List.filter_eq_self.mpr fun x hx => ?_
  obtain ⟨c, -, rfl⟩ := List.mem_map.mp hx
  rfl

/-- Items of single characters, the latest first, make up the expression of their text. -/
theorem foldl_itemOf (cs : List Char) (d : Char) (ds : List Char) :
    (cs.map itemOf).foldl (fun r x => .seq x.regex r) (ofText (d :: ds)) =
      ofText (cs.reverse ++ d :: ds) := by
  induction cs generalizing d ds with
  | nil => rfl
  | cons c cs ih =>
    rw [List.map_cons, List.foldl_cons, List.reverse_cons, List.append_assoc]
    exact ih c (d :: ds)

theorem depthOf_itemOf (cs : List Char) : depthOf (cs.map itemOf) ≤ 1 := by
  have hdeepest : (cs.map itemOf).foldl (fun d x => max d x.depth) 0 = 0 := by
    induction cs with
    | nil => rfl
    | cons c cs ih => exact ih
  match cs with
  | [] => exact Nat.zero_le _
  | [c] => exact Nat.zero_le _
  | c :: d :: cs => exact Nat.le_of_eq (congrArg (· + 1) hdeepest)

theorem sequence_text (cs : List Char) :
    (sequence (cs.map itemOf).reverse).regex = ofText cs ∧
      (sequence (cs.map itemOf).reverse).depth ≤ 1 := by
  obtain ⟨rs, rfl⟩ : ∃ rs : List Char, cs = rs.reverse := ⟨cs.reverse, by rw [List.reverse_reverse]⟩
  rw [← List.map_reverse, List.reverse_reverse, sequence, filter_itemOf]
  match rs with
  | [] => exact ⟨rfl, depthOf_itemOf []⟩
  | [c] => exact ⟨rfl, depthOf_itemOf [c]⟩
  | c :: d :: rs =>
    refine ⟨?_, depthOf_itemOf (c :: d :: rs)⟩
    rw [List.reverse_cons]
    exact foldl_itemOf (d :: rs) c []

end Read

theorem length_le_escapeText (cs : List Char) : cs.length ≤ (escapeText cs).length := by
  induction cs with
  | nil => exact Nat.le_refl _
  | cons c cs ih =>
    rw [escapeText_cons, List.length_append, List.length_cons, Nat.add_comm]
    refine Nat.add_le_add ?_ ih
    cases h : Read.isMeta c with
    | true => simp [escapeText_of_isMeta h]
    | false => simp [escapeText_of_not_isMeta h]

/-- **An escaped text is read as the expression of the text.** -/
theorem parse?_escapeText (cs : List Char) : parse? (escapeText cs) = some (ofText cs) := by
  have hlength := length_le_escapeText cs
  have hitems := Read.sequenceItems_text [] cs
    (show cs.length < 4 * (escapeText cs).length + 3 by omega) []
  obtain ⟨hregex, hdepth⟩ := Read.sequence_text cs
  have hdeep : ¬Read.maxDepth < (Read.sequence (cs.map Read.itemOf).reverse).depth := by
    rw [Read.maxDepth]
    omega
  rw [List.append_nil] at hitems
  rw [parse?, Read.alternatives]
  simp [StateT.run, Read.bind_apply, Read.pure_apply, Read.get_apply, hitems, Read.peek?,
    Read.choice, hdeep, hregex]

/-- Texts that are the same when escaped begin with the same character: a backslash stands before
a character with a meaning only. -/
theorem escapeText_cons_inj {c d : Char} {cs ds : List Char}
    (h : escapeText (c :: cs) = escapeText (d :: ds)) :
    c = d ∧ escapeText cs = escapeText ds := by
  rw [escapeText_cons c, escapeText_cons d] at h
  cases hc : Read.isMeta c with
  | true =>
    cases hd : Read.isMeta d with
    | true =>
      rw [escapeText_of_isMeta hc, escapeText_of_isMeta hd] at h
      exact List.cons.inj (List.cons.inj h).2
    | false =>
      rw [escapeText_of_isMeta hc, escapeText_of_not_isMeta hd] at h
      rw [← (List.cons.inj h).1] at hd
      cases hd
  | false =>
    cases hd : Read.isMeta d with
    | true =>
      rw [escapeText_of_not_isMeta hc, escapeText_of_isMeta hd] at h
      rw [(List.cons.inj h).1] at hc
      cases hc
    | false =>
      rw [escapeText_of_not_isMeta hc, escapeText_of_not_isMeta hd] at h
      exact List.cons.inj h

/-- Escaping keeps texts apart. -/
theorem escapeText_inj {cs ds : List Char} (h : escapeText cs = escapeText ds) : cs = ds := by
  have hnil : ∀ c ds, escapeText (c :: ds) ≠ [] := fun c ds hnil =>
    Nat.not_succ_le_zero _ (hnil ▸ length_le_escapeText (c :: ds))
  induction cs generalizing ds with
  | nil =>
    cases ds with
    | nil => rfl
    | cons d ds => exact absurd h.symm (hnil d ds)
  | cons c cs ih =>
    cases ds with
    | nil => exact absurd h (hnil c cs)
    | cons d ds =>
      obtain ⟨rfl, hrest⟩ := escapeText_cons_inj h
      rw [ih hrest]

/-! ### What it matches -/

/-- The expression of a text that is not empty matches no empty text. -/
theorem minLength_ofText (c : Char) (cs : List Char) :
    ∃ n, (ofText (c :: cs)).minLength = some n ∧ 0 < n := by
  have hchar : (Regex.chars (.singleton c)).minLength = some c.utf8Size := by
    simp [minLength, CharSet.singleton]
  induction cs generalizing c with
  | nil => exact ⟨_, hchar, c.utf8Size_pos⟩
  | cons d cs ih =>
    obtain ⟨n, hn, hpos⟩ := ih d (by simp [minLength, CharSet.singleton])
    refine ⟨c.utf8Size + n, ?_, Nat.add_pos_right _ hpos⟩
    rw [ofText, minLength, hchar, hn]
    exact fun h => List.cons_ne_nil _ _ h

theorem hasUnicodeLook_ofText (cs : List Char) : (ofText cs).hasUnicodeLook = false := by
  induction cs with
  | nil => rfl
  | cons c cs ih =>
    cases cs with
    | nil => rfl
    | cons d cs =>
      rw [ofText, hasUnicodeLook, ih]
      · rfl
      · exact fun h => List.cons_ne_nil _ _ h

/-- The first character is taken away, whatever stands before it. -/
theorem residuals_ofText (before : Option Char) (c : Char) (cs : List Char) :
    (ofText (c :: cs)).residuals before c = [ofText cs] := by
  have hmem : (CharSet.singleton c).contains c = true := by
    simp [CharSet.contains, CharSet.containsCode, CharSet.singleton]
  cases cs with
  | nil => simp [ofText, residuals, hmem]
  | cons d cs => simp [ofText, residuals, hmem, followedBy, nullable]

/-- The expression of a text matches it. -/
theorem matchesAll_ofText (cs : List Char) : (ofText cs).matchesAll cs = true := by
  have hrun : ∀ (cs : List Char) (before : Option Char), run before cs [ofText cs] = [.empty] := by
    intro cs
    induction cs with
    | nil => exact fun _ => rfl
    | cons c cs ih =>
      intro before
      rw [run, List.flatMap_cons, List.flatMap_nil, List.append_nil, residuals_ofText]
      exact ih (some c)
  rw [matchesAll, hrun]
  rfl

end LRWorkbench.Regex
