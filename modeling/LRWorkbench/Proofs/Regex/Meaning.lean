import LRWorkbench.Proofs.Regex.Surroundings
import LRWorkbench.Proofs.Regex.WellFormed

/-!
# What is left of an expression

What an expression matches can be found out by reading a piece of text from its front: the empty
piece matches where the expression is nullable (`Regex.matches_nil_iff`), and a piece that begins
with a character matches if what follows it is matched by something left of the expression
(`Regex.matches_cons_iff`). So `Regex.matchesAll` tells whether a whole text matches
(`Regex.matchesAll_iff`).

The conditions of an expression are seen from the same places all along, since what is left of it
stands between the character that was read and what follows the piece. Where something is left after
a character, the character is one that can be read (`Regex.canStart_of_mem_residuals`).

Repetitions need care. Content that matches nothing at some places only may use up turns before the
character is read; content that does so everywhere can use them up later just as well.
-/

namespace LRWorkbench.Regex

variable {r a b x : Regex} {before after : Option Char} {c : Char} {u v : List Char}
  {least : Nat} {most : Option Nat}

/-- What is left of a repetition that was done a number of times. -/
theorem room_sub (hroom : ∀ m, most = some m → least ≤ m) (k : Nat) :
    ∀ m, (most.map (· - k)) = some m → least - k ≤ m := by
  intro m hm
  obtain ⟨n, hn, rfl⟩ := Option.map_eq_some_iff.mp hm
  exact Nat.sub_le_sub_right (hroom n hn) k

/-- What is left of a well-formed expression is well-formed. -/
theorem WellFormed.of_mem_residuals (hr : r.WellFormed) (hx : x ∈ r.residuals before c) :
    x.WellFormed := by
  induction hr generalizing x with
  | empty => cases hx
  | chars set =>
    rw [residuals] at hx
    split at hx
    · rw [List.mem_singleton.mp hx]
      exact .empty
    · cases hx
  | look l => cases hx
  | @seq a b _ hb iha ihb =>
    rw [residuals] at hx
    rcases List.mem_append.mp hx with hx | hx
    · obtain ⟨y, hy, rfl⟩ := List.mem_map.mp hx
      exact (iha hy).followedBy hb
    · split at hx
      · exact ihb hx
      · cases hx
  | alt _ _ iha ihb => exact (List.mem_append.mp hx).elim iha ihb
  | @repeated r least most hcontent hroom ih =>
    rw [residuals] at hx
    split at hx
    · cases hx
    · obtain ⟨k, -, hx⟩ := List.mem_flatMap.mp hx
      obtain ⟨y, hy, rfl⟩ := List.mem_map.mp hx
      refine (ih hy).followedBy (.repeated hcontent ?_)
      intro m hm
      obtain ⟨n, hn, rfl⟩ := Option.map_eq_some_iff.mp hm
      have := hroom n hn
      omega

/-! ### The empty piece -/

/-- If the content of a repetition matches nothing at a place, so does the repetition. -/
theorem Matches.repeated_nil (h : r.Matches before [] after)
    (hroom : ∀ m, most = some m → least ≤ m) :
    (Regex.repeated r least most).Matches before [] after := by
  induction least generalizing most with
  | zero => exact .done ..
  | succ n ih =>
    have hmost : most ≠ some 0 := fun hzero => absurd (hroom 0 hzero) (Nat.not_succ_le_zero n)
    exact .more (u := []) (v := []) hmost h (ih (room_sub hroom 1))

/-- The empty piece that matches is nullable. -/
theorem nullable_of_matches (h : r.Matches before [] after) : r.nullable before after = true := by
  generalize hu : ([] : List Char) = u at h
  induction h with
  | empty before after => rfl
  | chars before after hc => cases hu
  | look hl => exact hl
  | @seq a b before after u v _ _ iha ihb =>
    obtain ⟨rfl, rfl⟩ := List.append_eq_nil_iff.mp hu.symm
    exact Bool.and_eq_true_iff.mpr ⟨iha rfl, ihb rfl⟩
  | altLeft _ ih => exact Bool.or_eq_true_iff.mpr (.inl (ih hu))
  | altRight _ ih => exact Bool.or_eq_true_iff.mpr (.inr (ih hu))
  | done r most before after => exact Bool.or_eq_true_iff.mpr (.inl rfl)
  | @more r least most before after u v _ _ _ iha _ =>
    obtain ⟨rfl, rfl⟩ := List.append_eq_nil_iff.mp hu.symm
    exact Bool.or_eq_true_iff.mpr (.inr (iha rfl))

theorem matches_of_nullable (hr : r.WellFormed) (h : r.nullable before after = true) :
    r.Matches before [] after := by
  induction hr with
  | empty => exact .empty ..
  | chars set => cases h
  | look l => exact .look h
  | seq _ _ iha ihb =>
    obtain ⟨ha, hb⟩ := Bool.and_eq_true_iff.mp h
    exact .seq (u := []) (v := []) (iha ha) (ihb hb)
  | alt _ _ iha ihb =>
    rcases Bool.or_eq_true_iff.mp h with ha | hb
    · exact .altLeft (iha ha)
    · exact .altRight (ihb hb)
  | repeated _ hroom ih =>
    rcases Bool.or_eq_true_iff.mp h with hzero | hcontent
    · rw [of_decide_eq_true hzero]
      exact .done ..
    · exact (ih hcontent).repeated_nil hroom

/-- **The empty piece matches where an expression is nullable.** -/
theorem matches_nil_iff (hr : r.WellFormed) :
    r.Matches before [] after ↔ r.nullable before after = true :=
  ⟨nullable_of_matches, matches_of_nullable hr⟩

/-! ### The first character -/

theorem Matches.followedBy (ha : a.Matches before u (v.head?.or after))
    (hb : b.Matches (u.getLast?.or before) v after) :
    (a.followedBy b).Matches before (u ++ v) after := by
  cases a with
  | empty =>
    cases ha
    exact hb
  | _ => exact .seq ha hb

theorem Matches.of_followedBy (h : (a.followedBy b).Matches before u after) :
    ∃ v w, u = v ++ w ∧ a.Matches before v (w.head?.or after) ∧
      b.Matches (v.getLast?.or before) w after := by
  cases a with
  | empty => exact ⟨[], u, rfl, .empty .., h⟩
  | _ =>
    cases h with
    | seq ha hb => exact ⟨_, _, rfl, ha, hb⟩

/-- A repetition that has to be done less often, and may be done more often, matches more. -/
theorem Matches.repeated_mono (h : (Regex.repeated r least most).Matches before u after)
    {least' : Nat} {most' : Option Nat} (hleast : least' ≤ least)
    (hmost : ∀ m', most' = some m' → ∃ m, most = some m ∧ m ≤ m') :
    (Regex.repeated r least' most').Matches before u after := by
  generalize hwhole : Regex.repeated r least most = whole at h
  induction h generalizing least most least' most' with
  | empty | chars | look | seq | altLeft | altRight => cases hwhole
  | done r' most'' before after =>
    cases hwhole
    rw [Nat.le_zero.mp hleast]
    exact .done ..
  | @more r' least'' most'' before after u v room ha _ _ ihb =>
    cases hwhole
    refine .more (fun hzero => ?_) ha (ihb (Nat.sub_le_sub_right hleast 1) ?_ rfl)
    · obtain ⟨m, rfl, hm⟩ := hmost 0 hzero
      exact room (congrArg some (Nat.le_zero.mp hm))
    · intro m' hm'
      obtain ⟨n', rfl, rfl⟩ := Option.map_eq_some_iff.mp hm'
      obtain ⟨n, rfl, hn⟩ := hmost n' rfl
      exact ⟨n - 1, rfl, Nat.sub_le_sub_right hn 1⟩

/-- A repetition may begin with its content matching nothing a number of times. -/
theorem Matches.repeated_skip {k : Nat}
    (hnil : 0 < k → r.Matches before [] (u.head?.or after)) (hk : ∀ m, most = some m → k ≤ m)
    (h : (Regex.repeated r (least - k) (most.map (· - k))).Matches before u after) :
    (Regex.repeated r least most).Matches before u after := by
  induction k generalizing least most with
  | zero => simpa using h
  | succ k ih =>
    have hmost : most ≠ some 0 := fun hzero => absurd (hk 0 hzero) (Nat.not_succ_le_zero k)
    have hpass := hnil (Nat.succ_pos k)
    refine .more (u := []) hmost hpass (ih (fun _ => hpass) (room_sub hk 1) ?_)
    simpa [Nat.sub_sub, Nat.add_comm 1 k, Function.comp_def] using h

/-- Where content that can match nothing is passed over, there is room to do so. -/
theorem lt_of_mem_skips {k : Nat} (h : k ∈ skips before c r least) :
    k < max least 1 ∧ (k = 0 ∨ r.nullable before (some c) = true) := by
  rw [skips] at h
  split at h
  · rename_i hnullable
    exact ⟨List.mem_range.mp h, .inr (Bool.and_eq_true_iff.mp hnullable).2⟩
  · rw [List.mem_singleton.mp h]
    exact ⟨by omega, .inl rfl⟩

/-- The last character of a piece that begins with one, or else the one before the piece. -/
theorem getLast?_cons_or (c : Char) (u : List Char) (before : Option Char) :
    (c :: u).getLast?.or before = u.getLast?.or (some c) := by
  rw [List.getLast?_cons]
  cases u.getLast? <;> rfl

/-- What follows after a character makes a match with it. -/
theorem matches_of_residual (hr : r.WellFormed) (hx : x ∈ r.residuals before c)
    (h : x.Matches (some c) u after) : r.Matches before (c :: u) after := by
  induction hr generalizing x u after with
  | empty | look => cases hx
  | chars set =>
    rw [residuals] at hx
    split at hx
    · rename_i hc
      rw [List.mem_singleton.mp hx] at h
      cases h
      exact .chars _ _ hc
    · cases hx
  | @seq a b hwa _ iha ihb =>
    rw [residuals] at hx
    rcases List.mem_append.mp hx with hx | hx
    · obtain ⟨y, hy, rfl⟩ := List.mem_map.mp hx
      obtain ⟨v, w, rfl, hv, hw⟩ := h.of_followedBy
      refine .seq (u := c :: v) (iha hy hv) ?_
      rwa [getLast?_cons_or]
    · split at hx
      · rename_i hnullable
        exact .seq (u := []) (matches_of_nullable hwa hnullable) (ihb hx h)
      · cases hx
  | alt _ _ iha ihb =>
    rcases List.mem_append.mp hx with hx | hx
    · exact .altLeft (iha hx h)
    · exact .altRight (ihb hx h)
  | @repeated r least most hcontent hroom ih =>
    rw [residuals] at hx
    split at hx
    · cases hx
    rename_i hmost
    -- Some turns may match nothing; the character belongs to the first one that does not.
    obtain ⟨k, hk, hx⟩ := List.mem_flatMap.mp hx
    obtain ⟨y, hy, rfl⟩ := List.mem_map.mp hx
    obtain ⟨hlt, hpass⟩ := lt_of_mem_skips hk
    obtain ⟨v, w, rfl, hv, hw⟩ := h.of_followedBy
    have hle : ∀ m, most = some m → k < m := by
      rintro m rfl
      have := hroom m rfl
      have : m ≠ 0 := fun hzero => hmost (congrArg some hzero)
      omega
    refine .repeated_skip (fun hpos => ?_) (fun m hm => Nat.le_of_lt (hle m hm)) (.more (u := c :: v) ?_ (ih hy hv) ?_)
    · exact matches_of_nullable hcontent (hpass.resolve_left (Nat.ne_of_gt hpos))
    · intro hzero
      obtain ⟨m, hm, hsub⟩ := Option.map_eq_some_iff.mp hzero
      have := hle m hm
      omega
    · rw [getLast?_cons_or]
      simpa [Nat.sub_right_comm, Function.comp_def] using hw

/-- An expression without conditions matches the same pieces everywhere. -/
theorem Matches.of_not_hasLook (h : r.Matches before u after) (hr : r.hasLook = false)
    (before' after' : Option Char) : r.Matches before' u after' := by
  induction h generalizing before' after' with
  | empty => exact .empty ..
  | chars _ _ hc => exact .chars _ _ hc
  | look => cases hr
  | seq _ _ iha ihb =>
    obtain ⟨ha, hb⟩ := Bool.or_eq_false_iff.mp hr
    exact .seq (iha ha ..) (ihb hb ..)
  | altLeft _ ih => exact .altLeft (ih (Bool.or_eq_false_iff.mp hr).1 ..)
  | altRight _ ih => exact .altRight (ih (Bool.or_eq_false_iff.mp hr).2 ..)
  | done => exact .done ..
  | more room _ _ iha ihb => exact .more room (iha hr ..) (ihb hr ..)

/-- Where turns are counted one by one, one more may be passed over, or none has to be. -/
theorem exists_skip {k : Nat} (hlook : r.hasLook = true)
    (hnullable : r.nullable before (some c) = true) (hk : k ∈ skips before c r (least - 1)) :
    ∃ k' ∈ skips before c r least, least - 1 - k' ≤ least - 1 - 1 - k ∧ k' ≤ k + 1 := by
  have hrange : ∀ n, skips before c r n = List.range (max n 1) := fun n => by
    rw [skips, hlook, hnullable, Bool.and_self, if_pos rfl]
  rw [hrange, List.mem_range] at hk
  simp only [hrange, List.mem_range]
  by_cases hlt : k + 1 < max least 1
  · exact ⟨k + 1, hlt, by omega, Nat.le_refl _⟩
  · exact ⟨0, by omega, by omega, Nat.zero_le _⟩

/-- What is left of a repetition of which one turn is passed over is left of it anyway. -/
theorem exists_residual_of_skip (room : most ≠ some 0) (ha : r.Matches before [] (some c))
    (hx : x ∈ (Regex.repeated r (least - 1) (most.map (· - 1))).residuals before c)
    (h : x.Matches (some c) u after) :
    ∃ y ∈ (Regex.repeated r least most).residuals before c, y.Matches (some c) u after := by
  have hnullable := nullable_of_matches ha
  rw [residuals] at hx
  rw [residuals, if_neg room]
  split at hx
  · cases hx
  rename_i hmost
  obtain ⟨k, hk, hx⟩ := List.mem_flatMap.mp hx
  obtain ⟨y, hy, rfl⟩ := List.mem_map.mp hx
  obtain ⟨v, w, rfl, hv, hw⟩ := h.of_followedBy
  cases hlook : r.hasLook with
  | true =>
    obtain ⟨k', hk', hleast, hle⟩ := exists_skip hlook hnullable hk
    refine ⟨_, List.mem_flatMap.mpr ⟨k', hk', List.mem_map_of_mem hy⟩,
      hv.followedBy (hw.repeated_mono hleast fun m' hm' => ?_)⟩
    obtain ⟨m, rfl, rfl⟩ := Option.map_eq_some_iff.mp hm'
    refine ⟨_, rfl, ?_⟩
    dsimp only
    omega
  | false =>
    -- nothing is counted: the turn passed over can as well be made later
    have hskips : ∀ n, skips before c r n = [0] := fun n => by simp [skips, hlook]
    rw [hskips, List.mem_singleton] at hk
    subst hk
    refine ⟨_, List.mem_flatMap.mpr ⟨0, by simp [hskips], List.mem_map_of_mem hy⟩,
      hv.followedBy (.more (u := []) ?_ (ha.of_not_hasLook hlook ..) ?_)⟩
    · simpa using hmost
    · simpa [Function.comp_def] using hw

/-- A match with a character in front leaves something of the expression behind it. -/
theorem Matches.exists_residual (h : r.Matches before (c :: u) after) :
    ∃ x ∈ r.residuals before c, x.Matches (some c) u after := by
  generalize ht : c :: u = t at h
  induction h generalizing u with
  | empty | look | done => cases ht
  | chars before after hc =>
    cases ht
    exact ⟨.empty, by rw [residuals, if_pos hc]; exact List.mem_singleton_self _, .empty ..⟩
  | @seq a b before after u' v' ha hb iha ihb =>
    rw [residuals]
    cases u' with
    | nil =>
      obtain rfl : c :: u = v' := ht
      obtain ⟨x, hx, hmatch⟩ := ihb rfl
      have hnullable : a.nullable before (some c) = true := nullable_of_matches ha
      exact ⟨x, List.mem_append.mpr (.inr (by rwa [if_pos hnullable])), hmatch⟩
    | cons d u' =>
      obtain ⟨rfl, rfl⟩ := List.cons.inj ht
      obtain ⟨x, hx, hmatch⟩ := iha rfl
      rw [getLast?_cons_or] at hb
      exact ⟨_, List.mem_append.mpr (.inl (List.mem_map_of_mem hx)), hmatch.followedBy hb⟩
  | altLeft _ ih =>
    obtain ⟨x, hx, hmatch⟩ := ih ht
    exact ⟨x, List.mem_append.mpr (.inl hx), hmatch⟩
  | altRight _ ih =>
    obtain ⟨x, hx, hmatch⟩ := ih ht
    exact ⟨x, List.mem_append.mpr (.inr hx), hmatch⟩
  | @more r least most before after u' v' room ha hb iha ihb =>
    rw [residuals, if_neg room]
    cases u' with
    | cons d u' =>
      -- the character is read in the first turn
      obtain ⟨rfl, rfl⟩ := List.cons.inj ht
      obtain ⟨y, hy, hmatch⟩ := iha rfl
      rw [getLast?_cons_or] at hb
      refine ⟨_, List.mem_flatMap.mpr ⟨0, ?_, List.mem_map_of_mem hy⟩, hmatch.followedBy hb⟩
      rw [skips]
      split
      · exact List.mem_range.mpr (by omega)
      · exact List.mem_singleton_self 0
    | nil =>
      -- the first turn is passed over, and what is left after it is left after one turn more
      obtain rfl : c :: u = v' := ht
      obtain ⟨x, hx, hmatch⟩ := ihb rfl
      have hmore := exists_residual_of_skip room ha hx hmatch
      rwa [residuals, if_neg room] at hmore

/-- **Expressions are read one character at a time.** A piece that begins with a character is
matched just if what follows the character is matched by something left of the expression. -/
theorem matches_cons_iff (hr : r.WellFormed) : r.Matches before (c :: u) after ↔
    ∃ x ∈ r.residuals before c, x.Matches (some c) u after :=
  ⟨Matches.exists_residual, fun ⟨_, hx, h⟩ => matches_of_residual hr hx h⟩

/-! ### Which characters can be read -/

theorem meets_of_containsCode {n lo hi : Nat} {ranges : List (Nat × Nat)} (hlo : lo ≤ n) (hhi : n ≤ hi)
    (h : CharSet.containsCode n ranges = true) : meets lo hi ranges = true := by
  induction ranges with
  | nil => cases h
  | cons range rest ih =>
    obtain ⟨a, b⟩ := range
    rw [CharSet.containsCode] at h
    rw [meets, Bool.or_eq_true, Bool.and_eq_true, decide_eq_true_eq, decide_eq_true_eq]
    split at h
    · cases h
    · split at h
      · left
        omega
      · exact .inr (ih h)

/-- Where something is left after a character, the character can be read. -/
theorem canStart_of_mem_residuals {lo hi : Nat} (hlo : lo ≤ c.toNat) (hhi : c.toNat ≤ hi)
    (hx : x ∈ r.residuals before c) : r.canStart before (some c) lo hi = true := by
  induction r generalizing x with
  | empty | look => cases hx
  | chars set =>
    rw [residuals] at hx
    split at hx
    · rename_i hc
      exact meets_of_containsCode hlo hhi hc
    · cases hx
  | seq a b iha ihb =>
    rw [residuals] at hx
    rw [canStart, Bool.or_eq_true, Bool.and_eq_true]
    rcases List.mem_append.mp hx with hx | hx
    · obtain ⟨y, hy, -⟩ := List.mem_map.mp hx
      exact .inl (iha hy)
    · split at hx
      · rename_i hnullable
        exact .inr ⟨hnullable, ihb hx⟩
      · cases hx
  | alt a b iha ihb =>
    rw [canStart, Bool.or_eq_true]
    exact (List.mem_append.mp hx).imp iha ihb
  | repeated r least most ih =>
    rw [residuals] at hx
    split at hx
    · cases hx
    · rename_i hmost
      obtain ⟨k, -, hx⟩ := List.mem_flatMap.mp hx
      obtain ⟨y, hy, -⟩ := List.mem_map.mp hx
      rw [canStart, Bool.and_eq_true]
      exact ⟨decide_eq_true hmost, ih hy⟩

/-- A set that meets a range of codes holds a character with one of them. -/
theorem exists_of_meets {lo hi : Nat} (set : CharSet) (hle : lo ≤ hi) (h : meets lo hi set.ranges = true) :
    ∃ d : Char, lo ≤ d.toNat ∧ d.toNat ≤ hi ∧ set.contains d = true := by
  have hmem : ∀ ranges, meets lo hi ranges = true → ∃ r ∈ ranges, r.1 ≤ hi ∧ lo ≤ r.2 := by
    intro ranges hmeets
    induction ranges with
    | nil => cases hmeets
    | cons r rest ih =>
      simp only [meets, Bool.or_eq_true, Bool.and_eq_true, decide_eq_true_eq] at hmeets
      rcases hmeets with hhere | hrest
      · exact ⟨r, List.mem_cons_self .., hhere⟩
      · obtain ⟨s, hs, hmeet⟩ := ih hrest
        exact ⟨s, List.mem_cons_of_mem _ hs, hmeet⟩
  obtain ⟨r, hr, hfirst, hlast⟩ := hmem _ h
  have hproper := set.normal.proper r hr
  have hlo : r.1 ≤ max lo r.1 := Nat.le_max_right ..
  have hhi : max lo r.1 ≤ r.2 := Nat.max_le.mpr ⟨hlast, hproper.1⟩
  have hcode : (Char.ofNat (max lo r.1)).toNat = max lo r.1 := by
    rw [Char.ofNat, dif_pos (hproper.isValidChar hlo hhi)]
    rfl
  refine ⟨Char.ofNat (max lo r.1), ?_, ?_, (CharSet.containsCode_iff set.normal).mpr ⟨r, hr, ?_, ?_⟩⟩ <;>
    rw [hcode]
  · exact Nat.le_max_left ..
  · exact Nat.max_le.mpr ⟨hle, hfirst⟩
  · exact hlo
  · exact hhi

/-- Where some character of a range could be read, something is left after one of them, if conditions cannot
tell them apart. -/
theorem exists_residuals_of_canStart {lo hi : Nat} (hle : lo ≤ hi)
    (hlooks : ∀ d : Char, lo ≤ d.toNat → d.toNat ≤ hi → LooksLike c d) (hr : r.hasUnicodeLook = false)
    (h : r.canStart before (some c) lo hi = true) :
    ∃ d : Char, lo ≤ d.toNat ∧ d.toNat ≤ hi ∧ r.residuals before d ≠ [] := by
  induction r with
  | empty | look => cases h
  | chars set =>
    obtain ⟨d, hlo, hhi, hd⟩ := exists_of_meets set hle h
    refine ⟨d, hlo, hhi, ?_⟩
    rw [residuals, if_pos hd]
    exact List.cons_ne_nil _ _
  | seq a b iha ihb =>
    obtain ⟨ha, hb⟩ := Bool.or_eq_false_iff.mp hr
    rw [canStart, Bool.or_eq_true, Bool.and_eq_true] at h
    rcases h with h | ⟨hnullable, h⟩
    · obtain ⟨d, hlo, hhi, hd⟩ := iha ha h
      refine ⟨d, hlo, hhi, ?_⟩
      rw [residuals, ne_eq, List.append_eq_nil_iff, List.map_eq_nil_iff]
      exact fun hnil => hd hnil.1
    · obtain ⟨d, hlo, hhi, hd⟩ := ihb hb h
      refine ⟨d, hlo, hhi, ?_⟩
      -- whether nothing is matched depends on how the next character looks only
      rw [nullable_congr (hlooks d hlo hhi) ha] at hnullable
      rw [residuals, if_pos hnullable, ne_eq, List.append_eq_nil_iff]
      exact fun hnil => hd hnil.2
  | alt a b iha ihb =>
    obtain ⟨ha, hb⟩ := Bool.or_eq_false_iff.mp hr
    rw [canStart, Bool.or_eq_true] at h
    rcases h with h | h
    · obtain ⟨d, hlo, hhi, hd⟩ := iha ha h
      refine ⟨d, hlo, hhi, fun hnil => hd (List.append_eq_nil_iff.mp hnil).1⟩
    · obtain ⟨d, hlo, hhi, hd⟩ := ihb hb h
      refine ⟨d, hlo, hhi, fun hnil => hd (List.append_eq_nil_iff.mp hnil).2⟩
  | repeated r least most ih =>
    rw [canStart, Bool.and_eq_true, decide_eq_true_eq] at h
    obtain ⟨d, hlo, hhi, hd⟩ := ih hr h.2
    refine ⟨d, hlo, hhi, ?_⟩
    -- no turn need be skipped
    obtain ⟨k, hk⟩ : ∃ k, k ∈ skips before d r least := by
      rw [skips]
      split
      · exact ⟨0, List.mem_range.mpr (Nat.lt_of_lt_of_le Nat.one_pos (Nat.le_max_right ..))⟩
      · exact ⟨0, List.mem_singleton_self 0⟩
    obtain ⟨x, hx⟩ := List.exists_mem_of_ne_nil _ hd
    rw [residuals, if_neg h.1]
    exact List.ne_nil_of_mem (List.mem_flatMap.mpr ⟨k, hk, List.mem_map_of_mem hx⟩)

/-! ### Whole texts -/

/-- What is left after a text was read can end there if something matched it. -/
theorem exists_mem_run_iff {text : List Char} {rs : List Regex} (hrs : ∀ r ∈ rs, r.WellFormed) :
    (∃ rest ∈ run before text rs, rest.nullable (text.getLast?.or before) after = true) ↔
      ∃ r ∈ rs, r.Matches before text after := by
  induction text generalizing before rs with
  | nil =>
    exact exists_congr fun r => and_congr_right fun hr => (matches_nil_iff (hrs r hr)).symm
  | cons c cs ih =>
    rw [run, getLast?_cons_or, ih]
    · constructor
      · rintro ⟨x, hx, hmatch⟩
        obtain ⟨r, hr, hres⟩ := List.mem_flatMap.mp (List.mem_eraseDups.mp hx)
        exact ⟨r, hr, matches_of_residual (hrs r hr) hres hmatch⟩
      · rintro ⟨r, hr, hmatch⟩
        obtain ⟨x, hx, hmatch⟩ := hmatch.exists_residual
        exact ⟨x, List.mem_eraseDups.mpr (List.mem_flatMap.mpr ⟨r, hr, hx⟩), hmatch⟩
    · intro x hx
      obtain ⟨r, hr, hres⟩ := List.mem_flatMap.mp (List.mem_eraseDups.mp hx)
      exact (hrs r hr).of_mem_residuals hres

/-- **Whether an expression matches a whole text can be computed.** -/
theorem matchesAll_iff (hr : r.WellFormed) {text : List Char} :
    r.matchesAll text = true ↔ r.Matches none text none := by
  have hsingle : ∀ x ∈ [r], x.WellFormed := fun x hx => List.mem_singleton.mp hx ▸ hr
  rw [matchesAll, List.any_eq_true, ← Option.or_none (o := text.getLast?),
    exists_mem_run_iff hsingle]
  simp

end LRWorkbench.Regex
