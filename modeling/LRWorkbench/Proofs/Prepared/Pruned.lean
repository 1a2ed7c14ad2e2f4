import LRWorkbench.Proofs.Prepared.Relocation

/-!
# Rules that are not used

A grammar can be **pruned** of the rules that it does not use, and of their names in its conflict
groups. Nothing else is left out by preparing it, so that the pruned grammar is prepared to the same
symbols, productions and groups (`Grammar.prepare_pruned`).

The pruned grammar is relocated in the whole one. A name or a text that stands for a used rule, or for
none, stands for the same rule in both (`findIdx?_membersWhere`): names and texts are looked up from the
first rule on, and leaving out rules keeps the order of those that stay. What used rules refer to is
used, so that both searches for used rules meet the same ones.
-/

namespace LRWorkbench

/-! ### Some members of a list -/

section

variable {α : Type} {l : List α} {keep : Nat → Bool}

/-- The places of a list that are kept. -/
def placesWhere (keep : Nat → Bool) (l : List α) : List Nat := (List.range l.length).filter keep

/-- The members of a list that are kept. -/
def membersWhere (keep : Nat → Bool) (l : List α) : List α :=
  (placesWhere keep l).filterMap fun i => l[i]?

/-- Where a member that is kept was. Places behind the members that are kept were behind all. -/
def placeIn (keep : Nat → Bool) (l : List α) (k : Nat) : Nat :=
  (placesWhere keep l)[k]?.getD (l.length + k)

/-- The places that are kept are those in the list. -/
theorem mem_placesWhere {i : Nat} : i ∈ placesWhere keep l ↔ i < l.length ∧ keep i = true := by
  rw [placesWhere, List.mem_filter, List.mem_range]

/-- They are in ascending order. -/
theorem pairwise_placesWhere : (placesWhere keep l).Pairwise (· < ·) :=
  List.pairwise_lt_range.filter _

/-- The members that are kept stand at those places. -/
theorem map_getElem?_membersWhere (keep : Nat → Bool) (l : List α) :
    (membersWhere keep l).map some = (placesWhere keep l).map fun i => l[i]? := by
  have hall : ∀ places : List Nat, (∀ i ∈ places, i < l.length) →
      (places.filterMap fun i => l[i]?).map some = places.map fun i => l[i]? := by
    intro places
    induction places with
    | nil => exact fun _ => rfl
    | cons i rest ih =>
      intro hall
      obtain ⟨hlt, hrest⟩ := List.forall_mem_cons.mp hall
      rw [List.filterMap_cons, List.getElem?_eq_getElem hlt, List.map_cons, List.map_cons, ih hrest,
        List.getElem?_eq_getElem hlt]
  exact hall _ fun i hi => (mem_placesWhere.mp hi).1

theorem length_membersWhere : (membersWhere keep l).length = (placesWhere keep l).length := by
  simpa using congrArg List.length (map_getElem?_membersWhere keep l)

/-- They are in the order of the list. -/
theorem sublist_membersWhere : (membersWhere keep l).Sublist l := by
  have hall : l = (List.range l.length).filterMap fun i => l[i]? := by
    have hmap : ((List.range l.length).filterMap fun i => l[i]?) = membersWhere (fun _ => true) l := by
      rw [membersWhere, placesWhere, List.filter_true]
    have hsome := map_getElem?_membersWhere (fun _ => true) l
    rw [hmap]
    refine List.map_injective_iff.mpr (Option.some_injective α) ?_
    rw [hsome, placesWhere, List.filter_true]
    exact List.ext_getElem? fun i => by
      by_cases hlt : i < l.length <;> simp [hlt]
  conv_rhs => rw [hall]
  exact List.Sublist.filterMap _ List.filter_sublist

theorem placeIn_of_lt {k : Nat} (h : k < (placesWhere keep l).length) :
    placeIn keep l k = (placesWhere keep l)[k] := by
  rw [placeIn, List.getElem?_eq_getElem h, Option.getD_some]

/-- Kept members are found where they were. -/
theorem getElem?_placeIn (k : Nat) : l[placeIn keep l k]? = (membersWhere keep l)[k]? := by
  by_cases hlt : k < (placesWhere keep l).length
  · have hmap := congrArg (·[k]?) (map_getElem?_membersWhere keep l)
    simp only [List.getElem?_map, List.getElem?_eq_getElem hlt] at hmap
    rw [placeIn_of_lt hlt]
    obtain ⟨a, ha, hsome⟩ := Option.map_eq_some_iff.mp hmap
    rw [ha, hsome]
  · rw [placeIn, List.getElem?_eq_none (Nat.le_of_not_lt hlt), Option.getD_none,
      List.getElem?_eq_none (Nat.le_add_right ..),
      List.getElem?_eq_none (length_membersWhere.trans_le (Nat.le_of_not_lt hlt))]

/-- Where a member came from tells where it stands. -/
theorem strictMono_placeIn : StrictMono (placeIn keep l) := by
  intro j k hjk
  by_cases hk : k < (placesWhere keep l).length
  · rw [placeIn_of_lt hk, placeIn_of_lt (hjk.trans hk)]
    exact List.pairwise_iff_getElem.mp pairwise_placesWhere j k (hjk.trans hk) hk hjk
  · rw [placeIn, placeIn, List.getElem?_eq_none (Nat.le_of_not_lt hk), Option.getD_none]
    cases hj : (placesWhere keep l)[j]? with
    | none => exact Nat.add_lt_add_left hjk _
    | some i =>
      exact Nat.lt_add_right k (mem_placesWhere.mp (List.mem_of_getElem? hj)).1

/-- Every member that is kept has a place in what is left. -/
theorem exists_placeIn {i : Nat} (hlt : i < l.length) (hkeep : keep i = true) :
    ∃ k < (placesWhere keep l).length, placeIn keep l k = i := by
  obtain ⟨k, hk, hi⟩ := List.mem_iff_getElem.mp (mem_placesWhere.mpr ⟨hlt, hkeep⟩)
  exact ⟨k, hk, (placeIn_of_lt hk).trans hi⟩

theorem map_placeIn_range :
    (List.range (membersWhere keep l).length).map (placeIn keep l) = placesWhere keep l := by
  refine List.ext_getElem (by simp [length_membersWhere]) fun k _ hk => ?_
  rw [List.getElem_map, List.getElem_range, placeIn_of_lt hk]

/-- If the first member with a property is kept it is the first one of those that are. -/
theorem findIdx?_membersWhere (P : α → Bool) (hfirst : ∀ i, l.findIdx? P = some i → keep i = true) :
    l.findIdx? P = ((membersWhere keep l).findIdx? P).map (placeIn keep l) := by
  have hat : ∀ k a, (membersWhere keep l)[k]? = some a → l[placeIn keep l k]? = some a :=
    fun k a ha => (getElem?_placeIn k).trans ha
  cases hfound : l.findIdx? P with
  | none =>
    have hnone : (membersWhere keep l).findIdx? P = none :=
      List.findIdx?_eq_none_iff.mpr fun a ha =>
        List.findIdx?_eq_none_iff.mp hfound a (sublist_membersWhere.subset ha)
    rw [hnone, Option.map_none]
  | some i =>
    obtain ⟨hlt, hi, hbefore⟩ := List.findIdx?_eq_some_iff_getElem.mp hfound
    obtain ⟨k, hk, rfl⟩ := exists_placeIn hlt (hfirst i hfound)
    have hk' : k < (membersWhere keep l).length := length_membersWhere.symm ▸ hk
    have hget : ∀ j (hj : j < (membersWhere keep l).length), ∃ h : placeIn keep l j < l.length,
        l[placeIn keep l j] = (membersWhere keep l)[j] := fun j hj =>
      List.getElem?_eq_some_iff.mp (hat j _ (List.getElem?_eq_getElem hj))
    have hfirst' : (membersWhere keep l).findIdx? P = some k := by
      refine List.findIdx?_eq_some_iff_getElem.mpr ⟨hk', ?_, fun j hj => ?_⟩
      · obtain ⟨_, heq⟩ := hget k hk'
        rwa [← heq]
      · obtain ⟨_, heq⟩ := hget j (hj.trans hk')
        rw [← heq]
        exact hbefore _ (strictMono_placeIn hj)
    rw [hfirst', Option.map_some]

end

/-! ### A grammar without the rules that it does not use -/

namespace Grammar

variable {g : Grammar} {terminals : Terminals} {prepared : PreparedGrammar}

/-- Whether the rule at a place is used. -/
def isUsed (g : Grammar) (i : Nat) : Bool := g.usedRules.contains i

/-- Whether a name is one of a rule that is used. -/
def usesName (g : Grammar) (name : String) : Bool := (g.ruleIndex? name).any g.isUsed

/-- A grammar without the rules that it does not use, and without their names in conflict groups. -/
def pruned (g : Grammar) : Grammar :=
  { g with
    rules := membersWhere g.isUsed g.rules
    conflicts := g.conflicts.map fun names => names.filter g.usesName }

/-- Where a rule that is kept was. -/
def prunedFrom (g : Grammar) : Nat → Nat := placeIn g.isUsed g.rules

theorem isUsed_iff {i : Nat} : g.isUsed i = true ↔ i ∈ g.usedRules := by
  rw [isUsed, List.contains_iff_mem]

/-- The start rule is used, whatever refers to it. -/
theorem isUsed_zero : g.isUsed 0 = true :=
  isUsed_iff.mpr (Graph.mem_reachFrom_of_root (List.mem_cons_self ..))

/-- The rules of the pruned grammar stand at other places of the whole one. -/
theorem relocation_pruned (hstart : g.rules ≠ []) : Relocation g.pruned g g.prunedFrom where
  injective := strictMono_placeIn.injective
  start := by
    obtain ⟨k, -, hk⟩ := exists_placeIn (List.length_pos_iff.mpr hstart) g.isUsed_zero
    -- nothing is before the first place
    have hle : g.prunedFrom 0 ≤ g.prunedFrom k := strictMono_placeIn.monotone (Nat.zero_le k)
    exact Nat.le_zero.mp (hle.trans_eq hk)
  rules := fun k => getElem?_placeIn k
  externals := rfl

/-- A name that stands for a rule that is used, or for none, stands for the same rule. -/
theorem ruleIndex?_pruned {name : String}
    (hused : ∀ i, g.ruleIndex? name = some i → i ∈ g.usedRules) :
    g.ruleIndex? name = (g.pruned.ruleIndex? name).map g.prunedFrom :=
  findIdx?_membersWhere _ fun i hi => isUsed_iff.mpr (hused i hi)

/-- A text stands for the same rule if that is used. -/
theorem textRule?_pruned {text : String}
    (hused : ∀ i, g.textRule? text = some i → i ∈ g.usedRules) :
    g.textRule? text = (g.pruned.textRule? text).map g.prunedFrom :=
  findIdx?_membersWhere _ fun i hi => isUsed_iff.mpr (hused i hi)

/-- The rules that are kept are used. -/
theorem mem_usedRules_prunedFrom {k : Nat} (hk : k < g.pruned.rules.length) :
    g.prunedFrom k ∈ g.usedRules := by
  have hlt := hk.trans_eq length_membersWhere
  rw [prunedFrom, placeIn_of_lt hlt]
  exact isUsed_iff.mp (mem_placesWhere.mp (List.getElem_mem hlt)).2

/-! ### What used rules refer to is used -/

/-- The rules that an extra refers to. -/
def usedByExtra (g : Grammar) (extra : Rule) : List Nat :=
  extra.references.filterMap g.ruleIndex? ++
    match extra with
    | .literal text => (g.textRule? text).toList
    | _ => []

/-- What is used without being referred to: the start, what extras use, and the word. -/
theorem rootRules_eq : g.rootRules =
    0 :: (g.extras.flatMap g.usedByExtra ++ (g.word.bind g.ruleIndex?).toList) := rfl

/-- What an extra uses is used. -/
theorem mem_usedRules_of_extra {extra : Rule} (hextra : extra ∈ g.extras) {i : Nat}
    (hi : i ∈ g.usedByExtra extra) : i ∈ g.usedRules := by
  refine Graph.mem_reachFrom_of_root (List.mem_cons_of_mem _ (List.mem_append_left _ ?_))
  exact List.mem_flatMap.mpr ⟨extra, hextra, hi⟩

/-- So is the word. -/
theorem mem_usedRules_of_word {i : Nat} (h : g.word.bind g.ruleIndex? = some i) :
    i ∈ g.usedRules :=
  Graph.mem_reachFrom_of_root (List.mem_append_right _ (Option.mem_toList.mpr h))

/-- Names in rules that are used stand for the same rules. -/
theorem ruleIndex?_of_reference {k : Nat} (hk : g.prunedFrom k ∈ g.usedRules) {owner : String}
    {r : Rule} (hrule : g.pruned.rules[k]? = some (owner, r)) {name : String}
    (hname : name ∈ r.references) :
    g.ruleIndex? name = (g.pruned.ruleIndex? name).map g.prunedFrom :=
  ruleIndex?_pruned fun _ hj =>
    mem_usedRules_of_reference hk ((getElem?_placeIn k).trans hrule) hname hj

/-- The texts in a phrase that is used stand for rules that are used. -/
theorem textRule?_of_phrase {k : Nat} (hk : g.prunedFrom k ∈ g.usedRules) {owner : String}
    {r : Rule} (hrule : g.pruned.rules[k]? = some (owner, r)) (hphrase : r.isLexical = false)
    {text : String} (htext : text ∈ r.inlineTexts) :
    g.textRule? text = (g.pruned.textRule? text).map g.prunedFrom :=
  textRule?_pruned fun _ hj =>
    mem_usedRules_of_text hk ((getElem?_placeIn k).trans hrule) hphrase htext hj

/-- What a list of names and texts stands for is what it stands for in the pruned grammar. -/
theorem filterMap_eq_map {names : List String} {find find' : String → Option Nat}
    (h : ∀ name ∈ names, find name = (find' name).map g.prunedFrom) :
    names.filterMap find = (names.filterMap find').map g.prunedFrom := by
  rw [List.map_filterMap]
  exact List.filterMap_congr h

/-- A rule that is used refers to the same rules in the pruned grammar. -/
theorem uses_prunedFrom {k : Nat} (hk : g.prunedFrom k ∈ g.usedRules) :
    g.uses (g.prunedFrom k) = (g.pruned.uses k).map g.prunedFrom := by
  have hplace : g.rules[g.prunedFrom k]? = g.pruned.rules[k]? := getElem?_placeIn k
  rw [uses, hplace, uses]
  cases hrule : g.pruned.rules[k]? with
  | none => rfl
  | some entry =>
    obtain ⟨owner, r⟩ := entry
    dsimp only
    rw [List.map_append, filterMap_eq_map fun name hname => ruleIndex?_of_reference hk hrule hname]
    congr 1
    split
    · rfl
    · rename_i hphrase
      exact filterMap_eq_map fun text htext =>
        textRule?_of_phrase hk hrule (eq_false_of_ne_true hphrase) htext

/-- The names and the text of an extra stand for the same rules. -/
theorem keepsExtra_pruned {extra : Rule} (hextra : extra ∈ g.extras) :
    Relocation.KeepsExtra g.pruned g g.prunedFrom extra where
  references := fun name hname => ruleIndex?_pruned fun i hi =>
    mem_usedRules_of_extra hextra
      (List.mem_append_left _ (List.mem_filterMap.mpr ⟨name, hname, hi⟩))
  text := by
    rintro text rfl
    exact textRule?_pruned fun i hi =>
      mem_usedRules_of_extra hextra (List.mem_append_right _ (Option.mem_toList.mpr hi))

/-- So does an extra. -/
theorem usedByExtra_pruned {extra : Rule} (hextra : extra ∈ g.extras) :
    g.usedByExtra extra = (g.pruned.usedByExtra extra).map g.prunedFrom := by
  have hkeeps := keepsExtra_pruned hextra
  unfold usedByExtra
  rw [List.map_append, filterMap_eq_map hkeeps.references]
  congr 1
  split
  · rename_i text
    rw [hkeeps.text text rfl, Option.toList_map]
  · rfl

/-- The word is the same rule. -/
theorem word_pruned :
    g.word.bind g.ruleIndex? = (g.pruned.word.bind g.pruned.ruleIndex?).map g.prunedFrom := by
  cases hword : g.word with
  | none =>
    have hnone : g.pruned.word = none := hword
    rw [hnone]
    rfl
  | some name =>
    have hsome : g.pruned.word = some name := hword
    rw [hsome, Option.bind_some, Option.bind_some]
    exact ruleIndex?_pruned fun i hi => mem_usedRules_of_word (by rw [hword, Option.bind_some, hi])

/-- So the same rules are used in both grammars. -/
theorem rootRules_pruned (hstart : g.rules ≠ []) :
    g.rootRules = g.pruned.rootRules.map g.prunedFrom := by
  have hextras : g.extras.flatMap g.usedByExtra =
      (g.extras.flatMap g.pruned.usedByExtra).map g.prunedFrom := by
    rw [List.map_flatMap]
    exact List.flatMap_congr fun extra hextra => usedByExtra_pruned hextra
  have hpruned : g.pruned.extras = g.extras := rfl
  rw [rootRules_eq, rootRules_eq, hextras, word_pruned, hpruned, List.map_cons, List.map_append,
    (relocation_pruned hstart).start, Option.toList_map]

/-- All rules of the pruned grammar are used. -/
theorem mem_usedRules_pruned (hstart : g.rules ≠ []) {k : Nat} (hk : k < g.pruned.rules.length) :
    k ∈ g.pruned.usedRules := by
  have hfound : ∀ i ∈ g.usedRules,
      i ∈ g.usedRules ∧ ∃ k ∈ g.pruned.usedRules, g.prunedFrom k = i := by
    refine Graph.forall_mem_reachFrom ?_ fun i hi => ⟨Graph.mem_reachFrom_of_root hi, ?_⟩
    · rintro _ ⟨hi, k, hk, rfl⟩ j hj
      refine ⟨mem_usedRules_of_mem_uses hi hj, ?_⟩
      rw [uses_prunedFrom hi] at hj
      obtain ⟨k', hk', rfl⟩ := List.mem_map.mp hj
      exact ⟨k', mem_usedRules_of_mem_uses hk hk', rfl⟩
    · rw [rootRules_pruned hstart] at hi
      obtain ⟨k, hk, rfl⟩ := List.mem_map.mp hi
      exact ⟨k, Graph.mem_reachFrom_of_root hk, rfl⟩
  obtain ⟨-, k', hk', heq⟩ := hfound (g.prunedFrom k) (mem_usedRules_prunedFrom hk)
  rwa [← strictMono_placeIn.injective heq]

/-- The places of rules of some sort that are used are those in the pruned grammar. -/
theorem filter_isUsed (hstart : g.rules ≠ []) {P : Nat → Bool} {P' : Nat → Bool}
    (hP : ∀ k, P (g.prunedFrom k) = P' k) :
    (List.range g.rules.length).filter (fun i => g.usedRules.contains i && P i) =
      ((List.range g.pruned.rules.length).filter fun k =>
        g.pruned.usedRules.contains k && P' k).map g.prunedFrom := by
  have hall : ((List.range g.pruned.rules.length).filter fun k =>
      g.pruned.usedRules.contains k && P' k) = (List.range g.pruned.rules.length).filter P' := by
    refine List.filter_congr fun k hk => ?_
    rw [List.contains_iff_mem.mpr (mem_usedRules_pruned hstart (List.mem_range.mp hk)),
      Bool.true_and]
  have hkept : (List.range g.pruned.rules.length).map g.prunedFrom =
      placesWhere g.isUsed g.rules := map_placeIn_range
  have hcompose : P' = P ∘ g.prunedFrom := funext fun k => (hP k).symm
  rw [hall, hcompose, ← List.filter_map, hkept, placesWhere, List.filter_filter]
  exact List.filter_congr fun i _ => Bool.and_comm ..

/-- The rules that are used are those of the pruned grammar. -/
theorem covers_pruned (hstart : g.rules ≠ []) :
    Relocation.Covers g.pruned g g.prunedFrom where
  tokens := filter_isUsed hstart (relocation_pruned hstart).isLexicalAt
  phrases := filter_isUsed hstart fun k =>
    congrArg Bool.not ((relocation_pruned hstart).isLexicalAt k)
  keeps := by
    intro k hk name r hrule
    obtain ⟨-, -, -, hphrase⟩ := exists_of_mem_phraseRules hk
    rw [isLexicalAt, hrule] at hphrase
    have hused := mem_usedRules_prunedFrom (List.getElem?_eq_some_iff.mp hrule).choose
    exact ⟨fun _ hname => ruleIndex?_of_reference hused hrule hname,
      fun _ htext => textRule?_of_phrase hused hrule hphrase htext⟩
  extras := rfl
  keepsExtras := fun _ hextra => keepsExtra_pruned hextra
  word := word_pruned

/-! ### The names of the pruned grammar -/

/-- A name is used if the rule that it stands for is. -/
theorem usesName_iff {name : String} :
    g.usesName name = true ↔ ∃ i, g.ruleIndex? name = some i ∧ i ∈ g.usedRules := by
  rw [usesName, Option.any_eq_true]
  exact exists_congr fun i => and_congr_right' isUsed_iff

/-- A name that stands for a rule that is used is one in the pruned grammar. -/
theorem exists_ruleIndex?_pruned {name : String} {i : Nat} (hi : g.ruleIndex? name = some i)
    (hused : i ∈ g.usedRules) : ∃ k, g.pruned.ruleIndex? name = some k ∧ g.prunedFrom k = i := by
  have hindex := ruleIndex?_pruned fun j hj => Option.some.inj (hi.symm.trans hj) ▸ hused
  exact Option.map_eq_some_iff.mp (hindex.symm.trans hi)

/-- What is defined for names that stand for the same rules is defined in the pruned grammar. -/
theorem defines_pruned {name : String} (h : g.defines name = true)
    (hindex : g.ruleIndex? name = (g.pruned.ruleIndex? name).map g.prunedFrom) :
    g.pruned.defines name = true := by
  rw [defines, hindex, Option.isSome_map] at h
  exact h

theorem NamesFit.rules_ne_nil (h : g.NamesFit) : g.rules ≠ [] := by
  obtain ⟨start, hhead, -⟩ := h.start
  intro hnil
  rw [hnil] at hhead
  cases hhead

/-- The names of the pruned grammar pass the checks that those of the whole one pass. -/
theorem namesFit_pruned (h : g.NamesFit) : g.pruned.NamesFit := by
  obtain ⟨start, hhead, hphrase⟩ := h.start
  have hstart := h.rules_ne_nil
  obtain ⟨hnodup, -⟩ := nodup_of_firstRepeated? h.rules
  obtain ⟨hexternals, hnew⟩ := nodup_of_firstRepeated? h.externals
  have hnames : (g.pruned.rules.map (·.1)).Sublist (g.rules.map (·.1)) :=
    sublist_membersWhere.map _
  refine ⟨?_, ?_, ?_, ?_, ?_, ⟨start, ?_, hphrase⟩, ?_⟩
  · exact firstRepeated?_eq_none (hnodup.sublist hnames) fun _ _ => List.not_mem_nil
  · exact firstRepeated?_eq_none hexternals fun name hname hmem =>
      hnew name hname (hnames.subset hmem)
  · refine checkReferences_eq_ok.mpr fun entry hentry name hname => ?_
    obtain ⟨k, hk⟩ := List.mem_iff_getElem?.mp hentry
    have hused := mem_usedRules_prunedFrom (List.getElem?_eq_some_iff.mp hk).choose
    refine defines_pruned ?_ (ruleIndex?_of_reference hused hk hname)
    exact checkReferences_eq_ok.mp h.references entry (sublist_membersWhere.subset hentry) name hname
  · refine checkReferences_eq_ok.mpr fun entry hentry name hname => ?_
    obtain ⟨extra, hextra, rfl⟩ := List.mem_map.mp hentry
    have hkeeps : Relocation.KeepsExtra g.pruned g g.prunedFrom extra := keepsExtra_pruned hextra
    refine defines_pruned ?_ (hkeeps.references name hname)
    exact checkReferences_eq_ok.mp h.extras _ hentry name hname
  · intro name hname
    obtain ⟨names, hnames, hname⟩ := List.mem_flatten.mp hname
    obtain ⟨whole, -, rfl⟩ := List.mem_map.mp hnames
    obtain ⟨i, hi, hused⟩ := usesName_iff.mp (List.mem_filter.mp hname).2
    obtain ⟨k, hk, -⟩ := exists_ruleIndex?_pruned hi hused
    exact hk ▸ rfl
  · rw [List.head?_eq_getElem?, ← (relocation_pruned hstart).rules 0,
      (relocation_pruned hstart).start, ← List.head?_eq_getElem?, hhead]
  · intro name hname
    obtain ⟨i, hi, hlexical⟩ := h.word name hname
    have hword : g.word = some name := Option.mem_toList.mp hname
    have hused := mem_usedRules_of_word (g := g) (i := i) (by rw [hword, Option.bind_some, hi])
    obtain ⟨k, hk, rfl⟩ := exists_ruleIndex?_pruned hi hused
    exact ⟨k, hk, ((relocation_pruned hstart).isLexicalAt k).symm.trans hlexical⟩

end Grammar

/-! ### Conflict groups -/

namespace Flatten

variable {g : Grammar} {terminals : Terminals} {places : List Nat}

/-- Rules that are not used have no phrase kinds. -/
theorem phraseKind?_relocate_eq_none (hplaces : ∀ k ∈ places, k < g.pruned.rules.length) {i : Nat}
    (hi : i ∉ g.usedRules) :
    (Source.relocate ⟨g.pruned, terminals, places⟩ g g.prunedFrom).phraseKind? i = none := by
  refine List.findIdx?_eq_none_iff.mpr fun j hj => decide_eq_false ?_
  rintro rfl
  obtain ⟨k, hk, rfl⟩ := List.mem_map.mp hj
  exact hi (Grammar.mem_usedRules_prunedFrom (hplaces k hk))

/-- A group without the names of rules that are not used has the same members. -/
theorem groupMembers_pruned (hstart : g.rules ≠ [])
    (hplaces : ∀ k ∈ places, k < g.pruned.rules.length) {names : List String}
    {found members : List Nat}
    (h : groupMembers (Source.relocate ⟨g.pruned, terminals, places⟩ g g.prunedFrom) found names =
      .ok members) :
    groupMembers ⟨g.pruned, terminals, places⟩ found (names.filter g.usesName) = .ok members := by
  have hrelocation : Relocation (Source.grammar ⟨g.pruned, terminals, places⟩) g g.prunedFrom :=
    g.relocation_pruned hstart
  induction names generalizing found with
  | nil => exact h
  | cons name rest ih =>
    have hgrammar : (Source.relocate ⟨g.pruned, terminals, places⟩ g g.prunedFrom).grammar = g := rfl
    rw [groupMembers, hgrammar] at h
    -- A name of no rule, and one of a rule that is not used, stands for nothing in either grammar.
    cases hindex : g.ruleIndex? name with
    | none =>
      rw [hindex] at h
      rw [List.filter_cons_of_neg]
      · exact ih h
      · intro hname
        obtain ⟨i, hi, -⟩ := Grammar.usesName_iff.mp hname
        cases hi.symm.trans hindex
    | some i =>
      rw [hindex] at h
      dsimp only at h
      split at h
      · cases h
      rename_i hphrase
      by_cases hused : i ∈ g.usedRules
      · obtain ⟨k, hk, rfl⟩ := Grammar.exists_ruleIndex?_pruned hindex hused
        rw [phraseKind?_relocate hrelocation] at h
        rw [List.filter_cons_of_pos (Grammar.usesName_iff.mpr ⟨_, hindex, hused⟩), groupMembers, hk]
        dsimp only
        rw [if_neg (by rwa [← hrelocation.isLexicalAt])]
        exact ih h
      · rw [phraseKind?_relocate_eq_none hplaces hused, Option.toList_none, List.filter_nil,
          List.append_nil] at h
        rw [List.filter_cons_of_neg]
        · exact ih h
        · intro hname
          obtain ⟨j, hj, hmem⟩ := Grammar.usesName_iff.mp hname
          exact hused (Option.some.inj (hindex.symm.trans hj) ▸ hmem)

/-- The groups of conflicting rules are looked up alike, without the names of rules that are not
used. -/
theorem conflictGroups_pruned (hstart : g.rules ≠ [])
    (hplaces : ∀ k ∈ places, k < g.pruned.rules.length) {declared : List (List String)}
    {found groups : List (List Nat)}
    (h : conflictGroups (Source.relocate ⟨g.pruned, terminals, places⟩ g g.prunedFrom) found
      declared = .ok groups) :
    conflictGroups ⟨g.pruned, terminals, places⟩ found
      (declared.map fun names => names.filter g.usesName) = .ok groups := by
  induction declared generalizing found with
  | nil => exact h
  | cons names rest ih =>
    rw [conflictGroups] at h
    obtain ⟨members, hmembers, h⟩ := bind_eq_ok.mp h
    rw [List.map_cons, conflictGroups]
    exact bind_eq_ok.mpr ⟨members, groupMembers_pruned hstart hplaces hmembers, ih h⟩

end Flatten

namespace Grammar

open Flatten

variable {g : Grammar} {prepared : PreparedGrammar}

/-- **Rules that are not used have no effect**: without them, and without their names in conflict
groups, a grammar is prepared to the same symbols, productions and groups. -/
theorem prepare_pruned (h : g.prepare = .ok prepared) : g.pruned.prepare = .ok prepared := by
  obtain ⟨terminals, d, groups, hmade⟩ := prepare_eq_ok.mp h
  obtain rfl := hmade.eq
  have hfit := checkNames_eq_ok.mp hmade.named
  have hstart := hfit.rules_ne_nil
  have hrelocation := g.relocation_pruned hstart
  have hcovers := g.covers_pruned hstart
  -- both sources are the same apart from places
  have hterminals := hmade.numbered
  rw [hrelocation.terminals hcovers] at hterminals
  obtain ⟨terminals, hnumbered, rfl⟩ := map_eq_ok.mp hterminals
  have hsource : Source.mk g (terminals.relocate g.prunedFrom) (g.phraseRules g.usedRules) =
      Source.relocate ⟨g.pruned, terminals, g.pruned.phraseRules g.pruned.usedRules⟩ g
        g.prunedFrom := by
    rw [hcovers.phrases]
    rfl
  have hkinds := phraseKinds_relocate (s := ⟨g.pruned, terminals,
    g.pruned.phraseRules g.pruned.usedRules⟩) hrelocation
  have hcounted := hmade.counted
  have hflattened := hmade.flattened
  have hgrouped := hmade.grouped
  rw [hsource] at hcounted hflattened hgrouped
  rw [hkinds] at hcounted hflattened
  rw [hcovers.phrases, hrelocation.kindedRules, addRules_relocate hrelocation] at hflattened
  · refine prepare_eq_ok.mpr ⟨terminals, d, groups, checkNames_eq_ok.mpr (namesFit_pruned hfit),
      hnumbered, hcounted, hflattened, hmade.productive, ?_, rfl⟩
    refine conflictGroups_pruned hstart (fun k hk => ?_) hgrouped
    exact List.mem_range.mp (List.mem_filter.mp hk).1
  · intro e he
    obtain ⟨k, name, hk, hrule⟩ := mem_kindedRules.mp he
    exact hcovers.keeps k (List.mem_of_getElem? hk) name e.2 hrule

/-- Phrases of a letter and a tail, and another letter that only a rule without use has. -/
def leftovers : Grammar where
  name := "leftovers"
  rules := [("phrase", .seq [.literal "a", .reference "tail"]),
    ("loose", .seq [.literal "b", .reference "tail"]), ("letter", .literal "b"),
    ("tail", .choice [.blank, .literal "c"])]
  extras := []
  conflicts := [["loose", "tail"], ["loose"]]
  externals := []
  word := none

/-- The rule without use, its letter and its names in conflict groups can be left out. -/
theorem prepare_pruned_leftovers : ∃ prepared, leftovers.prepare = .ok prepared ∧
    leftovers.pruned.rules.map (·.1) = ["phrase", "tail"] ∧
    leftovers.pruned.conflicts = [["tail"], []] ∧ leftovers.pruned.prepare = .ok prepared := by
  have hprepares : leftovers.prepare.toOption.isSome = true := by decide +kernel
  obtain ⟨prepared, hprepared⟩ := Option.isSome_iff_exists.mp hprepares
  refine ⟨prepared, eq_ok_of_toOption hprepared, by decide +kernel, by decide +kernel, ?_⟩
  exact prepare_pruned (eq_ok_of_toOption hprepared)

end Grammar

end LRWorkbench
