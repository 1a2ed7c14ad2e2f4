import LRWorkbench.Proofs.Grammar.Refusals
import LRWorkbench.Proofs.Json.Writing

/-!
# Grammars and their documents

Every grammar has a document (`Grammar.document`), and every text of that document is read as the
grammar, if no two rules have one name and the document does not nest too deep.

What cannot be compiled is refused wherever it stands, with one exception: a rule is not looked at if a
later entry of the document has its name. All else that has the shape of a grammar is accepted
(`Grammar.ofDocument_document`).
-/

namespace LRWorkbench

/-! ### Documents of rules -/

/-- A rule of a document: an object with a `type`. -/
def Json.tagged (form : String) (members : List (String × Json)) : Json :=
  .object (("type", .text form) :: members)

namespace Json

/-- The values of an object nest no deeper than the object says. -/
theorem nesting_le_nestingOfMembers {members : List (String × Json)} {name : String} {v : Json}
    (h : (name, v) ∈ members) : v.nesting ≤ nestingOfMembers members := by
  induction members with
  | nil => cases h
  | cons m members ih =>
    rcases List.mem_cons.mp h with rfl | h
    · exact Nat.le_max_left ..
    · exact Nat.le_trans (ih h) (Nat.le_max_right ..)

theorem nesting_tagged (form : String) (members : List (String × Json)) :
    (tagged form members).nesting = nestingOfMembers members + 1 := by
  simp [tagged, nesting, nestingOfMembers]

end Json

namespace Rule

open Json (tagged nesting_tagged)

/-- The form of a level of precedence. -/
def precForm : Option Assoc → String
  | none => "PREC"
  | some .left => "PREC_LEFT"
  | some .right => "PREC_RIGHT"

mutual

/-- The document of a rule. -/
def document : Rule → Json
  | blank => tagged "BLANK" []
  | literal text => tagged "STRING" [("value", .text text)]
  | pattern value none => tagged "PATTERN" [("value", .text value)]
  | pattern value (some flags) => tagged "PATTERN" [("value", .text value), ("flags", .text flags)]
  | reference name => tagged "SYMBOL" [("name", .text name)]
  | seq members => tagged "SEQ" [("members", .list (documents members))]
  | choice members => tagged "CHOICE" [("members", .list (documents members))]
  | zeroOrMore content => tagged "REPEAT" [("content", document content)]
  | oneOrMore content => tagged "REPEAT1" [("content", document content)]
  | field name content => tagged "FIELD" [("name", .text name), ("content", document content)]
  | token content => tagged "TOKEN" [("content", document content)]
  | prec assoc level content =>
    tagged (precForm assoc) [("value", .int level), ("content", document content)]

/-- The documents of some rules. -/
def documents : List Rule → List Json
  | [] => []
  | r :: rs => document r :: documents rs

end

mutual

/-- Whether all levels of precedence in a rule are integers of 32 bits. -/
def HasLevels : Rule → Prop
  | blank | literal _ | pattern _ _ | reference _ => True
  | seq members | choice members => HaveLevels members
  | zeroOrMore content | oneOrMore content | field _ content | token content => HasLevels content
  | prec _ level content => (-2147483648 ≤ level ∧ level ≤ 2147483647) ∧ HasLevels content

/-- Whether all levels of precedence in some rules are integers of 32 bits. -/
def HaveLevels : List Rule → Prop
  | [] => True
  | r :: rs => HasLevels r ∧ HaveLevels rs

end

mutual

/-- What the document of a rule is read as. -/
def shape : Rule → RuleDoc
  | blank => .blank
  | literal text => .literal text
  | pattern value flags => .pattern value flags
  | reference name => .reference name
  | seq members => .seq (shapes members)
  | choice members => .choice (shapes members)
  | zeroOrMore content => .zeroOrMore (shape content)
  | oneOrMore content => .oneOrMore (shape content)
  | field name content => .field name (shape content)
  | token content => .token (shape content)
  | prec assoc level content => .prec assoc (.number level) (shape content)

def shapes : List Rule → List RuleDoc
  | [] => []
  | r :: rs => shape r :: shapes rs

end

mutual

/-- The shape of a rule is that rule, whatever levels it has. -/
theorem toRule_shape (r : Rule) : r.shape.toRule = .ok r := by
  match r with
  | blank | literal _ | pattern _ _ | reference _ => rfl
  | seq members =>
    rw [shape, RuleDoc.toRule, toRules_shapes members]
    rfl
  | choice members =>
    rw [shape, RuleDoc.toRule, toRules_shapes members]
    rfl
  | zeroOrMore content | oneOrMore content | field name content | token content |
    prec assoc level content =>
    rw [shape, RuleDoc.toRule, toRule_shape content]
    rfl

theorem toRules_shapes (rs : List Rule) : RuleDoc.toRules (shapes rs) = .ok rs := by
  match rs with
  | [] => rfl
  | r :: rs =>
    rw [shapes, RuleDoc.toRules, toRule_shape r, toRules_shapes rs]
    rfl

end

/-- What stands in a tagged object is one level less deep, so the depth that is left suffices for
it. -/
theorem nesting_le_of_tagged {form name : String} {members : List (String × Json)} {v : Json}
    {depth : Nat} (h : (tagged form members).nesting ≤ depth + 1) (hv : (name, v) ∈ members) :
    v.nesting ≤ depth := by
  rw [nesting_tagged] at h
  exact Nat.le_trans (Json.nesting_le_nestingOfMembers hv) (Nat.le_of_succ_le_succ h)

theorem nestingOf_le_of_tagged {form : String} {vs : List Json} {depth : Nat}
    (h : (tagged form [("members", .list vs)]).nesting ≤ depth + 1) : Json.nestingOf vs ≤ depth := by
  have hlist := nesting_le_of_tagged h (List.mem_singleton_self _)
  rw [Json.nesting] at hlist
  exact Nat.le_of_succ_le hlist

/-- The document of a rule is an object, which takes a level itself. -/
theorem exists_of_nesting_document {r : Rule} {depth : Nat} (h : r.document.nesting ≤ depth) :
    ∃ n, depth = n + 1 := by
  cases depth with
  | succ n => exact ⟨n, rfl⟩
  | zero =>
    revert h
    fun_cases document r <;> simp [nesting_tagged]

mutual

/-- The document of a rule is read with as many levels as it nests. -/
theorem ofJson?_document (r : Rule) (hr : r.HasLevels) {depth : Nat} (nested : Bool)
    (hdepth : r.document.nesting ≤ depth) :
    RuleDoc.ofJson? depth nested r.document = some r.shape := by
  obtain ⟨depth, rfl⟩ : ∃ n, depth = n + 1 := exists_of_nesting_document hdepth
  match r with
  | blank | literal _ | reference _ | pattern _ none | pattern _ (some _) => rfl
  | seq members =>
    have hread := mapM_documents members hr true (nestingOf_le_of_tagged hdepth)
    change ((documents members).mapM (RuleDoc.ofJson? depth true)).map _ = _
    rw [hread]
    rfl
  | choice members =>
    have hread := mapM_documents members hr true (nestingOf_le_of_tagged hdepth)
    change ((documents members).mapM (RuleDoc.ofJson? depth true)).map _ = _
    rw [hread]
    rfl
  | zeroOrMore content | oneOrMore content | token content =>
    have hread := ofJson?_document content hr true
      (nesting_le_of_tagged hdepth (List.mem_singleton_self _))
    change (RuleDoc.ofJson? depth true content.document).map _ = _
    rw [hread]
    rfl
  | field name content =>
    have hread := ofJson?_document content hr true
      (nesting_le_of_tagged hdepth (List.mem_cons_of_mem _ (List.mem_singleton_self _)))
    change (RuleDoc.ofJson? depth true content.document).bind _ = _
    rw [hread]
    rfl
  | prec assoc level content =>
    have hread := ofJson?_document content hr.2 true
      (nesting_le_of_tagged hdepth (List.mem_cons_of_mem _ (List.mem_singleton_self _)))
    have hlevel : RuleDoc.level? (some (.int level)) = some (.number level) := if_pos hr.1
    rcases assoc with _ | _ | _
    all_goals
      change (RuleDoc.level? (some (.int level))).bind (fun l =>
        (RuleDoc.ofJson? depth true content.document).bind _) = _
      rw [hlevel]
      change (RuleDoc.ofJson? depth true content.document).bind _ = _
      rw [hread]
      rfl

/-- A list of rules is read back if each of them is. -/
theorem mapM_documents (rs : List Rule) (hrs : HaveLevels rs) {depth : Nat} (nested : Bool)
    (hdepth : Json.nestingOf (documents rs) ≤ depth) :
    (documents rs).mapM (RuleDoc.ofJson? depth nested) = some (shapes rs) := by
  match rs with
  | [] => rfl
  | r :: rs =>
    obtain ⟨hfirst, hrest⟩ := Nat.max_le.mp hdepth
    rw [documents, List.mapM_cons, ofJson?_document r hrs.1 nested hfirst]
    change Option.bind ((documents rs).mapM (RuleDoc.ofJson? depth nested)) _ = _
    rw [mapM_documents rs hrs.2 nested hrest]
    rfl

end

mutual

/-- The documents have no numbers but precedence levels, which fit 32 bits. -/
theorem isExact_document (r : Rule) (hr : r.HasLevels) : r.document.IsExact := by
  match r with
  | blank | literal _ | reference _ | pattern _ none | pattern _ (some _) =>
    simp [document, Json.tagged, Json.IsExact, Json.MembersExact]
  | seq members | choice members => exact ⟨trivial, allExact_documents members hr, trivial⟩
  | zeroOrMore content | oneOrMore content | token content =>
    exact ⟨trivial, isExact_document content hr, trivial⟩
  | field name content => exact ⟨trivial, trivial, isExact_document content hr, trivial⟩
  | prec assoc level content =>
    refine ⟨trivial, ?_, isExact_document content hr.2, trivial⟩
    have hlevel := hr.1
    constructor <;> omega

theorem allExact_documents (rs : List Rule) (hrs : HaveLevels rs) : Json.AllExact (documents rs) := by
  match rs with
  | [] => trivial
  | r :: rs => exact ⟨isExact_document r hrs.1, allExact_documents rs hrs.2⟩

end

end Rule

/-! ### Documents of grammars -/

namespace Grammar

/-- The members of the document of a grammar. -/
def documentMembers (g : Grammar) : List (String × Json) :=
  ("name", .text g.name) ::
    (g.word.map fun word => ("word", Json.text word)).toList ++
    [("rules", .object (g.rules.map fun entry => (entry.1, entry.2.document))),
      ("extras", .list (Rule.documents g.extras)),
      ("conflicts", .list (g.conflicts.map fun group => .list (group.map .text))),
      ("precedences", .list []),
      ("externals", .list (g.externals.map fun name => Rule.document (.reference name))),
      ("inline", .list []), ("supertypes", .list []), ("reserved", .object [])]

/-- The document of a grammar. -/
def document (g : Grammar) : Json := .object g.documentMembers

/-- Whether all levels of precedence in a grammar are integers of 32 bits. -/
structure HasLevels (g : Grammar) : Prop where
  rules : ∀ entry ∈ g.rules, entry.2.HasLevels
  extras : Rule.HaveLevels g.extras

/-- What the document of a grammar is read as. -/
def shape (g : Grammar) : GrammarDoc where
  name := g.name
  rules := g.rules.map fun entry => (entry.1, entry.2.shape)
  extras := Rule.shapes g.extras
  externals := g.externals.map .reference
  conflicts := g.conflicts
  word := g.word
  precedences := []
  inlined := []
  supertypes := []
  reserved := []
  inherits := none

variable {g : Grammar}

theorem toGrammar_shape (g : Grammar) : g.shape.toGrammar = .ok g := by
  have hrules : g.shape.rules.mapM (fun entry => do
      let r ← entry.2.toRule
      return (entry.1, r)) = .ok (g.rules.map id) := by
    refine mapM_map_eq_pure fun entry _ => ?_
    rw [Rule.toRule_shape]
    rfl
  have hexternals : g.shape.externals.mapM GrammarDoc.externalName = .ok (g.externals.map id) :=
    mapM_map_eq_pure fun _ _ => rfl
  rw [List.map_id] at hrules hexternals
  rw [GrammarDoc.toGrammar]
  change (g.shape.rules.mapM _ >>= fun rules => RuleDoc.toRules (Rule.shapes g.extras) >>=
    fun extras => g.shape.externals.mapM GrammarDoc.externalName >>= _) = _
  rw [hrules, Rule.toRules_shapes, hexternals]
  rfl

/-- The members of a document in their fixed order. -/
theorem layOut?_document (g : Grammar) : RuleDoc.layOut? GrammarDoc.memberNames g.document = some
    [some (.text g.name), some (.object (g.rules.map fun entry => (entry.1, entry.2.document))),
      some (.list (Rule.documents g.extras)),
      some (.list (g.externals.map fun name => Rule.document (.reference name))),
      some (.list (g.conflicts.map fun group => .list (group.map .text))), g.word.map .text,
      some (.list []), some (.list []), some (.list []), some (.object []), none] := by
  obtain ⟨name, rules, extras, conflicts, externals, word⟩ := g
  cases word <;> rfl

/-- Entries with different names replace none and keep their order. -/
theorem foldl_putEntry_of_nodup {α : Type} {entries later : List (String × α)}
    (h : ((entries ++ later).map (·.1)).Nodup) :
    later.foldl GrammarDoc.putEntry entries = entries ++ later := by
  induction later generalizing entries with
  | nil => exact (List.append_nil entries).symm
  | cons entry later ih =>
    have hnew : ¬(entries.any fun e => e.1 = entry.1) = true := by
      intro hany
      obtain ⟨e, he, hname⟩ := List.any_eq_true.mp hany
      rw [List.map_append, List.map_cons] at h
      exact (List.nodup_append.mp h).2.2 e.1 (List.mem_map_of_mem he) entry.1 (List.mem_cons_self ..)
        (of_decide_eq_true hname)
    rw [List.foldl_cons, GrammarDoc.putEntry, if_neg hnew, ih, List.append_assoc]
    · rfl
    · rwa [List.append_assoc]

/-- Entries of different names are all kept, in their order. -/
theorem entriesOr?_of_nodup {α : Type} {rules : List (String × Rule)} {item : Json → Option α}
    {made : Rule → α} (hnames : (rules.map (·.1)).Nodup)
    (hitem : ∀ entry ∈ rules, item entry.2.document = some (made entry.2)) :
    GrammarDoc.entriesOr? item (some (.object (rules.map fun entry => (entry.1, entry.2.document)))) =
      some (rules.map fun entry => (entry.1, made entry.2)) := by
  have hmade : (rules.map fun entry => (entry.1, entry.2.document)).mapM (fun m => do
      let value ← item m.2
      return (m.1, value)) = some (rules.map fun entry => (entry.1, made entry.2)) := by
    refine mapM_map_eq_pure fun entry hentry => ?_
    rw [hitem entry hentry]
    rfl
  rw [GrammarDoc.entriesOr?, hmade]
  refine congrArg some (foldl_putEntry_of_nodup ?_)
  rw [List.nil_append, List.map_map]
  exact hnames

/-- No member of the document is an unknown one. -/
theorem mem_memberNames_of_mem {m : String × Json} (h : m ∈ g.documentMembers) :
    m.1 ∈ GrammarDoc.memberNames := by
  have hnames : ∀ name ∈ g.documentMembers.map (·.1), name ∈ GrammarDoc.memberNames := by
    obtain ⟨name, rules, extras, conflicts, externals, _ | word⟩ := g <;>
      simp [documentMembers, GrammarDoc.memberNames]
  exact hnames m.1 (List.mem_map_of_mem h)

theorem mem_documentMembers_rules (g : Grammar) : ("rules",
    .object (g.rules.map fun entry => (entry.1, entry.2.document))) ∈ g.documentMembers :=
  List.mem_append_right _ (List.mem_cons_self ..)

theorem mem_documentMembers_extras (g : Grammar) :
    ("extras", .list (Rule.documents g.extras)) ∈ g.documentMembers :=
  List.mem_append_right _ (List.mem_cons_of_mem _ (List.mem_cons_self ..))

/-- The document of a grammar is read as such. -/
theorem ofJson?_document (hnames : (g.rules.map (·.1)).Nodup) (hlevels : g.HasLevels)
    (hnesting : g.document.nesting ≤ Json.nestingLimit) :
    GrammarDoc.ofJson? g.document = some g.shape := by
  have hmember {name : String} {v : Json} (h : (name, v) ∈ g.documentMembers) :
      v.nesting + 1 ≤ Json.nestingLimit :=
    Nat.le_trans (Nat.succ_le_succ (Json.nesting_le_nestingOfMembers h)) hnesting
  have hrules : GrammarDoc.entriesOr? (RuleDoc.ofJson? Json.nestingLimit false)
      (some (.object (g.rules.map fun entry => (entry.1, entry.2.document)))) =
        some g.shape.rules := by
    refine entriesOr?_of_nodup hnames fun entry hentry => ?_
    have hle := hmember g.mem_documentMembers_rules
    have hinside := Json.nesting_le_nestingOfMembers
      (List.mem_map.mpr ⟨entry, hentry, rfl⟩ : (entry.1, entry.2.document) ∈
        g.rules.map fun entry => (entry.1, entry.2.document))
    rw [Json.nesting] at hle
    exact Rule.ofJson?_document entry.2 (hlevels.rules entry hentry) false (by omega)
  have hextras : GrammarDoc.listOr? (RuleDoc.ofJson? Json.nestingLimit false)
      (some (.list (Rule.documents g.extras))) = some g.shape.extras := by
    refine Rule.mapM_documents g.extras hlevels.extras false ?_
    have hle := hmember g.mem_documentMembers_extras
    rw [Json.nesting] at hle
    omega
  have hexternals : GrammarDoc.listOr? (RuleDoc.ofJson? Json.nestingLimit false)
      (some (.list (g.externals.map fun name => Rule.document (.reference name)))) =
        some g.shape.externals :=
    mapM_map_eq_pure fun _ _ => rfl
  have hconflicts : GrammarDoc.listOr? GrammarDoc.texts?
      (some (.list (g.conflicts.map fun group => .list (group.map .text)))) =
        some (g.conflicts.map id) := by
    refine mapM_map_eq_pure fun group _ => ?_
    have htexts : (group.map Json.text).mapM GrammarDoc.plainText? = some (group.map id) :=
      mapM_map_eq_pure fun _ _ => rfl
    rw [List.map_id] at htexts
    exact htexts
  have hword : RuleDoc.optionalText? (g.word.map .text) = some g.word := by
    cases g.word <;> rfl
  rw [List.map_id] at hconflicts
  rw [GrammarDoc.ofJson?, layOut?_document]
  change (GrammarDoc.entriesOr? _ _).bind _ = _
  rw [hrules]
  change (GrammarDoc.listOr? _ (some (.list (Rule.documents g.extras)))).bind _ = _
  rw [hextras]
  change (GrammarDoc.listOr? _ (some (.list (g.externals.map _)))).bind _ = _
  rw [hexternals]
  change (GrammarDoc.listOr? _ (some (.list (g.conflicts.map _)))).bind _ = _
  rw [hconflicts]
  change (RuleDoc.optionalText? (g.word.map .text)).bind _ = _
  rw [hword]
  rfl

theorem isExact_document (hlevels : g.HasLevels) : g.document.IsExact := by
  have hrules : (Json.object (g.rules.map fun entry => (entry.1, entry.2.document))).IsExact := by
    rw [Json.IsExact, Json.membersExact_iff]
    intro m hm
    obtain ⟨entry, hentry, rfl⟩ := List.mem_map.mp hm
    exact Rule.isExact_document entry.2 (hlevels.rules entry hentry)
  have hextras := Rule.allExact_documents g.extras hlevels.extras
  have hconflicts : (Json.list (g.conflicts.map fun group => .list (group.map .text))).IsExact := by
    rw [Json.IsExact, Json.allExact_iff]
    intro v hv
    obtain ⟨group, -, rfl⟩ := List.mem_map.mp hv
    rw [Json.IsExact, Json.allExact_iff]
    intro w hw
    obtain ⟨name, -, rfl⟩ := List.mem_map.mp hw
    trivial
  have hexternals :
      (Json.list (g.externals.map fun name => Rule.document (.reference name))).IsExact := by
    rw [Json.IsExact, Json.allExact_iff]
    intro v hv
    obtain ⟨name, -, rfl⟩ := List.mem_map.mp hv
    exact Rule.isExact_document (.reference name) trivial
  obtain ⟨name, rules, extras, conflicts, externals, _ | word⟩ := g
  · exact ⟨trivial, hrules, hextras, hconflicts, trivial, hexternals, trivial, trivial, trivial,
      trivial⟩
  · exact ⟨trivial, trivial, hrules, hextras, hconflicts, trivial, hexternals, trivial, trivial,
      trivial, trivial⟩

/-- **Grammar documents.** A text of the document of a grammar is read as the grammar, if its rules
have different names and the document nests less deep than the limit; there always is such a text. What
is read of a text is refused if it asks for something that cannot be compiled, and only then or if it
has not the shape of a grammar. -/
theorem ofDocument_document (text : List Char) :
    (∀ g : Grammar, (g.rules.map (·.1)).Nodup → g.HasLevels → g.document.nesting < Json.nestingLimit →
      Json.IsDocument g.document g.document.write ∧
        (Json.IsDocument g.document text → ofDocument text = .ok g)) ∧
    ∀ v, Json.read? (· ∈ GrammarDoc.memberNames) text = some v →
      (GrammarDoc.IsRefused v → ∃ e, ofDocument text = .error e) ∧
        ((GrammarDoc.ofJson? v).isSome → ¬GrammarDoc.IsRefused v → ∃ g, ofDocument text = .ok g) := by
  constructor
  · intro g hnames hlevels hnesting
    refine ⟨Json.isDocument_write (isExact_document hlevels), fun htext => ?_⟩
    have hread : Json.read? (· ∈ GrammarDoc.memberNames) text = some g.document := by
      refine Json.read?_of_isDocument htext hnesting fun ms hms m hm => ?_
      cases hms
      exact decide_eq_true (mem_memberNames_of_mem hm)
    rw [ofDocument, hread, Option.bind_some, ofJson?_document hnames hlevels (Nat.le_of_lt hnesting)]
    exact toGrammar_shape g
  · intro v hread
    rw [ofDocument, hread, Option.bind_some]
    cases hd : GrammarDoc.ofJson? v with
    | none => exact ⟨fun _ => ⟨_, rfl⟩, nofun⟩
    | some d =>
      have hiff := GrammarDoc.exists_toGrammar_iff hd
      refine ⟨fun hrefused => ?_, fun _ hno => hiff.mpr hno⟩
      cases hg : d.toGrammar with
      | error e => exact ⟨e, hg⟩
      | ok g => exact absurd hrefused (hiff.mp ⟨g, hg⟩)

/-- A grammar of sums, with a level of precedence, fields, an extra and an external token. -/
def sums : Grammar where
  name := "sums"
  rules := [
    ("sum", .choice [.reference "number", .prec (some .left) (-1) (.seq
      [.field "left" (.reference "sum"), .literal "+", .field "right" (.reference "sum")])]),
    ("number", .token (.oneOrMore (.pattern "[0-9]" none)))]
  extras := [.pattern "\\s" (some "i")]
  conflicts := [["sum", "number"]]
  externals := ["end"]
  word := none

/-- A rule with an alias inside it, in what the second member of a sequence repeats. -/
def aliasedRule : Json :=
  .tagged "SEQ" [("members", .list [.tagged "STRING" [("value", .text "a")],
    .tagged "REPEAT" [("content", .tagged "ALIAS" [])]])]

def aliased : Json :=
  .object [("name", .text "aliased"), ("rules", .object [("phrase", aliasedRule)])]

/-- The document holds an alias, which can not be compiled. -/
theorem isRefused_aliased : GrammarDoc.IsRefused aliased := by
  have hrepeat : RuleDoc.Child (.tagged "ALIAS" [])
      (.tagged "REPEAT" [("content", .tagged "ALIAS" [])]) :=
    .content ⟨_, List.mem_cons_self .., rfl⟩ (by decide)
      (List.mem_cons_of_mem _ (List.mem_cons_self ..))
  have hseq : RuleDoc.Child (.tagged "REPEAT" [("content", .tagged "ALIAS" [])]) aliasedRule :=
    .member ⟨_, List.mem_cons_self .., rfl⟩ (by decide)
      (List.mem_cons_of_mem _ (List.mem_cons_self ..))
      (List.mem_cons_of_mem _ (List.mem_cons_self ..))
  have halias : RuleDoc.IsUnsupported (.tagged "ALIAS" []) :=
    .form ⟨_, List.mem_cons_self .., rfl⟩ (List.mem_cons_self ..)
  have hrules : aliased.Holds GrammarDoc.memberNames "rules"
      (.object ([] ++ [("phrase", aliasedRule)])) :=
    List.mem_cons_of_mem _ (List.mem_cons_self ..)
  exact .rule hrules nofun (.tail (.single hrepeat) hseq) halias

theorem ofDocument_document_sums : ofDocument sums.document.write = .ok sums ∧
    ∃ e, ofDocument aliased.write = .error e := by
  have hnames : (sums.rules.map (·.1)).Nodup := by decide
  have hlevels : sums.HasLevels := by
    constructor <;> simp [sums, Rule.HasLevels, Rule.HaveLevels]
  have hexact : aliased.IsExact := by
    simp [aliased, aliasedRule, Json.tagged, Json.IsExact, Json.MembersExact, Json.AllExact]
  have haliased : Json.read? (· ∈ GrammarDoc.memberNames) aliased.write = some aliased := by
    refine Json.read?_write hexact (by decide) fun ms hms => ?_
    cases hms
    decide
  obtain ⟨htext, hread⟩ := (ofDocument_document sums.document.write).1 sums hnames hlevels (by decide)
  exact ⟨hread htext, ((ofDocument_document aliased.write).2 aliased haliased).1 isRefused_aliased⟩

/-- A document with two rules of one name, the first of which is an alias. -/
def renamed : Json :=
  .object [("name", .text "names"), ("rules", .object [
    ("phrase", .tagged "ALIAS" [("content", .tagged "STRING" [("value", .text "a")]),
      ("named", .bool true), ("value", .text "b")]),
    ("phrase", .tagged "STRING" [("value", .text "a")])])]

/-- A document may be accepted although one of its rules cannot be compiled. -/
theorem not_refused_renamed : ¬∀ text v, Json.read? (· ∈ GrammarDoc.memberNames) text = some v →
    (∃ entries entry, v.Holds GrammarDoc.memberNames "rules" (.object entries) ∧ entry ∈ entries ∧
      RuleDoc.IsUnsupported entry.2) → ∃ e, ofDocument text = .error e := by
  intro hrefused
  have hexact : renamed.IsExact := by
    simp [renamed, Json.tagged, Json.IsExact, Json.MembersExact]
  have hread : Json.read? (· ∈ GrammarDoc.memberNames) renamed.write = some renamed := by
    refine Json.read?_write hexact (by decide) fun ms hms => ?_
    cases hms
    decide
  have halias : ∃ entries entry, renamed.Holds GrammarDoc.memberNames "rules" (.object entries) ∧
      entry ∈ entries ∧ RuleDoc.IsUnsupported entry.2 :=
    ⟨_, _, List.mem_cons_of_mem _ (List.mem_cons_self ..), List.mem_cons_self ..,
      .form ⟨_, List.mem_cons_self .., rfl⟩ (List.mem_cons_self ..)⟩
  obtain ⟨e, he⟩ := hrefused renamed.write renamed hread halias
  rw [ofDocument, hread] at he
  cases he

end Grammar

end LRWorkbench
