import LRWorkbench.Grammar.Basic
import LRWorkbench.Grammar.Error
import LRWorkbench.Json.Reader

/-!
# Grammars from JSON documents

A grammar document names the grammar and its rules; every rule is an object whose `type` tells its
form. Reading has two stages: the **shape** of the document is checked first (`RuleDoc`,
`GrammarDoc`), so a malformed document is refused whatever else it holds; then its **meaning** is
worked out, and constructs that cannot be compiled are refused by name rather than dropped.

Where an object is expected, a list of the members' values in their fixed order will do.
-/

namespace LRWorkbench

/-- A level of precedence as a document gives it. -/
inductive LevelDoc where
  | number (level : Int)
  | named (name : String)
  deriving Repr

/-- A rule as a document gives it. -/
inductive RuleDoc where
  | blank
  | literal (text : String)
  | pattern (value : String) (flags : Option String)
  | reference (name : String)
  | seq (members : List RuleDoc)
  | choice (members : List RuleDoc)
  | zeroOrMore (content : RuleDoc)
  | oneOrMore (content : RuleDoc)
  | field (name : String) (content : RuleDoc)
  | token (content : RuleDoc)
  | prec (assoc : Option Assoc) (level : LevelDoc) (content : RuleDoc)
  /-- A form that cannot be compiled. -/
  | refused (form : String)
  deriving Repr, Inhabited

namespace RuleDoc

/-- The forms of rules, in the order they are numbered. -/
def forms : List String :=
  ["BLANK", "STRING", "PATTERN", "SYMBOL", "SEQ", "CHOICE", "REPEAT", "REPEAT1", "FIELD", "TOKEN",
    "PREC", "PREC_LEFT", "PREC_RIGHT", "ALIAS", "IMMEDIATE_TOKEN", "PREC_DYNAMIC", "RESERVED"]

/-- The names of the members that a form takes, in their fixed order. -/
def memberNames (form : String) : List String :=
  if form = "STRING" then ["value"]
  else if form = "PATTERN" then ["value", "flags"]
  else if form = "SYMBOL" then ["name"]
  else if form ∈ ["SEQ", "CHOICE"] then ["members"]
  else if form ∈ ["REPEAT", "REPEAT1", "TOKEN"] then ["content"]
  else if form = "FIELD" then ["name", "content"]
  else if form ∈ ["PREC", "PREC_LEFT", "PREC_RIGHT"] then ["value", "content"]
  else []

/-- The form that a `type` names. Inside another rule its number will do. -/
def formOf? (nested : Bool) : Json → Option String
  | .text name => if name ∈ forms then some name else none
  | .int n => if nested ∧ 0 ≤ n then forms[n.toNat]? else none
  | _ => none

/-- The one value of a name that must not be given twice; `some none` when it is absent. -/
def single? (name : String) (members : List (String × Json)) : Option (Option Json) :=
  match Json.valuesOf name members with
  | [] => some none
  | [value] => some (some value)
  | _ => none

/-- Lays out the members of an object, or the items of a list, in a fixed order. -/
def layOut? (names : List String) : Json → Option (List (Option Json))
  | .object members => names.mapM fun name => single? name members
  | .list items =>
    if items.length ≤ names.length then
      some (items.map some ++ List.replicate (names.length - items.length) none)
    else none
  | _ => none

/-- The form of a rule and what it holds besides. -/
def split? (nested : Bool) : Json → Option (String × Json)
  | .object members => do
    let type ← (← single? "type" members)
    let form ← formOf? nested type
    return (form, .object (members.filter fun m => m.1 ≠ "type"))
  | .list (type :: items) => do
    let form ← formOf? nested type
    return (form, .list items)
  | _ => none

def text? : Option Json → Option String
  | some (.text s) => some s
  | _ => none

/-- A text that may be absent or null. -/
def optionalText? : Option Json → Option (Option String)
  | none | some .null => some none
  | some (.text s) => some (some s)
  | _ => none

/-- A level of precedence: an integer of 32 bits or a name. -/
def level? : Option Json → Option LevelDoc
  | some (.int n) => if -2147483648 ≤ n ∧ n ≤ 2147483647 then some (.number n) else none
  | some (.text name) => some (.named name)
  | _ => none

/-- Reads the shape of a rule nested at most `depth` deep. -/
def ofJson? : Nat → (nested : Bool) → Json → Option RuleDoc
  | 0, _, _ => none
  | depth + 1, nested, value => do
    let (form, body) ← split? nested value
    if form = "BLANK" then
      match body with
      | .list (_ :: _) => none
      | _ => return blank
    let members ← layOut? (memberNames form) body
    let first := members.head?.join
    let second := (members.drop 1).head?.join
    let inner (value : Option Json) : Option RuleDoc := value.bind (ofJson? depth true)
    let all : Option (List RuleDoc) :=
      match first with
      | some (.list items) => items.mapM (ofJson? depth true)
      | _ => none
    match form with
    | "STRING" => (text? first).map literal
    | "PATTERN" => return pattern (← text? first) (← optionalText? second)
    | "SYMBOL" => (text? first).map reference
    | "SEQ" => all.map seq
    | "CHOICE" => all.map choice
    | "REPEAT" => (inner first).map zeroOrMore
    | "REPEAT1" => (inner first).map oneOrMore
    | "FIELD" => return field (← text? first) (← inner second)
    | "TOKEN" => (inner first).map token
    | "PREC" => return prec none (← level? first) (← inner second)
    | "PREC_LEFT" => return prec (some .left) (← level? first) (← inner second)
    | "PREC_RIGHT" => return prec (some .right) (← level? first) (← inner second)
    | _ => return refused form

mutual

/-- What a rule of a document means, unless it cannot be compiled. -/
def toRule : RuleDoc → Except GrammarError Rule
  | blank => .ok .blank
  | literal text => .ok (.literal text)
  | pattern value flags => .ok (.pattern value flags)
  | reference name => .ok (.reference name)
  | seq members => (toRules members).map .seq
  | choice members => (toRules members).map .choice
  | zeroOrMore content => (toRule content).map .zeroOrMore
  | oneOrMore content => (toRule content).map .oneOrMore
  | field name content => (toRule content).map (.field name)
  | token content => (toRule content).map .token
  | prec assoc (.number level) content => (toRule content).map (.prec assoc level)
  | prec _ (.named name) _ => .error (.unsupported ("named precedence `" ++ name ++ "`"))
  | refused form => .error (.unsupported form)

/-- What some rules mean, the first one that cannot be compiled deciding. -/
def toRules : List RuleDoc → Except GrammarError (List Rule)
  | [] => .ok []
  | d :: ds =>
    match toRule d with
    | .error e => .error e
    | .ok r => (toRules ds).map (r :: ·)

end

end RuleDoc

/-- A grammar as a document gives it. -/
structure GrammarDoc where
  name : String
  rules : List (String × RuleDoc)
  extras : List RuleDoc
  externals : List RuleDoc
  conflicts : List (List String)
  word : Option String
  precedences : List Json
  inlined : List String
  supertypes : List String
  reserved : List (String × Json)
  inherits : Option String
  deriving Repr

namespace GrammarDoc

/-- The names of the members of a grammar document, in their fixed order. -/
def memberNames : List String :=
  ["name", "rules", "extras", "externals", "conflicts", "word", "precedences", "inline",
    "supertypes", "reserved", "inherits"]

/-- The items of a list, read one by one; the empty list when the member is absent. -/
def listOr? {α : Type} (item : Json → Option α) : Option Json → Option (List α)
  | none => some []
  | some (.list items) => items.mapM item
  | _ => none

def plainText? : Json → Option String
  | .text s => some s
  | _ => none

def texts? : Json → Option (List String)
  | .list items => items.mapM plainText?
  | _ => none

/-- Adds an entry, in place of an earlier one of the same name. -/
def putEntry {α : Type} (entries : List (String × α)) (entry : String × α) : List (String × α) :=
  if entries.any fun e => e.1 = entry.1 then
    entries.map fun e => if e.1 = entry.1 then entry else e
  else entries ++ [entry]

/-- The entries of an object: the last value of each name, where the name first stands. -/
def entriesOr? {α : Type} (item : Json → Option α) : Option Json → Option (List (String × α))
  | none => some []
  | some (.object members) => do
    let entries ← members.mapM fun m => do
      let value ← item m.2
      return (m.1, value)
    return entries.foldl putEntry []
  | _ => none

/-- Reads the shape of a grammar document. -/
def ofJson? (value : Json) : Option GrammarDoc := do
  let members ← RuleDoc.layOut? memberNames value
  let member (i : Nat) : Option Json := (members[i]?).join
  let rule := RuleDoc.ofJson? Json.nestingLimit false
  let name ← RuleDoc.text? (member 0)
  let rulesValue ← member 1
  let rules ← entriesOr? rule (some rulesValue)
  let extras ← listOr? rule (member 2)
  let externals ← listOr? rule (member 3)
  let conflicts ← listOr? texts? (member 4)
  let word ← RuleDoc.optionalText? (member 5)
  let precedences ← listOr? some (member 6)
  let inlined ← listOr? plainText? (member 7)
  let supertypes ← listOr? plainText? (member 8)
  let reserved ← entriesOr? some (member 9)
  let inherits ← RuleDoc.optionalText? (member 10)
  return ⟨name, rules, extras, externals, conflicts, word, precedences, inlined, supertypes,
    reserved, inherits⟩

/-- What a document asks for that cannot be compiled, before its rules are looked at. -/
def refusal? (d : GrammarDoc) : Option String :=
  if !d.precedences.isEmpty then some "named precedence orderings"
  else if !d.inlined.isEmpty then some "inline rules"
  else if !d.supertypes.isEmpty then some "supertypes"
  else if !d.reserved.isEmpty then some "reserved words"
  else d.inherits.map fun parent => "grammar inheritance (`" ++ parent ++ "`)"

/-- The name of an external token, which must be a plain reference. -/
def externalName : RuleDoc → Except GrammarError String
  | .reference name => .ok name
  | _ => .error (.unsupported "externals other than named symbols")

/-- What a grammar document means. -/
def toGrammar (d : GrammarDoc) : Except GrammarError Grammar := do
  match d.refusal? with
  | some construct => .error (.unsupported construct)
  | none =>
    let rules ← d.rules.mapM fun entry => do
      let r ← entry.2.toRule
      return (entry.1, r)
    let extras ← RuleDoc.toRules d.extras
    let externals ← d.externals.mapM externalName
    return ⟨d.name, rules, extras, d.conflicts, externals, d.word⟩

end GrammarDoc

/-- Reads a grammar document. -/
def Grammar.ofDocument (text : List Char) : Except GrammarError Grammar :=
  match (Json.read? (· ∈ GrammarDoc.memberNames) text).bind GrammarDoc.ofJson? with
  | none => .error .malformedJson
  | some doc => doc.toGrammar

end LRWorkbench
