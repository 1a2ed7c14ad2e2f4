import LRWorkbench.Prepared.Vocabulary

/-!
# From rules to productions

A rule expression is flattened into **alternatives**, lists of steps: choices list their members',
sequences combine every alternative of one member with every one of the next, and `x*` and `x+`
become a helper phrase with the productions `helper → helper x` and `helper → x`. A step carries
the innermost field and level of precedence that are written around it.

`Grammar.prepare` puts all preparations together. It refuses grammars with a phrase that no finite
list of tokens makes up.
-/

namespace LRWorkbench

namespace Flatten

/-- What is written around a part of a rule. -/
structure Context where
  field : Option FieldId
  precedence : Int
  assoc : Option Assoc
  deriving DecidableEq, Repr

namespace Context

/-- Nothing. -/
def outermost : Context := ⟨none, 0, none⟩

/-- A step with what is written around it. -/
def step (ctx : Context) (s : Symbol) : Step := ⟨s, ctx.field, ctx.precedence, ctx.assoc⟩

/-- A step that takes no field, since the members it stands for take it. -/
def helperStep (ctx : Context) (s : Symbol) : Step := ⟨s, none, ctx.precedence, ctx.assoc⟩

end Context

/-- One way to read a rule. The level counts when there are no steps. -/
structure Alternative where
  steps : List Step
  precedence : Int
  assoc : Option Assoc
  deriving DecidableEq, Repr

namespace Alternative

/-- The alternative without steps. -/
def nothing (ctx : Context) : Alternative := ⟨[], ctx.precedence, ctx.assoc⟩

def single (step : Step) : Alternative := ⟨[step], 0, none⟩

/-- One alternative after another. The level is that of the last one that has steps, or else of
the last one. -/
def append (a b : Alternative) : Alternative :=
  if b.steps.isEmpty && !a.steps.isEmpty then ⟨a.steps ++ b.steps, a.precedence, a.assoc⟩
  else ⟨a.steps ++ b.steps, b.precedence, b.assoc⟩

end Alternative

/-- The names of the fields met so far, in order, and a search tree that finds the place of
each. -/
structure FieldTable where
  names : Array String
  places : SearchTree String Nat
  find?_places : ∀ name,
    places.find? (fun a b => a < b) name = names.toList.findIdx? (· = name)
  deriving Repr

namespace FieldTable

/-- No fields. -/
def empty : FieldTable := ⟨#[], .empty, fun _ => rfl⟩

def toList (t : FieldTable) : List String := t.names.toList

/-- The place of a name. -/
def place? (t : FieldTable) (name : String) : Option Nat :=
  t.places.find? (fun a b => a < b) name

/-- Adds a name that is new. -/
def push (t : FieldTable) (name : String) (hnew : t.place? name = none) : FieldTable :=
  let place := t.names.size
  { names := t.names.push name
    places := t.places.insert (fun a b => a < b) name place
    find?_places := by
      intro other
      rw [Array.toList_push, List.findIdx?_append, ← t.find?_places]
      by_cases hother : other = name
      · subst hother
        rw [SearchTree.find?_insert_self, show t.places.find? _ other = none from hnew]
        simp [place]
      · rw [SearchTree.find?_insert_of_ne _ hother]
        simp [Ne.symm hother] }

end FieldTable

/-- The phrase kinds, productions and fields made so far. -/
structure Draft where
  nonTerminals : Array NonTerminal
  productions : Array Production
  fields : FieldTable
  /-- How many helpers were made for each phrase kind of a rule. -/
  counters : List (Nat × Nat)
  deriving Repr

/-- What is known of the grammar before its rules are flattened. -/
structure Source where
  grammar : Grammar
  terminals : Terminals
  /-- The places of the phrase rules, in the order of their phrase kinds. -/
  phraseRules : List Nat

namespace Source

def terminalCount (s : Source) : Nat := s.terminals.vocabulary.terminals.size

/-- The symbol of the phrase kind at a place. -/
def nonTerminalSymbol (s : Source) (index : Nat) : Symbol := ⟨s.terminalCount + index⟩

/-- The phrase kind of the rule at a place. -/
def phraseKind? (s : Source) (rule : Nat) : Option Nat := s.phraseRules.findIdx? (· = rule)

/-- The symbol that a name stands for. -/
def symbolOf? (s : Source) (name : String) : Option Symbol :=
  match s.grammar.externalIndex? name with
  | some external => some (Vocabulary.externalSymbol external)
  | none =>
    match s.grammar.ruleIndex? name with
    | none => none
    | some rule =>
      match s.terminals.vocabulary.terminalOf? rule with
      | some terminal => some terminal
      | none => (s.phraseKind? rule).map s.nonTerminalSymbol

end Source

/-- Refuses more symbols than there are numbers. -/
def checkCount (s : Source) (d : Draft) : Except GrammarError Unit :=
  let count := s.terminalCount + d.nonTerminals.size
  if 65535 ≤ count then .error (.tooManySymbols count) else .ok ()

/-- The most alternatives that a rule may have. -/
def maxAlternatives : Nat := 65536

namespace Draft

def nameOf (d : Draft) (kind : Nat) : String := (d.nonTerminals[kind]?.map (·.name)).getD ""

/-- The names of the fields, in the order of their places. -/
def fieldNames (d : Draft) : List String := d.fields.toList

/-- The place of a field name, which is added if it is new. -/
def addField (d : Draft) (name : String) : Draft × FieldId :=
  match hplace : d.fields.place? name with
  | some index => (d, FieldId.ofIndex index)
  | none =>
    let id := FieldId.ofIndex d.fields.names.size
    ({ d with fields := d.fields.push name hplace }, id)

/-- Adds a production, unless it is there. -/
def addProduction (d : Draft) (lhs : Nat) (a : Alternative) : Draft :=
  let p : Production := ⟨lhs, a.steps, a.precedence, a.assoc⟩
  if d.productions.contains p then d else { d with productions := d.productions.push p }

/-- Adds a helper for a repetition in a phrase, named after the rule of the phrase. -/
def addHelper (d : Draft) (owner : Nat) : Draft :=
  let root := ownerOf d.nonTerminals owner owner
  let number := (d.counters.lookup root).getD 0 + 1
  { d with
    nonTerminals :=
      d.nonTerminals.push ⟨d.nameOf root ++ "_repeat" ++ toString number, false, some owner⟩
    counters := (root, number) :: d.counters }

/-- Adds the productions of a helper: each alternative alone and, if it has steps, after the helper
itself. -/
def addRepetitions (d : Draft) (helper : Nat) (again : Alternative) : List Alternative → Draft
  | [] => d
  | a :: rest =>
    let d := if a.steps.isEmpty then d else d.addProduction helper (again.append a)
    (d.addProduction helper a).addRepetitions helper again rest

end Draft

/-- The alternative of an inline token. -/
def inlineToken (s : Source) (ctx : Context) (owner : Nat) (d : Draft) (r : Rule) :
    Except GrammarError (List Alternative × Draft) :=
  match Vocabulary.inlineTerminal? s.grammar s.terminals.definitions s.terminals.vocabulary r with
  | some symbol => .ok ([.single (ctx.step symbol)], d)
  | none =>
    .error (.unsupported ("token in `" ++ d.nameOf owner ++ "` could not be resolved"))

/-- Makes a helper, of which the place is returned. -/
def startHelper (s : Source) (owner : Nat) (d : Draft) : Except GrammarError (Nat × Draft) := do
  let d' := d.addHelper owner
  checkCount s d'
  return (d.nonTerminals.size, d')

/-- Gives a helper its productions and returns the alternative that stands for it. -/
def finishHelper (s : Source) (ctx : Context) (helper : Nat) (members : List Alternative)
    (d : Draft) : Alternative × Draft :=
  let again := Alternative.single (ctx.helperStep (s.nonTerminalSymbol helper))
  (again, d.addRepetitions helper again members)

mutual

/-- The alternatives of a rule in a phrase. -/
def alternatives (s : Source) (ctx : Context) (owner : Nat) (d : Draft) :
    Rule → Except GrammarError (List Alternative × Draft)
  | .blank => .ok ([.nothing ctx], d)
  | .literal text => inlineToken s ctx owner d (.literal text)
  | .pattern value flags => inlineToken s ctx owner d (.pattern value flags)
  | .token content => inlineToken s ctx owner d (.token content)
  | .reference name =>
    match s.symbolOf? name with
    | some symbol => .ok ([.single (ctx.step symbol)], d)
    | none => .error (.undefinedSymbol (d.nameOf owner) name)
  | .seq members => sequences s ctx owner d [.nothing ctx] members
  | .choice members => choices s ctx owner d members
  | .zeroOrMore content => do
    let (helper, d) ← startHelper s owner d
    let (members, d) ← alternatives s ctx helper d content
    let (again, d) := finishHelper s ctx helper members d
    return ([again, .nothing ctx], d)
  | .oneOrMore content => do
    let (helper, d) ← startHelper s owner d
    let (members, d) ← alternatives s ctx helper d content
    let (again, d) := finishHelper s ctx helper members d
    return ([again], d)
  | .field name content =>
    let (d, field) := d.addField name
    alternatives s { ctx with field := some field } owner d content
  | .prec assoc level content =>
    alternatives s { ctx with precedence := level, assoc := assoc } owner d content

/-- The alternatives of the rest of a sequence, after those of its beginning. -/
def sequences (s : Source) (ctx : Context) (owner : Nat) (d : Draft) (front : List Alternative) :
    List Rule → Except GrammarError (List Alternative × Draft)
  | [] => .ok (front, d)
  | r :: rs => do
    let (next, d) ← alternatives s ctx owner d r
    if maxAlternatives < front.length * next.length then
      .error (.unsupported ("rule `" ++ d.nameOf owner ++ "` expands to more than " ++
        toString maxAlternatives ++ " alternatives"))
    else
      sequences s ctx owner d (front.flatMap fun a => next.map fun b => a.append b) rs

/-- The alternatives of several rules, one after the other. -/
def choices (s : Source) (ctx : Context) (owner : Nat) (d : Draft) :
    List Rule → Except GrammarError (List Alternative × Draft)
  | [] => .ok ([], d)
  | r :: rs => do
    let (first, d) ← alternatives s ctx owner d r
    let (rest, d) ← choices s ctx owner d rs
    return (first ++ rest, d)

end

/-- Adds the productions of phrase rules, given with their phrase kinds. -/
def addRules (s : Source) (d : Draft) : List (Nat × Rule) → Except GrammarError Draft
  | [] => .ok d
  | (kind, r) :: rest => do
    let (members, d) ← alternatives s .outermost kind d r
    addRules s (members.foldl (fun d a => d.addProduction kind a) d) rest

/-- The phrase kinds of the rules. The start rule shows in trees whatever its name. -/
def phraseKinds (s : Source) : Array NonTerminal :=
  (s.phraseRules.map fun i =>
    let name := s.grammar.nameAt i
    NonTerminal.mk name (i = 0 || isPublicName name) none).toArray

/-! ### Checks -/

/-- Whether each step is a terminal or a phrase kind known to derive a list of tokens. -/
def derives (terminalCount : Nat) (known : List Nat) (p : Production) : Bool :=
  p.steps.all fun step =>
    step.symbol.index < terminalCount || known.contains (step.symbol.index - terminalCount)

/-- Adds to `known`, in rounds, the phrase kinds with a production all of whose steps are known to
derive tokens. Each round but the last adds one. -/
def productive (terminalCount : Nat) (productions : List Production) : Nat → List Nat → List Nat
  | 0, known => known
  | rounds + 1, known =>
    match ((productions.filter fun p =>
        !known.contains p.lhs && derives terminalCount known p).map (·.lhs)).eraseDups with
    | [] => known
    | fresh => productive terminalCount productions rounds (fresh ++ known)

/-- Refuses the first phrase kind that derives no list of tokens. -/
def checkProductive (terminalCount : Nat) (d : Draft) : Except GrammarError Unit :=
  let known := productive terminalCount d.productions.toList d.nonTerminals.size []
  match (List.range d.nonTerminals.size).find? fun i => !known.contains i with
  | some i => .error (.underivable (d.nameOf i))
  | none => .ok ()

/-- The phrase kinds of a conflict group, each once; rules that are not used have none. -/
def groupMembers (s : Source) (found : List Nat) : List String → Except GrammarError (List Nat)
  | [] => .ok found
  | name :: rest =>
    match s.grammar.ruleIndex? name with
    | none => groupMembers s found rest
    | some rule =>
      if s.grammar.isLexicalAt rule then
        .error (.unsupported ("token `" ++ name ++ "` in a conflict group"))
      else
        groupMembers s (found ++ (s.phraseKind? rule).toList.filter (· ∉ found)) rest

/-- The conflict groups that have members, each once. -/
def conflictGroups (s : Source) (found : List (List Nat)) :
    List (List String) → Except GrammarError (List (List Nat))
  | [] => .ok found
  | names :: rest => do
    let members ← groupMembers s [] names
    conflictGroups s (if members.isEmpty || found.contains members then found
      else found ++ [members]) rest

end Flatten

namespace Grammar

open Flatten in
/-- Numbers the symbols of a grammar and flattens its rules. -/
def prepare (g : Grammar) : Except GrammarError PreparedGrammar := do
  g.checkNames
  let used := g.usedRules
  let terminals ← g.terminals used
  let s : Source := ⟨g, terminals, g.phraseRules used⟩
  let d : Draft := ⟨phraseKinds s, #[], .empty, []⟩
  checkCount s d
  let d ← addRules s d (s.phraseRules.zipIdx.filterMap fun (i, kind) =>
    g.rules[i]?.map fun entry => (kind, entry.2))
  checkProductive s.terminalCount d
  let groups ← conflictGroups s [] g.conflicts
  return {
    name := g.name
    terminals := terminals.vocabulary.terminals
    externalCount := g.externals.length
    nonTerminals := d.nonTerminals
    productions := d.productions
    fieldNames := d.fieldNames
    extras := terminals.extras
    word := terminals.word
    conflictGroups := groups }

end Grammar

end LRWorkbench
