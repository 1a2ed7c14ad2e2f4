import LRWorkbench.Grammar.Names
import LRWorkbench.Prepared.Basic
import LRWorkbench.Prepared.TokenPattern

/-!
# The terminals of a grammar

Terminals are numbered as they are met: the end of the input, the external tokens, then the tokens
in the phrases that are used, those of the extras, and the token rules that are left.

- A **named** terminal belongs to a token rule;
- an **inline** token takes the terminal of the first one with its regular expression and
  precedence, and a text that is all that a token rule says takes that rule's terminal;
- other inline tokens get terminals of their own, named by their text or after the phrase they
  stand in.

What is numbered as it is met, terminals by their definitions and fields by their names, is looked
up in search trees (`SearchTree`). The first value that is added for a key stays.
-/

namespace LRWorkbench

/-- A search tree of values by their keys. -/
inductive SearchTree (κ ν : Type) where
  | empty
  | node (entry : κ) (value : ν) (below above : SearchTree κ ν)
  deriving Repr

namespace SearchTree

variable {κ ν : Type} [DecidableEq κ] (isBelow : κ → κ → Bool)

/-- The value of a key. -/
def find? (key : κ) : SearchTree κ ν → Option ν
  | empty => none
  | node entry value below above =>
    if key = entry then some value
    else if isBelow key entry then below.find? key
    else above.find? key

/-- Adds the value of a key, unless there is one. -/
def insert (key : κ) (new : ν) : SearchTree κ ν → SearchTree κ ν
  | empty => node key new empty empty
  | node entry value below above =>
    if key = entry then node entry value below above
    else if isBelow key entry then node entry value (below.insert key new) above
    else node entry value below (above.insert key new)

/-- A value that is added is found by its key, unless there was one before. -/
theorem find?_insert_self (key : κ) (new : ν) (tree : SearchTree κ ν) :
    (tree.insert isBelow key new).find? isBelow key =
      (tree.find? isBelow key).or (some new) := by
  induction tree with
  | empty => simp [insert, find?]
  | node entry value below above hbelow habove =>
    by_cases heq : key = entry
    · simp [insert, find?, heq]
    · by_cases hside : isBelow key entry
      · simp [insert, find?, heq, hside, hbelow]
      · simp [insert, find?, heq, hside, habove]

/-- Adding a value leaves those of other keys: the search for them takes the same way. -/
theorem find?_insert_of_ne {key other : κ} (hne : other ≠ key) (new : ν) (tree : SearchTree κ ν) :
    (tree.insert isBelow key new).find? isBelow other = tree.find? isBelow other := by
  induction tree with
  | empty => simp [insert, find?, hne]
  | node entry value below above hbelow habove =>
    by_cases heq : key = entry
    · simp [insert, heq]
    · by_cases hside : isBelow key entry
      · simp [insert, find?, heq, hside, hbelow]
      · simp [insert, find?, heq, hside, habove]

end SearchTree

/-- The regular expression and precedence of each token rule that is used, by the rule's place. -/
abbrev TokenDefinitions := List (Nat × (String × Int))

namespace Grammar

/-- The places of the rules that are used and define tokens, in order. -/
def tokenRules (g : Grammar) (used : List Nat) : List Nat :=
  (List.range g.rules.length).filter fun i => used.contains i && g.isLexicalAt i

/-- The places of the rules that are used and define phrases, in order. -/
def phraseRules (g : Grammar) (used : List Nat) : List Nat :=
  (List.range g.rules.length).filter fun i => used.contains i && !g.isLexicalAt i

/-- The name of the rule at a place. -/
def nameAt (g : Grammar) (index : Nat) : String := (g.rules[index]?.map (·.1)).getD ""

/-- Defines token rules one after the other, refusing a definition that was there before. -/
def defineTokens (g : Grammar) (defined : TokenDefinitions) :
    List Nat → Except GrammarError TokenDefinitions
  | [] => .ok defined
  | i :: rest =>
    match g.rules[i]? with
    | none => defineTokens g defined rest
    | some (name, r) => do
      let definition ← r.tokenPattern name
      match defined.find? fun entry => entry.2 = definition with
      | some (first, _) => .error (.duplicateTerminal (g.nameAt first) name)
      | none => defineTokens g (defined ++ [(i, definition)]) rest

end Grammar

/-- Whether a name may show in trees as the name of a node: it does not begin with an
underscore. -/
def isPublicName (name : String) : Bool := name.toList.head? ≠ some '_'

/-- A search tree of terminals by their regular expressions and precedences. -/
abbrev TerminalIndex := SearchTree (String × Int) Symbol

namespace TerminalIndex

/-- The order of the search tree. -/
def isBelow (a b : String × Int) : Bool := a.1 < b.1 || (a.1 = b.1 && a.2 < b.2)

/-- The terminal of a definition. -/
def find? (definition : String × Int) (index : TerminalIndex) : Option Symbol :=
  SearchTree.find? isBelow definition index

/-- Adds the terminal of a definition, unless there is one. -/
def insert (definition : String × Int) (s : Symbol) (index : TerminalIndex) : TerminalIndex :=
  SearchTree.insert isBelow definition s index

end TerminalIndex

/-- The terminals met so far. -/
structure Vocabulary where
  terminals : Array Terminal
  /-- The first terminal of each regular expression and precedence. -/
  index : TerminalIndex
  /-- The terminal of each token rule that has one, by the rule's place. -/
  named : List (Nat × Symbol)
  /-- How many terminals are named after each phrase. -/
  counters : List (String × Nat)
  deriving Repr

namespace Vocabulary

/-- The end of the input and the external tokens. -/
def initial (externals : List String) : Vocabulary where
  terminals := (⟨"end", .endOfInput, false⟩ ::
    externals.map fun name => ⟨name, .external, isPublicName name⟩).toArray
  index := .empty
  named := []
  counters := []

/-- The first terminal with a given regular expression and precedence. -/
def definedAs? (v : Vocabulary) (definition : String × Int) : Option Symbol :=
  v.index.find? definition

/-- The terminal of the token rule at a place. -/
def terminalOf? (v : Vocabulary) (index : Nat) : Option Symbol := v.named.lookup index

/-- The number of terminals named after a phrase. -/
def count (v : Vocabulary) (owner : String) : Nat := (v.counters.lookup owner).getD 0

/-- The symbol that the next terminal gets. -/
def nextSymbol (v : Vocabulary) : Symbol := ⟨v.terminals.size⟩

/-- Adds a terminal. -/
def push (v : Vocabulary) (t : Terminal) : Vocabulary :=
  { v with
    terminals := v.terminals.push t
    index :=
      match t.definition? with
      | some definition => v.index.insert definition v.nextSymbol
      | none => v.index }

/-- Gives the token rule at a place its terminal, unless it has one. -/
def addNamed (g : Grammar) (defined : TokenDefinitions) (v : Vocabulary) (index : Nat) :
    Vocabulary :=
  if (v.terminalOf? index).isSome then v
  else
    match g.rules[index]?, defined.lookup index with
    | some (name, r), some (regex, precedence) =>
      { v.push ⟨name, .lexical regex precedence r.literalBody?, isPublicName name⟩ with
        named := v.named ++ [(index, v.nextSymbol)] }
    | _, _ => v

/-- The token rule that is just a given text, if it is used. -/
def textRule? (g : Grammar) (defined : TokenDefinitions) (text : String) : Option Nat :=
  (g.textRule? text).filter fun i => (defined.lookup i).isSome

/-- Gives an inline token its terminal, unless a terminal is defined just so. -/
def addAnonymous (v : Vocabulary) (r : Rule) (owner : String) : Except GrammarError Vocabulary :=
  let (name, literal) :=
    match r with
    | .literal text => (text, some text)
    | _ => (owner ++ "_token" ++ toString (v.count owner + 1), none)
  match r.tokenPattern name with
  | .error e => .error e
  | .ok (regex, precedence) =>
    if (v.definedAs? (regex, precedence)).isSome then .ok v
    else
      let v' := v.push ⟨name, .lexical regex precedence literal, false⟩
      .ok (if literal.isSome then v'
        else { v' with counters := (owner, v.count owner + 1) :: v.counters })

/-- Gives an inline token its terminal, which is the one of a token rule for a text that has such a
rule. -/
def addInline (g : Grammar) (defined : TokenDefinitions) (v : Vocabulary) (r : Rule)
    (owner : String) : Except GrammarError Vocabulary :=
  match r with
  | .literal text =>
    match textRule? g defined text with
    | some index => .ok (addNamed g defined v index)
    | none => v.addAnonymous r owner
  | _ => v.addAnonymous r owner

mutual

/-- Adds the terminals of a phrase in the order they are written. -/
def addPhrase (g : Grammar) (defined : TokenDefinitions) (owner : String) (v : Vocabulary) :
    Rule → Except GrammarError Vocabulary
  | .blank => .ok v
  | .literal text => addInline g defined v (.literal text) owner
  | .pattern value flags => addInline g defined v (.pattern value flags) owner
  | .token content => addInline g defined v (.token content) owner
  | .reference name =>
    match g.ruleIndex? name with
    | some index => .ok (if g.isLexicalAt index then addNamed g defined v index else v)
    | none => .ok v
  | .seq members | .choice members => addPhrases g defined owner v members
  | .zeroOrMore content | .oneOrMore content | .field _ content | .prec _ _ content =>
    addPhrase g defined owner v content

/-- Adds the terminals of several phrases. -/
def addPhrases (g : Grammar) (defined : TokenDefinitions) (owner : String) (v : Vocabulary) :
    List Rule → Except GrammarError Vocabulary
  | [] => .ok v
  | r :: rs =>
    match addPhrase g defined owner v r with
    | .error e => .error e
    | .ok v => addPhrases g defined owner v rs

end

/-- Adds the terminals of the phrase rules at some places. -/
def addPhraseRules (g : Grammar) (defined : TokenDefinitions) (v : Vocabulary) :
    List Nat → Except GrammarError Vocabulary
  | [] => .ok v
  | i :: rest =>
    match g.rules[i]? with
    | none => addPhraseRules g defined v rest
    | some (name, r) =>
      match addPhrase g defined name v r with
      | .error e => .error e
      | .ok v => addPhraseRules g defined v rest

/-- The terminal of an inline token. -/
def inlineTerminal? (g : Grammar) (defined : TokenDefinitions) (v : Vocabulary) (r : Rule) :
    Option Symbol :=
  let defined? := (r.tokenPattern "").toOption.bind v.definedAs?
  match r with
  | .literal text =>
    match textRule? g defined text with
    | some index => v.terminalOf? index
    | none => defined?
  | _ => defined?

/-- The symbol of an external token. -/
def externalSymbol (index : Nat) : Symbol := ⟨index + 1⟩

/-- The symbol of an extra; the terminals that it needs are added. -/
def addExtra (g : Grammar) (defined : TokenDefinitions) (v : Vocabulary) (extra : Rule) :
    Except GrammarError (Vocabulary × Option Symbol) :=
  match extra with
  | .reference name =>
    match g.externalIndex? name, g.ruleIndex? name with
    | some external, _ => .ok (v, some (externalSymbol external))
    | none, some index =>
      if g.isLexicalAt index then
        let v := addNamed g defined v index
        .ok (v, v.terminalOf? index)
      else .error (.unsupported ("non-terminal extra `" ++ name ++ "`"))
    | none, none => .ok (v, none)
  | r =>
    match addInline g defined v r "extras" with
    | .error e => .error e
    | .ok v => .ok (v, inlineTerminal? g defined v r)

/-- The symbols of some extras, each once. -/
def addExtras (g : Grammar) (defined : TokenDefinitions) (v : Vocabulary) (found : List Symbol) :
    List Rule → Except GrammarError (Vocabulary × List Symbol)
  | [] => .ok (v, found)
  | extra :: rest =>
    match addExtra g defined v extra with
    | .error e => .error e
    | .ok (v, s) => addExtras g defined v (found ++ s.toList.filter (· ∉ found)) rest

end Vocabulary

/-- The terminals of a grammar with its extras and its word. -/
structure Terminals where
  vocabulary : Vocabulary
  definitions : TokenDefinitions
  extras : List Symbol
  word : Option Symbol
  deriving Repr

namespace Grammar

/-- Numbers the terminals of a grammar of which some rules are used. -/
def terminals (g : Grammar) (used : List Nat) : Except GrammarError Terminals := do
  let defined ← g.defineTokens [] (g.tokenRules used)
  let v ← (Vocabulary.initial g.externals).addPhraseRules g defined (g.phraseRules used)
  let (v, extras) ← v.addExtras g defined [] g.extras
  let v := (g.tokenRules used).foldl (Vocabulary.addNamed g defined) v
  if 65535 ≤ v.terminals.size then
    .error (.tooManySymbols v.terminals.size)
  return ⟨v, defined, extras, (g.word.bind g.ruleIndex?).bind v.terminalOf?⟩

end Grammar

end LRWorkbench
