import LRWorkbench.Unicode.CharSet
import LRWorkbench.Unicode.Category
import LRWorkbench.Unicode.Script
import LRWorkbench.Unicode.Property

/-!
# Looking up character classes by name

Names are compared **loosely**: case, blanks, dashes, underscores and a leading `is` do not count.

- `classOfName?` finds a class by a single name, trying properties, categories, then scripts;
- `classOfPair?` finds it by the name of a property and a value;
- `word`, `digit` and `space` are the classes that patterns abbreviate.
-/

namespace LRWorkbench.Unicode

/-- A name with everything removed that does not count when names are compared. -/
def looseName (name : String) : String :=
  let cs := name.toList
  let lower := cs.map Char.toLower
  let named := lower.take 2 = ['i', 's']
  let kept := ((if named then lower.drop 2 else lower).filter fun c =>
    c.toNat < 128 ∧ c ≠ ' ' ∧ c ≠ '_' ∧ c ≠ '-')
  String.ofList (if named ∧ kept = ['c'] then ['i', 's', 'c'] else kept)

/-- The code points that a table holds under a loose name. -/
def findIn (table : List (List String × String)) (name : String) : Option String :=
  (table.find? fun entry => entry.1.any fun n => looseName n = name).map (·.2)

/-- The union of the categories whose short names begin with a letter. -/
def categoryGroup (initial : Char) : CharSet :=
  CharSet.ofRanges ((categoryTable.filter fun entry =>
    (entry.1.head?.bind (·.toList.head?)) = some initial).flatMap fun entry =>
      CharSet.rangesOfHex entry.2)

/-- The characters without a category of their own. -/
def unassigned : CharSet :=
  CharSet.complement (CharSet.ofRanges (categoryTable.flatMap fun entry =>
    CharSet.rangesOfHex entry.2))

/-- The cased letters. -/
def casedLetter : CharSet :=
  CharSet.ofRanges ((categoryTable.filter fun entry =>
    entry.1.any fun n => n = "Lu" ∨ n = "Ll" ∨ n = "Lt").flatMap fun entry =>
      CharSet.rangesOfHex entry.2)

/-- The category, or group of categories, of a loose name. -/
def category? (name : String) : Option CharSet :=
  if name = "any" then some CharSet.all
  else if name = "assigned" then some unassigned.complement
  else if name = "ascii" then some (CharSet.range 0 0x7F)
  else if name ∈ ["l", "letter"] then some (categoryGroup 'L')
  else if name ∈ ["lc", "casedletter"] then some casedLetter
  else if name ∈ ["m", "mark", "combiningmark"] then some (categoryGroup 'M')
  else if name ∈ ["n", "number"] then some (categoryGroup 'N')
  else if name ∈ ["p", "punctuation", "punct"] then some (categoryGroup 'P')
  else if name ∈ ["s", "symbol"] then some (categoryGroup 'S')
  else if name ∈ ["z", "separator"] then some (categoryGroup 'Z')
  else if name ∈ ["c", "other"] then some ((categoryGroup 'C').union unassigned)
  else if name ∈ ["cn", "unassigned"] then some unassigned
  else (findIn categoryTable name).map CharSet.ofHex

/-- The script of a loose name. -/
def script? (name : String) : Option CharSet :=
  (findIn scriptTable name).map CharSet.ofHex

/-- The characters that a script of a loose name shares. -/
def scriptExtension? (name : String) : Option CharSet :=
  match scriptTable.find? fun entry => entry.1.any fun n => looseName n = name with
  | none => none
  | some (names, own) =>
    match scriptExtensionTable.find? fun entry => entry.1.head? = names.head? with
    | some (_, shared) => some (CharSet.ofHex shared)
    | none => some (CharSet.ofHex own)

/-- The class of a single name, which may be that of a property, a category or a script. -/
def classOfName? (name : String) : Option CharSet :=
  let key := looseName name
  let asProperty :=
    if key ∈ ["cf", "sc", "lc"] then none
    else (findIn propertyTable key).map CharSet.ofHex
  match asProperty with
  | some cs => some cs
  | none =>
    match category? key with
    | some cs => some cs
    | none => script? key

/-- The class of a property that takes values and one of its values. -/
def classOfPair? (name value : String) : Option CharSet :=
  let key := looseName name
  if key ∈ ["gc", "generalcategory"] then category? (looseName value)
  else if key ∈ ["sc", "script"] then script? (looseName value)
  else if key ∈ ["scx", "scriptextensions"] then scriptExtension? (looseName value)
  else none

/-- The class of a loose property name, empty when there is none. -/
def propertyClass (key : String) : CharSet :=
  ((findIn propertyTable key).map CharSet.ofHex).getD CharSet.empty

/-- The decimal digits. -/
def digit : CharSet := (category? "nd").getD CharSet.empty

/-- The characters that count as blank. -/
def space : CharSet := propertyClass "whitespace"

/-- The characters of words: letters, marks, digits, connectors and joiners. -/
def word : CharSet :=
  CharSet.ofRanges ((propertyClass "alphabetic").ranges ++ (categoryGroup 'M').ranges ++
    digit.ranges ++ ((category? "pc").getD CharSet.empty).ranges ++
    (propertyClass "joincontrol").ranges)

end LRWorkbench.Unicode
