import LRWorkbench.Grammar.Wire
import LRWorkbench.Proofs.Wire.RoundTrip

/-!
# Reading back grammars

The binary form of a grammar is read back, whatever follows it, and no strict beginning of it is
read as a grammar at all: the form says itself where it ends.

Rules nest, so both halves are about a reader that goes down a given number of levels. A rule is
never nested deeper than it has bytes, which is what makes the number of bytes at hand a depth that
suffices (`Rule.ofBytes_toBytes`). A deeper reader with more bytes reads whatever a shallower one
reads (`Rule.extends_ofBytes`).
-/

namespace LRWorkbench

open Wire

namespace Rule

/-! ### Rules that have a form -/

mutual

/-- Whether all lengths and levels in a rule fit their widths. -/
def fitsWire : Rule → Bool
  | blank => true
  | literal text | reference text => decide (IsText text)
  | pattern value flags => decide (IsText value) && decide (IsOption IsText flags)
  | seq members | choice members => decide (members.length < 2 ^ 64) && fitsWireAll members
  | zeroOrMore content | oneOrMore content | token content => fitsWire content
  | field name content => decide (IsText name) && fitsWire content
  | prec _ level content => decide (IsInt32 level) && fitsWire content

/-- Whether all lengths and levels in some rules fit their widths. -/
def fitsWireAll : List Rule → Bool
  | [] => true
  | r :: rs => fitsWire r && fitsWireAll rs

end

theorem toBytesAll_eq (rs : List Rule) : toBytesAll rs = rs.flatMap toBytes := by
  induction rs with
  | nil => rw [toBytesAll, List.flatMap_nil]
  | cons r rs ih => rw [toBytesAll, ih, List.flatMap_cons]

/-! ### Reading back -/

theorem length_toBytes_pos (r : Rule) : 0 < r.toBytes.length := by
  fun_cases toBytes r <;> exact Nat.succ_pos _

/-- The number of a form is one byte, and tells how to go on. -/
private theorem ofBytes_cons (form : Nat) (b : UInt8) (hform : form < 13) (hb : b = form.toUInt8)
    (depth : Nat) (rest : List UInt8) :
    ofBytes (depth + 1) (b :: rest) = ofForm (ofBytes depth) form rest := by
  have hbytes : encodeNat form = [b] := by rw [encodeNat, if_pos (by omega), hb]
  rw [ofBytes, ← List.singleton_append, ← hbytes, decodeNat_append (by omega)]
  rfl

/-- Members are read back if each of them is. -/
private theorem decodeMembers {content : Decoder Rule} {members : List Rule}
    (hlength : members.length < 2 ^ 64)
    (h : ∀ r ∈ members, ∀ rest, content (r.toBytes ++ rest) = some (r, rest)) (rest : List UInt8) :
    decodeList content (encodeNat members.length ++ toBytesAll members ++ rest) =
      some (members, rest) := by
  rw [toBytesAll_eq]
  exact decodeList_append (P := fun _ => True) ⟨hlength, fun _ _ => trivial⟩
    (fun r hr _ => h r hr) rest

mutual

/-- A rule is read back at every depth that is not less than the number of its bytes. -/
theorem ofBytes_toBytes (r : Rule) (hr : r.fitsWire = true) {depth : Nat}
    (hdepth : r.toBytes.length ≤ depth) (rest : List UInt8) :
    ofBytes depth (r.toBytes ++ rest) = some (r, rest) := by
  obtain ⟨depth, rfl⟩ : ∃ n, depth = n + 1 := by
    have hpos := length_toBytes_pos r
    exact ⟨depth - 1, by omega⟩
  match r with
  | blank => rw [toBytes, List.singleton_append, ofBytes_cons 0 0 (by decide) rfl]; rfl
  | literal text =>
    rw [toBytes, List.cons_append, ofBytes_cons 1 1 (by decide) rfl, ofForm,
      decodeString_append (of_decide_eq_true hr)]
    rfl
  | pattern value flags =>
    obtain ⟨hvalue, hflags⟩ := Bool.and_eq_true_iff.mp hr
    rw [toBytes, List.cons_append, List.append_assoc, ofBytes_cons 2 2 (by decide) rfl,
      ofForm, decodeString_append (of_decide_eq_true hvalue), Option.bind_eq_bind, Option.bind_some]
    dsimp only
    rw [decodeOption_append (of_decide_eq_true hflags) fun _ => decodeString_append]
    rfl
  | reference name =>
    rw [toBytes, List.cons_append, ofBytes_cons 3 3 (by decide) rfl, ofForm,
      decodeString_append (of_decide_eq_true hr)]
    rfl
  | seq members =>
    obtain ⟨hlength, hmembers⟩ := Bool.and_eq_true_iff.mp hr
    rw [toBytes, List.length_cons, List.length_append] at hdepth
    rw [toBytes, List.cons_append, ofBytes_cons 4 4 (by decide) rfl, ofForm,
      decodeMembers (of_decide_eq_true hlength)
        (ofBytes_toBytesAll members hmembers (by omega))]
    rfl
  | choice members =>
    obtain ⟨hlength, hmembers⟩ := Bool.and_eq_true_iff.mp hr
    rw [toBytes, List.length_cons, List.length_append] at hdepth
    rw [toBytes, List.cons_append, ofBytes_cons 5 5 (by decide) rfl, ofForm,
      decodeMembers (of_decide_eq_true hlength)
        (ofBytes_toBytesAll members hmembers (by omega))]
    rfl
  | zeroOrMore content =>
    rw [toBytes, List.length_cons] at hdepth
    rw [toBytes, List.cons_append, ofBytes_cons 6 6 (by decide) rfl, ofForm,
      ofBytes_toBytes content hr (by omega)]
    rfl
  | oneOrMore content =>
    rw [toBytes, List.length_cons] at hdepth
    rw [toBytes, List.cons_append, ofBytes_cons 7 7 (by decide) rfl, ofForm,
      ofBytes_toBytes content hr (by omega)]
    rfl
  | field name content =>
    obtain ⟨hname, hcontent⟩ := Bool.and_eq_true_iff.mp hr
    rw [toBytes, List.length_cons, List.length_append] at hdepth
    rw [toBytes, List.cons_append, List.append_assoc, ofBytes_cons 8 8 (by decide) rfl,
      ofForm, decodeString_append (of_decide_eq_true hname), Option.bind_eq_bind, Option.bind_some]
    dsimp only
    rw [ofBytes_toBytes content hcontent (by omega)]
    rfl
  | token content =>
    rw [toBytes, List.length_cons] at hdepth
    rw [toBytes, List.cons_append, ofBytes_cons 9 9 (by decide) rfl, ofForm,
      ofBytes_toBytes content hr (by omega)]
    rfl
  | prec assoc level content =>
    obtain ⟨hlevel, hcontent⟩ := Bool.and_eq_true_iff.mp hr
    -- the three forms differ in their number only
    have hread (assoc : Option Assoc) (hcontentDepth : content.toBytes.length ≤ depth) :
        (decodeInt32 (encodeInt level ++ content.toBytes ++ rest) >>= fun (level, bytes) =>
          ofBytes depth bytes >>= fun (r, bytes) => some (prec assoc level r, bytes)) =
          some (prec assoc level content, rest) := by
      rw [List.append_assoc, decodeInt32_append (of_decide_eq_true hlevel), Option.bind_eq_bind,
        Option.bind_some]
      dsimp only
      rw [ofBytes_toBytes content hcontent hcontentDepth]
      rfl
    match assoc with
    | none =>
      rw [toBytes, List.length_cons, List.length_append] at hdepth
      rw [toBytes, List.cons_append, ofBytes_cons 10 10 (by decide) rfl, ofForm]
      exact hread none (by omega)
    | some .left =>
      rw [toBytes, List.length_cons, List.length_append] at hdepth
      rw [toBytes, List.cons_append, ofBytes_cons 11 11 (by decide) rfl, ofForm]
      exact hread (some .left) (by omega)
    | some .right =>
      rw [toBytes, List.length_cons, List.length_append] at hdepth
      rw [toBytes, List.cons_append, ofBytes_cons 12 12 (by decide) rfl, ofForm]
      exact hread (some .right) (by omega)

/-- Rules in a row are read back one by one. -/
theorem ofBytes_toBytesAll (rs : List Rule) (hrs : fitsWireAll rs = true) {depth : Nat}
    (hdepth : (toBytesAll rs).length ≤ depth) (r : Rule) (hr : r ∈ rs) (rest : List UInt8) :
    ofBytes depth (r.toBytes ++ rest) = some (r, rest) := by
  match rs with
  | [] => cases hr
  | first :: rs =>
    obtain ⟨hfirst, hrs⟩ := Bool.and_eq_true_iff.mp hrs
    rw [toBytesAll, List.length_append] at hdepth
    rcases List.mem_cons.mp hr with heq | hr
    · rw [heq]
      exact ofBytes_toBytes first hfirst (by omega) rest
    · exact ofBytes_toBytesAll rs hrs (by omega) r hr rest

end

/-- A deeper reader reads whatever a shallower one reads, also with more bytes behind. -/
theorem extends_ofBytes {depth depth' : Nat} (h : depth ≤ depth') :
    Extends (ofBytes depth) (ofBytes depth') := by
  induction depth generalizing depth' with
  | zero =>
    intro bytes r rest hr
    cases hr
  | succ depth ih =>
    obtain ⟨depth', rfl⟩ : ∃ n, depth' = n + 1 := ⟨depth' - 1, by omega⟩
    have content : Extends (ofBytes depth) (ofBytes depth') := ih (Nat.le_of_succ_le_succ h)
    refine (steady_decodeNat 32).bind fun form => ?_
    match form with
    | 0 => exact .pure blank
    | 1 => exact steady_decodeString.bind fun text => .pure (literal text)
    | 2 =>
      exact steady_decodeString.bind fun value =>
        steady_decodeString.decodeOption.bind fun flags => .pure (pattern value flags)
    | 3 => exact steady_decodeString.bind fun name => .pure (reference name)
    | 4 => exact content.decodeList.bind fun members => .pure (seq members)
    | 5 => exact content.decodeList.bind fun members => .pure (choice members)
    | 6 => exact content.bind fun r => .pure (zeroOrMore r)
    | 7 => exact content.bind fun r => .pure (oneOrMore r)
    | 8 => exact steady_decodeString.bind fun name => content.bind fun r => .pure (field name r)
    | 9 => exact content.bind fun r => .pure (token r)
    | 10 => exact steady_decodeInt32.bind fun level => content.bind fun r => .pure (prec none level r)
    | 11 =>
      exact steady_decodeInt32.bind fun level => content.bind fun r => .pure (prec (some .left) level r)
    | 12 =>
      exact steady_decodeInt32.bind fun level => content.bind fun r => .pure (prec (some .right) level r)
    | _ + 13 =>
      intro bytes r rest hr
      cases hr

end Rule

namespace Grammar

variable {g : Grammar}

/-- Whether all lengths and levels in a grammar fit their widths. -/
structure FitsWire (g : Grammar) : Prop where
  name : IsText g.name
  rules : IsList (fun entry => IsText entry.1 ∧ entry.2.fitsWire = true) g.rules
  extras : IsList (fun r => r.fitsWire = true) g.extras
  conflicts : IsList (IsList IsText) g.conflicts
  externals : IsList IsText g.externals
  word : IsOption IsText g.word

/-- The bytes of a rule with its name. -/
def entryBytes (entry : String × Rule) : List UInt8 := encodeString entry.1 ++ entry.2.toBytes

/-- The parts of a grammar in the order they are written. -/
theorem toBytes_eq (g : Grammar) (rest : List UInt8) : g.toBytes ++ rest =
    encodeString g.name ++ (encodeList entryBytes g.rules ++ (encodeList Rule.toBytes g.extras ++
      (encodeList (encodeList encodeString) g.conflicts ++ (encodeList encodeString g.externals ++
        (encodeOption encodeString g.word ++ rest))))) := by
  simp only [toBytes, List.append_assoc]
  rfl

/-- A grammar is read back with every reader that goes down as many levels as it has bytes. -/
theorem decodeWith_toBytes (hg : g.FitsWire) {depth : Nat} (hdepth : g.toBytes.length ≤ depth)
    (rest : List UInt8) : decodeWith (Rule.ofBytes depth) (g.toBytes ++ rest) = some (g, rest) := by
  have hparts := congrArg List.length (toBytes_eq g [])
  simp only [List.length_append, List.append_nil] at hparts
  -- a rule is written in fewer bytes than the grammar, so the depth suffices for each
  have hentry : ∀ entry ∈ g.rules, (IsText entry.1 ∧ entry.2.fitsWire = true) → ∀ rest,
      decodeEntry (Rule.ofBytes depth) (entryBytes entry ++ rest) = some (entry, rest) := by
    rintro entry hmem ⟨hname, hrule⟩ rest
    have hle := length_le_encodeList entryBytes hmem
    rw [entryBytes, List.length_append] at hle
    rw [decodeEntry, entryBytes, List.append_assoc, decodeString_append hname, Option.bind_eq_bind,
      Option.bind_some]
    dsimp only
    rw [Rule.ofBytes_toBytes _ hrule (by omega)]
    rfl
  have hextra : ∀ r ∈ g.extras, r.fitsWire = true → ∀ rest,
      Rule.ofBytes depth (r.toBytes ++ rest) = some (r, rest) := by
    intro r hmem hr rest
    have hle := length_le_encodeList Rule.toBytes hmem
    exact Rule.ofBytes_toBytes r hr (by omega) rest
  rw [decodeWith, toBytes_eq, decodeString_append hg.name, Option.bind_eq_bind, Option.bind_some]
  dsimp only
  rw [decodeList_append hg.rules hentry, Option.bind_eq_bind, Option.bind_some]
  dsimp only
  rw [decodeList_append hg.extras hextra, Option.bind_eq_bind, Option.bind_some]
  dsimp only
  rw [decodeList_append hg.conflicts fun group _ hgroup =>
    decodeList_append hgroup fun _ _ => decodeString_append, Option.bind_eq_bind, Option.bind_some]
  dsimp only
  rw [decodeList_append hg.externals fun _ _ => decodeString_append, Option.bind_eq_bind,
    Option.bind_some]
  dsimp only
  rw [decodeOption_append hg.word fun _ => decodeString_append]
  rfl

/-- A reader of rules that extends another makes a reader of grammars that does. -/
theorem extends_decodeWith {rule rule' : Decoder Rule} (h : Extends rule rule') :
    Extends (decodeWith rule) (decodeWith rule') := by
  have hentry : Extends (decodeEntry rule) (decodeEntry rule') :=
    steady_decodeString.bind fun name => h.bind fun r => .pure (name, r)
  exact steady_decodeString.bind fun name => hentry.decodeList.bind fun rules =>
    h.decodeList.bind fun extras => steady_decodeString.decodeList.decodeList.bind fun conflicts =>
      steady_decodeString.decodeList.bind fun externals =>
        steady_decodeString.decodeOption.bind fun word =>
          .pure (Grammar.mk name rules extras conflicts externals word)

/-- **Self-delimiting.** A grammar is read off its bytes, whatever follows them, and nothing is read
off a strict beginning of them. -/
theorem ofBytes?_toBytes (hg : g.FitsWire) :
    (∀ rest, ofBytes? (g.toBytes ++ rest) = some g) ∧
      ∀ front, front <+: g.toBytes → front ≠ g.toBytes → ofBytes? front = none := by
  constructor
  · intro rest
    have hdepth : g.toBytes.length ≤ (g.toBytes ++ rest).length := by
      rw [List.length_append]
      omega
    rw [ofBytes?, decode, decodeWith_toBytes hg hdepth, Option.map_some]
  · rintro front ⟨more, hmore⟩ hne
    have hnonempty : more ≠ [] := by
      rintro rfl
      exact hne ((List.append_nil front).symm.trans hmore)
    have hwhole := decodeWith_toBytes hg (Nat.le_refl _) []
    rw [List.append_nil, ← hmore] at hwhole
    have hdepth : front.length ≤ (front ++ more).length := by
      rw [List.length_append]
      omega
    rw [ofBytes?, decode, (extends_decodeWith (Rule.extends_ofBytes hdepth)).eq_none hnonempty hwhole,
      Option.map_none]

/-- A grammar with nested rules, signed levels and a text of several bytes a character. -/
def nested : Grammar where
  name := "größe"
  rules := [
    ("program", .zeroOrMore (.seq [.field "left" (.reference "value"), .prec (some .left) (-2147483648)
      (.choice [.literal ";", .blank])])),
    ("value", .token (.prec none 300 (.oneOrMore (.pattern "[a-z]" (some "i")))))]
  extras := [.pattern "\\s" none]
  conflicts := [["program", "value"], []]
  externals := ["heredoc"]
  word := some "value"

theorem ofBytes?_toBytes_nested : nested.FitsWire ∧
    (∀ rest, ofBytes? (nested.toBytes ++ rest) = some nested) ∧
      ofBytes? (nested.toBytes.take 40) = none := by
  have hfits : nested.FitsWire :=
    ⟨by decide, by decide, by decide, by decide, by decide, by decide⟩
  have hne : nested.toBytes.take 40 ≠ nested.toBytes := by decide +kernel
  exact ⟨hfits, (ofBytes?_toBytes hfits).1, (ofBytes?_toBytes hfits).2 _ (List.take_prefix ..) hne⟩

end Grammar

end LRWorkbench
