import LRWorkbench.Table.File
import LRWorkbench.Proofs.Except
import LRWorkbench.Proofs.Wire.RoundTrip
import Mathlib.Data.String.Basic

/-!
# Reading back table files

A table that can be written as a file is read back from it as a whole (`ParseTable.ofBytes_of_toBytes?`):
the header tells the sections apart and passes its own check, every part of the payload is read back
in turn, and the parts fit together as they did before. Of the automaton only this is asked: that its own
format reads it back.

Parts are records of numbers with a width, so each record has a `FitsWire` that says that its numbers
fit, next to the lemma that reads it back. Keywords are a map: they are kept in the order of their
texts, and reading puts them back into that order.
-/

namespace LRWorkbench

open Wire

/-! ### Symbols, fields and sets -/

/-- Symbols are numbers of 16 bits on the wire. -/
theorem Symbol.decode_append {s : Symbol} (hs : s.index < 2 ^ 16) (rest : List UInt8) :
    decode (s.toBytes ++ rest) = some (s, rest) := by
  rw [decode, toBytes, decodeNat_append hs, Option.map_some]

/-- Fields are numbered from one, with 16 bits. -/
def FieldId.FitsWire (f : FieldId) : Prop := 0 < f.number ∧ f.number < 2 ^ 16

instance (f : FieldId) : Decidable f.FitsWire := inferInstanceAs (Decidable (_ ∧ _))

theorem FieldId.decode_append {f : FieldId} (hf : f.FitsWire) (rest : List UInt8) :
    decode (f.toBytes ++ rest) = some (f, rest) := by
  have hnumber : ofNumber? f.number = some f := if_neg (Nat.pos_iff_ne_zero.mp hf.1)
  simp only [decode, toBytes, decodeNat_append hf.2, hnumber, Option.bind_eq_bind, Option.bind_some]
  rfl

theorem TerminalSet.decode_append {set : TerminalSet} (hset : set.words.length < 2 ^ 64)
    (rest : List UInt8) : decode (set.toBytes ++ rest) = some (set, rest) := by
  have hword (w : UInt64) (rest : List UInt8) :
      ((decodeNat 64 (encodeNat w.toNat ++ rest)).map fun p => (p.1.toUInt64, p.2)) =
        some (w, rest) := by
    rw [decodeNat_append w.toNat_lt, Option.map_some]
    dsimp only
    rw [Nat.toUInt64_eq, UInt64.ofNat_toNat]
  rw [decode, toBytes, decodeList_append (P := fun _ => True) ⟨hset, fun _ _ => trivial⟩
    fun w _ _ => hword w, Option.map_some]

/-! ### Symbols as the table knows them, productions and actions -/

/-- The kinds of symbols are written with different numbers. -/
theorem SymbolInfo.kindOf?_numberOf (kind : SymbolKind) : kindOf? (numberOf kind) = some kind := by
  cases kind <;> rfl

theorem SymbolInfo.decode_append {info : SymbolInfo} (hinfo : IsText info.name)
    (rest : List UInt8) : decode (info.toBytes ++ rest) = some (info, rest) := by
  have hkind : numberOf info.kind < 2 ^ 32 := by cases info.kind <;> decide
  simp only [decode, toBytes, List.append_assoc, decodeString_append hinfo,
    decodeNat_append hkind, kindOf?_numberOf, decodeBool_append, Option.bind_eq_bind,
    Option.bind_some]
  rfl

/-- Whether the numbers of a production fit their widths. -/
structure TableProduction.FitsWire (p : TableProduction) : Prop where
  lhs : p.lhs.index < 2 ^ 16
  length : p.length < 2 ^ 16
  fields : IsList (IsOption FieldId.FitsWire) p.fields

theorem TableProduction.decode_append {p : TableProduction} (hp : p.FitsWire)
    (rest : List UInt8) : decode (p.toBytes ++ rest) = some (p, rest) := by
  have hfields := fun rest => decodeList_append hp.fields
    (fun _ _ hf => decodeOption_append hf fun _ => FieldId.decode_append) rest
  simp only [decode, toBytes, List.append_assoc, Symbol.decode_append hp.lhs,
    decodeNat_append hp.length, hfields, Option.bind_eq_bind, Option.bind_some]
  rfl

/-- Whether the number in an action fits its width. -/
def Action.FitsWire : Action → Prop
  | error | accept => True
  | shift number | reduce number => number < 2 ^ 32

instance : DecidablePred Action.FitsWire
  | .error | .accept => isTrue trivial
  | .shift number | .reduce number => inferInstanceAs (Decidable (number < 2 ^ 32))

theorem Action.decode_append {a : Action} (ha : a.FitsWire) (rest : List UInt8) :
    decode (a.toBytes ++ rest) = some (a, rest) := by
  have hform (form : Nat) (hform : form < 4) (rest : List UInt8) :
      decodeNat 32 (encodeNat form ++ rest) = some (form, rest) :=
    decodeNat_append (by omega) rest
  cases a with
  | error =>
    rw [decode, toBytes, hform 0 (by decide)]
    rfl
  | shift state =>
    rw [decode, toBytes, List.append_assoc, hform 1 (by decide), Option.bind_eq_bind,
      Option.bind_some]
    dsimp only
    rw [decodeNat_append ha]
    rfl
  | reduce production =>
    rw [decode, toBytes, List.append_assoc, hform 2 (by decide), Option.bind_eq_bind,
      Option.bind_some]
    dsimp only
    rw [decodeNat_append ha]
    rfl
  | accept =>
    rw [decode, toBytes, hform 3 (by decide)]
    rfl

/-! ### Keywords -/

namespace Keywords

/-- A keyword that comes last is put behind the others. -/
theorem insert_eq_append {found : Keywords} {text : String} {s : Symbol}
    (h : ∀ k ∈ found, k.1 < text) : insert text s found = found ++ [(text, s)] := by
  induction found with
  | nil => rfl
  | cons k found ih =>
    have hk : k.1 < text := h k (List.mem_cons_self ..)
    rw [insert, if_neg (lt_asymm hk), if_neg (ne_of_gt hk),
      ih fun k' hk' => h k' (List.mem_cons_of_mem _ hk'), List.cons_append]

/-- Keywords in the order of their texts are kept as they are. -/
theorem ofList_eq_self {keywords : Keywords} (h : keywords.Pairwise fun k k' => k.1 < k'.1) :
    ofList keywords = keywords := by
  -- what is found so far is a beginning of the list
  have hfound : ∀ back found : Keywords, found ++ back = keywords →
      back.foldl (fun found entry => insert entry.1 entry.2 found) found = keywords := by
    intro back
    induction back with
    | nil =>
      intro found heq
      rwa [List.append_nil] at heq
    | cons k back ih =>
      intro found heq
      have hbefore : ∀ k' ∈ found, k'.1 < k.1 := fun k' hk' =>
        (List.pairwise_append.mp (heq ▸ h)).2.2 k' hk' k (List.mem_cons_self ..)
      rw [List.foldl_cons, insert_eq_append hbefore]
      exact ih _ (by rw [List.append_assoc, List.singleton_append, heq])
  exact hfound keywords [] rfl

end Keywords

/-! ### The lexer's part and the whole -/

/-- Whether the lengths and numbers of the lexer's part fit their widths, and its keywords are in
order. -/
structure LexSpec.FitsWire (spec : LexSpec) : Prop where
  patternSymbols : IsList (fun s => s.index < 2 ^ 16) spec.patternSymbols
  precedence : IsList IsInt32 spec.precedence.toList
  keywords : IsList (fun k => IsText k.1 ∧ k.2.index < 2 ^ 16) spec.keywords
  ordered : spec.keywords.Pairwise fun k k' => k.1 < k'.1
  keywordSet : spec.keywordSet.words.length < 2 ^ 64
  word : IsOption (fun s => s.index < 2 ^ 16) spec.word
  extras : spec.extras.words.length < 2 ^ 64

/-- The keywords come back in the order of their texts, in which they are kept. -/
theorem LexSpec.decode_append {spec : LexSpec} (hspec : spec.FitsWire) (rest : List UInt8) :
    decode (spec.toBytes ++ rest) = some (spec, rest) := by
  have hkeyword (k : String × Symbol) (hk : IsText k.1 ∧ k.2.index < 2 ^ 16) (rest : List UInt8) :
      decodeKeyword ((encodeString k.1 ++ k.2.toBytes) ++ rest) = some (k, rest) := by
    simp only [decodeKeyword, List.append_assoc, decodeString_append hk.1,
      Symbol.decode_append hk.2, Option.bind_eq_bind, Option.bind_some]
    rfl
  have hsymbols := decodeList_append hspec.patternSymbols fun _ _ => Symbol.decode_append
  have hprecedence := decodeList_append hspec.precedence fun _ _ => decodeInt32_append
  have hkeywords := decodeList_append hspec.keywords fun k _ => hkeyword k
  have hword := decodeOption_append hspec.word fun _ => Symbol.decode_append
  simp only [decode, toBytes, List.append_assoc, hsymbols, hprecedence, hkeywords,
    TerminalSet.decode_append hspec.keywordSet, hword, TerminalSet.decode_append hspec.extras,
    Option.bind_eq_bind, Option.bind_some, Keywords.ofList_eq_self hspec.ordered]
  rfl

/-- Whether the lengths and numbers of the parts of a table fit their widths. -/
structure TableParts.FitsWire (t : TableParts) : Prop where
  name : IsText t.name
  symbols : IsList (fun info => IsText info.name) t.symbols.toList
  terminalCount : t.terminalCount < 2 ^ 64
  externalCount : t.externalCount < 2 ^ 64
  fieldNames : IsList IsText t.fieldNames
  productions : IsList TableProduction.FitsWire t.productions.toList
  stateCount : t.stateCount < 2 ^ 64
  actions : IsList Action.FitsWire t.actions.toList
  gotos : IsList (IsOption (· < 2 ^ 32)) t.gotos.toList
  lex : t.lex.FitsWire

/-- The parts of a table are read back. -/
theorem TableParts.decode_append {t : TableParts} (ht : t.FitsWire) (rest : List UInt8) :
    decode (t.toBytes ++ rest) = some (t, rest) := by
  have hsymbols := decodeList_append ht.symbols fun _ _ => SymbolInfo.decode_append
  have hfieldNames := decodeList_append ht.fieldNames fun _ _ => decodeString_append
  have hproductions := decodeList_append ht.productions fun _ _ => TableProduction.decode_append
  have hactions := decodeList_append ht.actions fun _ _ => Action.decode_append
  have hgotos := decodeList_append ht.gotos fun _ _ hgoto =>
    decodeOption_append hgoto fun _ => decodeNat_append
  simp only [decode, toBytes, List.append_assoc, decodeString_append ht.name, hsymbols,
    decodeNat_append ht.terminalCount, decodeNat_append ht.externalCount, hfieldNames,
    hproductions, decodeNat_append ht.stateCount, hactions, hgotos,
    LexSpec.decode_append ht.lex, Option.bind_eq_bind, Option.bind_some]
  rfl

/-! ### The header -/

namespace TableHeader

/-- A word is found by its place in the header alone. -/
theorem wordAt_append {n : Nat} (hn : n < 2 ^ 32) (u rest : List UInt8) :
    wordAt (u ++ (wordBytes n ++ rest)) u.length = n := by
  have hbyte (i : Nat) (hi : i < 4) :
      (u ++ (wordBytes n ++ rest))[u.length + i]? = (wordBytes n)[i]? := by
    rw [List.getElem?_append_right (by omega), Nat.add_sub_cancel_left,
      List.getElem?_append_left (by exact hi)]
  simp only [wordAt, hbyte 0 (by decide), hbyte 1 (by decide), hbyte 2 (by decide),
    hbyte 3 (by decide)]
  simp [wordBytes]
  omega

/-- Whether a header can be a file's: it begins with the letters, and its numbers have 32 bits. -/
structure FitsWire (h : TableHeader) : Prop where
  magic : h.magic = letters
  version : h.version < 2 ^ 32
  checksum : h.checksum < 2 ^ 32
  totalSize : h.totalSize < 2 ^ 32
  payloadSize : h.payloadSize < 2 ^ 32
  patternsSize : h.patternsSize < 2 ^ 32

/-- The header has one size, so the sections behind it begin where the reader looks for them. -/
theorem length_toBytes {h : TableHeader} (hh : h.FitsWire) : h.toBytes.length = size := by
  rw [toBytes, hh.magic]
  rfl

/-- The header is read back, whatever its body is. -/
theorem ofBytes_append {h : TableHeader} (hh : h.FitsWire) (body : List UInt8) :
    ofBytes (h.toBytes ++ body) = .ok h := by
  have hlength : ¬ (h.toBytes ++ body).length < size := by
    rw [List.length_append, length_toBytes hh]
    omega
  obtain ⟨magic, version, checksum, totalSize, payloadSize, patternsSize⟩ := h
  obtain ⟨rfl, hversion, hchecksum, htotal, hpayload, hpatterns⟩ := hh
  rw [ofBytes, if_neg hlength]
  simp only [toBytes, List.append_assoc]
  congr 2
  · exact wordAt_append hversion letters _
  · exact wordAt_append hchecksum (letters ++ wordBytes version) _
  · exact wordAt_append htotal (letters ++ wordBytes version ++ wordBytes checksum) _
  · exact wordAt_append hpayload
      (letters ++ wordBytes version ++ wordBytes checksum ++ wordBytes totalSize) _
  · exact wordAt_append hpatterns (letters ++ wordBytes version ++ wordBytes checksum ++
      wordBytes totalSize ++ wordBytes payloadSize) _

end TableHeader

/-! ### The patterns -/

namespace PatternSet

/-- A set of patterns is determined by their sources. -/
theorem ofSources?_sources (p : PatternSet) : ofSources? p.sources = some p := by
  obtain ⟨sources, patterns, hcompiled⟩ := p
  rw [ofSources?]
  split
  case h_1 found hfound =>
    obtain rfl := Option.some.inj (hfound.symm.trans hcompiled)
    rfl
  case h_2 hnone => exact absurd (hnone.symm.trans hcompiled) nofun

/-- Patterns are read back, unless there are more of them than any file can hold. -/
theorem readsBack {p : PatternSet} (hp : p.toBytes.length < 2 ^ 64) :
    AutomatonFormat.ReadsBack p := by
  have hsources : IsList IsText p.sources := by
    rw [toBytes, List.length_append] at hp
    exact isList_isText (by omega)
  have hread := decodeList_append hsources (fun _ _ => decodeString_append) []
  rw [List.append_nil] at hread
  have hbytes : ofBytes? p.toBytes = some p := by
    simp only [ofBytes?, toBytes, splitBytes_append, hread, Option.bind_eq_bind, Option.bind_some,
      ne_eq, not_true_eq_false, if_false, ofSources?_sources]
  exact ⟨p.toBytes.length, congrArg (Option.map (·, p.toBytes.length)) hbytes⟩

end PatternSet

/-! ### The file -/

namespace ParseTable

variable {A : Type} [ByteAutomaton A]

/-- A table is put together again from its parts and patterns. -/
theorem ofParts_parts (t : ParseTable A) : ofParts t.parts t.patterns = .ok t := by
  obtain ⟨parts, patterns, valid, hconsistent, rfl⟩ := t
  rw [ofParts]
  split
  case h_1 fault hfault => exact absurd (hfault.symm.trans hconsistent) nofun
  case h_2 => rfl

/-- Checking parts changes none of them. -/
theorem parts_of_ofParts {t : ParseTable A} {parts : TableParts} {patterns : A}
    (h : ofParts parts patterns = .ok t) : t.parts = parts := by
  rw [ofParts] at h
  split at h <;> cases h
  rfl

variable [AutomatonFormat A] {t : ParseTable A} {bytes : List UInt8}

/-- What follows the header of a table file. -/
def body (t : ParseTable A) : List UInt8 := t.parts.toBytes ++ AutomatonFormat.toBytes t.patterns

/-- The header that a table file begins with. -/
def header (t : ParseTable A) : TableHeader :=
  ⟨TableHeader.letters, 1, (crc32 t.body).toNat, TableHeader.size + t.body.length,
    t.parts.toBytes.length, (AutomatonFormat.toBytes t.patterns).length⟩

/-- The sizes that the header tells are those of the sections. -/
theorem length_body (t : ParseTable A) :
    t.body.length = t.header.payloadSize + t.header.patternsSize := List.length_append

theorem toBytes?_eq_some (h : t.toBytes? = some bytes) :
    t.header.FitsWire ∧ bytes = t.header.toBytes ++ t.body := by
  rw [toBytes?] at h
  split at h
  case isTrue hsize =>
    have hsize : TableHeader.size + t.body.length < 2 ^ 32 := hsize
    have hlength := t.length_body
    have hversion : 1 < 2 ^ 32 := by decide
    exact ⟨⟨rfl, hversion, UInt32.toNat_lt _, hsize, by omega, by omega⟩, (Option.some.inj h).symm⟩
  case isFalse => cases h

/-- A header passes its check at a file that has the two sections it tells of. -/
theorem check_header (t : ParseTable A) (hsize : t.header.totalSize = bytes.length) :
    t.header.check bytes.length = .ok () := by
  have hdeclared : t.header.totalSize =
      TableHeader.size + t.header.payloadSize + t.header.patternsSize := by
    rw [Nat.add_assoc, ← length_body, header]
  have hmagic : t.header.magic = TableHeader.letters := rfl
  have hversion : t.header.version = 1 := rfl
  simp only [TableHeader.check, hmagic, hversion, hsize, ← hdeclared, ne_eq, not_true_eq_false,
    if_false]

/-- **Reading back.** A table that is written as a file is read off the file, as it was, provided that the
format of its automaton reads the automaton back. -/
theorem ofBytes_of_toBytes? (hautomaton : AutomatonFormat.ReadsBack t.patterns)
    (ht : t.parts.FitsWire) (h : t.toBytes? = some bytes) : ofBytes bytes = .ok t := by
  obtain ⟨length, hautomaton⟩ := hautomaton
  obtain ⟨hheader, rfl⟩ := toBytes?_eq_some h
  have hlength := TableHeader.length_toBytes hheader
  have hcheck := t.check_header (show t.header.totalSize = (t.header.toBytes ++ t.body).length by
    rw [List.length_append, hlength, header])
  have hbody : (t.header.toBytes ++ t.body).drop TableHeader.size = t.body := List.drop_left' hlength
  have hchecksum : (crc32 t.body).toNat = t.header.checksum := rfl
  have hparts := TableParts.decode_append ht []
  rw [List.append_nil] at hparts
  refine bind_eq_ok.mpr ⟨t.header, TableHeader.ofBytes_append hheader _, bind_eq_ok.mpr ⟨(), hcheck, ?_⟩⟩
  -- the sizes in the header cut the sections apart again
  have hpayload : t.body.take t.header.payloadSize = t.parts.toBytes := List.take_left' rfl
  have hrest : t.body.drop t.header.payloadSize = AutomatonFormat.toBytes t.patterns :=
    List.drop_left' rfl
  rw [hbody]
  dsimp only
  rw [if_neg (not_not.mpr hchecksum), hpayload, hparts]
  dsimp only
  rw [hrest, hautomaton]
  dsimp only
  rw [ofParts_parts]

/-- Parts with tokens of every kind, a keyword, a field and a level below zero. -/
def linesParts : TableParts where
  name := "lines"
  symbols := #[⟨"end", .terminal, false, false⟩, ⟨"heredoc", .external, true, true⟩,
    ⟨"word", .terminal, true, true⟩, ⟨"if", .terminal, true, false⟩,
    ⟨"line", .nonTerminal, true, true⟩]
  terminalCount := 4
  externalCount := 1
  fieldNames := ["left"]
  productions := #[⟨⟨4⟩, 2, [some ⟨1⟩, none]⟩]
  stateCount := 2
  actions := #[.error, .shift 1, .error, .error, .accept, .error, .reduce 0, .error]
  gotos := #[some 1, none]
  lex := ⟨[⟨2⟩, ⟨3⟩], #[0, 0, -300, 2], [("if", ⟨3⟩)], ⟨[8]⟩, some ⟨2⟩, .empty⟩

/-- The table of these parts. -/
def lines? : Option ParseTable :=
  (PatternSet.ofSources? ["[a-z]+", "if"]).bind fun patterns =>
    (ofParts linesParts patterns).toOption

theorem fitsWire_linesParts : linesParts.FitsWire where
  name := by decide
  symbols := by decide
  terminalCount := by decide
  externalCount := by decide
  fieldNames := by decide
  productions := ⟨by decide, fun p hp => by
    obtain rfl := List.mem_singleton.mp hp
    exact ⟨by decide, by decide, by decide⟩⟩
  stateCount := by decide
  actions := by decide
  gotos := by decide
  lex := ⟨by decide, by decide, by decide, List.pairwise_singleton .., by decide, by decide, by decide⟩

theorem ofBytes_of_toBytes?_lines : ∃ t bytes, lines? = some t ∧
    AutomatonFormat.ReadsBack t.patterns ∧ t.parts.FitsWire ∧ t.toBytes? = some bytes ∧
      ofBytes bytes = .ok t := by
  have hwritten : (lines?.bind toBytes?).isSome = true := by decide +kernel
  obtain ⟨bytes, hbytes⟩ := Option.isSome_iff_exists.mp hwritten
  obtain ⟨t, ht, hbytes⟩ := Option.bind_eq_some_iff.mp hbytes
  have hfits : t.parts.FitsWire := by
    rw [lines?] at ht
    obtain ⟨patterns, -, hparts⟩ := Option.bind_eq_some_iff.mp ht
    rw [parts_of_ofParts (eq_ok_of_toOption hparts)]
    exact fitsWire_linesParts
  have hautomaton : AutomatonFormat.ReadsBack t.patterns :=
    PatternSet.readsBack (Nat.lt_trans (toBytes?_eq_some hbytes).1.patternsSize (by decide))
  exact ⟨t, bytes, ht, hautomaton, hfits, hbytes, ofBytes_of_toBytes? hautomaton hfits hbytes⟩

end ParseTable

end LRWorkbench
