import LRWorkbench.Proofs.Json.Reading
import Mathlib.Data.List.Basic

/-!
# Writing JSON values

`Json.write` writes a value with no blanks. What it writes spells the value, if all its numbers are
integers of at most 64 bits (`Json.isDocument_write`), and so is read as that value again
(`Json.read?_write`).
-/

namespace LRWorkbench.Json

/-! ### The writer -/

/-- A character between quotes: as it is, but for quotes, backslashes and control characters. -/
def escape (c : Char) : List Char :=
  if c = '"' then ['\\', '"']
  else if c = '\\' then ['\\', '\\']
  else if c.toNat < 32 then
    ['\\', 'u', '0', '0', Nat.digitChar (c.toNat / 16), Nat.digitChar (c.toNat % 16)]
  else [c]

/-- A text between quotes. -/
def quote (s : String) : List Char := '"' :: (s.toList.flatMap escape ++ ['"'])

mutual

/-- Writes a value with no blanks. -/
def write : Json → List Char
  | null => ['n', 'u', 'l', 'l']
  | bool true => ['t', 'r', 'u', 'e']
  | bool false => ['f', 'a', 'l', 's', 'e']
  | int n => (if n < 0 then ['-'] else []) ++ Nat.toDigits 10 n.natAbs
  | real => ['0', '.', '5']
  | text s => quote s
  | list items => '[' :: writeItems items
  | object members => '\x7b' :: writeMembers members

/-- Writes the items of a list and its closing bracket. -/
def writeItems : List Json → List Char
  | [] => [']']
  | [v] => write v ++ [']']
  | v :: vs => write v ++ ',' :: writeItems vs

/-- Writes the members of an object and its closing brace. -/
def writeMembers : List (String × Json) → List Char
  | [] => ['\x7d']
  | [(name, v)] => quote name ++ ':' :: (write v ++ ['\x7d'])
  | (name, v) :: members => quote name ++ ':' :: (write v ++ ',' :: writeMembers members)

end

mutual

/-- Whether all numbers of a value are integers of at most 64 bits. -/
def IsExact : Json → Prop
  | int n => -0x8000000000000000 ≤ n ∧ n < 0x10000000000000000
  | real => False
  | list items => AllExact items
  | object members => MembersExact members
  | null | bool _ | text _ => True

/-- Whether all numbers of some values are integers of at most 64 bits. -/
def AllExact : List Json → Prop
  | [] => True
  | v :: vs => IsExact v ∧ AllExact vs

/-- Whether all numbers of some members are integers of at most 64 bits. -/
def MembersExact : List (String × Json) → Prop
  | [] => True
  | (_, v) :: members => IsExact v ∧ MembersExact members

end

theorem allExact_iff {vs : List Json} : AllExact vs ↔ ∀ v ∈ vs, v.IsExact := by
  induction vs with
  | nil => exact iff_of_true trivial nofun
  | cons v vs ih => rw [AllExact, ih, List.forall_mem_cons]

theorem membersExact_iff {members : List (String × Json)} :
    MembersExact members ↔ ∀ m ∈ members, m.2.IsExact := by
  induction members with
  | nil => exact iff_of_true trivial nofun
  | cons m members ih => rw [MembersExact, ih, List.forall_mem_cons]

/-! ### Texts -/

variable {cs rest : List Char}

theorem hexQuad?_control : ∀ n < 32,
    hexQuad? '0' '0' (Nat.digitChar (n / 16)) (Nat.digitChar (n % 16)) = some n := by
  decide

/-- A character is written so that it is found again. -/
theorem spellsInside_escape (c : Char) {s : List Char} (h : SpellsInside cs s rest) :
    SpellsInside (escape c ++ cs) (c :: s) rest := by
  rw [escape]
  split
  · rename_i heq
    subst heq
    exact .short rfl h
  · rename_i hquote
    split
    · rename_i heq
      subst heq
      exact .short rfl h
    · rename_i hback
      split
      · rename_i hcontrol
        have hnumber := SpellsInside.unicode (hexQuad?_control c.toNat hcontrol)
          (.inl (Nat.lt_trans hcontrol (by decide))) h
        rwa [Char.ofNat_toNat] at hnumber
      · rename_i hcontrol
        exact .plain hquote hback (Nat.not_lt.mp hcontrol) h

theorem spellsInside_flatMap_escape (s rest : List Char) :
    SpellsInside (s.flatMap escape ++ '"' :: rest) s rest := by
  induction s with
  | nil => exact .close
  | cons c s ih =>
    rw [List.flatMap_cons, List.append_assoc]
    exact spellsInside_escape c ih

/-! ### Numbers -/

theorem toDigits_succ {n : Nat} (h : 10 ≤ n) :
    Nat.toDigits 10 n = Nat.toDigits 10 (n / 10) ++ [Nat.digitChar (n % 10)] :=
  Nat.toDigits_of_base_le (by decide) h

theorem digitsValue_append (ds : List Char) (d : Char) :
    digitsValue (ds ++ [d]) = 10 * digitsValue ds + (d.toNat - 48) := by
  simp [digitsValue]

theorem digitChar_isDigit : ∀ n < 10, '0' ≤ Nat.digitChar n ∧ Nat.digitChar n ≤ '9' ∧
    (Nat.digitChar n).toNat - 48 = n := by
  decide

/-- The digits of a number stand for it. -/
theorem digitsValue_toDigits (n : Nat) : digitsValue (Nat.toDigits 10 n) = n := by
  induction n using Nat.strongRecOn with
  | ind n ih =>
    rcases Nat.lt_or_ge n 10 with hlt | hge
    · rw [Nat.toDigits_of_lt_base hlt]
      simpa [digitsValue] using (digitChar_isDigit n hlt).2.2
    · rw [toDigits_succ hge, digitsValue_append, ih _ (by omega),
        (digitChar_isDigit _ (Nat.mod_lt _ (by decide))).2.2]
      omega

/-- The digits of a number do not begin with a zero, but for the number zero. -/
theorem isWhole_toDigits (n : Nat) : IsWhole (Nat.toDigits 10 n) := by
  induction n using Nat.strongRecOn with
  | ind n ih =>
    rcases Nat.lt_or_ge n 10 with hlt | hge
    · rw [Nat.toDigits_of_lt_base hlt]
      have hdigit := digitChar_isDigit n hlt
      exact ⟨List.cons_ne_nil _ _, List.forall_mem_singleton.mpr ⟨hdigit.1, hdigit.2.1⟩, fun _ => rfl⟩
    · have hfront := ih (n / 10) (by omega)
      have hlast := digitChar_isDigit (n % 10) (Nat.mod_lt _ (by decide))
      rw [toDigits_succ hge]
      refine ⟨List.concat_ne_nil _ _, ?_, fun hzero => absurd (digitsValue_toDigits (n / 10)) ?_⟩
      · exact List.forall_mem_append.mpr
          ⟨hfront.digits, List.forall_mem_singleton.mpr ⟨hlast.1, hlast.2.1⟩⟩
      · rw [List.head?_append_of_ne_nil _ hfront.ne_nil] at hzero
        obtain ⟨c, heq⟩ := List.length_eq_one_iff.mp (hfront.zero hzero)
        rw [heq] at hzero ⊢
        cases hzero
        exact Nat.ne_of_lt (Nat.div_pos hge (by decide))

/-! ### Values -/

theorem endsNumber_cons {c : Char} (h : c = ',' ∨ c = ']' ∨ c = '\x7d') (cs : List Char) :
    EndsNumber (c :: cs) := by
  intro d hd
  cases Option.mem_some_iff.mp hd
  rcases h with rfl | rfl | rfl <;> decide

theorem spells_int {n : Int} (h : (int n).IsExact) (hrest : EndsNumber rest) :
    Spells (write (int n) ++ rest) (.value (int n)) rest := by
  have hwhole := isWhole_toDigits n.natAbs
  have hvalue := digitsValue_toDigits n.natAbs
  rw [IsExact] at h
  rw [write]
  split
  · have hn : n = -(digitsValue (Nat.toDigits 10 n.natAbs) : Int) := by omega
    have hspells := Spells.negative hwhole (by omega) (by omega) hrest
    rwa [← hn] at hspells
  · have hn : n = (digitsValue (Nat.toDigits 10 n.natAbs) : Int) := by omega
    have hspells := Spells.natural hwhole (by omega) hrest
    rwa [← hn] at hspells

theorem spells_quote (name : String) (cs : List Char) :
    SpellsInside ((name.toList.flatMap escape ++ ['"']) ++ cs) name.toList cs := by
  rw [List.append_assoc]
  exact spellsInside_flatMap_escape name.toList cs

theorem spells_member (name : String) {v : Json} (h : Spells cs (.value v) rest) :
    Spells (quote name ++ ':' :: cs) (.member name v) rest := by
  have hspells := Spells.member .nil (spells_quote name (':' :: cs)) .nil .nil h
  rwa [String.ofList_toList] at hspells

mutual

/-- What is written spells the value. -/
theorem spells_write (v : Json) (h : v.IsExact) {rest : List Char} (hrest : EndsNumber rest) :
    Spells (write v ++ rest) (.value v) rest := by
  match v with
  | null => exact .null
  | bool true => exact .yes
  | bool false => exact .no
  | int n => exact spells_int h hrest
  | text s =>
    have hspells := Spells.text (spells_quote s rest)
    rwa [String.ofList_toList] at hspells
  | list [] => exact .nil .nil
  | list (v :: vs) => exact .list (spells_writeItems (v :: vs) (List.cons_ne_nil _ _) h rest)
  | object [] => exact .empty .nil
  | object (m :: ms) =>
    exact .object (spells_writeMembers (m :: ms) (List.cons_ne_nil _ _) h rest)

theorem spells_writeItems (vs : List Json) (hne : vs ≠ []) (h : AllExact vs) (rest : List Char) :
    Spells (writeItems vs ++ rest) (.items vs) rest := by
  match vs with
  | [] => exact absurd rfl hne
  | [v] =>
    rw [writeItems, List.append_assoc]
    exact .lastItem .nil (spells_write v h.1 (endsNumber_cons (by decide) rest)) .nil
  | v :: next :: more =>
    rw [writeItems, List.append_assoc]
    · exact .consItem .nil (spells_write v h.1 (endsNumber_cons (by decide) _)) .nil
        (spells_writeItems (next :: more) (List.cons_ne_nil _ _) h.2 rest)
    · exact List.cons_ne_nil _ _

theorem spells_writeMembers (ms : List (String × Json)) (hne : ms ≠ []) (h : MembersExact ms)
    (rest : List Char) : Spells (writeMembers ms ++ rest) (.members ms) rest := by
  match ms with
  | [] => exact absurd rfl hne
  | [(name, v)] =>
    have hv : Spells (write v ++ '\x7d' :: rest) (.value v) ('\x7d' :: rest) :=
      spells_write v h.1 (endsNumber_cons (by decide) rest)
    have hmembers := Spells.lastMember (spells_member name hv) .nil
    rw [writeMembers]
    simpa using hmembers
  | (name, v) :: next :: more =>
    have hmore := spells_writeMembers (next :: more) (List.cons_ne_nil _ _) h.2 rest
    have hv : Spells (write v ++ ',' :: (writeMembers (next :: more) ++ rest)) (.value v)
        (',' :: (writeMembers (next :: more) ++ rest)) :=
      spells_write v h.1 (endsNumber_cons (by decide) _)
    have hmembers := Spells.consMember (spells_member name hv) .nil hmore
    rw [writeMembers]
    · simpa using hmembers
    · exact List.cons_ne_nil _ _

end

/-- **Writing.** A value whose numbers are integers of at most 64 bits is written as itself. -/
theorem isDocument_write {v : Json} (h : v.IsExact) : IsDocument v (write v) := by
  have hspells : Spells (write v ++ []) (.value v) [] := spells_write v h nofun
  rw [List.append_nil] at hspells
  exact ⟨.nil, hspells, .nil⟩

/-- **Reading back.** A value whose numbers are integers of at most 64 bits is read from what it is
written as, if it nests less deep than the limit and all names of an outermost object are wanted. -/
theorem read?_write {v : Json} {wanted : String → Bool} (h : v.IsExact)
    (hnesting : v.nesting < nestingLimit)
    (hwanted : ∀ ms, v = .object ms → ∀ m ∈ ms, wanted m.1 = true) : read? wanted (write v) = some v :=
  read?_of_isDocument (isDocument_write h) hnesting hwanted

end LRWorkbench.Json
