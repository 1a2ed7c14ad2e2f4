import LRWorkbench.Proofs.Parsing.Reduction
import LRWorkbench.Tree.Subtree

/-!
# Runs do not ask for the history of subtrees

What a parser does depends on its subtrees only apart from their history (`Parser.plain`). So as
long as a run takes nothing over, it goes like that of the text parsed for the first time
(`Parser.plain_step`).
-/

namespace LRWorkbench

/-!
### Subtrees apart from their history

A subtree remembers which run built it, and a leaf also the state below it, which no one asks a
leaf for. `Subtree.plain` forgets both. Nodes that are built over subtrees alike in all else are
alike (`plain_build`), and subtrees that are alike look the same (`same_of_plain_eq`).
-/

namespace Subtree

mutual

/-- A subtree without the run that built it, and its leaves without the states below them. -/
def plain : Subtree → Subtree
  | leaf i x => leaf { i with generation := 0, parseState := 0 } x
  | node i p children => node { i with generation := 0 } p (plainAll children)

/-- Several subtrees without their history. -/
def plainAll : List Subtree → List Subtree
  | [] => []
  | t :: ts => plain t :: plainAll ts

end

theorem plainAll_eq (ts : List Subtree) : plainAll ts = ts.map plain := by
  induction ts with
  | nil => rfl
  | cons t ts ih => rw [plainAll, ih, List.map_cons]

variable (t : Subtree)

-- What the parser asks a subtree for is the same without its history.

@[simp] theorem symbol_plain : t.plain.symbol = t.symbol := by cases t <;> rfl

@[simp] theorem size_plain : t.plain.size = t.size := by cases t <;> rfl

@[simp] theorem length_plain : t.plain.length = t.length := by rw [length, size_plain, length]

@[simp] theorem isLeaf_plain : t.plain.isLeaf = t.isLeaf := by cases t <;> rfl

@[simp] theorem isExtra_plain : t.plain.isExtra = t.isExtra := by cases t <;> rfl

@[simp] theorem isIgnored_plain : t.plain.isIgnored = t.isIgnored := by
  rw [isIgnored, isExtra_plain, symbol_plain, isIgnored]

@[simp] theorem isError_plain : t.plain.isError = t.isError := by
  rw [isError, symbol_plain, isError]

@[simp] theorem hasError_plain : t.plain.hasError = t.hasError := by cases t <;> rfl

@[simp] theorem isFragile_plain : t.plain.isFragile = t.isFragile := by cases t <;> rfl

@[simp] theorem production?_plain : t.plain.production? = t.production? := by cases t <;> rfl

@[simp] theorem lexState_plain : t.plain.info.lexState = t.info.lexState := by cases t <;> rfl

@[simp] theorem lookaheadBytes_plain : t.plain.info.lookaheadBytes = t.info.lookaheadBytes := by
  cases t <;> rfl

@[simp] theorem scannerBefore_plain : t.plain.info.scannerBefore = t.info.scannerBefore := by
  cases t <;> rfl

@[simp] theorem scannerAfter_plain : t.plain.info.scannerAfter = t.info.scannerAfter := by
  cases t <;> rfl

@[simp] theorem children_plain : t.plain.children = t.children.map plain := by
  cases t with
  | leaf i x => rfl
  | node i p children => exact plainAll_eq children

variable {t}

/-- Interior nodes keep the state below them, which is asked for when they are taken apart. -/
theorem parseState_plain (h : t.isLeaf = false) : t.plain.info.parseState = t.info.parseState := by
  cases t with
  | leaf => cases h
  | node => rfl

mutual

/-- Forgetting the history twice forgets no more. -/
@[simp] theorem plain_plain (t : Subtree) : t.plain.plain = t.plain := by
  cases t with
  | leaf i x => rfl
  | node i p children =>
    rw [plain, plain, plainAll_eq, plainAll_eq]
    exact congrArg _ (map_plain_plain children)

/-- The same for several subtrees. -/
theorem map_plain_plain (ts : List Subtree) : (ts.map plain).map plain = ts.map plain := by
  cases ts with
  | nil => rfl
  | cons t ts => rw [List.map_cons, List.map_cons, plain_plain, map_plain_plain]

end

/-! ### Building nodes -/

/-- What a node gathers of a child is no history. -/
theorem Gathered.add_plain (g : Gathered) (t : Subtree) : g.add t.plain = g.add t := by
  simp [Gathered.add]

theorem foldl_add_plain (ts : List Subtree) (g : Gathered) :
    (ts.map plain).foldl Gathered.add g = ts.foldl Gathered.add g := by
  rw [List.foldl_map]
  simp only [Gathered.add_plain]

/-- Nodes over subtrees that are alike are alike. -/
theorem plain_build (generation : Nat) (symbol : Symbol) (production : Option Nat)
    (ts : List Subtree) (parseState lookahead : Nat) (isFragile : Bool) (scanner : ScannerState) :
    plain (build generation symbol production ts parseState lookahead isFragile scanner) =
      build 0 symbol production (ts.map plain) parseState lookahead isFragile scanner := by
  simp only [build, plain, plainAll_eq, foldl_add_plain, List.head?_map, List.getLast?_map,
    Option.map_map, Function.comp_def, scannerBefore_plain, scannerAfter_plain]

/-- The same for error nodes. -/
theorem plain_buildError (generation : Nat) (ts : List Subtree) (parseState : Nat)
    (scanner : ScannerState) : plain (buildError generation ts parseState scanner) =
      buildError 0 (ts.map plain) parseState scanner :=
  plain_build ..

/-! ### Comparing -/

/-- Comparing subtrees without their children leaves their history out. -/
theorem sameTop_plain (t u : Subtree) : sameTop t.plain u.plain = sameTop t u := by
  simp [sameTop]

mutual

/-- Comparing trees leaves their history out. -/
theorem same_plain (t u : Subtree) : same t.plain u.plain = same t u := by
  cases t with
  | leaf i x => exact sameTop_plain (leaf i x) u
  | node i p children =>
    rw [same, ← sameAll_plain, ← children_plain, ← sameTop_plain, plain, same, plainAll_eq]

theorem sameAll_plain (ts us : List Subtree) :
    sameAll (ts.map plain) (us.map plain) = sameAll ts us := by
  cases ts with
  | nil => cases us <;> rfl
  | cons t ts =>
    cases us with
    | nil => rfl
    | cons u us => rw [List.map_cons, List.map_cons, sameAll, same_plain, sameAll_plain, sameAll]

end

theorem sameTop_self (t : Subtree) : sameTop t t = true := by
  simp [sameTop]

mutual

/-- A tree is the same as itself. -/
theorem same_self (t : Subtree) : same t t = true := by
  cases t with
  | leaf i x => exact sameTop_self _
  | node i p children =>
    rw [same, sameTop_self, Bool.true_and]
    exact sameAll_self children

theorem sameAll_self (ts : List Subtree) : sameAll ts ts = true := by
  cases ts with
  | nil => rfl
  | cons t ts => rw [sameAll, same_self, sameAll_self, Bool.and_true]

end

/-- Subtrees that are alike look the same. -/
theorem same_of_plain_eq {t u : Subtree} (h : t.plain = u.plain) : same t u = true := by
  rw [← same_plain, h]
  exact same_self _

end Subtree

end LRWorkbench

namespace LRWorkbench.Parsing

open Subtree

/-- The setting of the same text parsed for the first time. -/
def Setting.anew (s : Setting) : Setting := .fresh s.language s.text s.window

section

variable (s : Setting)

-- The text and how it is read are those of the edited text; what changes is that there is no old
-- tree, so that nothing is taken over.

@[simp] theorem Setting.anew_language : s.anew.language = s.language := rfl

@[simp] theorem Setting.anew_table : s.anew.table = s.table := rfl

@[simp] theorem Setting.anew_text : s.anew.text = s.text := rfl

@[simp] theorem Setting.anew_length : s.anew.length = s.length := rfl

@[simp] theorem Setting.anew_window : s.anew.window = s.window := rfl

end

/-- An entry without the history of its subtree. -/
def Entry.plain (e : Entry) : Entry := { e with subtree := e.subtree.plain }

/-- A subtree that waits, without its history. -/
def plainEntry (entry : Subtree × Nat) : Subtree × Nat := (entry.1.plain, entry.2)

@[simp] theorem Entry.plain_plain (e : Entry) : e.plain.plain = e.plain := by
  rw [Entry.plain, Entry.plain, Subtree.plain_plain]

/-- What is taken off the stack and waits again, without its history. -/
theorem map_plainEntry_entries (entries : List Entry) :
    (entries.map fun e => (e.subtree, e.start)).map plainEntry =
      (entries.map Entry.plain).map fun e => (e.subtree, e.start) := by
  rw [List.map_map, List.map_map]
  rfl

@[simp] theorem plainEntry_plainEntry (entry : Subtree × Nat) :
    plainEntry (plainEntry entry) = plainEntry entry := by
  rw [plainEntry, plainEntry, Subtree.plain_plain]

namespace Stack

variable (stack : Stack)

@[simp] theorem state_map_plain : state (stack.map Entry.plain) = state stack := by
  cases stack <;> rfl

theorem stateAbove_map_plain (q : Nat) :
    stateAbove q (stack.map Entry.plain) = stateAbove q stack := by
  cases stack <;> rfl

@[simp] theorem stop_map_plain : stop (stack.map Entry.plain) = stop stack := by
  cases stack with
  | nil => rfl
  | cons e stack => simp [stop, Entry.plain]

/-- Putting an ignored subtree onto a stack asks for no history. -/
theorem pushIgnored_map_plain (t : Subtree) (start : Nat) :
    pushIgnored (stack.map Entry.plain) t.plain start =
      (pushIgnored stack t start).map Entry.plain := by
  simp [pushIgnored, Entry.plain]

/-- The same for all subtrees that wait. -/
theorem pushAllIgnored_map_plain (entries : List (Subtree × Nat)) :
    pushAllIgnored (stack.map Entry.plain) (entries.map plainEntry) =
      (pushAllIgnored stack entries).map Entry.plain := by
  induction entries generalizing stack with
  | nil => rfl
  | cons entry entries ih =>
    rw [List.map_cons, pushAllIgnored, List.foldl_cons, ← pushAllIgnored, plainEntry,
      pushIgnored_map_plain, ih]
    rfl

theorem isIgnored_entry_plain (e : Entry) : e.plain.subtree.isIgnored = e.subtree.isIgnored :=
  isIgnored_plain _

/-- The states that a stack is searched for are no history. -/
theorem grammarStates_map_plain : grammarStates (stack.map Entry.plain) = grammarStates stack := by
  rw [grammarStates, grammarStates, List.filter_map, List.map_map]
  simp [Function.comp_def, Entry.plain]

/-- The subtrees that a tree is built over. -/
theorem subtrees_map_plain : subtrees (stack.map Entry.plain) = (subtrees stack).map plain := by
  rw [subtrees, subtrees, List.map_map, List.map_reverse, List.map_map]
  rfl

end Stack

namespace Parser

/-- A parser without the history of its subtrees. -/
def plain (p : Parser) : Parser :=
  { p with stack := p.stack.map Entry.plain, pending := p.pending.map plainEntry }

/-- Parsers are alike when they stand at the same place of the text with stacks and waiting subtrees
that are alike. -/
theorem plain_eq_iff {p q : Parser} : q.plain = p.plain ↔
    q.stack.map Entry.plain = p.stack.map Entry.plain ∧
      q.pending.map plainEntry = p.pending.map plainEntry ∧ q.position = p.position ∧
      q.scanner = p.scanner ∧ q.lexState = p.lexState := by
  rw [plain, plain, Parser.mk.injEq]

variable {s : Setting} {p q : Parser} {token : Token}

@[simp] theorem plain_plain (p : Parser) : p.plain.plain = p.plain := by
  simp [plain, Function.comp_def]

/-- Parsers that are alike look up the same row of the table. -/
theorem state_eq (h : q.plain = p.plain) : q.state = p.state := by
  rw [state, ← Stack.state_map_plain, (plain_eq_iff.mp h).1, Stack.state_map_plain, state]

/-- What waits is put onto the stacks of both. -/
theorem plain_flush (h : q.plain = p.plain) : q.flush.plain = p.flush.plain := by
  obtain ⟨hstack, hpending, hposition, hscanner, hlex⟩ := plain_eq_iff.mp h
  refine plain_eq_iff.mpr ⟨?_, rfl, hposition, hscanner, hlex⟩
  rw [flush, flush, ← Stack.pushAllIgnored_map_plain, hstack, hpending,
    Stack.pushAllIgnored_map_plain]

/-! ### Reading tokens -/

/-- Both read on to the same token, over the same extras. Reading does not look at the old tree. -/
theorem plain_readOn (h : q.plain = p.plain) (lexState fuel : Nat) :
    (readOn s.anew lexState fuel q).1 = (readOn s lexState fuel p).1 ∧
      (readOn s.anew lexState fuel q).2.plain = (readOn s lexState fuel p).2.plain := by
  induction fuel generalizing p q with
  | zero =>
    obtain ⟨-, -, -, hscanner, -⟩ := plain_eq_iff.mp h
    exact ⟨by rw [readOn, readOn, hscanner, Setting.anew_length], h⟩
  | succ fuel ih =>
    obtain ⟨hstack, hpending, hposition, hscanner, -⟩ := plain_eq_iff.mp h
    rw [readOn, readOn, hposition, hscanner, Setting.anew_language, Setting.anew_text,
      Setting.anew_table]
    generalize Lexer.nextToken s.language s.text p.position p.scanner
      (s.table.validTerminals lexState) = token
    dsimp only
    split
    · refine ih (plain_eq_iff.mpr ⟨hstack, ?_, rfl, rfl, (plain_eq_iff.mp h).2.2.2.2⟩)
      simp only [behind, List.map_append, hpending, List.map_cons, List.map_nil]
      rfl
    · exact ⟨rfl, plain_eq_iff.mpr ⟨hstack, hpending, rfl, rfl, rfl⟩⟩

/-- The next token is the same for both. -/
theorem plain_read (h : q.plain = p.plain) :
    (read s.anew q).1 = (read s p).1 ∧ (read s.anew q).2.plain = (read s p).2.plain := by
  rw [read, read, (plain_eq_iff.mp h).2.2.2.2, state_eq h]
  exact plain_readOn h ..

/-- A token found ahead, without the history of the extras before it. -/
def Ahead.plain (a : Ahead) : Ahead := { a with extras := a.extras.map plainEntry }

/-- Tokens that are looked at ahead of an error are the same for both. -/
theorem plain_readAheadOn (h : q.plain = p.plain) {extras extras' : List (Subtree × Nat)}
    (hextras : extras'.map plainEntry = extras.map plainEntry) (fuel : Nat) :
    (readAheadOn s.anew extras' fuel q).1.plain = (readAheadOn s extras fuel p).1.plain ∧
      (readAheadOn s.anew extras' fuel q).2.plain = (readAheadOn s extras fuel p).2.plain := by
  induction fuel generalizing p q extras extras' with
  | zero =>
    obtain ⟨-, -, -, hscanner, -⟩ := plain_eq_iff.mp h
    exact ⟨by rw [readAheadOn, readAheadOn, Ahead.plain, Ahead.plain, hextras, hscanner,
      Setting.anew_length], h⟩
  | succ fuel ih =>
    obtain ⟨hstack, hpending, hposition, hscanner, hlex⟩ := plain_eq_iff.mp h
    rw [readAheadOn, readAheadOn, hposition, hscanner, Setting.anew_language, Setting.anew_text]
    generalize Lexer.nextTokenInErrorMode s.language s.text p.position p.scanner = token
    have hbehind : (q.behind token).plain = (p.behind token).plain :=
      plain_eq_iff.mpr ⟨hstack, hpending, rfl, rfl, hlex⟩
    split
    · refine ih hbehind ?_
      simp only [List.map_append, hextras, List.map_cons, List.map_nil, plainEntry, state_eq h]
      rfl
    · exact ⟨by rw [Ahead.plain, Ahead.plain, hextras], hbehind⟩

/-! ### Shifting, reducing and the end -/

/-- A token is shifted by both. -/
theorem plain_shift (h : q.plain = p.plain) (next : Nat) :
    (q.shift s.anew next token).plain = (p.shift s next token).plain := by
  obtain ⟨hstack, hpending, hposition, hscanner, hlex⟩ := plain_eq_iff.mp (plain_flush h)
  refine plain_eq_iff.mpr ⟨?_, hpending, hposition, hscanner, hlex⟩
  rw [shift, shift, List.map_cons, List.map_cons, hstack]
  rfl

theorem stackScanner_map_plain (stack : Stack) :
    stackScanner (stack.map Entry.plain) = stackScanner stack := by
  cases stack with
  | nil => rfl
  | cons e stack => exact scannerAfter_plain _

/-- The node that is built over steps that are alike, an error node if there is no goto. -/
theorem plain_entryOver {s s' : Setting} (htable : s'.table = s.table) (production : Nat)
    (rule : TableProduction) (token : Token) (steps : List Entry) (state stop : Nat)
    (scanner : ScannerState) :
    (entryOver s' production rule token (steps.map Entry.plain) state stop scanner).plain =
      (entryOver s production rule token steps state stop scanner).plain := by
  have hsubtrees : ((steps.map Entry.plain).map (·.subtree)).map Subtree.plain =
      (steps.map (·.subtree)).map Subtree.plain := by
    rw [List.map_map, List.map_map, List.map_map]
    exact List.map_congr_left fun e _ => Subtree.plain_plain _
  have hstart : ((steps.map Entry.plain).head?.map (·.start)).getD stop =
      (steps.head?.map (·.start)).getD stop := by
    cases steps <;> rfl
  simp only [entryOver, hstart, htable]
  cases s.table.goto? state rule.lhs with
  | some next => simp only [Entry.plain, plain_build, hsubtrees]
  | none => simp only [Entry.plain, plain_buildError, List.map_cons, List.map_nil, plain_build,
      hsubtrees]

/-- What a production puts onto a stack: the node, and the ignored subtrees that were above its
steps. -/
theorem plain_reduceAbove {front front' : Stack}
    (h : front'.map Entry.plain = front.map Entry.plain) {s s' : Setting}
    (htable : s'.table = s.table) (production : Nat) (rule : TableProduction) (token : Token)
    (q : Nat) :
    (reduceAbove s' production rule token q front').map Entry.plain =
      (reduceAbove s production rule token q front).map Entry.plain := by
  have hignored := (Stack.splitIgnored_map Stack.isIgnored_entry_plain front' []).symm.trans
    ((congrArg (Stack.splitIgnored []) h).trans
      (Stack.splitIgnored_map Stack.isIgnored_entry_plain front []))
  rw [reduceAbove, reduceAbove]
  generalize Stack.splitIgnored [] front = split at hignored ⊢
  generalize Stack.splitIgnored [] front' = split' at hignored ⊢
  obtain ⟨trailing, stack⟩ := split
  obtain ⟨trailing', stack'⟩ := split'
  obtain ⟨htrailing, hstack⟩ := Prod.mk.inj hignored
  have hsteps := (Stack.splitSteps_map Stack.isIgnored_entry_plain stack' [] rule.length).symm.trans
    ((congrArg (Stack.splitSteps [] rule.length) hstack).trans
      (Stack.splitSteps_map Stack.isIgnored_entry_plain stack [] rule.length))
  dsimp only
  generalize Stack.splitSteps [] rule.length stack = split at hsteps ⊢
  generalize Stack.splitSteps [] rule.length stack' = split' at hsteps ⊢
  obtain ⟨steps, rest⟩ := split
  obtain ⟨steps', rest'⟩ := split'
  obtain ⟨hsteps, hrest⟩ := Prod.mk.inj hsteps
  dsimp only at htrailing hsteps hrest ⊢
  -- the node is built over the steps, and above what was below the steps comes what was above them
  rw [← Stack.pushAllIgnored_map_plain, ← Stack.pushAllIgnored_map_plain,
    map_plainEntry_entries, map_plainEntry_entries, htrailing, List.map_cons, List.map_cons, hrest,
    ← plain_entryOver (Eq.refl s.table), ← plain_entryOver (Eq.refl s'.table), hsteps,
    ← Stack.stateAbove_map_plain rest', ← Stack.stop_map_plain rest', ← stackScanner_map_plain rest',
    hrest, Stack.stateAbove_map_plain, Stack.stop_map_plain, stackScanner_map_plain,
    plain_entryOver htable, plain_entryOver (Eq.refl s.table)]

/-- A production is reduced by both. -/
theorem plain_reduce (h : q.plain = p.plain) (production : Nat) :
    (q.reduce s.anew production token).plain = (p.reduce s production token).plain := by
  obtain ⟨hstack, hpending, hposition, hscanner, hlex⟩ := plain_eq_iff.mp h
  cases hrule : s.table.production? production with
  | none =>
    rw [reduce, reduce, Setting.anew_table, hrule]
    exact h
  | some rule =>
    rw [reduce_eq hrule, reduce_eq (s := s.anew) hrule]
    exact plain_eq_iff.mpr
      ⟨plain_reduceAbove hstack s.anew_table .., hpending, hposition, hscanner, hlex⟩

/-- The subtrees under the root. -/
theorem map_plain_subtrees (h : q.plain = p.plain) :
    (Stack.subtrees q.flush.stack).map Subtree.plain =
      (Stack.subtrees p.flush.stack).map Subtree.plain := by
  rw [← Stack.subtrees_map_plain, (plain_eq_iff.mp (plain_flush h)).1, Stack.subtrees_map_plain]

/-- Taking the start node apart, whose children become those of the root. -/
theorem map_plain_unwrapStart (start : Symbol) {ts us : List Subtree}
    (h : us.map Subtree.plain = ts.map Subtree.plain) :
    (unwrapStart start us).1 = (unwrapStart start ts).1 ∧
      (unwrapStart start us).2.map Subtree.plain = (unwrapStart start ts).2.map Subtree.plain := by
  induction ts generalizing us with
  | nil =>
    obtain rfl := List.map_eq_nil_iff.mp h
    exact ⟨rfl, rfl⟩
  | cons t ts ih =>
    obtain ⟨u, us, rfl, hu, hus⟩ := List.map_eq_cons_iff.mp h
    obtain ⟨hproduction, hrest⟩ := ih hus
    have hignored : u.isIgnored = t.isIgnored := by rw [← isIgnored_plain, hu, isIgnored_plain]
    have hsymbol : u.symbol = t.symbol := by rw [← symbol_plain, hu, symbol_plain]
    have hmade : u.production? = t.production? := by
      rw [← production?_plain, hu, production?_plain]
    have hchildren : u.children.map Subtree.plain = t.children.map Subtree.plain := by
      rw [← children_plain, hu, children_plain]
    rw [unwrapStart, unwrapStart, hignored, hsymbol, hmade]
    split
    · cases t.production? with
      | some production => exact ⟨rfl, by rw [List.map_append, List.map_append, hchildren, hus]⟩
      | none => exact ⟨hproduction, by
          dsimp only
          rw [List.map_append, List.map_append, hchildren, hrest]⟩
    · exact ⟨hproduction, by
        dsimp only
        rw [List.map_cons, List.map_cons, hu, hrest]⟩

/-- The tree of a complete run, or of one that is abandoned. -/
theorem plain_accept (h : q.plain = p.plain) :
    (q.accept s.anew).root.plain = (p.accept s).root.plain := by
  obtain ⟨hproduction, hchildren⟩ :=
    map_plain_unwrapStart s.table.startSymbol (map_plain_subtrees h)
  simp only [accept, Setting.tree, Setting.anew_table, Setting.anew_length, plain_build,
    hproduction, hchildren]

/-- The tree of a run that gives up is one error node over what there is. -/
theorem plain_abandon (h : q.plain = p.plain) :
    (q.abandon s.anew).root.plain = (p.abandon s).root.plain := by
  simp only [abandon, Setting.tree, plain_buildError, map_plain_subtrees h]

/-! ### Errors -/

/-- A way to get over an error, without the history of the extras between the skipped tokens. -/
def Recovery.plain (r : Recovery) : Recovery :=
  ⟨r.skipped.map Ahead.plain, r.resume.plain, r.popped⟩

/-- Whether and how far a stack is popped for a token is decided on its states. -/
theorem popsFor?_congr (h : q.plain = p.plain) (skipped : Nat) (symbol : Symbol) :
    popsFor? s.table q.stack skipped symbol = popsFor? s.table p.stack skipped symbol := by
  have hstack := (plain_eq_iff.mp h).1
  have hlength : q.stack.length = p.stack.length := by
    rw [← List.length_map Entry.plain, hstack, List.length_map]
  have hstates : ∀ n, Stack.grammarStates (q.stack.drop n) =
      Stack.grammarStates (p.stack.drop n) := by
    intro n
    rw [← Stack.grammarStates_map_plain, List.map_drop, hstack, ← List.map_drop,
      Stack.grammarStates_map_plain]
  simp only [popsFor?, hlength, hstates]

/-- The way over an error is found after as many tokens by both. -/
theorem plain_findRecovery (h : q.plain = p.plain) {skipped skipped' : List Ahead}
    (hskipped : skipped'.map Ahead.plain = skipped.map Ahead.plain) {current current' : Ahead}
    (hcurrent : current'.plain = current.plain) (window : Nat) :
    (findRecovery s.anew skipped' current' window q).map (fun f => (f.1.plain, f.2.plain)) =
      (findRecovery s skipped current window p).map fun f => (f.1.plain, f.2.plain) := by
  have htoken : current'.token = current.token := (Ahead.mk.injEq .. ▸ hcurrent).2
  have hlength : skipped'.length = skipped.length := by
    rw [← List.length_map Ahead.plain, hskipped, List.length_map]
  induction window generalizing p q skipped skipped' current current' with
  | zero =>
    rw [findRecovery, findRecovery, htoken, hlength, Setting.anew_table, popsFor?_congr h]
    split
    · simp only [Option.map_some, Recovery.plain, hskipped, hcurrent, h]
    · rfl
  | succ window ih =>
    rw [findRecovery, findRecovery, htoken, hlength, Setting.anew_table, popsFor?_congr h]
    split
    · simp only [Option.map_some, Recovery.plain, hskipped, hcurrent, h]
    · dsimp only
      split
      · rfl
      · obtain ⟨hnext, hp⟩ := plain_readAheadOn h (Eq.refl ([].map plainEntry)) (s.length + 1)
        refine ih hp ?_ hnext ?_ ?_
        · rw [List.map_append, List.map_append, hskipped, List.map_singleton, List.map_singleton,
            hcurrent]
        · exact (Ahead.mk.injEq .. ▸ hnext).2
        · rw [List.length_append, List.length_append, hlength]
          rfl

/-- The leaves of the tokens that are skipped. -/
theorem map_plainEntry_givenUp {pending pending' : List (Subtree × Nat)}
    (hpending : pending'.map plainEntry = pending.map plainEntry) {skipped skipped' : List Ahead}
    (hskipped : skipped'.map Ahead.plain = skipped.map Ahead.plain) (state : Nat) :
    (givenUp s.anew state pending' skipped').map plainEntry =
      (givenUp s state pending skipped).map plainEntry := by
  have hleaf : ∀ a a' : Ahead, a'.plain = a.plain →
      plainEntry (s.anew.leaf a'.token state state true, a'.token.start) =
        plainEntry (s.leaf a.token state state true, a.token.start) := by
    intro a a' h
    rw [(Ahead.mk.injEq .. ▸ h : _ ∧ a'.token = a.token).2]
    rfl
  cases skipped with
  | nil =>
    obtain rfl := List.map_eq_nil_iff.mp hskipped
    rfl
  | cons first rest =>
    obtain ⟨first', rest', rfl, hfirst, hrest⟩ := List.map_eq_cons_iff.mp hskipped
    simp only [givenUp, List.map_append, List.map_cons, hpending, hleaf _ _ hfirst]
    congr 2
    clear hskipped
    -- after the first token each is preceded by extras of its own
    induction rest generalizing rest' with
    | nil =>
      obtain rfl := List.map_eq_nil_iff.mp hrest
      rfl
    | cons a rest ih =>
      obtain ⟨a', rest', rfl, ha, hrest⟩ := List.map_eq_cons_iff.mp hrest
      have hextras : a'.extras.map plainEntry = a.extras.map plainEntry :=
        (Ahead.mk.injEq .. ▸ ha).1
      simp only [List.flatMap_cons, List.map_append, List.map_cons, hextras, hleaf _ _ ha,
        ih rest' hrest]

/-- Both go on after an error at the same token. -/
theorem plain_resume (h : q.plain = p.plain) {r r' : Recovery} (hr : r'.plain = r.plain) :
    (resume s.anew r' q).1 = (resume s r p).1 ∧
      (resume s.anew r' q).2.plain = (resume s r p).2.plain := by
  obtain ⟨skipped, next, popped⟩ := r
  obtain ⟨skipped', next', popped'⟩ := r'
  obtain ⟨hskipped, hnext, rfl⟩ : skipped'.map Ahead.plain = skipped.map Ahead.plain ∧
      next'.plain = next.plain ∧ popped' = popped := Recovery.mk.injEq .. ▸ hr
  obtain ⟨hextras, htoken⟩ : next'.extras.map plainEntry = next.extras.map plainEntry ∧
      next'.token = next.token := Ahead.mk.injEq .. ▸ hnext
  obtain ⟨hstack, hpending, hposition, hscanner, hlex⟩ := plain_eq_iff.mp h
  -- the part of the stack that stays
  have hbelow : (q.stack.drop popped').map Entry.plain =
      (p.stack.drop popped').map Entry.plain := by
    rw [List.map_drop, hstack, List.map_drop]
  have hstate : Stack.state (q.stack.drop popped') = Stack.state (p.stack.drop popped') := by
    rw [← Stack.state_map_plain, hbelow, Stack.state_map_plain]
  -- the part that goes under the error node, with the tokens that are skipped
  have hpopped : ((q.stack.take popped').reverse.map fun e => (e.subtree, e.start)).map plainEntry =
      ((p.stack.take popped').reverse.map fun e => (e.subtree, e.start)).map plainEntry := by
    rw [map_plainEntry_entries, map_plainEntry_entries, List.map_reverse (f := Entry.plain),
      List.map_reverse (f := Entry.plain), List.map_take, List.map_take, hstack]
  have hskip := map_plainEntry_givenUp (s := s) hpending hskipped
    (Stack.state (p.stack.drop popped'))
  refine ⟨by simp only [resume, htoken], plain_eq_iff.mpr ⟨?_, ?_, hposition, hscanner, hlex⟩⟩
  · simp only [resume, hstate, htoken]
    have hlost : (((q.stack.take popped').reverse.map fun e => (e.subtree, e.start)) ++
        givenUp s.anew (Stack.state (p.stack.drop popped')) q.pending skipped').map plainEntry =
        (((p.stack.take popped').reverse.map fun e => (e.subtree, e.start)) ++
          givenUp s (Stack.state (p.stack.drop popped')) p.pending skipped).map plainEntry := by
      rw [List.map_append, List.map_append, hpopped, hskip]
    generalize ((p.stack.take popped').reverse.map fun e => (e.subtree, e.start)) ++
      givenUp s (Stack.state (p.stack.drop popped')) p.pending skipped = lost at hlost ⊢
    generalize ((q.stack.take popped').reverse.map fun e => (e.subtree, e.start)) ++
      givenUp s.anew (Stack.state (p.stack.drop popped')) q.pending skipped' = lost' at hlost ⊢
    have hsubtrees : (lost'.map (·.1)).map Subtree.plain = (lost.map (·.1)).map Subtree.plain := by
      rw [List.map_map, List.map_map]
      have := congrArg (List.map (·.1)) hlost
      rwa [List.map_map, List.map_map] at this
    cases lost with
    | nil =>
      obtain rfl := List.map_eq_nil_iff.mp hlost
      exact hbelow
    | cons first rest =>
      obtain ⟨first', rest', rfl, hfirst, -⟩ := List.map_eq_cons_iff.mp hlost
      have hstart : first'.2 = first.2 := (Prod.mk.inj hfirst).2
      dsimp only
      rw [← Stack.pushIgnored_map_plain, ← Stack.pushIgnored_map_plain, hbelow, plain_buildError,
        plain_buildError, hsubtrees, hstart]
  · have hempty : skipped'.isEmpty = skipped.isEmpty := by
      rw [← List.isEmpty_map, hskipped, List.isEmpty_map]
    simp only [resume, hempty]
    split
    · exact hpending
    · exact hextras

/-- A token that no way leads over is given up by both. -/
theorem plain_giveUpToken (h : q.plain = p.plain) :
    (giveUpToken s.anew q token).plain = (giveUpToken s p token).plain := by
  have hflush := plain_flush h
  obtain ⟨hstack, hpending, hposition, hscanner, hlex⟩ := plain_eq_iff.mp hflush
  refine plain_eq_iff.mpr ⟨?_, hpending, hposition, hscanner, hlex⟩
  rw [giveUpToken, giveUpToken]
  dsimp only
  rw [← Stack.pushIgnored_map_plain, ← Stack.pushIgnored_map_plain, hstack, plain_buildError,
    plain_buildError, state_eq hflush]
  rfl

/-! ### Moves -/

/-- Whether two moves lead to the same, apart from the history of subtrees. -/
inductive Outcome.Alike : Outcome → Outcome → Prop where
  | more {token : Token} {p q : Parser} (plain : q.plain = p.plain) :
      Alike (.more token q) (.more token p)
  | done {tree tree' : SyntaxTree} (plain : tree'.root.plain = tree.root.plain) :
      Alike (.done tree') (.done tree)

/-- Runs that go on with the same token. -/
theorem Outcome.Alike.more_of_eq {p' q' : Parser} {token token' : Token} (htoken : token' = token)
    (h : q'.plain = p'.plain) : Alike (.more token' q') (.more token p') := by
  rw [htoken]
  exact .more h

/-- A move that takes nothing over is made the first time as well. -/
theorem alike_step (h : q.plain = p.plain) (hreuse : ∀ next,
      s.table.action p.state token.symbol = .shift next → toReuse? s p token = none) :
    (step s.anew q token).Alike (step s p token) := by
  have hanew : toReuse? s.anew q token = none := by
    rw [toReuse?]
    split <;> rfl
  rw [step, step, state_eq h, Setting.anew_table, hanew]
  split
  · rename_i haction
    rw [hreuse _ haction]
    obtain ⟨htoken, hp⟩ := plain_read (plain_shift h _)
    exact .more_of_eq htoken hp
  · exact .more (plain_reduce h _)
  · exact .done (plain_accept h)
  · have hfound := plain_findRecovery (s := s) h (Eq.refl ([].map Ahead.plain))
      (Eq.refl (Ahead.plain ⟨[], token⟩)) s.window
    rw [recover, recover, Setting.anew_window]
    cases hrecovery : findRecovery s [] ⟨[], token⟩ s.window p with
    | none =>
      rw [hrecovery, Option.map_none, Option.map_eq_none_iff] at hfound
      rw [hfound]
      dsimp only
      split
      · exact .done (plain_abandon h)
      · obtain ⟨htoken, hp⟩ := plain_read (plain_giveUpToken h)
        exact .more_of_eq htoken hp
    | some found =>
      rw [hrecovery, Option.map_some, Option.map_eq_some_iff] at hfound
      obtain ⟨found', hfound', heq⟩ := hfound
      obtain ⟨hr, hp⟩ := Prod.mk.inj heq
      rw [hfound']
      obtain ⟨htoken, hnext⟩ := plain_resume hp hr
      exact .more_of_eq htoken hnext

end Parser

end LRWorkbench.Parsing
