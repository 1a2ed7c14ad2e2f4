import LRWorkbench.Lexing.ScannerRules
import LRWorkbench.Proofs.Parsing.Coverage
import LRWorkbench.Proofs.Tree.Checkpoints

/-!
# The states of the scanner chain through a tree

The parser hands the state of the scanner from token to token: through extras that wait, tokens that
are looked at ahead and thrown away again, error nodes, phrases without text and subtrees of an old
tree. At each time the stack and the extras that wait thread the first state into the one that the
next token was found with (`Parser.Threads`), and every move keeps it so (`Threads.step`). So the
states in a tree are those of one run of the scanner from its first to its last leaf
(`checkpoints_of_genuine`).
-/

namespace LRWorkbench

open Text

/-! ### Tokens -/

/-- Whether a token was found with a state of the scanner, which only external tokens change. -/
structure Token.Keeps (t : ParseTable) (state : ScannerState) (token : Token) : Prop where
  before_eq : token.scannerBefore = state
  after_eq : t.isExternal token.symbol = false → token.scannerAfter = state

namespace Lexer

variable {l : Language} {text : List Char} {position : Nat} {state : ScannerState}
  {valid : TerminalSet} {errorMode : Bool} {token : Token}

theorem isExternal_of_externalSymbol? {t : ParseTable} {index : Nat} {s : Symbol}
    (h : t.externalSymbol? index = some s) : t.isExternal s = true := by
  rw [ParseTable.externalSymbol?] at h
  split at h
  · rename_i hlt
    obtain rfl := Option.some.inj h
    simp only [ParseTable.isExternal, TableParts.isExternalPlace, Bool.and_eq_true,
      decide_eq_true_eq]
    omega
  · cases h

/-- The scanner's state changes with a token of the scanner only. -/
theorem keeps_scanExternal {examined : Nat}
    (h : scanExternal l text position state valid errorMode = (some token, examined)) :
    token.Keeps l.table state := by
  rw [scanExternal] at h
  dsimp only at h
  split at h
  · cases h
  split at h
  · cases h
  split at h
  · cases h
  rename_i hsymbol
  split at h
  · cases h
  · cases h
    obtain ⟨index, -, hindex⟩ := Option.bind_eq_some_iff.mp hsymbol
    refine ⟨rfl, fun hexternal => ?_⟩
    rw [isExternal_of_externalSymbol? hindex] at hexternal
    cases hexternal

/-- Where the scanner finds nothing, the internal lexer hands on the state that it was given. -/
theorem keeps_lex (h : lex l text position state valid errorMode = some token) :
    token.Keeps l.table state := by
  rw [lex] at h
  split at h
  · rename_i hexternal
    cases h
    exact keeps_scanExternal hexternal
  · obtain ⟨c, -, rfl⟩ := Option.map_eq_some_iff.mp h
    exact ⟨rfl, fun _ => rfl⟩

/-- In error mode, what no terminal recognizes leaves the state unchanged too. -/
theorem keeps_nextTokenInErrorMode :
    (nextTokenInErrorMode l text position state).Keeps l.table state := by
  rw [nextTokenInErrorMode]
  split
  · exact ⟨rfl, fun _ => rfl⟩
  · cases hlex : lex l text position state (allTerminals l.table) true with
    | none => exact ⟨rfl, fun _ => rfl⟩
    | some token => exact keeps_lex hlex

theorem keeps_nextToken : (nextToken l text position state valid).Keeps l.table state := by
  rw [nextToken]
  split
  · exact ⟨rfl, fun _ => rfl⟩
  · cases hlex : lex l text position state valid false with
    | none => exact keeps_nextTokenInErrorMode
    | some token => exact keeps_lex hlex

end Lexer

namespace Parsing

open Subtree

variable {s : Setting} {p : Parser} {token : Token} {state : ScannerState}

/-- The leaf of a token leads from the state it was found with to the one behind it. -/
theorem threads_leaf (h : token.Keeps s.table state) (parseState lexState : Nat)
    (isFragile : Bool) :
    Subtree.Threads s.table (s.leaf token parseState lexState isFragile) state
      token.scannerAfter := by
  rw [← h.before_eq]
  exact .leaf fun hexternal => h.before_eq.trans (h.after_eq hexternal).symm

/-- The state of the scanner on top of a stack is the one that its subtrees lead to. -/
theorem Parser.stackScanner_eq {stack : Stack}
    (h : ThreadsAll s.table (Stack.subtrees stack) [] state) : stackScanner stack = state := by
  cases stack with
  | nil =>
    cases h
    rfl
  | cons e rest =>
    rw [Stack.subtrees_cons] at h
    obtain ⟨_, -, he⟩ := threadsAll_append.mp h
    obtain ⟨_, he, hnil⟩ := threadsAll_cons.mp he
    cases hnil
    exact he.after_eq

namespace Parser

/-- Whether the stack and what waits lead to the state that the next token is looked for with. -/
def Carries (s : Setting) (p : Parser) : Prop := ThreadsAll s.table p.content [] p.scanner

/-- Whether the stack and what waits lead to the state that the next token was found with, and the
parser holds the one behind it. -/
structure Threads (s : Setting) (token : Token) (p : Parser) : Prop where
  leads : ThreadsAll s.table p.content [] token.scannerBefore
  keeps : token.Keeps s.table token.scannerBefore
  scanner_eq : p.scanner = token.scannerAfter

/-! ### Reading tokens -/

/-- Extras wait with the states before and after them, and the next token starts where the last
extra ended. -/
theorem Carries.readOn (h : Carries s p) (lexState fuel : Nat) :
    Threads s (readOn s lexState fuel p).1 (readOn s lexState fuel p).2 := by
  induction fuel generalizing p with
  | zero => exact ⟨h, ⟨rfl, fun _ => rfl⟩, rfl⟩
  | succ fuel ih =>
    have hkeeps : (Lexer.nextToken s.language s.text p.position p.scanner
      (s.table.validTerminals lexState)).Keeps s.table p.scanner := Lexer.keeps_nextToken
    rw [Parser.readOn]
    generalize Lexer.nextToken s.language s.text p.position p.scanner
      (s.table.validTerminals lexState) = token at hkeeps ⊢
    dsimp only
    split
    · refine ih ?_
      rw [Carries, Parser.content, List.map_append, ← List.append_assoc]
      exact ThreadsAll.append h (.single (threads_leaf hkeeps ..))
    · exact ⟨hkeeps.before_eq.symm ▸ h, hkeeps.before_eq.symm ▸ hkeeps, rfl⟩

theorem Carries.read (h : Carries s p) : Threads s (read s p).1 (read s p).2 := h.readOn _ _

theorem carries_start (s : Setting) : Carries s start := .nil

/-! ### The stack -/

/-- A piece that goes on from where the stack and what waits lead to may be pushed. -/
theorem carries_push (e : Entry) (position : Nat) (lexState : Option Nat) {after : ScannerState}
    (hcontent : ThreadsAll s.table p.content [] state)
    (hpiece : Subtree.Threads s.table e.subtree state after) :
    Carries s ⟨e :: p.flush.stack, [], position, after, lexState⟩ := by
  rw [Carries, content, List.map_nil, List.append_nil, Stack.subtrees_cons, subtrees_flush]
  exact hcontent.append (.single hpiece)

/-- A token that is shifted goes behind the extras that were read before it. -/
theorem Threads.shift (h : Threads s token p) (next : Nat) : Carries s (p.shift s next token) := by
  have hpush := carries_push ⟨next, s.leaf token p.state next token.errorMode, token.start⟩
    p.position p.lexState h.leads (threads_leaf h.keeps ..)
  rw [← h.scanner_eq] at hpush
  exact hpush

/-- A token that is given up is threaded like one that is shifted, inside an error node. -/
theorem Threads.giveUpToken (h : Threads s token p) : Carries s (giveUpToken s p token) := by
  have hleaf := threads_leaf h.keeps p.flush.state p.flush.state true
  have herror := (ThreadsAll.single hleaf).buildError s.generation p.flush.state
    token.scannerAfter fun hnil => absurd hnil (List.cons_ne_nil _ _)
  have hpush := carries_push ⟨p.flush.state, _, token.start⟩ p.position p.lexState h.leads herror
  rw [← h.scanner_eq] at hpush
  exact hpush

/-- What is known of an old tree: each part of it leads on the scanner. -/
def Reuse.Threaded (t : ParseTable) (r : Reuse) : Prop :=
  ∃ before after, Subtree.Threads t r.root before after

/-- A subtree of the old tree is taken only where the scanner has the state that the subtree starts
with, so it threads from there to the state at its end. -/
theorem Threads.takeOver (h : Threads s token p)
    (hreuse : ∀ r, s.reuse = some r → Reuse.Threaded s.table r) {t : Subtree} {after : Nat}
    (htoken : toReuse? s p token = some (t, after)) : Carries s (p.takeOver token t after) := by
  obtain ⟨r, oldStart, hreused⟩ := exists_of_toReuse htoken
  obtain ⟨_, _, hroot⟩ := hreuse r hreused.reuse
  obtain ⟨place, hpart, -⟩ := Reuse.exists_part_of_mem_candidates hreused.candidate
  have ht := hroot.of_mem_parts (mem_parts_of_mem_children hpart)
  dsimp only at ht
  rw [hreused.scanner] at ht
  exact carries_push ⟨after, t, token.start⟩ _ _ h.leads ht

/-- A reduction puts a phrase in the place of its steps. One without steps stays at the state that
is left below it. -/
theorem Threads.reduce (h : Threads s token p) (production : Nat) :
    Threads s token (p.reduce s production token) := by
  cases hrule : s.table.production? production with
  | none =>
    rw [Parser.reduce, hrule]
    exact h
  | some rule =>
    obtain ⟨trailing, steps, below, start, node, hstack, -, -, -, hnode, hreduce⟩ :=
      exists_of_reduce s p token hrule
    have hcontent := h.leads
    rw [Parser.content, hstack, Stack.subtrees_append, Stack.subtrees_append] at hcontent
    obtain ⟨d, hcontent, hpending⟩ := threadsAll_append.mp hcontent
    obtain ⟨c, hcontent, htrailing⟩ := threadsAll_append.mp hcontent
    obtain ⟨b, hbelow, hsteps⟩ := threadsAll_append.mp hcontent
    have hscanner : stackScanner below = b := stackScanner_eq hbelow
    have hthreads : Subtree.Threads s.table node b c := by
      rw [hnode, List.map_reverse]
      exact hsteps.build _ _ _ _ _ _ fun _ => hscanner
    refine ⟨?_, h.keeps, by rw [hreduce]; exact h.scanner_eq⟩
    rw [hreduce]
    refine ThreadsAll.append ?_ hpending
    rw [Stack.subtrees_pushAllIgnored]
    refine ThreadsAll.append (b := c) ?_ ?_
    · split
      · rw [Stack.subtrees_cons]
        exact hbelow.append (.single hthreads)
      · rw [Stack.pushIgnored, Stack.subtrees_cons]
        exact hbelow.append (.single ((ThreadsAll.single hthreads).buildError _ _ _
          fun hnil => absurd hnil (List.cons_ne_nil _ _)))
    · rw [List.map_map, List.map_reverse]
      exact htrailing

/-! ### Recovery -/

/-- Whether skipped tokens, and the extras before the next one, lead from a state to the one that
the next token was found with, and the parser holds the one behind it. -/
structure ThreadsAhead (s : Setting) (state : ScannerState) (skipped : List Ahead)
    (current : Ahead) (p : Parser) : Prop where
  leads : ∀ q, ThreadsAll s.table
    (skipped.flatMap (skippedSubtrees s q) ++ current.extras.map (·.1)) state
    current.token.scannerBefore
  keeps : current.token.Keeps s.table current.token.scannerBefore
  scanner_eq : p.scanner = current.token.scannerAfter

/-- Looking ahead threads the tokens that are read, beginning from the state of the parser. -/
theorem threadsAhead_readAheadOn {skipped : List Ahead} {extras : List (Subtree × Nat)} (fuel : Nat)
    (h : ∀ q, ThreadsAll s.table (skipped.flatMap (skippedSubtrees s q) ++ extras.map (·.1)) state
      p.scanner) :
    ThreadsAhead s state skipped (readAheadOn s extras fuel p).1 (readAheadOn s extras fuel p).2 := by
  induction fuel generalizing extras p with
  | zero => exact ⟨h, ⟨rfl, fun _ => rfl⟩, rfl⟩
  | succ fuel ih =>
    have hkeeps : (Lexer.nextTokenInErrorMode s.language s.text p.position p.scanner).Keeps s.table
      p.scanner := Lexer.keeps_nextTokenInErrorMode
    rw [readAheadOn]
    generalize Lexer.nextTokenInErrorMode s.language s.text p.position p.scanner = token
      at hkeeps ⊢
    split
    · refine ih fun q => ?_
      rw [List.map_append, ← List.append_assoc]
      exact (h q).append (.single (threads_leaf hkeeps ..))
    · exact ⟨fun q => hkeeps.before_eq.symm ▸ h q, hkeeps.before_eq.symm ▸ hkeeps, rfl⟩

/-- A window is a thread of tokens, the skipped ones and the one that the parse goes on with. -/
theorem ThreadsAhead.findRecovery {skipped : List Ahead} {current : Ahead} {window : Nat}
    {p' : Parser} {r : Recovery} (h : ThreadsAhead s state skipped current p)
    (hfound : findRecovery s skipped current window p = some (r, p')) :
    ThreadsAhead s state r.skipped r.resume p' ∧
      (r.skipped ++ [r.resume]).head? = (skipped ++ [current]).head? := by
  replace hfound := finds_of_findRecovery hfound
  induction hfound with
  | here => exact ⟨h, rfl⟩
  | @behind skipped current p _ _ _ _ ih =>
    -- the token that was looked at is skipped as well
    have hahead : ThreadsAhead s state (skipped ++ [current]) (readAhead s p).1
        (readAhead s p).2 := by
      refine threadsAhead_readAheadOn _ fun q => ?_
      rw [List.flatMap_append, List.flatMap_singleton, skippedSubtrees, List.map_nil,
        List.append_nil, ← List.append_assoc, h.scanner_eq]
      exact (h.leads q).append (.single (threads_leaf h.keeps ..))
    obtain ⟨hthreads, hhead⟩ := ih hahead
    refine ⟨hthreads, hhead.trans ?_⟩
    rw [List.head?_append, Option.or_of_isSome (by simp)]

/-- The error node has the tokens that were skipped, in their order, so it threads from the first to
the last. -/
theorem Threads.resume (h : ThreadsAll s.table p.content [] state) {r : Recovery}
    (hr : ThreadsAhead s state r.skipped r.resume p)
    (hfirst : ((r.skipped ++ [r.resume]).head?.map (·.extras)) = some []) :
    Threads s (resume s r p).1 (resume s r p).2 := by
  have hsplit : Stack.subtrees p.stack = Stack.subtrees (p.stack.drop r.popped) ++
      Stack.subtrees (p.stack.take r.popped) := by
    rw [← Stack.subtrees_append, List.take_append_drop]
  rw [content, hsplit, List.append_assoc] at h
  obtain ⟨b, hbelow, habove⟩ := threadsAll_append.mp h
  have htaken : ((p.stack.take r.popped).reverse.map fun e => (e.subtree, e.start)).map (·.1) =
      Stack.subtrees (p.stack.take r.popped) := by
    rw [List.map_map, List.map_reverse]
    rfl
  -- the error node leads on from what is left, and what waits from there
  obtain ⟨c, hlost, hwaiting⟩ : ∃ c,
      ThreadsAll s.table ((((p.stack.take r.popped).reverse.map fun e => (e.subtree, e.start)) ++
        givenUp s (Stack.state (p.stack.drop r.popped)) p.pending r.skipped).map (·.1)) b c ∧
      ThreadsAll s.table ((if r.skipped.isEmpty then p.pending else r.resume.extras).map (·.1)) c
        r.resume.token.scannerBefore := by
    have hahead := hr.leads (Stack.state (p.stack.drop r.popped))
    rw [← threadsAll_append, List.map_append, htaken]
    cases hskipped : r.skipped with
    | nil =>
      rw [hskipped, List.nil_append, List.head?_singleton, Option.map_some,
        Option.some.injEq] at hfirst
      rw [hskipped, hfirst] at hahead
      cases hahead
      rw [givenUp, List.map_nil, List.append_nil]
      exact habove
    | cons first others =>
      rw [hskipped, List.cons_append, List.head?_cons, Option.map_some,
        Option.some.injEq] at hfirst
      rw [hskipped] at hahead
      rw [map_givenUp hfirst, ← List.append_assoc, List.append_assoc]
      exact habove.append hahead
  refine ⟨?_, ⟨rfl, hr.keeps.after_eq⟩, hr.scanner_eq⟩
  rw [content]
  refine ThreadsAll.append ?_ hwaiting
  rw [Parser.resume]
  dsimp only
  split
  · rename_i hnil
    rw [hnil] at hlost
    cases hlost
    exact hbelow
  · rename_i hcons
    rw [Stack.pushIgnored, Stack.subtrees_cons]
    refine hbelow.append (.single (hlost.buildError _ _ _ fun hnil => ?_))
    rw [hcons] at hnil
    cases hnil

/-! ### Runs -/

theorem Threads.step (hreuse : ∀ r, s.reuse = some r → Reuse.Threaded s.table r)
    (h : Threads s token p) {token' : Token} {p' : Parser}
    (hstep : step s p token = .more token' p') : Threads s token' p' := by
  have hmove := move_step s p token
  rw [hstep] at hmove
  cases hmove with
  | shift action fresh => exact (h.shift _).read
  | takeOver action reuse => exact (h.takeOver hreuse reuse).read
  | reduce action => exact h.reduce _
  | resume action found =>
    obtain ⟨hstack, hpending⟩ := stack_findRecovery found
    have hahead : ThreadsAhead s token.scannerBefore [] ⟨[], token⟩ p :=
      ⟨fun _ => .nil, h.keeps, h.scanner_eq⟩
    obtain ⟨hnext, hhead⟩ := hahead.findRecovery found
    have hcontent := h.leads
    rw [content, ← hstack, ← hpending] at hcontent
    exact Threads.resume hcontent hnext (by rw [hhead]; rfl)
  | giveUp action none isEnd => exact h.giveUpToken.read

theorem Reaches.threads (hreuse : ∀ r, s.reuse = some r → Reuse.Threaded s.table r)
    (h : Reaches s token p) : Threads s token p := by
  induction h with
  | start => exact (carries_start s).read
  | step reached move ih => exact ih.step hreuse move

/-- The tree of a text leads from the first state of the scanner to the last. -/
theorem threads_of_done {g : PreparedGrammar} (hg : g.Compiles s.table) (hsound : p.Sound g)
    (h : Threads s token p) {tree : SyntaxTree} (hdone : Parser.step s p token = .done tree) :
    ∃ last, Subtree.Threads s.table tree.root [] last := by
  have hmove := move_step s p token
  rw [hdone] at hmove
  have hcontent := h.leads
  cases hmove with
  | accept action =>
    obtain ⟨t, production, before, after, hstart⟩ := hsound.exists_accepted hg action
    rw [← subtrees_flush, hstart.subtrees] at hcontent
    obtain ⟨b, hbefore, hcontent⟩ := threadsAll_append.mp hcontent
    obtain ⟨c, ht, hafter⟩ := threadsAll_cons.mp hcontent
    refine ⟨token.scannerBefore, ?_⟩
    rw [Parser.accept, hstart.unwrapped]
    exact (hbefore.append ((ht.children hstart.isLeaf).append hafter)).build _ _ _ _ _ _
      fun _ => rfl
  | abandon action none isEnd =>
    rw [← subtrees_flush] at hcontent
    exact ⟨_, hcontent.buildError _ _ _ fun _ => rfl⟩

end Parser

/-! ### Trees -/

/-- What is known of the tree that a genuine setting takes subtrees from. -/
theorem Setting.Genuine.threaded {g : PreparedGrammar} {l : Language} (hg : g.Compiles l.table)
    (h : s.Genuine l) : ∀ r, s.reuse = some r → Parser.Reuse.Threaded l.table r := by
  induction h with
  | fresh text window => exact fun _ h => by cases h
  | edited before yields accepted turns ih =>
    intro r hr
    obtain rfl := Option.some.inj hr
    obtain ⟨hlanguage, hderived⟩ := before.spec hg
    subst hlanguage
    obtain ⟨token, p, hreaches, hdone⟩ := yields.exists_last
    exact ⟨[], Parser.threads_of_done hg (hreaches.sound hg hderived).1 (hreaches.threads ih) hdone⟩

/-- The checkpoints of the scanner chain through a tree: the first leaf was found with the first
state, each further leaf with the state behind the one before it, and only external tokens change
the state. So what is looked up at the start of a leaf is the state it was found with. -/
theorem checkpoints_of_genuine {grammar : Grammar} {l : Language} {tree : SyntaxTree}
    (hcompile : grammar.compile = .ok l.table) (hs : s.Genuine l) (hyields : s.Yields tree) :
    (∀ n, tree.leaves.head? = some n → n.subtree.info.scannerBefore = []) ∧
      (tree.leaves.IsChain fun n m =>
        m.subtree.info.scannerBefore = n.subtree.info.scannerAfter) ∧
      (∀ n ∈ tree.leaves, tree.table.isExternal n.symbol = false →
        n.subtree.info.scannerAfter = n.subtree.info.scannerBefore) ∧
      ∀ n ∈ tree.leaves, tree.scannerStateAt n.startByte = n.subtree.info.scannerBefore := by
  obtain ⟨g, -, hg⟩ := Grammar.exists_prepared hcompile
  have hthreaded := hs.threaded hg
  have htiles := (coverage_of_genuine hcompile hs hyields).2.1
  obtain ⟨rfl, hderived⟩ := hs.spec hg
  obtain ⟨token, p, hreaches, hdone⟩ := hyields.exists_last
  have hsound := (hreaches.sound hg hderived).1
  obtain ⟨hlanguage, -⟩ := Parser.spec_of_done hsound hg hdone
  obtain ⟨last, hroot⟩ := Parser.threads_of_done hg hsound (hreaches.threads hthreaded) hdone
  have hleaves : SyntaxTree.Threaded tree.table [] tree.leaves last := by
    rw [SyntaxTree.table, hlanguage]
    exact SyntaxTree.threaded_leafNodes hroot _ _
  refine ⟨fun n hn => ?_, hleaves.isChain, fun n hn hexternal => ?_,
    fun n hn => SyntaxTree.scannerStateAt_eq htiles hleaves hn⟩
  · obtain ⟨rest, hrest⟩ := List.head?_eq_some_iff.mp hn
    rw [hrest] at hleaves
    exact hleaves.1
  · obtain ⟨front, back, hsplit⟩ := List.append_of_mem hn
    rw [hsplit] at hleaves
    obtain ⟨b, -, hbefore, hkeeps, -⟩ := SyntaxTree.threaded_append.mp hleaves
    rw [hbefore]
    exact hkeeps hexternal

/-- Documents of words and of texts that an external scanner finds. -/
def documents : Grammar where
  name := "documents"
  rules := [
    ("document", .oneOrMore (.choice [.reference "heredoc", .reference "word"])),
    ("word", .token (.oneOrMore (.literal "b")))]
  extras := [.literal " "]
  conflicts := []
  externals := ["heredoc"]
  word := none

/-- Behind the first text in a document the scanner has counted one, behind the second two. -/
theorem checkpoints_of_document : ∃ l tree, documents.compile = .ok (Language.table l) ∧
    l.scanner = some heredoc ∧
    (Setting.fresh l "<<A\nA b <<A\nA b".toList defaultWindow).Yields tree ∧
    tree.leaves.map (·.startByte) = [0, 5, 6, 7, 8, 13, 14] ∧
    tree.scannerStateAt 6 = [1] ∧ tree.scannerStateAt 14 = [2] ∧
    ∀ n ∈ tree.leaves, tree.scannerStateAt n.startByte = n.subtree.info.scannerBefore := by
  have hrun : (documents.compile.toOption).any (fun t =>
      (Parser.runFromStart (.fresh ⟨t, some heredoc⟩ "<<A\nA b <<A\nA b".toList defaultWindow)
        100).any fun tree =>
          decide (tree.leaves.map (·.startByte) = [0, 5, 6, 7, 8, 13, 14] ∧
            tree.scannerStateAt 6 = [1] ∧ tree.scannerStateAt 14 = [2])) = true := by
    decide +kernel
  obtain ⟨t, ht, hrun⟩ := (Option.any_eq_true ..).mp hrun
  obtain ⟨tree, htree, hrun⟩ := (Option.any_eq_true ..).mp hrun
  obtain ⟨hleaves, hone, htwo⟩ := of_decide_eq_true hrun
  have hcompile : documents.compile = .ok t := eq_ok_of_toOption ht
  exact ⟨⟨t, some heredoc⟩, tree, hcompile, rfl, ⟨100, htree⟩, hleaves, hone, htwo,
    (checkpoints_of_genuine (l := ⟨t, some heredoc⟩) hcompile (.fresh _ _) ⟨100, htree⟩).2.2.2⟩

end Parsing

end LRWorkbench
