import LRWorkbench.Bundled.HyperQL
import LRWorkbench.Diagnostic.Basic
import LRWorkbench.Diagnostic.Report
import LRWorkbench.Grammar.Basic
import LRWorkbench.Grammar.Compile
import LRWorkbench.Grammar.Document
import LRWorkbench.Grammar.Error
import LRWorkbench.Grammar.Names
import LRWorkbench.Grammar.Symbol
import LRWorkbench.Grammar.Wire
import LRWorkbench.GrammarText.Literal
import LRWorkbench.GrammarText.Meaning
import LRWorkbench.GrammarText.Parser
import LRWorkbench.GrammarText.Token
import LRWorkbench.GrammarText.Tree
import LRWorkbench.Graph.Reach
import LRWorkbench.Json.Reader
import LRWorkbench.Lalr.Collection
import LRWorkbench.Lalr.First
import LRWorkbench.Lalr.Lookahead
import LRWorkbench.Lalr.Resolution
import LRWorkbench.Lexing.Automaton
import LRWorkbench.Lexing.Language
import LRWorkbench.Lexing.Lexer
import LRWorkbench.Lexing.PatternSet
import LRWorkbench.Lexing.ScannerRules
import LRWorkbench.Parsing.Edit
import LRWorkbench.Parsing.Moves
import LRWorkbench.Parsing.Parser
import LRWorkbench.Parsing.Reuse
import LRWorkbench.Parsing.Stack
import LRWorkbench.Prepared.Basic
import LRWorkbench.Prepared.Productions
import LRWorkbench.Prepared.TokenPattern
import LRWorkbench.Prepared.Vocabulary
import LRWorkbench.Proofs.Diagnostic.Filtering
import LRWorkbench.Proofs.Except
import LRWorkbench.Proofs.Grammar.Compile
import LRWorkbench.Proofs.Grammar.Emit
import LRWorkbench.Proofs.Grammar.Wire
import LRWorkbench.Proofs.GrammarText.Escapes
import LRWorkbench.Proofs.GrammarText.Expressions
import LRWorkbench.Proofs.GrammarText.Gaps
import LRWorkbench.Proofs.GrammarText.Lossless
import LRWorkbench.Proofs.GrammarText.RoundTrip
import LRWorkbench.Proofs.GrammarText.Skipping
import LRWorkbench.Proofs.GrammarText.Spelling
import LRWorkbench.Proofs.Graph.Reach
import LRWorkbench.Proofs.Lalr.Accepting
import LRWorkbench.Proofs.Lalr.Beginnings
import LRWorkbench.Proofs.Lalr.Canonical
import LRWorkbench.Proofs.Lalr.Cells
import LRWorkbench.Proofs.Lalr.Closure
import LRWorkbench.Proofs.Lalr.Collection
import LRWorkbench.Proofs.Lalr.Conflicts
import LRWorkbench.Proofs.Lalr.Exact
import LRWorkbench.Proofs.Lalr.Expected
import LRWorkbench.Proofs.Lalr.Item
import LRWorkbench.Proofs.Lalr.ItemSet
import LRWorkbench.Proofs.Lalr.Lookahead
import LRWorkbench.Proofs.Lalr.Path
import LRWorkbench.Proofs.Lalr.Recognition
import LRWorkbench.Proofs.Lalr.Resolution
import LRWorkbench.Proofs.Lalr.SelfConflict
import LRWorkbench.Proofs.Lexing.Account
import LRWorkbench.Proofs.Lexing.Bytewise
import LRWorkbench.Proofs.Lexing.Extras
import LRWorkbench.Proofs.Lexing.Keywords
import LRWorkbench.Proofs.Lexing.Locality
import LRWorkbench.Proofs.Lexing.Matching
import LRWorkbench.Proofs.Lexing.MaximalMunch
import LRWorkbench.Proofs.Lexing.Progress
import LRWorkbench.Proofs.Lexing.Unrecognized
import LRWorkbench.Proofs.Operators.Trees
import LRWorkbench.Proofs.Parsing.Batches
import LRWorkbench.Proofs.Parsing.Building
import LRWorkbench.Proofs.Parsing.Checkpoints
import LRWorkbench.Proofs.Parsing.Coverage
import LRWorkbench.Proofs.Parsing.Derivation
import LRWorkbench.Proofs.Parsing.Edit
import LRWorkbench.Proofs.Parsing.Ending
import LRWorkbench.Proofs.Parsing.Filling
import LRWorkbench.Proofs.Parsing.LocalErrors
import LRWorkbench.Proofs.Parsing.Positions
import LRWorkbench.Proofs.Parsing.Range
import LRWorkbench.Proofs.Parsing.Recovery
import LRWorkbench.Proofs.Parsing.Regrowth
import LRWorkbench.Proofs.Parsing.Reparsing
import LRWorkbench.Proofs.Parsing.Run
import LRWorkbench.Proofs.Parsing.Sketch
import LRWorkbench.Proofs.Parsing.Trail
import LRWorkbench.Proofs.Parsing.Upkeep
import LRWorkbench.Proofs.Parsing.Viable
import LRWorkbench.Proofs.Prepared.Barren
import LRWorkbench.Proofs.Prepared.Conflicts
import LRWorkbench.Proofs.Prepared.Flattening
import LRWorkbench.Proofs.Prepared.Productive
import LRWorkbench.Proofs.Prepared.Pruned
import LRWorkbench.Proofs.Prepared.Reached
import LRWorkbench.Proofs.Prepared.TokenMeaning
import LRWorkbench.Proofs.Prepared.WellFormed
import LRWorkbench.Proofs.Query.Assignment
import LRWorkbench.Proofs.Query.Enumeration
import LRWorkbench.Proofs.Query.Kinds
import LRWorkbench.Proofs.Query.Resolution
import LRWorkbench.Proofs.Query.Tidying
import LRWorkbench.Proofs.Regex.Meaning
import LRWorkbench.Proofs.Regex.WellFormed
import LRWorkbench.Proofs.Table.Consistent
import LRWorkbench.Proofs.Table.Corruption
import LRWorkbench.Proofs.Table.File
import LRWorkbench.Proofs.Table.Indices
import LRWorkbench.Proofs.Table.TerminalSet
import LRWorkbench.Proofs.Text.Bytes
import LRWorkbench.Proofs.Tree.Derivation
import LRWorkbench.Proofs.Tree.Lengths
import LRWorkbench.Proofs.Tree.Parts
import LRWorkbench.Proofs.Tree.Spelling
import LRWorkbench.Proofs.Tree.Walking
import LRWorkbench.Proofs.Wire.RoundTrip
import LRWorkbench.Query.Matching
import LRWorkbench.Query.Pattern
import LRWorkbench.Query.Syntax
import LRWorkbench.Query.Token
import LRWorkbench.Regex.Basic
import LRWorkbench.Regex.Parser
import LRWorkbench.Snippet.Canvas
import LRWorkbench.Snippet.Drawing
import LRWorkbench.Snippet.Mark
import LRWorkbench.Snippet.Source
import LRWorkbench.Snippet.Suggestion
import LRWorkbench.Table.Basic
import LRWorkbench.Table.File
import LRWorkbench.Table.TerminalSet
import LRWorkbench.Text.Bytes
import LRWorkbench.Text.Extent
import LRWorkbench.Text.Quoted
import LRWorkbench.Tree.Cursor
import LRWorkbench.Tree.Node
import LRWorkbench.Tree.Subtree
import LRWorkbench.Unicode.Category
import LRWorkbench.Unicode.CharSet
import LRWorkbench.Unicode.Folding
import LRWorkbench.Unicode.Lookup
import LRWorkbench.Unicode.Property
import LRWorkbench.Unicode.Script
import LRWorkbench.Wire.Basic
import LRWorkbench.Proofs.Grammar.Assembly
import LRWorkbench.Proofs.Prepared.Definitions
import LRWorkbench.Proofs.Prepared.Occurrences
import LRWorkbench.Proofs.Grammar.Refusals
import LRWorkbench.Proofs.Json.Writing
import LRWorkbench.Proofs.Grammar.Document
import LRWorkbench.Proofs.Grammar.Fields
