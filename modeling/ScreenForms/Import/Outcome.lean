import ScreenForms.Diagnostic
import ScreenForms.Form.Document
import ScreenForms.Record.Dialect

/-!
# Imports

What comes out of reading a legacy source: its dialect, the document, and the remarks on what
was left out.
-/

namespace ScreenForms

/-- The result of an import. -/
structure ImportOutcome where
  dialect : Dialect
  document : Document
  diagnostics : List Diagnostic
  deriving DecidableEq, Repr, Inhabited

end ScreenForms
