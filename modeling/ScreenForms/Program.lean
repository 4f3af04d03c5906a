import ScreenForms.Program.Html
import ScreenForms.Program.Qt
import ScreenForms.Program.Tkinter
import ScreenForms.Program.Winforms

/-!
# Programs

A sound document becomes a program for each target. The code in the document is taken as it is; it
has to be in the language of the target already.
-/

namespace ScreenForms

/-- A generated program. -/
structure Program where
  target : Target
  /-- the name of the file that it is meant for -/
  fileName : String
  content : String
  deriving DecidableEq, Repr, Inhabited

/-- The lines of the program for a target. -/
def programLines (target : Target) (doc : Document) : List String :=
  match target with
  | .tkinter => Tkinter.program doc
  | .qt => Qt.program doc
  | .winforms => Winforms.program doc
  | .html => Html.program doc

/-- Generates the program of a sound document. -/
def Document.generate (doc : Document) (target : Target) : Except DocumentError Program :=
  match doc.validate with
  | .ok () =>
    .ok
      { target
        fileName := target.fileName doc.window.name
        content := Text.unlines (programLines target doc) }
  | .error e => .error e

end ScreenForms
