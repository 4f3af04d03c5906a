import ScreenForms.Text.Blank
import ScreenForms.Text.Lines

/-!
# Indentation

Blanks in front of every line of a text. A blank line becomes empty, so no line ends in blanks
that indentation put there.
-/

namespace ScreenForms.Text

/-- A number of spaces. -/
def spaces (n : Nat) : String := String.ofList (List.replicate n ' ')

/-- One line moved to the right. -/
def indentLine (level : Nat) (line : List Char) : List Char :=
  if (trim line).isEmpty then [] else List.replicate (4 * level) ' ' ++ line

/-- The lines of a text, each moved to the right by four spaces a level. -/
def indentLines (level : Nat) (body : String) : List String :=
  (lines body.toList).map fun line => String.ofList (indentLine level line)

/-- A text with all its lines moved to the right. -/
def indent (level : Nat) (body : String) : String := join "\n" (indentLines level body)

/-- Whether a text is nothing but blanks. -/
def isBlankText (s : String) : Bool := (trim s.toList).isEmpty

end ScreenForms.Text
