import ScreenForms.Code.Quoted
import ScreenForms.Form.Document
import ScreenForms.Target
import ScreenForms.Text.Indent

/-!
# Python classes

What the programs of the two Python targets have in common. Blocks must not be empty in Python, so
a body that holds nothing but comments ends in a statement that does nothing.
-/

namespace ScreenForms.Python

/-- Whether a line holds code. -/
def isCode (line : List Char) : Bool :=
  match Text.trim line with
  | [] => false
  | c :: _ => c != '#'

/-- The body of a method. -/
def methodBody (body : String) : String :=
  if (Text.lines body.toList).any isCode then body
  else if Text.isBlankText body then "pass"
  else body ++ "\npass"

/-- The lines of a method. -/
def method (name : String) (parameters : List String) (body : String) : List String :=
  ("    def " ++ name ++ "(" ++ Text.join ", " ("self" :: parameters) ++ "):") ::
    Text.indentLines 2 (methodBody body)

/-- The lines of a free method of the form. -/
def freeMethod (m : FormMethod) : List String :=
  method (identifier m.name) (m.parameters.map identifier) m.body

/-- Statements of the constructor behind a blank line; nothing when there are none. -/
def statements (lines : List String) : List String :=
  if lines.isEmpty then [] else "" :: Text.indentLines 2 (Text.join "\n" lines)

/-- Calls of methods of the class. -/
def calls (names : List String) : List String :=
  names.map fun name => "        self." ++ name ++ "()"

/-- Groups of lines, each behind a blank line. -/
def spaced (blocks : List (List String)) : List String :=
  blocks.flatMap fun block => "" :: block

/-- The lines at the end of a program that run it. -/
def entryPoint (start : List String) : List String :=
  ["", "", "def main():"] ++ start.map (fun line => "    " ++ line) ++
    ["", "", "if __name__ == \"__main__\":", "    main()"]

/-- The two lines at the beginning of a program. -/
def heading (className : String) : List String :=
  ["#!/usr/bin/env python3", "# " ++ className ++ ": generated by formbridge."]

/-- Entries between square brackets. -/
def list (entries : List String) : String := "[" ++ Text.join ", " entries ++ "]"

end ScreenForms.Python
