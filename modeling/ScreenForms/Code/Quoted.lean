import ScreenForms.Text.Blank

/-!
# String literals of programs

A double-quoted literal that means the same in all target languages. Backslashes and double quotes
get a backslash in front; in generated programs line ends and tabs are written as escapes too,
while in translated code, which never holds line ends within a literal, they stay as they are.
-/

namespace ScreenForms.Code

/-- A backslash before a backslash or a double quote. -/
def escapeMark (c : Char) : List Char :=
  if c = '\\' then ['\\', '\\'] else if c = '"' then ['\\', '"'] else [c]

/-- Escapes of line ends and tabs, and those of marks. -/
def escapeControl (c : Char) : List Char :=
  if c = '\n' then ['\\', 'n']
  else if c = '\r' then ['\\', 'r']
  else if c = '\t' then ['\\', 't']
  else escapeMark c

/-- A text between double quotes, every character written as `escape` says. -/
def quoteWith (escape : Char → List Char) (text : String) : String :=
  String.ofList ('"' :: text.toList.flatMap escape ++ ['"'])

/-- The literal of a text in a generated program. -/
def quoted (text : String) : String := quoteWith escapeControl text

/-- The literal of a text in translated code. -/
def stringLiteral (text : String) : String := quoteWith escapeMark text

end ScreenForms.Code
