import ScreenForms.Decimal.Shortest
import ScreenForms.Json.Basic

/-!
# Writing JSON

Strings escape the quotation mark, the backslash and the control characters; everything else is
written as it is. `Json.compact` writes a value on one line and `Json.pretty` one member or item
a line with two blanks of indentation for each level. What stands for no value is written `null`.
-/

namespace ScreenForms.Json

/-- The escape of a character, or the character itself. -/
def escapeChar (c : Char) : List Char :=
  match c with
  | '"' => ['\\', '"']
  | '\\' => ['\\', '\\']
  | '\n' => ['\\', 'n']
  | '\r' => ['\\', 'r']
  | '\t' => ['\\', 't']
  | '\x08' => ['\\', 'b']
  | '\x0c' => ['\\', 'f']
  | c =>
    if c.toNat < 0x20 then
      ['\\', 'u', '0', '0', Nat.digitChar (c.toNat / 16), Nat.digitChar (c.toNat % 16)]
    else [c]

/-- A string between quotation marks. -/
def quoted (s : String) : String :=
  String.ofList ('"' :: s.toList.flatMap escapeChar ++ ['"'])

mutual

/-- A value on one line without blanks. -/
def compact : Json → String
  | null => "null"
  | bool b => if b then "true" else "false"
  | int n => Decimal.intText n
  | float x => Decimal.jsonText x
  | str s => quoted s
  | arr items => "[" ++ compactItems items ++ "]"
  | obj members => "\x7b" ++ compactMembers members ++ "\x7d"
  | unreadable => "null"

/-- Items with commas between them. -/
def compactItems : List Json → String
  | [] => ""
  | [v] => compact v
  | v :: vs => compact v ++ "," ++ compactItems vs

/-- Members with commas between them. -/
def compactMembers : List (String × Json) → String
  | [] => ""
  | [(k, v)] => quoted k ++ ":" ++ compact v
  | (k, v) :: ms => quoted k ++ ":" ++ compact v ++ "," ++ compactMembers ms

end

/-- A line end and the indentation of a level. -/
def newLine (level : Nat) : String := String.ofList ('\n' :: List.replicate (2 * level) ' ')

mutual

/-- A value over several lines, its inner lines indented for the given level. -/
def prettyAt (level : Nat) : Json → String
  | null => "null"
  | bool b => if b then "true" else "false"
  | int n => Decimal.intText n
  | float x => Decimal.jsonText x
  | str s => quoted s
  | arr [] => "[]"
  | arr (v :: vs) => "[" ++ prettyItems (level + 1) (v :: vs) ++ newLine level ++ "]"
  | obj [] => "\x7b\x7d"
  | obj (m :: ms) => "\x7b" ++ prettyMembers (level + 1) (m :: ms) ++ newLine level ++ "\x7d"
  | unreadable => "null"

/-- Items, each on lines of its own. -/
def prettyItems (level : Nat) : List Json → String
  | [] => ""
  | [v] => newLine level ++ prettyAt level v
  | v :: vs => newLine level ++ prettyAt level v ++ "," ++ prettyItems level vs

/-- Members, each on lines of its own. -/
def prettyMembers (level : Nat) : List (String × Json) → String
  | [] => ""
  | [(k, v)] => newLine level ++ quoted k ++ ": " ++ prettyAt level v
  | (k, v) :: ms =>
    newLine level ++ quoted k ++ ": " ++ prettyAt level v ++ "," ++ prettyMembers level ms

end

/-- A value with one member or item a line. -/
def pretty (v : Json) : String := prettyAt 0 v

end ScreenForms.Json
