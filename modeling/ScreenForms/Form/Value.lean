import ScreenForms.Decimal.Read
import ScreenForms.Decimal.Shortest
import ScreenForms.Text.Blank
import ScreenForms.Text.Search

/-!
# Property values

A property of a legacy object is written as a literal or as an expression. `Value.sniff` decides
by the spelling alone which of the two it is, and `Value.toLegacy` writes a value so that sniffing
it gives the same value back. Text may be put between double quotes, single quotes or square
brackets; writing takes the first of these pairs whose opening mark does not occur in the text.
-/

namespace ScreenForms

/-- The value of a property. -/
inductive Value where
  | text (content : String)
  | flag (set : Bool)
  | number (amount : Float)
  /-- anything that is not a literal, as it is written -/
  | expr (source : String)
  deriving DecidableEq, Repr, Inhabited

namespace Value

/-- The mark that closes a text opened by the given one. -/
def closingMark? : Char → Option Char
  | '"' => some '"'
  | '\'' => some '\''
  | '[' => some ']'
  | _ => none

/-- The text between a pair of marks, when the first and the last character are one. -/
def unquote? : List Char → Option (List Char)
  | [] => none
  | c :: rest =>
    if rest ≠ [] ∧ closingMark? c = rest.getLast? then some rest.dropLast else none

/-- The text between the first pair of marks whose opening mark does not occur in it; square
brackets when both quotes occur. -/
def quote (cs : List Char) : List Char :=
  if '"' ∉ cs then '"' :: cs ++ ['"']
  else if '\'' ∉ cs then '\'' :: cs ++ ['\'']
  else '[' :: cs ++ [']']

/-- The four spellings of a truth value, in any case and with blanks around them. -/
def readFlag? (cs : List Char) : Option Bool :=
  let word := String.ofList (Text.upper (Text.trim cs))
  if word = ".T." ∨ word = ".Y." then some true
  else if word = ".F." ∨ word = ".N." then some false
  else none

/-- Types a written value: a quoted text, a truth value, a finite number, else an expression. -/
def sniff (raw : String) : Value :=
  let cs := Text.trim raw.toList
  match unquote? cs with
  | some content => .text (String.ofList content)
  | none =>
    match readFlag? cs with
    | some set => .flag set
    | none =>
      match (Decimal.read? cs).filter Float.isFinite with
      | some amount => .number amount
      | none => .expr (String.ofList cs)

/-- Writes a value in the form that `sniff` reads. -/
def toLegacy : Value → String
  | .text content => Text.onChars quote content
  | .flag true => ".T."
  | .flag false => ".F."
  | .number amount => Decimal.plainText amount
  | .expr source => source

/-- The characters of a text or an expression. -/
def asText? : Value → Option String
  | .text content => some content
  | .expr source => some source
  | _ => none

/-- A truth value; a number is true unless it is zero. -/
def asFlag? : Value → Option Bool
  | .flag set => some set
  | .number amount => some (amount != 0.0)
  | _ => none

/-- A number; a truth value is one or zero and a text is read as a number. -/
def asNumber? : Value → Option Float
  | .number amount => some amount
  | .flag set => some (if set then 1.0 else 0.0)
  | .text content => Decimal.read? (Text.trim content.toList)
  | .expr source => Decimal.read? (Text.trim source.toList)

/-- The text shown for a value in captions. -/
def display : Value → String
  | .text content => content
  | .expr source => source
  | .flag set => if set then "true" else "false"
  | .number amount => Decimal.plainText amount

end Value

end ScreenForms
