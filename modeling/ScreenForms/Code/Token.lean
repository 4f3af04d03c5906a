import ScreenForms.Text.Blank
import ScreenForms.Text.Letter

/-!
# Tokens of legacy code

An expression is cut into string literals, numbers, names, words between dots such as `.T.`,
operators and blanks. Nothing is skipped: each token stands for a nonempty piece of the text, and
the pieces make up the text in order.
-/

namespace ScreenForms.Code

/-- A token of legacy code. -/
inductive Token where
  /-- the content of a string literal, without its marks -/
  | str (content : String)
  | num (digits : String)
  | name (word : String)
  /-- a word between dots, in upper case and without the dots -/
  | dotted (word : String)
  | op (sign : String)
  | blank (space : String)
  deriving DecidableEq, Repr, Inhabited

namespace Token

/-- Whether a token is blank. -/
def isBlank : Token → Bool
  | .blank _ => true
  | _ => false

/-- Whether a token is the given operator. -/
def isOp (sign : String) : Token → Bool
  | .op s => s == sign
  | _ => false

/-- The words that may stand between dots. -/
def dottedWords : List String := ["T", "F", "Y", "N", "NULL", "AND", "OR", "NOT"]

/-- The operators of two characters. -/
def pairOperators : List String := ["<>", "<=", ">=", "==", "!=", "**"]

/-- Whether a dot behind this token belongs to it, and so cannot open a word between dots. -/
def endsOperand : Token → Bool
  | .str _ | .num _ | .name _ => true
  | .op sign => sign == ")"
  | _ => false

/-- A character of a name. -/
def isNamePart (c : Char) : Bool := Text.isLetterOrNumeral c || c == '_'

/-- The rest of a number: digits, and dots that have a digit behind them. -/
def spanNumber : List Char → List Char × List Char
  | '.' :: d :: cs =>
    if d.isDigit then
      let (number, rest) := spanNumber cs
      ('.' :: d :: number, rest)
    else ([], '.' :: d :: cs)
  | c :: cs =>
    if c.isDigit then
      let (number, rest) := spanNumber cs
      (c :: number, rest)
    else ([], c :: cs)
  | [] => ([], [])

/-- A word between the dot that was just read and the next one. -/
def readDotted? (previous : Option Token) (cs : List Char) : Option (Token × List Char) :=
  if (previous.map endsOperand).getD false then none
  else
    match cs.dropWhile (· != '.') with
    | [] => none
    | _ :: rest =>
      let word := String.ofList ((cs.takeWhile (· != '.')).map Char.toUpper)
      if word ∈ dottedWords then some (.dotted word, rest) else none

/-- An operator that begins with the given character. -/
def readOp (c : Char) (cs : List Char) : Token × List Char :=
  match cs with
  | d :: rest =>
    let pair := String.ofList [c, d]
    if pair ∈ pairOperators then (.op pair, rest) else (.op (String.ofList [c]), cs)
  | [] => (.op (String.ofList [c]), [])

/-- The token that begins with the given character, behind `previous`, and what follows it. -/
def read (previous : Option Token) (c : Char) (cs : List Char) : Token × List Char :=
  if Text.isBlank c then
    (.blank (String.ofList (c :: cs.takeWhile Text.isBlank)), cs.dropWhile Text.isBlank)
  else if c = '"' ∨ c = '\'' then
    (.str (String.ofList (cs.takeWhile (· != c))), (cs.dropWhile (· != c)).drop 1)
  else
    match if c = '.' then readDotted? previous cs else none with
    | some found => found
    | none =>
      if c.isDigit then
        let (number, rest) := spanNumber cs
        (.num (String.ofList (c :: number)), rest)
      else if Text.isLetter c || c == '_' then
        (.name (String.ofList (c :: cs.takeWhile isNamePart)), cs.dropWhile isNamePart)
      else readOp c cs

/-- The tokens of a text, at most `fuel` of them. -/
def lexFrom : Nat → Option Token → List Char → List Token
  | 0, _, _ => []
  | _ + 1, _, [] => []
  | fuel + 1, previous, c :: cs =>
    let (token, rest) := read previous c cs
    token :: lexFrom fuel (some token) rest

/-- The tokens of a text. Each takes a character at least. -/
def lex (cs : List Char) : List Token := lexFrom cs.length none cs

/-- The tokens without blank ones at both ends. -/
def trim (tokens : List Token) : List Token :=
  ((tokens.dropWhile isBlank).reverse.dropWhile isBlank).reverse

end Token

end ScreenForms.Code
