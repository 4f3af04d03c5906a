import ScreenForms.Form.Value
import ScreenForms.Text.Delimited
import ScreenForms.Text.Search

/-!
# Keywords and clauses

Commands consist of clauses, each a keyword with the words up to the next keyword as its argument.
A keyword may be cut short as long as four bytes of it are left, which are four letters in ASCII. In the argument of a list clause a word that
begins the list or follows a comma is an item, also when it spells a keyword.
-/

namespace ScreenForms.Screen

/-- The least number of bytes of a keyword that is cut short. -/
def shortestKeyword : Nat := 4

/-- Whether a word is a keyword or long enough a start of it, in any case. -/
def isKeyword (word : List Char) (keyword : String) : Bool :=
  let spelled := Text.upper word
  spelled == keyword.toList ||
    (shortestKeyword ≤ (String.ofList spelled).utf8ByteSize &&
      (Text.dropLead? spelled keyword.toList).isSome)

/-- One clause of a command. -/
structure Clause where
  keyword : String
  argument : List Char := []
  deriving DecidableEq, Repr

/-- The clauses of a command and the words before the first of them. -/
structure Clauses where
  head : List Char := []
  /-- the clauses in the order in which they are written -/
  list : List Clause := []
  deriving DecidableEq, Repr

/-- Appends a word behind a blank, or as the first word. -/
def addWord (text word : List Char) : List Char :=
  if text.isEmpty then word else text ++ ' ' :: word

namespace Clauses

/-- Whether the next word is an item of the list clause. -/
def expectsItem (c : Clauses) (listKeyword : Option String) : Bool :=
  match listKeyword, c.list.getLast? with
  | some keyword, some last =>
    last.keyword == keyword && (last.argument.isEmpty || last.argument.getLast? == some ',')
  | _, _ => false

/-- Takes in the next word. -/
def addNext (keywords : List String) (listKeyword : Option String) (c : Clauses)
    (word : List Char) : Clauses :=
  let keyword := if c.expectsItem listKeyword then none else keywords.find? (isKeyword word)
  match keyword with
  | some keyword => { c with list := c.list ++ [{ keyword }] }
  | none =>
    match c.list.getLast? with
    | some last =>
      { c with list := c.list.dropLast ++ [{ last with argument := addWord last.argument word }] }
    | none => { c with head := addWord c.head word }

/-- Cuts a text into clauses, one of which may be a list clause. -/
def parseWithList (keywords : List String) (listKeyword : Option String) (text : List Char) :
    Clauses :=
  (Text.words text).foldl (addNext keywords listKeyword) {}

/-- Cuts a text into clauses. -/
def parse (keywords : List String) (text : List Char) : Clauses :=
  parseWithList keywords none text

/-- The argument of the first clause with a keyword. -/
def get? (c : Clauses) (keyword : String) : Option (List Char) :=
  (c.list.find? fun clause => clause.keyword == keyword).map Clause.argument

/-- Whether there is a clause with a keyword. -/
def has (c : Clauses) (keyword : String) : Bool :=
  c.list.any fun clause => clause.keyword == keyword

end Clauses

/-- The content of a quoted argument, or the argument without blanks at its ends. -/
def literal (argument : List Char) : List Char :=
  let bare := Text.trim argument
  (Value.unquote? bare).getD bare

/-- A character of the name of a procedure. -/
def isProcedureChar (c : Char) : Bool := c.isAlphanum || c == '_'

/-- The name of the procedure that an argument calls: a name alone, or with arguments in
parentheses behind it. -/
def calledName? (argument : List Char) : Option (List Char) :=
  let bare := Text.trim argument
  let name := bare.takeWhile isProcedureChar
  let rest := Text.trim (bare.dropWhile isProcedureChar)
  let isCall := rest.isEmpty || (rest.head? == some '(' && rest.getLast? == some ')')
  if !name.isEmpty && isCall then some name else none

end ScreenForms.Screen
