import ScreenForms.Text.Blank
import ScreenForms.Text.Lines

/-!
# Splitting outside quotes and brackets

Commands are cut at blanks, commas and other separators, but never inside a quoted text or between
brackets. A scan carries the open quotation mark and the number of brackets that are open; where
more brackets are closed than opened that number is negative, and the scan stays outside.
-/

namespace ScreenForms.Text

/-- How deep a scan is in quotes and brackets. -/
structure Depth where
  /-- the mark that closes the text the scan is in -/
  quote : Option Char := none
  /-- brackets opened less brackets closed -/
  brackets : Int := 0
  deriving DecidableEq, Repr, Inhabited

/-- A single or double quotation mark. -/
def isQuote (c : Char) : Bool := c == '"' || c == '\''

/-- A quotation mark or a round or square bracket. -/
def isMark (c : Char) : Bool :=
  isQuote c || c == '(' || c == '[' || c == ')' || c == ']'

namespace Depth

/-- The depth behind a character. -/
def after (d : Depth) (c : Char) : Depth :=
  match d.quote with
  | some q => if c = q then { d with quote := none } else d
  | none =>
    if isQuote c then { d with quote := some c }
    else if c = '(' ∨ c = '[' then { d with brackets := d.brackets + 1 }
    else if c = ')' ∨ c = ']' then { d with brackets := d.brackets - 1 }
    else d

/-- Whether a character here stands outside of quotes and brackets and is no mark itself. -/
def isOutside (d : Depth) (c : Char) : Bool :=
  d.quote.isNone && decide (d.brackets ≤ 0) && !isMark c

end Depth

/-- The pieces between the outside characters for which `p` holds, from a given depth on. -/
def splitFrom (p : Char → Bool) : Depth → List Char → List (List Char)
  | _, [] => [[]]
  | d, c :: cs =>
    if d.isOutside c && p c then [] :: splitFrom p d cs
    else
      match splitFrom p (d.after c) cs with
      | [] => [[c]]
      | piece :: pieces => (c :: piece) :: pieces

/-- The pieces between the occurrences of `sep` outside of quotes and brackets. -/
def splitTopLevel (sep : Char) (cs : List Char) : List (List Char) := splitFrom (· == sep) {} cs

/-- The words between blanks outside of quotes and brackets. -/
def words (cs : List Char) : List (List Char) :=
  (splitFrom isBlank {} cs).filter fun w => !w.isEmpty

/-- Words with single spaces between them. -/
def unwords (ws : List (List Char)) : List Char := joinWith [' '] ws

/-- The text before the first pair of ampersands that is outside of quotes. -/
def dropRemark (cs : List Char) : List Char :=
  go none cs
where
  /-- Carries the open quotation mark. -/
  go : Option Char → List Char → List Char
    | _, [] => []
    | some q, c :: cs => c :: go (if c = q then none else some q) cs
    | none, '&' :: '&' :: _ => []
    | none, c :: cs => c :: go (if isQuote c then some c else none) cs

theorem splitFrom_ne_nil (p : Char → Bool) (d : Depth) (cs : List Char) :
    splitFrom p d cs ≠ [] := by
  cases cs with
  | nil => simp [splitFrom]
  | cons c cs =>
    rw [splitFrom]
    split
    · simp
    · split <;> simp

end ScreenForms.Text
