/-!
# TOML values

What a TOML document is made of. Of a date or a time only its place is kept, as no setting is one.
-/

namespace ScreenForms

/-- A TOML value. -/
inductive Toml where
  | bool (b : Bool)
  | int (n : Int)
  | float (x : Float)
  | str (s : String)
  /-- a date, a time of day or both -/
  | moment
  | arr (items : List Toml)
  | table (members : List (String × Toml))
  deriving Repr, Inhabited

namespace Toml

/-- The truth value of `true` or `false`. -/
def asBool? : Toml → Option Bool
  | bool b => some b
  | _ => none

/-- A whole number between two bounds. -/
def asInt? (low high : Int) : Toml → Option Int
  | int n => if low ≤ n ∧ n ≤ high then some n else none
  | _ => none

/-- Any number as a float. -/
def asFloat? : Toml → Option Float
  | int n => some (Float.ofInt n)
  | float x => some x
  | _ => none

/-- The name of an alternative without contents: a string, or a table whose only member has that
name and holds an empty table or array. -/
def asAlternative? : Toml → Option String
  | str s => some s
  | table [(name, table [])] => some name
  | table [(name, arr [])] => some name
  | _ => none

/-- The members of a record with the given field names. A record may also be written as the
array of its fields in order, where further items do not count. A moment passes for a record that
sets no field. -/
def asRecord? (fields : List String) : Toml → Option (List (String × Toml))
  | table members => some members
  | arr items => some (fields.zip items)
  | moment => some []
  | _ => none

end Toml

end ScreenForms
