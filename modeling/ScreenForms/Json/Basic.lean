/-!
# JSON values

A JSON value keeps the members of an object in the order and number in which they are written,
and tells whole numbers from floats: `1` is the whole number one and `1.0` is a float.
-/

namespace ScreenForms

/-- A JSON value. -/
inductive Json where
  | null
  | bool (b : Bool)
  /-- a number written without fraction and exponent -/
  | int (n : Int)
  /-- any other number; an infinity or NaN has no JSON text and is written `null` -/
  | float (x : Float)
  | str (s : String)
  | arr (items : List Json)
  | obj (members : List (String × Json))
  /-- what has the form of a value and stands for none: a number beyond the largest float, a string
  with half of a surrogate pair, or an object with such a name. It can only be passed over. -/
  | unreadable
  deriving Repr, Inhabited

namespace Json

/-- The value of the last member with a name. -/
def lookup? (name : String) (members : List (String × Json)) : Option Json :=
  members.foldl (fun found m => if m.1 == name then some m.2 else found) none

/-- The member of an object with a name; nothing for other values. -/
def get? (name : String) : Json → Option Json
  | obj members => lookup? name members
  | _ => none

/-- The text of a string. -/
def asString? : Json → Option String
  | str s => some s
  | _ => none

/-- The truth value of `true` or `false`. -/
def asBool? : Json → Option Bool
  | bool b => some b
  | _ => none

/-- A whole number between two bounds. -/
def asInt? (low high : Int) : Json → Option Int
  | int n => if low ≤ n ∧ n ≤ high then some n else none
  | _ => none

/-- Any number as a float. -/
def asFloat? : Json → Option Float
  | int n => some (Float.ofInt n)
  | float x => some x
  | _ => none

/-- Every item of an array, when all of them can be read. -/
def asList? {α : Type} (item? : Json → Option α) : Json → Option (List α)
  | arr items => items.mapM item?
  | _ => none

/-- Nothing for `null`, else the value that is read. -/
def asOption? {α : Type} (value? : Json → Option α) : Json → Option (Option α)
  | null => some none
  | v => (value? v).map some

/-- The name of an alternative without contents: a string, or an object whose only member has
that name and holds `null`. -/
def asAlternative? : Json → Option String
  | str s => some s
  | obj [(name, null)] => some name
  | _ => none

/-- The members of a record with the given field names. A record may also be written as the
array of its fields in order. No field may be given twice. -/
def asRecord? (fields : List String) : Json → Option (List (String × Json))
  | obj members =>
    if fields.all fun f => (members.filter fun m => m.1 == f).length ≤ 1 then some members
    else none
  | arr items => if items.length ≤ fields.length then some (fields.zip items) else none
  | _ => none

end Json

end ScreenForms
