import ScreenForms.Form.Control
import ScreenForms.Text.Lines

/-!
# Legacy records

A record describes one object of a legacy screen: its classes, its name, the path of its parent,
its properties and its methods.
-/

namespace ScreenForms

/-- A named procedure body. -/
structure RecordMethod where
  name : String
  body : String
  deriving DecidableEq, Repr, Inhabited

/-- One object of a legacy screen. -/
structure Record where
  id : ControlId := ""
  /-- the line on which the record begins, counted from one -/
  line : Nat := 0
  platform : String := ""
  uniqueId : String := ""
  timestamp : String := ""
  className : String := ""
  classLoc : String := ""
  baseClass : String := ""
  objName : String := ""
  /-- the parent, possibly as a path with dots -/
  parent : String := ""
  /-- the properties in the order of their declaration -/
  properties : List (String × Value) := []
  /-- the methods in the order of their declaration -/
  methods : List RecordMethod := []
  deriving DecidableEq, Repr, Inhabited

namespace Record

/-- The first property with a name, up to ASCII case. -/
def property? (r : Record) (name : String) : Option Value :=
  (r.properties.find? fun p => Text.sameName p.1 name).map Prod.snd

/-- Whether a property is given. -/
def hasProperty (r : Record) (name : String) : Bool := (r.property? name).isSome

/-- The number of the first of the named properties that has one. -/
def number? (r : Record) (names : List String) : Option Float :=
  names.findSome? fun name => (r.property? name).bind Value.asNumber?

/-- The text shown for a property. -/
def text? (r : Record) (name : String) : Option String := (r.property? name).map Value.display

/-- The truth value of a property. -/
def flag? (r : Record) (name : String) : Option Bool := (r.property? name).bind Value.asFlag?

/-- The last part of the path of the parent, without blanks at its ends. -/
def immediateParent (r : Record) : String :=
  String.ofList (Text.trim ((Text.splitOn '.' r.parent.toList).getLast?.getD []))

end Record

end ScreenForms
