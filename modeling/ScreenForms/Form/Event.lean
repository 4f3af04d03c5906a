import ScreenForms.Form.Control

/-!
# Events

Code is bound to pairs of an owner and an event name. The bindings are kept under the key
`owner_event`, and everything that runs through them does so in the order of these keys.
-/

namespace ScreenForms

/-- Code for one event of one owner. -/
structure EventBinding where
  owner : ControlId
  event : String
  code : String
  deriving DecidableEq, Repr, Inhabited

/-- The key of an owner and an event. -/
def eventKey (owner : ControlId) (event : String) : String := owner ++ "_" ++ event

/-- The key under which a binding is stored. -/
def EventBinding.key (b : EventBinding) : String := eventKey b.owner b.event

/-- The bindings of a form in the order of their keys. -/
abbrev EventMap := SortedMap EventBinding

namespace EventMap

/-- Stores a binding under its key, over an earlier one. -/
def bind (m : EventMap) (b : EventBinding) : EventMap := SortedMap.insert m b.key b

/-- The code for an event of an owner. -/
def code? (m : EventMap) (owner : ControlId) (event : String) : Option String :=
  (m.get? (eventKey owner event)).map EventBinding.code

/-- The bindings of one owner. -/
def ofOwner (m : EventMap) (owner : ControlId) : List EventBinding :=
  m.values.filter fun b => b.owner == owner

end EventMap

end ScreenForms
