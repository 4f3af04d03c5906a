import ScreenForms.Code.Translate
import ScreenForms.Form.Document

/-!
# The code of a document

All bodies of a document are translated, or put into comments, at once. The code of an event
belongs to the control that owns it; the code of the form and of its methods belongs to no
control.
-/

namespace ScreenForms.Document

/-- Changes the code of every event and the body of every method. -/
def mapBodies (onEvent : EventBinding → String) (onMethod : FormMethod → String)
    (doc : Document) : Document :=
  { doc with
    events := doc.events.mapValues fun b => { b with code := onEvent b }
    methods := doc.methods.map fun m => { m with body := onMethod m } }

/-- The name of the control that owns an event, if one does. -/
def owningControl? (doc : Document) (b : EventBinding) : Option String :=
  if b.owner == formOwner then none else doc.ownerName? b.owner

/-- The code of an event in the language of a target. -/
def translateEvent (doc : Document) (target : Target) (b : EventBinding) : String :=
  Code.translate { target, owner := doc.owningControl? b } b.code

/-- The body of a method in the language of a target. -/
def translateMethod (target : Target) (m : FormMethod) : String :=
  Code.translate { target } m.body

/-- Translates all events, and the methods too when asked for. -/
def translate (target : Target) (withMethods : Bool) (doc : Document) : Document :=
  doc.mapBodies (doc.translateEvent target)
    (if withMethods then translateMethod target else FormMethod.body)

end ScreenForms.Document
