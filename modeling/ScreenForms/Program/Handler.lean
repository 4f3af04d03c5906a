import ScreenForms.Code.Naming
import ScreenForms.Program.Layout

/-!
# Handlers

Every event with code becomes a handler of the program: those of the form first, then those of
the controls in the order of the layout. Events that open or close the form are not bound to
anything; the program calls their handlers itself, in a fixed order.
-/

namespace ScreenForms

/-- When a program calls the handler of a form event itself. -/
inductive Lifecycle where
  | opening
  | closing
  deriving DecidableEq, Repr

namespace Lifecycle

/-- The events of a phase in the order of their calls. -/
def events : Lifecycle → List String
  | .opening => ["Load", "Init", "Activate", "Show"]
  | .closing => ["QueryUnload", "Unload", "Destroy"]

/-- The phase of an event of the form. -/
def ofEvent? (event : String) : Option Lifecycle :=
  if event ∈ events .opening then some .opening
  else if event ∈ events .closing then some .closing
  else none

end Lifecycle

/-- The handler for one event. -/
structure Handler where
  /-- the control that owns the event, none for the form -/
  owner : Option Control
  event : String
  name : String
  body : String
  deriving DecidableEq, Repr

namespace Handler

/-- Whether the handler is bound to an event and not called by the program itself. -/
def isBound (h : Handler) : Bool := h.owner.isSome || (Lifecycle.ofEvent? h.event).isNone

/-- The kind of the control that owns the event. -/
def ownerKind? (h : Handler) : Option ControlKind := h.owner.map Control.kind

end Handler

/-- The names of the handlers to call in a phase. -/
def lifecycleCalls (phase : Lifecycle) (handlers : List Handler) : List String :=
  phase.events.flatMap fun event =>
    (handlers.filter fun h => h.owner.isNone && h.event == event).map Handler.name

namespace Document

/-- The handlers of one owner, in the order of the event keys. Blank code gives none. -/
def handlersOf (doc : Document) (owner : Option Control) : List Handler :=
  let id := (owner.map Control.id).getD formOwner
  let name := (owner.map Control.name).getD doc.window.name
  ((EventMap.ofOwner doc.events id).filter fun b => !(Text.trim b.code.toList).isEmpty).map
    fun b => { owner, event := b.event, name := Code.handlerName name b.event, body := b.code }

/-- All handlers of a form. -/
def handlers (doc : Document) : List Handler :=
  doc.handlersOf none ++ doc.layout.flatMap fun p => doc.handlersOf (some p.control)

end Document

end ScreenForms
