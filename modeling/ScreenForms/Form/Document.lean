import ScreenForms.Decimal.Wrapping
import ScreenForms.Form.Event

/-!
# Documents

A document is one form: its window, a flat list of controls whose nesting is a relation between
their ids, the code bound to events, and free methods. A document is sound when ids are distinct,
every parent is a control of the document that may hold others, and no control is an ancestor of
itself. `Document.problems` lists every violation and `Document.validate` the first one.
-/

namespace ScreenForms

/-- Place, caption and frame of the window. -/
structure Window where
  name : String := "Form1"
  caption : String := "Form1"
  x : Int := 0
  y : Int := 0
  width : Int := 640
  height : Int := 480
  minimizable : Bool := true
  maximizable : Bool := true
  closable : Bool := true
  movable : Bool := true
  deriving DecidableEq, Repr, Inhabited

/-- A method of the form that belongs to no event. -/
structure FormMethod where
  name : String
  parameters : List String := []
  body : String
  deriving DecidableEq, Repr, Inhabited

/-- A form with everything on it. The order of the controls is their stacking order. -/
structure Document where
  window : Window := {}
  controls : List Control := []
  events : EventMap := SortedMap.empty
  methods : List FormMethod := []
  deriving DecidableEq, Repr, Inhabited

/-- A violation of the rules for documents. -/
inductive DocumentError where
  /-- a parent that is no control of the document -/
  | danglingParent (control parent : ControlId)
  /-- a parent that cannot hold controls -/
  | parentNotContainer (control parent : ControlId) (kind : ControlKind)
  /-- a control that is an ancestor of itself -/
  | parentCycle (control : ControlId)
  /-- an id that occurred before -/
  | duplicateId (control : ControlId)
  deriving DecidableEq, Repr

/-- The text of a violation. -/
def DocumentError.message : DocumentError → String
  | .danglingParent control parent => "node " ++ control ++ " references missing parent " ++ parent
  | .parentNotContainer control parent kind =>
    "node " ++ control ++ " has parent " ++ parent ++ " of type " ++ kind.name ++
      ", which cannot contain controls"
  | .parentCycle control => "node " ++ control ++ " is its own ancestor"
  | .duplicateId control => "duplicate node id " ++ control

namespace Document

/-- The first control with an id. -/
def control? (doc : Document) (id : ControlId) : Option Control :=
  doc.controls.find? fun c => c.id == id

/-- The first control with a name, up to ASCII case. -/
def controlNamed? (doc : Document) (name : String) : Option Control :=
  doc.controls.find? fun c => Text.sameName c.name name

/-- The control that holds a control, when it has a parent and the parent exists. -/
def parentOf? (doc : Document) (c : Control) : Option Control :=
  c.parent.bind doc.control?

/-- The controls directly inside a control. -/
def childrenOf (doc : Document) (id : ControlId) : List Control :=
  doc.controls.filter fun c => c.parent == some id

/-- The name shown for the owner of an event. -/
def ownerName? (doc : Document) (owner : ControlId) : Option String :=
  if owner == formOwner then some doc.window.name
  else (doc.control? owner).map Control.name

/-- The control that an id stands for in the checks: of several with that id the last. -/
def indexed? (doc : Document) (id : ControlId) : Option Control :=
  doc.controls.reverse.find? fun c => c.id == id

/-- The ids that occurred before, one violation for each repetition. -/
def duplicateIds : List ControlId → List Control → List DocumentError
  | _, [] => []
  | seen, c :: cs =>
    (if c.id ∈ seen then [.duplicateId c.id] else []) ++ duplicateIds (c.id :: seen) cs

/-- What is wrong with the parent that a control names. -/
def parentProblem (doc : Document) (c : Control) : List DocumentError :=
  match c.parent with
  | none => []
  | some parent =>
    match doc.indexed? parent with
    | none => [.danglingParent c.id parent]
    | some p => if p.kind.holdsControls then [] else [.parentNotContainer c.id parent p.kind]

/-- The chain of parent ids that starts with `id`, at most `fuel` of them. -/
def lineage (doc : Document) : Nat → Option ControlId → List ControlId
  | _, none => []
  | 0, some _ => []
  | fuel + 1, some id => id :: doc.lineage fuel ((doc.indexed? id).bind Control.parent)

/-- Whether a control occurs among its own ancestors. A chain that comes back does so within as
many steps as there are controls. -/
def isOwnAncestor (doc : Document) (c : Control) : Bool :=
  c.id ∈ doc.lineage doc.controls.length c.parent

/-- All violations: repeated ids, then bad parents, then cycles, each in the order of the
controls. -/
def problems (doc : Document) : List DocumentError :=
  duplicateIds [] doc.controls ++ doc.controls.flatMap doc.parentProblem ++
    (doc.controls.filter doc.isOwnAncestor).map fun c => .parentCycle c.id

/-- The first violation, if there is one. -/
def validate (doc : Document) : Except DocumentError Unit :=
  match doc.problems with
  | [] => .ok ()
  | e :: _ => .error e

/-- Why a chain of parents has no sum. -/
inductive ChainFault where
  | endless
  | dangling (id : ControlId)

/-- Sums the positions from `id` upward, with 32 bits. A chain longer than `fuel` is endless. -/
def sumPositions (doc : Document) : Nat → ControlId → Except ChainFault (Int × Int)
  | 0, _ => .error .endless
  | fuel + 1, id =>
    match doc.control? id with
    | none => .error (.dangling id)
    | some c =>
      match c.parent with
      | none => .ok (Decimal.wrapPlace (c.x, c.y))
      | some parent =>
        match doc.sumPositions fuel parent with
        | .ok (x, y) => .ok (Decimal.wrapPlace (c.x + x, c.y + y))
        | .error e => .error e

/-- The position of a control on the form: its own and those of all its ancestors summed up. -/
def absolutePosition (doc : Document) (id : ControlId) : Except DocumentError (Int × Int) :=
  match doc.sumPositions (doc.controls.length + 1) id with
  | .ok p => .ok p
  | .error .endless => .error (.parentCycle id)
  | .error (.dangling missing) => .error (.danglingParent id missing)

/-- Puts a control behind the others. -/
def addControl (doc : Document) (c : Control) : Document :=
  { doc with controls := doc.controls ++ [c] }

/-- Moves the first control with an id into another parent, or out of any. -/
def reparent? (doc : Document) (id : ControlId) (parent : Option ControlId) : Option Document :=
  (go doc.controls).map fun controls => { doc with controls }
where
  /-- The controls with the first match changed; none when nothing matches. -/
  go : List Control → Option (List Control)
    | [] => none
    | c :: cs =>
      if c.id = id then some ({ c with parent } :: cs) else (go cs).map (c :: ·)

/-- The names in use, in lower case, ascending and without repetition. -/
def usedNames (doc : Document) : List String :=
  (SortedMap.ofList ((doc.window.name :: doc.controls.map Control.name).map
    fun name => (Text.onChars Text.lower name, ()))).keys

/-- A document without violations. -/
def Valid (doc : Document) : Prop := doc.problems = []

instance (doc : Document) : Decidable doc.Valid := inferInstanceAs (Decidable (_ = _))

theorem validate_eq_ok_iff (doc : Document) : doc.validate = .ok () ↔ doc.Valid := by
  unfold validate Valid
  split <;> simp_all

end Document

end ScreenForms
