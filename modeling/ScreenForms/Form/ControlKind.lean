import ScreenForms.Text.Blank
import ScreenForms.Text.Search

/-!
# Kinds of controls

The fourteen kinds of controls a form is made of, their names, and the base classes of legacy
objects that become them. Only containers and pages may hold other controls.
-/

namespace ScreenForms

/-- What sort of control a node is. -/
inductive ControlKind where
  | label
  | textbox
  | editbox
  | button
  | checkbox
  | radio
  | spinner
  | combobox
  | grid
  | shape
  | image
  | container
  | pageframe
  | page
  deriving DecidableEq, Repr, Inhabited

namespace ControlKind

/-- Every kind, in declaration order. -/
def all : List ControlKind :=
  [.label, .textbox, .editbox, .button, .checkbox, .radio, .spinner, .combobox, .grid, .shape,
    .image, .container, .pageframe, .page]

/-- Whether controls of this kind may hold others. -/
def holdsControls : ControlKind → Bool
  | .container | .page => true
  | _ => false

/-- The name of the kind. -/
def name : ControlKind → String
  | .label => "label"
  | .textbox => "textbox"
  | .editbox => "editbox"
  | .button => "button"
  | .checkbox => "checkbox"
  | .radio => "radio"
  | .spinner => "spinner"
  | .combobox => "combobox"
  | .grid => "grid"
  | .shape => "shape"
  | .image => "image"
  | .container => "container"
  | .pageframe => "pageframe"
  | .page => "page"

/-- The kind with the given name. -/
def ofName? (s : String) : Option ControlKind := all.find? fun k => k.name == s

/-- How default names of controls of this kind begin. -/
def defaultNameStem : ControlKind → String
  | .label => "Label"
  | .textbox => "Text"
  | .editbox => "Edit"
  | .button => "Command"
  | .checkbox => "Check"
  | .radio => "Option"
  | .spinner => "Spinner"
  | .combobox => "Combo"
  | .grid => "Grid"
  | .shape => "Shape"
  | .image => "Image"
  | .container => "Container"
  | .pageframe => "PageFrame"
  | .page => "Page"

/-- The base class that stands for this kind in legacy records. -/
def legacyBaseClass : ControlKind → String
  | .button => "commandbutton"
  | .radio => "optionbutton"
  | kind => kind.name

/-- The kind that a legacy base class becomes. -/
def ofLegacyBaseClass? (baseClass : String) : Option ControlKind :=
  match String.ofList (Text.lower (Text.trim baseClass.toList)) with
  | "label" => some .label
  | "textbox" => some .textbox
  | "editbox" => some .editbox
  | "commandbutton" => some .button
  | "checkbox" => some .checkbox
  | "optionbutton" => some .radio
  | "spinner" => some .spinner
  | "combobox" | "listbox" => some .combobox
  | "grid" => some .grid
  | "shape" | "line" => some .shape
  | "image" => some .image
  | "container" | "optiongroup" | "commandgroup" => some .container
  | "pageframe" => some .pageframe
  | "page" => some .page
  | _ => none

/-- Width and height in pixels of a control that gives none. -/
def defaultSize : ControlKind → Int × Int
  | .label => (40, 17)
  | .textbox => (100, 23)
  | .editbox => (100, 75)
  | .button => (84, 27)
  | .checkbox => (60, 17)
  | .radio => (61, 17)
  | .spinner => (120, 24)
  | .combobox => (100, 24)
  | .grid => (320, 200)
  | .shape | .image => (100, 100)
  | .container => (200, 200)
  | .pageframe | .page => (241, 169)

/-- Whether the text of the control is its value and not its caption. -/
def textIsValue : ControlKind → Bool
  | .textbox | .editbox | .spinner | .combobox => true
  | _ => false

theorem ofLegacyBaseClass?_legacyBaseClass (k : ControlKind) :
    ofLegacyBaseClass? k.legacyBaseClass = some k := by
  cases k <;> decide

end ControlKind

end ScreenForms
