import ScreenForms.Form.Color
import ScreenForms.Form.ControlKind
import ScreenForms.SortedMap

/-!
# Controls

One control of a form with its place, its text, its style and whatever else its kind needs.
A control inside another gives its position relative to it; a control without a parent gives its
position on the form.
-/

namespace ScreenForms

/-- The identity of a control within its document. -/
abbrev ControlId := String

/-- The owner of events that belong to the form and not to a control. -/
def formOwner : ControlId := "form"

/-- Colors and font. -/
structure Style where
  foreColor : Option Color := none
  backColor : Option Color := none
  fontName : Option String := none
  fontSize : Option Float := none
  fontBold : Bool := false
  fontItalic : Bool := false
  deriving DecidableEq, Repr, Inhabited

/-- One column of a grid. -/
structure GridColumn where
  /-- the field shown in the column -/
  field : String
  header : String
  /-- the width in pixels, when it is known -/
  width : Option Int
  readOnly : Bool
  deriving DecidableEq, Repr, Inhabited

/-! ## Keys of the values that kinds of controls keep for themselves -/

namespace ExtraKey

/-- The character that reaches the control from the keyboard. -/
def hotkey : String := "hotkey"

/-- Whether a button answers to the return key. -/
def defaultButton : String := "default_button"

/-- Whether a button answers to the escape key. -/
def cancelButton : String := "cancel_button"

/-- The variable or field that a control shows. -/
def controlSource : String := "control_source"

/-- The value of a control whose text is its caption. -/
def value : String := "value"

/-- The least number of a spinner. -/
def minimum : String := "min"

/-- The greatest number of a spinner. -/
def maximum : String := "max"

/-- The file of an image, or the mask of a textbox. -/
def picture : String := "picture"

/-- The group that a button or radio button belongs to. -/
def group : String := "group"

/-- The name of the page frame that a page belongs to. -/
def pageFrame : String := "page_frame"

/-- The kind of border around a shape. -/
def border : String := "border"

/-- The array that fills a combobox. -/
def rowSource : String := "row_source"

end ExtraKey

/-- What a control shows and how. -/
structure Properties where
  /-- the caption, or the value of a control whose text is its value -/
  text : Option String := none
  visible : Bool := true
  enabled : Bool := true
  style : Style := {}
  /-- the entries of a combobox -/
  items : List String := []
  /-- the columns of a grid -/
  columns : List GridColumn := []
  /-- values that have no field of their own -/
  extra : SortedMap Value := SortedMap.empty
  deriving DecidableEq, Repr, Inhabited

namespace Properties

/-- An extra value as text. -/
def extraText? (p : Properties) (key : String) : Option String :=
  (p.extra.get? key).bind Value.asText?

/-- An extra value as a number. -/
def extraNumber? (p : Properties) (key : String) : Option Float :=
  (p.extra.get? key).bind Value.asNumber?

/-- An extra value as a truth value, false when it is absent or has none. -/
def extraFlag (p : Properties) (key : String) : Bool :=
  ((p.extra.get? key).bind Value.asFlag?).getD false

/-- Sets an extra value. -/
def withExtra (p : Properties) (key : String) (v : Value) : Properties :=
  { p with extra := p.extra.insert key v }

end Properties

/-- One control of a form. -/
structure Control where
  id : ControlId
  kind : ControlKind
  name : String
  x : Int := 0
  y : Int := 0
  width : Int := 0
  height : Int := 0
  /-- the control that holds this one -/
  parent : Option ControlId := none
  props : Properties := {}
  deriving DecidableEq, Repr, Inhabited

/-- The text of a control, empty when it has none. -/
def Control.text (c : Control) : String := c.props.text.getD ""

end ScreenForms
