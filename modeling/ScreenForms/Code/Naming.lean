import ScreenForms.Target

/-!
# Names in generated programs

Controls become members of the window of the program. A control whose name is already taken by a
member that the window has of its own gets a trailing underscore. Handlers are named after their
owner and event.
-/

namespace ScreenForms.Code

/-- The members that a generated window has of its own. -/
def reservedMembers : Target → List String
  | .tkinter =>
    ["root", "_on_close", "_get_value", "_set_value", "_set_visible", "_message_box"]
  | .qt =>
    ["close", "show", "closeEvent", "setGeometry", "setWindowTitle", "setWindowFlags",
      "setStyleSheet", "_get_value", "_set_value", "_set_color", "_message_box"]
  | .winforms => ["Controls", "ClientSize", "InitializeComponent", "AcceptButton", "CancelButton"]
  | .html => ["form"]

/-- The member that a control becomes. -/
def memberName (target : Target) (name : String) : String :=
  let base := identifier name
  if base ∈ reservedMembers target then base ++ "_" else base

/-- The name of the handler for an event of an owner. -/
def handlerName (owner event : String) : String := identifier owner ++ "_" ++ identifier event

end ScreenForms.Code
