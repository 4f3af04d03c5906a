import ScreenForms.Text.Blank
import ScreenForms.Text.Search
import ScreenForms.Text.Uppercase

/-!
# Names of events

Event names are written in any case. Names of known events get their canonical spelling, other
names only an upper-case first letter.
-/

namespace ScreenForms.EventName

/-- The events that legacy screens raise, in their canonical spelling. -/
def known : List String :=
  ["Init", "Load", "Unload", "Destroy", "Activate", "Deactivate", "Show", "Hide", "QueryUnload",
    "Click", "DblClick", "RightClick", "MiddleClick", "GotFocus", "LostFocus", "Valid", "When",
    "InteractiveChange", "ProgrammaticChange", "KeyPress", "MouseDown", "MouseUp", "MouseMove",
    "MouseEnter", "MouseLeave", "MouseWheel", "Resize", "Moved", "Refresh", "Timer", "Error",
    "Paint"]

/-- The canonical spelling of a known event. -/
def known? (name : String) : Option String :=
  let bare := Text.trimmed name
  known.find? fun event => Text.sameName event bare

/-- A name with its first character in upper case. -/
def capitalize (cs : List Char) : List Char :=
  match cs with
  | [] => []
  | c :: rest => Text.upperChar c ++ rest

/-- The spelling under which an event is kept. -/
def normalize (name : String) : String :=
  (known? name).getD (Text.onChars (fun cs => capitalize (Text.trim cs)) name)

end ScreenForms.EventName
