import ScreenForms.Text.Blank
import ScreenForms.Text.Letter
import ScreenForms.Text.Lines
import ScreenForms.Text.Search

/-!
# Targets

The four toolkits that programs are generated for. Each has a name, further names under which it
may be asked for, a label and a rule for the names of files.
-/

namespace ScreenForms

/-- A toolkit that programs are generated for. -/
inductive Target where
  | tkinter
  | qt
  | winforms
  | html
  deriving DecidableEq, Repr, Inhabited

namespace Target

/-- Every target, in the order in which they are listed. -/
def all : List Target := [.tkinter, .qt, .winforms, .html]

/-- The name of a target. -/
def name : Target → String
  | .tkinter => "tkinter"
  | .qt => "qt"
  | .winforms => "winforms"
  | .html => "html"

/-- The names under which a target may be asked for, in lower case. -/
def spellings : Target → List String
  | .tkinter => ["tkinter", "tk"]
  | .qt => ["qt", "pyside", "pyside6"]
  | .winforms => ["winforms", "csharp", "cs"]
  | .html => ["html", "web", "js"]

/-- The label shown for a target. -/
def label : Target → String
  | .tkinter => "Python / Tkinter"
  | .qt => "Python / PySide6"
  | .winforms => "C# / WinForms"
  | .html => "HTML + JavaScript"

/-- The target with exactly this name. -/
def ofName? (s : String) : Option Target := all.find? fun t => t.name == s

/-- The target that is asked for, in any case and with blanks around the name. -/
def find? (s : String) : Option Target :=
  let asked := Text.onChars (fun cs => Text.lower (Text.trim cs)) s
  all.find? fun t => asked ∈ t.spellings

/-- The complaint about a target that does not exist. -/
def unknownMessage (asked : String) : String :=
  "unknown target: " ++ asked ++ " (expected one of: " ++ Text.join ", " (all.map name) ++ ")"

end Target

/-- A name made fit for programs: characters that are neither letters nor numerals become
underscores, and a name that is empty or starts with an ASCII digit gets one in front. -/
def identifierChars (cs : List Char) : List Char :=
  let out := cs.map fun c => if Text.isLetterOrNumeral c || c == '_' then c else '_'
  match out with
  | [] => ['_']
  | c :: _ => if c.isDigit then '_' :: out else out

/-- A name made fit for programs. -/
def identifier (name : String) : String := Text.onChars identifierChars name

namespace Target

/-- The name of the file that a form is written to. -/
def fileName (t : Target) (formName : String) : String :=
  let stem := identifier formName
  match t with
  | .tkinter => stem ++ ".py"
  | .qt => stem ++ "_qt.py"
  | .winforms => stem ++ ".cs"
  | .html => stem ++ ".html"

end Target

end ScreenForms
