import ScreenForms.Code.Quoted
import ScreenForms.Decimal.Read
import ScreenForms.Decimal.Shortest
import ScreenForms.Target
import ScreenForms.Text.Lines

/-!
# Idioms of the targets

How each target language spells what legacy code says: literals and operators, access to the
properties of controls, calls of built-in functions, declarations, and the lines that open blocks.
-/

namespace ScreenForms.Code

/-- The words and signs of a target language. -/
structure Idiom where
  /-- what begins a comment -/
  comment : String
  /-- what stands before the name of a control -/
  selfLead : String
  /-- the window itself -/
  formObject : String
  trueWord : String
  falseWord : String
  nullWord : String
  andWord : String
  orWord : String
  /-- negation, with a blank behind it where the language needs one -/
  notWord : String
  equal : String
  unequal : String
  /-- what ends a simple statement -/
  terminator : String
  /-- whether blocks stand in braces -/
  braces : Bool
  /-- the function that shows a message -/
  messageBox : String
  closeForm : String
  print : String
  deriving DecidableEq, Repr

/-- What the two targets in one language have in common. -/
def Idiom.indented : Idiom :=
  { comment := "#"
    selfLead := "self."
    formObject := "self.root"
    trueWord := "True"
    falseWord := "False"
    nullWord := "None"
    andWord := "and"
    orWord := "or"
    notWord := "not "
    equal := "=="
    unequal := "!="
    terminator := ""
    braces := false
    messageBox := "self._message_box"
    closeForm := "self.root.destroy()"
    print := "print" }

/-- What the targets with braces have in common. -/
def Idiom.braced : Idiom :=
  { comment := "//"
    selfLead := "this."
    formObject := "this"
    trueWord := "true"
    falseWord := "false"
    nullWord := "null"
    andWord := "&&"
    orWord := "||"
    notWord := "!"
    equal := "=="
    unequal := "!="
    terminator := ";"
    braces := true
    messageBox := "LegacyMessageBox"
    closeForm := "this.Close()"
    print := "Console.WriteLine" }

/-- The idiom of a target. -/
def idiom : Target → Idiom
  | .tkinter => .indented
  | .qt => { Idiom.indented with formObject := "self", closeForm := "self.close()" }
  | .winforms => .braced
  | .html =>
    { Idiom.braced with
      selfLead := "ui."
      formObject := "ui.form"
      equal := "==="
      unequal := "!=="
      messageBox := "messageBox"
      closeForm := "window.close()"
      print := "console.log" }

/-! ## Properties of controls -/

/-- The properties with a spelling of their own. -/
inductive PropertyName where
  | caption
  | value
  | enabled
  | visible
  | foreColor
  | backColor
  deriving DecidableEq, Repr

/-- The property that a name in any case stands for. -/
def PropertyName.ofName? (name : String) : Option PropertyName :=
  match name.toLower with
  | "caption" => some .caption
  | "value" => some .value
  | "enabled" => some .enabled
  | "visible" => some .visible
  | "forecolor" => some .foreColor
  | "backcolor" => some .backColor
  | _ => none

/-- The expression for a property of an object. -/
def getProperty (target : Target) (property : PropertyName) (object : String) (onForm : Bool) :
    String :=
  match target, property with
  | .tkinter, .caption =>
    if onForm then object ++ ".title()" else object ++ ".cget(\"text\")"
  | .tkinter, .value => "self._get_value(" ++ object ++ ")"
  | .tkinter, .enabled => "(str(" ++ object ++ ".cget(\"state\")) != \"disabled\")"
  | .tkinter, .visible => "bool(" ++ object ++ ".winfo_ismapped())"
  | .tkinter, .foreColor => object ++ ".cget(\"fg\")"
  | .tkinter, .backColor => object ++ ".cget(\"bg\")"
  | .qt, .caption => if onForm then object ++ ".windowTitle()" else object ++ ".text()"
  | .qt, .value => "self._get_value(" ++ object ++ ")"
  | .qt, .enabled => object ++ ".isEnabled()"
  | .qt, .visible => object ++ ".isVisible()"
  | .qt, .foreColor => object ++ ".palette().color(" ++ object ++ ".foregroundRole())"
  | .qt, .backColor => object ++ ".palette().color(" ++ object ++ ".backgroundRole())"
  | .winforms, .caption => object ++ ".Text"
  | .winforms, .value => object ++ ".Text"
  | .winforms, .enabled => object ++ ".Enabled"
  | .winforms, .visible => object ++ ".Visible"
  | .winforms, .foreColor => object ++ ".ForeColor"
  | .winforms, .backColor => object ++ ".BackColor"
  | .html, .caption => if onForm then "document.title" else object ++ ".textContent"
  | .html, .value => object ++ ".value"
  | .html, .enabled => "!" ++ object ++ ".disabled"
  | .html, .visible => "!" ++ object ++ ".hidden"
  | .html, .foreColor => object ++ ".style.color"
  | .html, .backColor => object ++ ".style.backgroundColor"

/-- The statement that sets a property of an object, without its terminator. -/
def setProperty (target : Target) (property : PropertyName) (object value : String)
    (onForm : Bool) : String :=
  match target, property with
  | .tkinter, .caption =>
    if onForm then object ++ ".title(" ++ value ++ ")"
    else object ++ ".config(text=" ++ value ++ ")"
  | .tkinter, .value => "self._set_value(" ++ object ++ ", " ++ value ++ ")"
  | .tkinter, .enabled =>
    object ++ ".config(state=(\"normal\" if " ++ value ++ " else \"disabled\"))"
  | .tkinter, .visible => "self._set_visible(" ++ object ++ ", " ++ value ++ ")"
  | .tkinter, .foreColor => object ++ ".config(fg=" ++ value ++ ")"
  | .tkinter, .backColor => object ++ ".config(bg=" ++ value ++ ")"
  | .qt, .caption =>
    if onForm then object ++ ".setWindowTitle(" ++ value ++ ")"
    else object ++ ".setText(" ++ value ++ ")"
  | .qt, .value => "self._set_value(" ++ object ++ ", " ++ value ++ ")"
  | .qt, .enabled => object ++ ".setEnabled(" ++ value ++ ")"
  | .qt, .visible => object ++ ".setVisible(" ++ value ++ ")"
  | .qt, .foreColor => "self._set_color(" ++ object ++ ", \"color\", " ++ value ++ ")"
  | .qt, .backColor => "self._set_color(" ++ object ++ ", \"background-color\", " ++ value ++ ")"
  | .winforms, .caption => object ++ ".Text = " ++ value
  | .winforms, .value => object ++ ".Text = Convert.ToString(" ++ value ++ ")"
  | .winforms, .enabled => object ++ ".Enabled = " ++ value
  | .winforms, .visible => object ++ ".Visible = " ++ value
  | .winforms, .foreColor => object ++ ".ForeColor = " ++ value
  | .winforms, .backColor => object ++ ".BackColor = " ++ value
  | .html, .caption =>
    if onForm then "document.title = " ++ value else object ++ ".textContent = " ++ value
  | .html, .value => object ++ ".value = " ++ value
  | .html, .enabled => object ++ ".disabled = !(" ++ value ++ ")"
  | .html, .visible => object ++ ".hidden = !(" ++ value ++ ")"
  | .html, .foreColor => object ++ ".style.color = " ++ value
  | .html, .backColor => object ++ ".style.backgroundColor = " ++ value

/-! ## Functions and methods -/

/-- The three languages of the targets. -/
inductive Language where
  | python
  | csharp
  | javascript
  deriving DecidableEq, Repr

/-- The language of a target. -/
def language : Target → Language
  | .tkinter | .qt => .python
  | .winforms => .csharp
  | .html => .javascript

/-- A built-in function of one text argument. -/
def textFunction? (target : Target) (name argument : String) : Option String :=
  match name, language target with
  | "ALLTRIM", .python => some ("str(" ++ argument ++ ").strip()")
  | "ALLTRIM", .csharp => some ("Convert.ToString(" ++ argument ++ ").Trim()")
  | "ALLTRIM", .javascript => some ("String(" ++ argument ++ ").trim()")
  | "UPPER", .python => some ("str(" ++ argument ++ ").upper()")
  | "UPPER", .csharp => some ("Convert.ToString(" ++ argument ++ ").ToUpper()")
  | "UPPER", .javascript => some ("String(" ++ argument ++ ").toUpperCase()")
  | "LOWER", .python => some ("str(" ++ argument ++ ").lower()")
  | "LOWER", .csharp => some ("Convert.ToString(" ++ argument ++ ").ToLower()")
  | "LOWER", .javascript => some ("String(" ++ argument ++ ").toLowerCase()")
  | "LEN", .python => some ("len(" ++ argument ++ ")")
  | "LEN", .csharp => some ("Convert.ToString(" ++ argument ++ ").Length")
  | "LEN", .javascript => some ("String(" ++ argument ++ ").length")
  | _, _ => none

/-- The color with three given parts. -/
def colorCall (target : Target) (red green blue : String) : String :=
  match language target with
  | .python => "\"#%02x%02x%02x\" % (" ++ red ++ ", " ++ green ++ ", " ++ blue ++ ")"
  | .csharp => "Color.FromArgb(" ++ red ++ ", " ++ green ++ ", " ++ blue ++ ")"
  | .javascript =>
    "\x60rgb($\x7b" ++ red ++ "\x7d, $\x7b" ++ green ++ "\x7d, $\x7b" ++ blue ++ "\x7d)\x60"

/-- A call of a built-in function, when the target has a spelling for it. -/
def functionCall? (target : Target) (name : String) (args : List String) : Option String :=
  match name.toUpper, args with
  | "MESSAGEBOX", args => some ((idiom target).messageBox ++ "(" ++ Text.join ", " args ++ ")")
  | "RGB", [red, green, blue] => some (colorCall target red green blue)
  | name, [argument] => textFunction? target name argument
  | _, _ => none

/-- A method of a control, when the target has a spelling for it. -/
def methodReference? (target : Target) (object name : String) : Option String :=
  if name.toLower = "setfocus" then
    some (match target with
      | .tkinter => object ++ ".focus_set"
      | .qt => object ++ ".setFocus"
      | .winforms => object ++ ".Focus"
      | .html => object ++ ".focus")
  else none

/-- The declaration of local names. -/
def localDeclaration (target : Target) (names : List String) : String :=
  match language target with
  | .python => Text.join " = " names ++ " = None"
  | .csharp => "dynamic " ++ Text.join ", " (names.map fun n => n ++ " = null")
  | .javascript => "let " ++ Text.join ", " names

/-! ## Lines that open blocks -/

/-- The line that opens a conditional block. -/
def ifLine (target : Target) (condition : String) : String :=
  if (idiom target).braces then "if (" ++ condition ++ ") \x7b" else "if " ++ condition ++ ":"

/-- The line that goes on with another condition. -/
def elseIfLine (target : Target) (condition : String) : String :=
  if (idiom target).braces then "\x7d else if (" ++ condition ++ ") \x7b"
  else "elif " ++ condition ++ ":"

/-- The line that goes on without a condition. -/
def elseLine (target : Target) : String :=
  if (idiom target).braces then "\x7d else \x7b" else "else:"

/-- The line that opens a loop with a condition. -/
def whileLine (target : Target) (condition : String) : String :=
  if (idiom target).braces then "while (" ++ condition ++ ") \x7b"
  else "while " ++ condition ++ ":"

/-- The line that opens a loop over the elements of a collection. -/
def forEachLine (target : Target) (element collection : String) : String :=
  match language target with
  | .python => "for " ++ element ++ " in " ++ collection ++ ":"
  | .csharp => "foreach (var " ++ element ++ " in " ++ collection ++ ") \x7b"
  | .javascript => "for (const " ++ element ++ " of " ++ collection ++ ") \x7b"

/-- Whether the text of a step makes a loop count down. -/
def isDescending (step : Option String) : Bool :=
  match step with
  | none => false
  | some s => (Text.trimStart s.toList).head? == some '-'

/-- A whole number of 64 bits with blanks around it. -/
def readInt64? (s : String) : Option Int :=
  (Decimal.readInt? (Text.trim s.toList)).filter fun n =>
    -9223372036854775808 ≤ n ∧ n ≤ 9223372036854775807

/-- The bound of a range that leaves out its end: one step beyond the last number. -/
def exclusiveEnd (last : String) (descending : Bool) : String :=
  match readInt64? last with
  | some n => Decimal.intText (if descending then n - 1 else n + 1)
  | none => last ++ if descending then " - 1" else " + 1"

/-- The line that opens a loop which counts from one number to another, the last included. -/
def forLine (target : Target) (counter first last : String) (step : Option String) : String :=
  let descending := isDescending step
  match language target with
  | .python =>
    "for " ++ counter ++ " in range(" ++ first ++ ", " ++ exclusiveEnd last descending ++
      (match step with
        | some step => ", " ++ step
        | none => "") ++ "):"
  | language =>
    let declaration := if language = .csharp then "var" else "let"
    let comparison := if descending then ">=" else "<="
    let increment := match step with
      | some step => counter ++ " += " ++ step
      | none => counter ++ "++"
    "for (" ++ declaration ++ " " ++ counter ++ " = " ++ first ++ "; " ++ counter ++ " " ++
      comparison ++ " " ++ last ++ "; " ++ increment ++ ") \x7b"

end ScreenForms.Code
