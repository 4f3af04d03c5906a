import ScreenForms.Code.Quoted
import ScreenForms.Program.Caption
import ScreenForms.Program.Handler
import ScreenForms.Text.Indent

/-!
# WinForms programs

A form becomes a class derived from the window class, its controls become private fields that one
method sets up, and its code becomes private methods.
-/

namespace ScreenForms.Winforms

open Code (quoted)

/-- The field that a control becomes. -/
def field (c : Control) : String := Code.memberName .winforms c.name

/-- The field of a control as a member of the window. -/
def member (c : Control) : String := "this." ++ field c

/-- The object that holds a control. -/
def holder (p : Placed) : String := (p.holder.map member).getD "this"

/-- The literal of a caption with its hotkey marked. -/
def caption (c : Control) : String :=
  quoted (Caption.mnemonic c.text (c.props.extraText? ExtraKey.hotkey))

/-! ## Style -/

/-- The expression for a color. -/
def color (c : Color) : String :=
  "Color.FromArgb(" ++
    Text.join ", " ([c.red, c.green, c.blue].map fun part => Decimal.intText part.toNat) ++ ")"

/-- The expression for a font, when the style says anything about it. -/
def font? (s : Style) : Option String :=
  if s.fontName.isNone && s.fontSize.isNone && !s.fontBold && !s.fontItalic then none
  else
    let family := quoted (s.fontName.getD "Microsoft Sans Serif")
    let size := (s.fontSize.map Decimal.plainText).getD "8.25"
    let flags := (if s.fontBold then ["FontStyle.Bold"] else []) ++
      if s.fontItalic then ["FontStyle.Italic"] else []
    let flags := if flags.isEmpty then ["FontStyle.Regular"] else flags
    some ("new Font(" ++ family ++ ", " ++ size ++ "F, " ++ Text.join " | " flags ++ ")")

/-! ## Controls -/

/-- The class of a control. -/
def controlClass (p : Placed) : String :=
  match p.kind with
  | .label => "Label"
  | .textbox | .editbox => "TextBox"
  | .button => "Button"
  | .checkbox => "CheckBox"
  | .radio => "RadioButton"
  | .spinner => "NumericUpDown"
  | .combobox => "ComboBox"
  | .grid => "DataGridView"
  | .shape | .container => "Panel"
  | .image => "PictureBox"
  | .pageframe => "TabControl"
  | .page => if p.isFramedPage then "TabPage" else "Panel"

/-- The declaration of the field of a control. -/
def declaration (p : Placed) : String :=
  "private " ++ controlClass p ++ " " ++ field p.control ++ ";"

/-- An assignment to a property of a control. -/
def set (c : Control) (property value : String) : String :=
  member c ++ "." ++ property ++ " = " ++ value ++ ";"

/-- Makes a button the one that a key of the window presses, when it has the given flag. -/
def windowButton (c : Control) (flag property : String) : List String :=
  if c.props.extraFlag flag then ["this." ++ property ++ " = " ++ member c ++ ";"] else []

/-- A decimal literal. -/
def decimalLiteral (x : Float) : String := Decimal.plainText x ++ "M"

/-- The lines for one column of a grid, which is counted from zero. A column without a field gets
its number as its key. -/
def columnLines (c : Control) (column : GridColumn) (index : Nat) : List String :=
  let key :=
    if column.field.isEmpty then "column" ++ Decimal.intText (index + 1) else column.field
  let columnProperty (property : String) := "Columns[" ++ Decimal.intText index ++ "]." ++ property
  [member c ++ ".Columns.Add(" ++ quoted key ++ ", " ++ quoted column.header ++ ");"] ++
  (match column.width with
    | some width => [set c (columnProperty "Width") (Decimal.intText width)]
    | none => []) ++
  if column.readOnly then [set c (columnProperty "ReadOnly") "true"] else []

/-- The lines for what is particular to the kind of a control. -/
def kindLines (p : Placed) : List String :=
  let c := p.control
  let text := quoted c.text
  match c.kind with
  | .label | .radio => [set c "Text" (caption c)]
  | .textbox => [set c "Text" text]
  | .editbox =>
    [set c "Multiline" "true", set c "ScrollBars" "ScrollBars.Vertical", set c "Text" text]
  | .button =>
    set c "Text" (caption c) ::
      (windowButton c ExtraKey.defaultButton "AcceptButton" ++
        windowButton c ExtraKey.cancelButton "CancelButton")
  | .checkbox =>
    set c "Text" (caption c) ::
      if (c.props.extraNumber? ExtraKey.value).getD 0.0 != 0.0 then [set c "Checked" "true"]
      else []
  | .spinner =>
    let low := (c.props.extraNumber? ExtraKey.minimum).getD 0.0
    let high := (c.props.extraNumber? ExtraKey.maximum).getD 100.0
    [set c "Minimum" (decimalLiteral low), set c "Maximum" (decimalLiteral high)] ++
      match c.props.extraNumber? ExtraKey.value with
      | some value =>
        [set c "Value" (decimalLiteral (Decimal.floatMin (Decimal.floatMax value low) high))]
      | none => []
  | .combobox =>
    (if c.props.items.isEmpty then []
      else
        [member c ++ ".Items.AddRange(new object[] \x7b " ++
          Text.join ", " (c.props.items.map quoted) ++ " \x7d);"]) ++
    if c.text.isEmpty then [] else [set c "Text" text]
  | .grid =>
    set c "AllowUserToAddRows" "false" ::
      c.props.columns.zipIdx.flatMap fun column => columnLines c column.1 column.2
  | .shape =>
    let border := match c.props.extraText? ExtraKey.border with
      | some "double" | some "panel" => "Fixed3D"
      | _ => "FixedSingle"
    [set c "BorderStyle" ("BorderStyle." ++ border)]
  | .image =>
    set c "SizeMode" "PictureBoxSizeMode.StretchImage" ::
      match c.props.extraText? ExtraKey.picture with
      | some picture => [set c "ImageLocation" (quoted picture)]
      | none => []
  | .container => [set c "BorderStyle" "BorderStyle.FixedSingle"]
  | .pageframe => []
  | .page => if p.isFramedPage then [set c "Text" text] else []

/-- The lines that place a control. Pages are placed by their frame. -/
def place (p : Placed) : List String :=
  let c := p.control
  let pair (a b : Int) : String := "(" ++ Decimal.intText a ++ ", " ++ Decimal.intText b ++ ")"
  if p.isFramedPage then []
  else
    [set c "Location" ("new Point" ++ pair c.x c.y),
      set c "Size" ("new Size" ++ pair c.width c.height)]

/-- A line for a property that may be absent. -/
def setOptional (c : Control) (property : String) (value : Option String) : List String :=
  match value with
  | some v => [set c property v]
  | none => []

/-- The lines for the style of a control. -/
def style (c : Control) : List String :=
  setOptional c "ForeColor" (c.props.style.foreColor.map color) ++
  setOptional c "BackColor" (c.props.style.backColor.map color) ++
  setOptional c "Font" (font? c.props.style)

/-- The lines that disable or hide a control. -/
def state (c : Control) : List String :=
  (if c.props.enabled then [] else [set c "Enabled" "false"]) ++
  if c.props.visible then [] else [set c "Visible" "false"]

/-- All lines that set a control up. -/
def widget (p : Placed) : List String :=
  let c := p.control
  [member c ++ " = new " ++ controlClass p ++ "();"] ++
  kindLines p ++
  [set c "Name" (quoted c.name)] ++
  place p ++ style c ++ state c ++
  [holder p ++ (if p.isFramedPage then ".TabPages" else ".Controls") ++ ".Add(" ++ member c ++ ");"]

/-! ## Events -/

/-- The event for an event of a control, or of the form. -/
def event? (event : String) (kind : Option ControlKind) : Option String :=
  match event with
  | "InteractiveChange" =>
    some (match kind with
      | some .checkbox | some .radio => "CheckedChanged"
      | some .spinner => "ValueChanged"
      | some .combobox | some .pageframe => "SelectedIndexChanged"
      | some .grid => "CurrentCellChanged"
      | _ => "TextChanged")
  | "AfterRowColChange" => if kind = some .grid then some "CurrentCellChanged" else none
  | "Click" => some "Click"
  | "DblClick" => some "DoubleClick"
  | "GotFocus" | "When" => some "Enter"
  | "LostFocus" | "Valid" => some "Leave"
  | "KeyPress" => some "KeyPress"
  | "MouseEnter" => some "MouseEnter"
  | "MouseLeave" => some "MouseLeave"
  | "MouseDown" => some "MouseDown"
  | "MouseUp" => some "MouseUp"
  | "MouseMove" => some "MouseMove"
  | "Resize" => some "Resize"
  | _ => none

/-- The line that binds a handler to its event. -/
def binding (h : Handler) : String :=
  match event? h.event h.ownerKind? with
  | some event =>
    (h.owner.map member).getD "this" ++ "." ++ event ++ " += (sender, e) => " ++ h.name ++ "();"
  | none => "// No WinForms event for " ++ h.event ++ "; " ++ h.name ++ " is not bound"

/-! ## Methods -/

/-- The lines of a method. -/
def method (signature body : String) : List String :=
  ["        " ++ signature, "        \x7b"] ++
  (if Text.isBlankText body then [] else Text.indentLines 3 body) ++
  ["        \x7d"]

/-- Whether a body returns a value somewhere. -/
def returnsValue (body : String) : Bool :=
  (Text.lines body.toList).any fun line =>
    (Text.dropLead? "return ".toList (Text.trim line)).isSome

/-- The lines of a free method of the form. One that returns a value somewhere returns one at its
end too. -/
def freeMethod (m : FormMethod) : List String :=
  let parameters := Text.join ", " (m.parameters.map fun p => "dynamic " ++ identifier p)
  let signature (result : String) :=
    "private " ++ result ++ " " ++ identifier m.name ++ "(" ++ parameters ++ ")"
  if returnsValue m.body then method (signature "dynamic") (m.body ++ "\nreturn null;")
  else method (signature "void") m.body

/-! ## Programs -/

/-- The method that translated code relies on. -/
def supportMethods : List String :=
  ["",
    "        private static int LegacyMessageBox(object text, int flags = 0, object title = null)",
    "        \x7b",
    "            MessageBoxButtons buttons;",
    "            switch (flags & 15)",
    "            \x7b",
    "                case 1: buttons = MessageBoxButtons.OKCancel; break;",
    "                case 3: buttons = MessageBoxButtons.YesNoCancel; break;",
    "                case 4: buttons = MessageBoxButtons.YesNo; break;",
    "                default: buttons = MessageBoxButtons.OK; break;",
    "            \x7d",
    "            MessageBoxIcon icon = MessageBoxIcon.None;",
    "            if ((flags & 48) == 48) icon = MessageBoxIcon.Warning;",
    "            else if ((flags & 16) != 0) icon = MessageBoxIcon.Error;",
    "            else if ((flags & 32) != 0) icon = MessageBoxIcon.Question;",
    "            else if ((flags & 64) != 0) icon = MessageBoxIcon.Information;",
    "            switch (MessageBox.Show(Convert.ToString(text), Convert.ToString(title), buttons, icon))",
    "            \x7b",
    "                case DialogResult.Cancel: return 2;",
    "                case DialogResult.Yes: return 6;",
    "                case DialogResult.No: return 7;",
    "                default: return 1;",
    "            \x7d",
    "        \x7d"]

/-- The lines that set up the window. -/
def windowLines (w : Window) : List String :=
  ["this.Text = " ++ quoted w.caption ++ ";",
    "this.StartPosition = FormStartPosition.Manual;",
    "this.Location = new Point(" ++ Decimal.intText w.x ++ ", " ++ Decimal.intText w.y ++ ");",
    "this.ClientSize = new Size(" ++ Decimal.intText w.width ++ ", " ++
      Decimal.intText w.height ++ ");"] ++
  (if w.minimizable then [] else ["this.MinimizeBox = false;"]) ++
  (if w.maximizable then []
    else
      ["this.MaximizeBox = false;", "this.FormBorderStyle = FormBorderStyle.FixedSingle;"]) ++
  if w.closable then [] else ["this.ControlBox = false;"]

/-- Calls of methods, so many spaces from the margin. -/
def calls (margin : Nat) (names : List String) : List String :=
  names.map fun name => Text.spaces margin ++ name ++ "();"

/-- The constructor. -/
def constructorLines (className : String) (handlers : List Handler) : List String :=
  let closing := lifecycleCalls .closing handlers
  ["        public " ++ className ++ "()", "        \x7b", "            InitializeComponent();"] ++
  calls 12 (lifecycleCalls .opening handlers) ++
  (if closing.isEmpty then []
    else
      ["            this.FormClosed += (sender, e) =>", "            \x7b"] ++
        calls 16 closing ++ ["            \x7d;"]) ++
  ["        \x7d", ""]

/-- The method that sets up the window and its controls. -/
def initialization (doc : Document) : List String :=
  let controls := doc.layout.map fun p => Text.join "\n" (widget p)
  let bindings := (doc.handlers.filter Handler.isBound).map binding
  let sections := Text.join "\n" (windowLines doc.window) :: controls ++
    if bindings.isEmpty then [] else [Text.join "\n" bindings]
  method "private void InitializeComponent()" (Text.join "\n\n" sections)

/-- The method that runs a program. -/
def entryPoint (className : String) : List String :=
  ["",
    "        [STAThread]",
    "        public static void Main()",
    "        \x7b",
    "            Application.EnableVisualStyles();",
    "            Application.Run(new " ++ className ++ "());",
    "        \x7d"]

/-- The program of a form. -/
def program (doc : Document) : List String :=
  let className := identifier doc.window.name
  let handlers := doc.handlers
  let fields := doc.layout.map fun p => "        " ++ declaration p
  let methods := handlers.map (fun h => method ("private void " ++ h.name ++ "()") h.body) ++
    doc.methods.map freeMethod
  ["// " ++ className ++ ": generated by formbridge.",
    "using System;", "using System.Drawing;", "using System.Windows.Forms;", "",
    "namespace Formbridge.Generated", "\x7b",
    "    public class " ++ className ++ " : Form", "    \x7b"] ++
  fields ++ (if fields.isEmpty then [] else [""]) ++
  constructorLines className handlers ++
  initialization doc ++
  methods.flatMap (fun lines => "" :: lines) ++
  supportMethods ++ entryPoint className ++
  ["    \x7d", "\x7d"]

end ScreenForms.Winforms
