import ScreenForms.Code.Quoted
import ScreenForms.Program.Caption
import ScreenForms.Program.Handler
import ScreenForms.Program.Python

/-!
# Tkinter programs

A form becomes a class around a root window, its controls become attributes of the class, and its
code becomes methods. Controls are placed at fixed positions within whatever holds them; only the
pages of a page frame are tabs of a notebook instead.
-/

namespace ScreenForms.Tkinter

open Code (quoted)

/-- The attribute of the window that a control becomes. -/
def member (c : Control) : String := "self." ++ Code.memberName .tkinter c.name

/-- The widget that holds a control. -/
def holder (p : Placed) : String := (p.holder.map member).getD "root"

/-! ## Style -/

/-- A font as a tuple of its family, its size and its flags. -/
def fontTuple (s : Style) : String :=
  let family := quoted (s.fontName.getD "TkDefaultFont")
  let size := (s.fontSize.map Decimal.plainText).getD "10"
  let flags := (if s.fontBold then ["bold"] else []) ++ if s.fontItalic then ["italic"] else []
  let parts := [family, size] ++ if flags.isEmpty then [] else [quoted (Text.join " " flags)]
  "(" ++ Text.join ", " parts ++ ")"

/-- The option for a color. -/
def colorOption (option : String) (color : Option Color) : List String :=
  match color with
  | some c => [option ++ "=\"" ++ c.hex ++ "\""]
  | none => []

/-- The options for a style. Controls without text have no foreground. -/
def styleOptions (s : Style) (foreground : Bool) : List String :=
  (if foreground then colorOption "fg" s.foreColor else []) ++
  colorOption "bg" s.backColor ++
  if foreground && (s.fontName.isSome || s.fontSize.isSome) then ["font=" ++ fontTuple s] else []

/-- Whether the widget of a control takes its style from a theme. -/
def isThemed (p : Placed) : Bool :=
  match p.kind with
  | .combobox | .grid | .pageframe => true
  | _ => p.isFramedPage

/-- Whether controls of a kind show text. -/
def hasForeground : ControlKind → Bool
  | .shape | .container | .page => false
  | _ => true

/-- Whether controls of a kind can be disabled. -/
def hasState : ControlKind → Bool
  | .label | .textbox | .editbox | .button | .checkbox | .radio | .spinner | .combobox => true
  | _ => false

/-! ## Widgets -/

/-- The option that underlines the hotkey. -/
def underline (c : Control) : String :=
  match Caption.hotkeyIndex? c.text (c.props.extraText? ExtraKey.hotkey) with
  | some i => ", underline=" ++ Decimal.intText i
  | none => ""

/-- Sets the text of a control with the given call, unless it is empty. -/
def setText (c : Control) (call : String) : List String :=
  if c.text.isEmpty then [] else [member c ++ call ++ quoted c.text ++ ")"]

/-- Binds a key of the window to a button when the button has the given flag. -/
def buttonKey (c : Control) (flag key : String) : List String :=
  if c.props.extraFlag flag then
    ["root.bind(\"<" ++ key ++ ">\", lambda event: " ++ member c ++ ".invoke())"]
  else []

/-- The identifiers of the columns of a grid. A column without a field gets its number. -/
def columnIds (c : Control) : List String :=
  (c.props.columns.zipIdx 1).map fun column =>
    quoted (if column.1.field.isEmpty then "column" ++ Decimal.intText column.2
      else column.1.field)

/-- A tuple; one of a single entry needs a comma. -/
def tuple (entries : List String) : String :=
  match entries with
  | [entry] => "(" ++ entry ++ ",)"
  | entries => "(" ++ Text.join ", " entries ++ ")"

/-- The heading and the width of one column of a grid. -/
def columnLines (me : String) (id : String) (column : GridColumn) : List String :=
  (me ++ ".heading(" ++ id ++ ", text=" ++ quoted column.header ++ ")") ::
    match column.width with
    | some width => [me ++ ".column(" ++ id ++ ", width=" ++ Decimal.intText width ++ ")"]
    | none => []

/-- The lines that load a picture; the path is shown when the file cannot be read. -/
def pictureLines (me path : String) : List String :=
  ["try:",
    "    " ++ me ++ ".image = tk.PhotoImage(file=" ++ path ++ ")",
    "    " ++ me ++ ".config(image=" ++ me ++ ".image)",
    "except tk.TclError:",
    "    " ++ me ++ ".config(text=" ++ path ++ ")"]

/-- The lines that create the widget of a control. -/
def create (p : Placed) (rank : Nat) : List String :=
  let c := p.control
  let me := member c
  let into := holder p
  let text := quoted c.text
  match c.kind with
  | .label => [me ++ " = tk.Label(" ++ into ++ ", text=" ++ text ++ ", anchor=\"w\"" ++
      underline c ++ ")"]
  | .textbox => (me ++ " = tk.Entry(" ++ into ++ ")") :: setText c ".insert(0, "
  | .editbox =>
    (me ++ " = tk.Text(" ++ into ++ ", wrap=\"word\")") :: setText c ".insert(\"1.0\", "
  | .button =>
    (me ++ " = tk.Button(" ++ into ++ ", text=" ++ text ++ underline c ++ ")") ::
      (buttonKey c ExtraKey.defaultButton "Return" ++ buttonKey c ExtraKey.cancelButton "Escape")
  | .checkbox =>
    let value := (c.props.extraNumber? ExtraKey.value).getD 0.0
    [me ++ "_var = tk.IntVar(value=" ++ Decimal.plainText value ++ ")",
      me ++ " = tk.Checkbutton(" ++ into ++ ", text=" ++ text ++ ", variable=" ++ me ++ "_var" ++
        underline c ++ ")",
      me ++ ".variable = " ++ me ++ "_var"]
  | .radio =>
    let shared := "self._group_" ++ p.radioGroup
    (if rank = 0 then [shared ++ " = tk.IntVar(value=0)"] else []) ++
    [me ++ " = tk.Radiobutton(" ++ into ++ ", text=" ++ text ++ ", variable=" ++ shared ++
        ", value=" ++ Decimal.intText (rank + 1) ++ underline c ++ ")",
      me ++ ".variable = " ++ shared]
  | .spinner =>
    let low := (c.props.extraNumber? ExtraKey.minimum).getD 0.0
    let high := (c.props.extraNumber? ExtraKey.maximum).getD 100.0
    (me ++ " = tk.Spinbox(" ++ into ++ ", from_=" ++ Decimal.plainText low ++ ", to=" ++
        Decimal.plainText high ++ ")") ::
      match c.props.extraNumber? ExtraKey.value with
      | some value =>
        [me ++ ".delete(0, \"end\")",
          me ++ ".insert(0, " ++ quoted (Decimal.plainText value) ++ ")"]
      | none => []
  | .combobox =>
    (me ++ " = ttk.Combobox(" ++ into ++ ", values=" ++
        Python.list (c.props.items.map quoted) ++ ")") :: setText c ".set("
  | .grid =>
    let ids := columnIds c
    (me ++ " = ttk.Treeview(" ++ into ++ ", columns=" ++ tuple ids ++ ", show=\"headings\")") ::
      (ids.zip c.props.columns).flatMap fun column => columnLines me column.1 column.2
  | .shape =>
    let relief := match c.props.extraText? ExtraKey.border with
      | some "double" => "ridge"
      | some "panel" => "raised"
      | _ => "solid"
    [me ++ " = tk.Frame(" ++ into ++ ", borderwidth=1, relief=\"" ++ relief ++ "\")"]
  | .image =>
    (me ++ " = tk.Label(" ++ into ++ ")") ::
      match c.props.extraText? ExtraKey.picture with
      | some picture => pictureLines me (quoted picture)
      | none => []
  | .container => [me ++ " = tk.Frame(" ++ into ++ ", borderwidth=1, relief=\"groove\")"]
  | .pageframe => [me ++ " = ttk.Notebook(" ++ into ++ ")"]
  | .page =>
    if p.isFramedPage then
      [me ++ " = ttk.Frame(" ++ into ++ ")", into ++ ".add(" ++ me ++ ", text=" ++ text ++ ")"]
    else [me ++ " = tk.Frame(" ++ into ++ ")"]

/-- The lines that place a widget. Pages are placed by their notebook. -/
def place (p : Placed) : List String :=
  let c := p.control
  if p.isFramedPage then []
  else
    [member c ++ ".place(x=" ++ Decimal.intText c.x ++ ", y=" ++ Decimal.intText c.y ++
      ", width=" ++ Decimal.intText c.width ++ ", height=" ++ Decimal.intText c.height ++ ")"]

/-- The lines for the style of a widget. -/
def style (p : Placed) : List String :=
  let options := styleOptions p.control.props.style (hasForeground p.kind)
  if isThemed p || options.isEmpty then []
  else [member p.control ++ ".config(" ++ Text.join ", " options ++ ")"]

/-- The lines that disable or hide a widget. -/
def state (p : Placed) : List String :=
  let c := p.control
  (if !c.props.enabled && hasState c.kind then [member c ++ ".config(state=\"disabled\")"]
    else []) ++
  if !c.props.visible && !p.isFramedPage then ["self._set_visible(" ++ member c ++ ", False)"]
  else []

/-- All lines for a control. -/
def widget (p : Placed) (rank : Nat) : List String :=
  create p rank ++ place p ++ style p ++ state p

/-! ## Events -/

/-- The event sequence for an event of a control, or of the form. -/
def sequence? (event : String) (kind : Option ControlKind) : Option String :=
  match event with
  | "InteractiveChange" =>
    match kind with
    | some .combobox => some "<<ComboboxSelected>>"
    | some .grid => some "<<TreeviewSelect>>"
    | _ => some "<KeyRelease>"
  | "ProgrammaticChange" => if kind = some .grid then some "<<TreeviewSelect>>" else none
  | "Click" => some "<Button-1>"
  | "DblClick" => some "<Double-Button-1>"
  | "RightClick" => some "<Button-3>"
  | "GotFocus" | "When" => some "<FocusIn>"
  | "LostFocus" | "Valid" => some "<FocusOut>"
  | "KeyPress" => some "<Key>"
  | "MouseEnter" => some "<Enter>"
  | "MouseLeave" => some "<Leave>"
  | "MouseDown" => some "<ButtonPress-1>"
  | "MouseUp" => some "<ButtonRelease-1>"
  | "MouseMove" => some "<Motion>"
  | "Resize" => some "<Configure>"
  | _ => none

/-- Whether controls of a kind call a command when they are clicked. -/
def hasCommand : ControlKind → Bool
  | .button | .checkbox | .radio => true
  | _ => false

/-- The line that binds a handler to its event. -/
def binding (h : Handler) : String :=
  let target := (h.owner.map member).getD "root"
  if h.event = "Click" ∧ h.ownerKind?.any hasCommand then
    target ++ ".config(command=self." ++ h.name ++ ")"
  else
    match sequence? h.event h.ownerKind? with
    | some sequence =>
      target ++ ".bind(\"" ++ sequence ++ "\", lambda event: self." ++ h.name ++ "())"
    | none => "# No Tkinter event for " ++ h.event ++ "; " ++ h.name ++ " is not bound"

/-! ## Programs -/

/-- Methods that translated code relies on. -/
def supportMethods : List String :=
  ["",
    "    def _get_value(self, widget):",
    "        variable = getattr(widget, \"variable\", None)",
    "        if variable is not None:",
    "            return variable.get()",
    "        if isinstance(widget, tk.Text):",
    "            return widget.get(\"1.0\", \"end-1c\")",
    "        if isinstance(widget, (tk.Entry, tk.Spinbox)):",
    "            return widget.get()",
    "        return widget.cget(\"text\")",
    "",
    "    def _set_value(self, widget, value):",
    "        variable = getattr(widget, \"variable\", None)",
    "        if variable is not None:",
    "            variable.set(value)",
    "        elif isinstance(widget, tk.Text):",
    "            widget.delete(\"1.0\", \"end\")",
    "            widget.insert(\"1.0\", str(value))",
    "        elif isinstance(widget, ttk.Combobox):",
    "            widget.set(str(value))",
    "        elif isinstance(widget, (tk.Entry, tk.Spinbox)):",
    "            widget.delete(0, \"end\")",
    "            widget.insert(0, str(value))",
    "        else:",
    "            widget.config(text=str(value))",
    "",
    "    def _set_visible(self, widget, visible):",
    "        if visible:",
    "            widget.place(**getattr(widget, \"_placement\", \x7b\x7d))",
    "        elif widget.winfo_manager() == \"place\":",
    "            widget._placement = widget.place_info()",
    "            widget.place_forget()",
    "",
    "    def _message_box(self, text, flags=0, title=\"\"):",
    "        text, title, buttons = str(text), str(title), flags & 15",
    "        if buttons == 4:",
    "            return 6 if messagebox.askyesno(title, text) else 7",
    "        if buttons == 3:",
    "            answer = messagebox.askyesnocancel(title, text)",
    "            return 2 if answer is None else (6 if answer else 7)",
    "        if buttons == 1:",
    "            return 1 if messagebox.askokcancel(title, text) else 2",
    "        if flags & 48 == 48:",
    "            messagebox.showwarning(title, text)",
    "        elif flags & 16:",
    "            messagebox.showerror(title, text)",
    "        else:",
    "            messagebox.showinfo(title, text)",
    "        return 1"]

/-- The first lines of the constructor: title, place and frame of the window. -/
def windowLines (w : Window) : List String :=
  ["        self.root = root",
    "        root.title(" ++ quoted w.caption ++ ")",
    "        root.geometry(\"" ++ Decimal.intText w.width ++ "x" ++ Decimal.intText w.height ++
      "+" ++ Decimal.intText w.x ++ "+" ++ Decimal.intText w.y ++ "\")"] ++
  (if w.maximizable then [] else ["        root.resizable(False, False)"]) ++
  ["        root.protocol(\"WM_DELETE_WINDOW\", " ++
    (if w.closable then "self._on_close" else "lambda: None") ++ ")"]

/-- The program of a form. -/
def program (doc : Document) : List String :=
  let className := identifier doc.window.name
  let handlers := doc.handlers
  let opening := Python.calls (lifecycleCalls .opening handlers)
  Python.heading className ++
  ["import tkinter as tk", "from tkinter import messagebox, ttk", "", "",
    "class " ++ className ++ ":", "    def __init__(self, root):"] ++
  windowLines doc.window ++
  Python.statements (doc.rankedLayout.flatMap fun p => widget p.1 p.2) ++
  Python.statements ((handlers.filter Handler.isBound).map binding) ++
  (if opening.isEmpty then [] else "" :: opening) ++
  ["", "    def _on_close(self):"] ++ Python.calls (lifecycleCalls .closing handlers) ++
  ["        self.root.destroy()"] ++
  supportMethods ++
  Python.spaced (handlers.map fun h => Python.method h.name [] h.body) ++
  Python.spaced (doc.methods.map Python.freeMethod) ++
  Python.entryPoint ["root = tk.Tk()", className ++ "(root)", "root.mainloop()"]

end ScreenForms.Tkinter
