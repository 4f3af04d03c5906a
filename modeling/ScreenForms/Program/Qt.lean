import ScreenForms.Code.Quoted
import ScreenForms.Program.Caption
import ScreenForms.Program.Handler
import ScreenForms.Program.Python

/-!
# Qt programs

A form becomes a widget class, its controls become child widgets at fixed positions, and its code
becomes methods. Events are connected to signals where the widget has one; other events are caught
by an event filter.
-/

namespace ScreenForms.Qt

open Code (quoted)

/-- The attribute of the window that a control becomes. -/
def member (c : Control) : String := "self." ++ Code.memberName .qt c.name

/-- The widget that holds a control. -/
def holder (p : Placed) : String := (p.holder.map member).getD "self"

/-- The literal of a caption with its hotkey marked. -/
def caption (c : Control) : String :=
  quoted (Caption.mnemonic c.text (c.props.extraText? ExtraKey.hotkey))

/-! ## Style -/

/-- A rule that may be absent. -/
def rule {α : Type} (name : String) (value : α → String) : Option α → List String
  | none => []
  | some a => [name ++ ": " ++ value a]

/-- The rules of a style. -/
def styleRules (s : Style) : List String :=
  rule "color" Color.hex s.foreColor ++
  rule "background-color" Color.hex s.backColor ++
  rule "font-family" (fun name => "'" ++ name ++ "'") s.fontName ++
  rule "font-size" (fun size => Decimal.plainText size ++ "pt") s.fontSize ++
  (if s.fontBold then ["font-weight: bold"] else []) ++
  if s.fontItalic then ["font-style: italic"] else []

/-! ## Widgets -/

/-- A call of a method of the widget of a control. -/
def call (c : Control) (method : String) (args : List String) : String :=
  member c ++ "." ++ method ++ "(" ++ Text.join ", " args ++ ")"

/-- The line that creates the widget of a control. -/
def creation (c : Control) (widgetClass : String) (args : List String) : String :=
  member c ++ " = " ++ widgetClass ++ "(" ++ Text.join ", " args ++ ")"

/-- A number as a whole number. -/
def wholeText (x : Float) : String := Decimal.intText (Decimal.nearest64 x)

/-- The header and the width of one column of a grid, which is counted from zero. -/
def columnLines (c : Control) (column : GridColumn) (index : Nat) : List String :=
  let place := Decimal.intText index
  call c "setHorizontalHeaderItem" [place, "QTableWidgetItem(" ++ quoted column.header ++ ")"] ::
    match column.width with
    | some width => [call c "setColumnWidth" [place, Decimal.intText width]]
    | none => []

/-- The lines that create the widget of a control. -/
def create (p : Placed) (rank : Nat) : List String :=
  let c := p.control
  let into := holder p
  let text := quoted c.text
  match c.kind with
  | .label => [creation c "QLabel" [caption c, into]]
  | .textbox => [creation c "QLineEdit" [text, into]]
  | .editbox => [creation c "QPlainTextEdit" [text, into]]
  | .button =>
    creation c "QPushButton" [caption c, into] ::
      ((if c.props.extraFlag ExtraKey.defaultButton then [call c "setDefault" ["True"]]
        else []) ++
      if c.props.extraFlag ExtraKey.cancelButton then
        ["QShortcut(QKeySequence(Qt.Key.Key_Escape), self, " ++ member c ++ ".click)"]
      else [])
  | .checkbox =>
    creation c "QCheckBox" [caption c, into] ::
      if (c.props.extraNumber? ExtraKey.value).getD 0.0 != 0.0 then
        [call c "setChecked" ["True"]]
      else []
  | .radio =>
    let group := "self._group_" ++ p.radioGroup
    (if rank = 0 then [group ++ " = QButtonGroup(self)"] else []) ++
    [creation c "QRadioButton" [caption c, into], group ++ ".addButton(" ++ member c ++ ")"]
  | .spinner =>
    let low := (c.props.extraNumber? ExtraKey.minimum).getD 0.0
    let high := (c.props.extraNumber? ExtraKey.maximum).getD 100.0
    [creation c "QSpinBox" [into], call c "setRange" [wholeText low, wholeText high]] ++
      match c.props.extraNumber? ExtraKey.value with
      | some value => [call c "setValue" [wholeText value]]
      | none => []
  | .combobox =>
    creation c "QComboBox" [into] ::
      ((if c.props.items.isEmpty then []
        else [call c "addItems" [Python.list (c.props.items.map quoted)]]) ++
      if c.text.isEmpty then [] else [call c "setCurrentText" [text]])
  | .grid =>
    creation c "QTableWidget" ["0", Decimal.intText c.props.columns.length, into] ::
      c.props.columns.zipIdx.flatMap fun column => columnLines c column.1 column.2
  | .shape =>
    let shadow := match c.props.extraText? ExtraKey.border with
      | some "panel" => "Raised"
      | some "double" => "Sunken"
      | _ => "Plain"
    [creation c "QFrame" [into], call c "setFrameShape" ["QFrame.Shape.Box"],
      call c "setFrameShadow" ["QFrame.Shadow." ++ shadow]]
  | .image =>
    creation c "QLabel" [into] ::
      match c.props.extraText? ExtraKey.picture with
      | some picture =>
        [call c "setPixmap" ["QPixmap(" ++ quoted picture ++ ")"],
          call c "setScaledContents" ["True"]]
      | none => []
  | .container =>
    [creation c "QFrame" [into], call c "setFrameShape" ["QFrame.Shape.StyledPanel"]]
  | .pageframe => [creation c "QTabWidget" [into]]
  | .page =>
    if p.isFramedPage then
      [creation c "QWidget" [], into ++ ".addTab(" ++ member c ++ ", " ++ text ++ ")"]
    else [creation c "QWidget" [into]]

/-- The lines that place a widget. Pages are placed by their tab widget. -/
def place (p : Placed) : List String :=
  let c := p.control
  if p.isFramedPage then []
  else [call c "setGeometry" ([c.x, c.y, c.width, c.height].map Decimal.intText)]

/-- The lines for the style of a widget. -/
def style (c : Control) : List String :=
  let rules := styleRules c.props.style
  if rules.isEmpty then [] else [call c "setStyleSheet" [quoted (Text.join "; " rules)]]

/-- The lines that disable or hide a widget. -/
def state (p : Placed) : List String :=
  let c := p.control
  (if c.props.enabled then [] else [call c "setEnabled" ["False"]]) ++
  if !c.props.visible && !p.isFramedPage then [call c "setVisible" ["False"]] else []

/-- All lines for a control. -/
def widget (p : Placed) (rank : Nat) : List String :=
  create p rank ++ place p ++ style p.control ++ state p

/-! ## Events -/

/-- The signal for an event of a control of a kind. -/
def signal? (event : String) (kind : ControlKind) : Option String :=
  match event, kind with
  | "Click", .button | "Click", .checkbox | "Click", .radio => some "clicked"
  | "Click", .pageframe => some "tabBarClicked"
  | "DblClick", .grid => some "cellDoubleClicked"
  | "AfterRowColChange", .grid => some "currentCellChanged"
  | "InteractiveChange", .textbox => some "textEdited"
  | "InteractiveChange", .editbox => some "textChanged"
  | "InteractiveChange", .checkbox => some "stateChanged"
  | "InteractiveChange", .radio => some "toggled"
  | "InteractiveChange", .spinner => some "valueChanged"
  | "InteractiveChange", .combobox => some "currentIndexChanged"
  | "InteractiveChange", .grid => some "currentCellChanged"
  | _, _ => none

/-- The type of event that a filter catches. -/
def eventType? (event : String) : Option String :=
  match event with
  | "Click" => some "MouseButtonRelease"
  | "DblClick" => some "MouseButtonDblClick"
  | "GotFocus" | "When" => some "FocusIn"
  | "LostFocus" | "Valid" => some "FocusOut"
  | "KeyPress" => some "KeyPress"
  | "MouseEnter" => some "Enter"
  | "MouseLeave" => some "Leave"
  | "MouseDown" => some "MouseButtonPress"
  | "MouseUp" => some "MouseButtonRelease"
  | "MouseMove" => some "MouseMove"
  | "Resize" => some "Resize"
  | "RightClick" => some "ContextMenu"
  | _ => none

/-- The line that binds a handler to its event. -/
def binding (h : Handler) : String :=
  let target := (h.owner.map member).getD "self"
  match h.ownerKind?.bind (signal? h.event) with
  | some signal => target ++ "." ++ signal ++ ".connect(lambda *args: self." ++ h.name ++ "())"
  | none =>
    match eventType? h.event with
    | some type =>
      "_EventHook(" ++ target ++ ", QEvent.Type." ++ type ++ ", self." ++ h.name ++ ")"
    | none => "# No Qt event for " ++ h.event ++ "; " ++ h.name ++ " is not bound"

/-! ## Programs -/

/-- The modules that programs use. -/
def imports : List String :=
  ["import sys",
    "",
    "from PySide6.QtCore import QEvent, QObject, Qt",
    "from PySide6.QtGui import QKeySequence, QPixmap, QShortcut",
    "from PySide6.QtWidgets import (",
    "    QApplication,",
    "    QButtonGroup,",
    "    QCheckBox,",
    "    QComboBox,",
    "    QFrame,",
    "    QLabel,",
    "    QLineEdit,",
    "    QMessageBox,",
    "    QPlainTextEdit,",
    "    QPushButton,",
    "    QRadioButton,",
    "    QSpinBox,",
    "    QTableWidget,",
    "    QTableWidgetItem,",
    "    QTabWidget,",
    "    QWidget,",
    ")"]

/-- The event filter that calls a handler. -/
def eventHook : List String :=
  ["",
    "",
    "class _EventHook(QObject):",
    "    def __init__(self, widget, kind, callback):",
    "        super().__init__(widget)",
    "        self._kind = kind",
    "        self._callback = callback",
    "        widget.installEventFilter(self)",
    "",
    "    def eventFilter(self, watched, event):",
    "        if event.type() == self._kind:",
    "            self._callback()",
    "        return False"]

/-- Methods that translated code relies on. -/
def supportMethods : List String :=
  ["",
    "    def _get_value(self, widget):",
    "        if isinstance(widget, (QCheckBox, QRadioButton)):",
    "            return 1 if widget.isChecked() else 0",
    "        if isinstance(widget, QSpinBox):",
    "            return widget.value()",
    "        if isinstance(widget, QComboBox):",
    "            return widget.currentText()",
    "        if isinstance(widget, QPlainTextEdit):",
    "            return widget.toPlainText()",
    "        return widget.text()",
    "",
    "    def _set_value(self, widget, value):",
    "        if isinstance(widget, (QCheckBox, QRadioButton)):",
    "            widget.setChecked(bool(value))",
    "        elif isinstance(widget, QSpinBox):",
    "            widget.setValue(int(value))",
    "        elif isinstance(widget, QComboBox):",
    "            widget.setCurrentText(str(value))",
    "        elif isinstance(widget, QPlainTextEdit):",
    "            widget.setPlainText(str(value))",
    "        else:",
    "            widget.setText(str(value))",
    "",
    "    def _set_color(self, widget, rule, value):",
    "        widget.setStyleSheet(widget.styleSheet() + f\"; \x7brule\x7d: \x7bvalue\x7d\")",
    "",
    "    def _message_box(self, text, flags=0, title=\"\"):",
    "        box = QMessageBox(self)",
    "        box.setWindowTitle(str(title))",
    "        box.setText(str(text))",
    "        if flags & 48 == 48:",
    "            box.setIcon(QMessageBox.Icon.Warning)",
    "        elif flags & 16:",
    "            box.setIcon(QMessageBox.Icon.Critical)",
    "        elif flags & 32:",
    "            box.setIcon(QMessageBox.Icon.Question)",
    "        elif flags & 64:",
    "            box.setIcon(QMessageBox.Icon.Information)",
    "        buttons = \x7b",
    "            1: [(QMessageBox.StandardButton.Ok, 1), (QMessageBox.StandardButton.Cancel, 2)],",
    "            3: [",
    "                (QMessageBox.StandardButton.Yes, 6),",
    "                (QMessageBox.StandardButton.No, 7),",
    "                (QMessageBox.StandardButton.Cancel, 2),",
    "            ],",
    "            4: [(QMessageBox.StandardButton.Yes, 6), (QMessageBox.StandardButton.No, 7)],",
    "        \x7d.get(flags & 15, [(QMessageBox.StandardButton.Ok, 1)])",
    "        standard = QMessageBox.StandardButton.NoButton",
    "        for button, _ in buttons:",
    "            standard |= button",
    "        box.setStandardButtons(standard)",
    "        clicked = box.exec()",
    "        for button, code in buttons:",
    "            if clicked == button:",
    "                return code",
    "        return buttons[-1][1]"]

/-- A line that sets a flag of the window. -/
def windowFlag (flag : String) (set : Bool) : String :=
  "        self.setWindowFlag(Qt.WindowType." ++ flag ++ ", " ++
    (if set then "True" else "False") ++ ")"

/-- The buttons in the frame of the window. They are set only when one of them is missing. -/
def frameLines (w : Window) : List String :=
  if w.minimizable && w.maximizable && w.closable then []
  else
    [windowFlag "CustomizeWindowHint" true, windowFlag "WindowTitleHint" true,
      windowFlag "WindowMinimizeButtonHint" w.minimizable,
      windowFlag "WindowMaximizeButtonHint" w.maximizable,
      windowFlag "WindowCloseButtonHint" w.closable]

/-- The first lines of the constructor: title, place and frame of the window. -/
def windowLines (w : Window) : List String :=
  ["        super().__init__()",
    "        self.setWindowTitle(" ++ quoted w.caption ++ ")",
    "        self.setGeometry(" ++
      Text.join ", " ([w.x, w.y, w.width, w.height].map Decimal.intText) ++ ")"] ++
  frameLines w ++
  if w.maximizable then []
  else
    ["        self.setFixedSize(" ++ Decimal.intText w.width ++ ", " ++
      Decimal.intText w.height ++ ")"]

/-- The program of a form. -/
def program (doc : Document) : List String :=
  let className := identifier doc.window.name
  let handlers := doc.handlers
  let opening := Python.calls (lifecycleCalls .opening handlers)
  Python.heading className ++ imports ++ eventHook ++
  ["", "", "class " ++ className ++ "(QWidget):", "    def __init__(self):"] ++
  windowLines doc.window ++
  Python.statements (doc.rankedLayout.flatMap fun p => widget p.1 p.2) ++
  Python.statements ((handlers.filter Handler.isBound).map binding) ++
  (if opening.isEmpty then [] else "" :: opening) ++
  ["", "    def closeEvent(self, event):"] ++ Python.calls (lifecycleCalls .closing handlers) ++
  ["        event.accept()"] ++
  supportMethods ++
  Python.spaced (handlers.map fun h => Python.method h.name [] h.body) ++
  Python.spaced (doc.methods.map Python.freeMethod) ++
  Python.entryPoint
    ["app = QApplication(sys.argv)", "window = " ++ className ++ "()", "window.show()",
      "sys.exit(app.exec())"]

end ScreenForms.Qt
