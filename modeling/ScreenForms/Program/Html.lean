import ScreenForms.Code.Quoted
import ScreenForms.Program.Handler
import ScreenForms.Text.Indent

/-!
# HTML programs

A form becomes a page with one script. Controls are elements at fixed positions, nested as they are
in the document, and code becomes functions. An object of the script gives the elements by the
names of their controls.
-/

namespace ScreenForms.Html

open Code (quoted)

/-! ## Markup -/

/-- A character as it is written in markup. -/
def escapeChar (c : Char) : List Char :=
  match c with
  | '&' => "&amp;".toList
  | '<' => "&lt;".toList
  | '>' => "&gt;".toList
  | '"' => "&quot;".toList
  | '\'' => "&#x27;".toList
  | '/' => "&#x2f;".toList
  | c => [c]

/-- A text as it is written in markup. -/
def escape (text : String) : String := String.ofList (text.toList.flatMap escapeChar)

/-- An attribute with its value, behind a blank. -/
def attr (name value : String) : String :=
  " " ++ name ++ "=\"" ++ escape value ++ "\""

/-- An attribute without a value that is there or not, behind a blank. -/
def switch (name : String) (on : Bool) : String := if on then " " ++ name else ""

/-- A line of the page at a depth of nesting. -/
def line (depth : Nat) (text : String) : String := Text.spaces (2 * (depth + 2)) ++ text

/-! ## Style -/

/-- A rule of a style. -/
def rule (name value : String) : String := name ++ ":" ++ value ++ ";"

/-- A rule that may be absent. -/
def optionalRule {α : Type} (name : String) (value : α → String) : Option α → String
  | none => ""
  | some a => rule name (value a)

/-- The rules of a style. -/
def styleRules (s : Style) : String :=
  optionalRule "color" Color.hex s.foreColor ++
  optionalRule "background-color" Color.hex s.backColor ++
  optionalRule "font-family" (fun name => "'" ++ name ++ "'") s.fontName ++
  optionalRule "font-size" (fun size => Decimal.plainText size ++ "pt") s.fontSize ++
  (if s.fontBold then rule "font-weight" "bold" else "") ++
  if s.fontItalic then rule "font-style" "italic" else ""

/-- The rules for position and size. -/
def geometryRules (c : Control) : String :=
  let pixels (n : Int) : String := Decimal.intText n ++ "px"
  rule "left" (pixels c.x) ++ rule "top" (pixels c.y) ++ rule "width" (pixels c.width) ++
    rule "height" (pixels c.height)

/-- Position, size and style. -/
def look (c : Control) : String := geometryRules c ++ styleRules c.props.style

/-! ## Elements -/

/-- The id of the element of a control. -/
def elementId (c : Control) : String := identifier c.name

/-- The attributes that all elements have but those of options. -/
def attributes (c : Control) (elementClass style : String) : String :=
  attr "id" (elementId c) ++ attr "class" ("fb " ++ elementClass) ++
  attr "style" style ++
  (match c.props.extraText? ExtraKey.hotkey with
    | some key => attr "accesskey" key
    | none => "") ++
  switch "hidden" (!c.props.visible) ++ switch "disabled" (!c.props.enabled)

/-- The tag that opens an element. -/
def tag (name attributes : String) : String := "<" ++ name ++ attributes ++ ">"

/-- An element with its content. -/
def element (name attributes content : String) : String :=
  tag name attributes ++ content ++ "</" ++ name ++ ">"

/-- A checkbox or a radio button within its label. -/
def option (c : Control) (input : String) : String :=
  tag "label" (attr "class" "fb fb-option" ++ attr "style" (look c) ++
      switch "hidden" (!c.props.visible)) ++
    tag "input" (input ++ attr "id" (elementId c) ++
      switch "disabled" (!c.props.enabled)) ++
    " " ++ escape c.text ++ "</label>"

/-- An entry of a list. -/
def itemLine (depth : Nat) (c : Control) (item : String) : String :=
  line depth (element "option" (switch "selected" (item == c.text)) (escape item))

/-- The head of a column of a grid. -/
def columnLine (depth : Nat) (column : GridColumn) : String :=
  let width := match column.width with
    | some w => attr "style" ("width:" ++ Decimal.intText w ++ "px")
    | none => ""
  line depth (element "th" (attr "data-field" column.field ++ width)
    (escape column.header))

/-- The pages that name a page frame, in the order of the document. -/
def tabsOf (doc : Document) (frame : Control) : List Control :=
  doc.controls.filter fun page =>
    page.kind == .page && page.parent.isNone &&
      (page.props.extraText? ExtraKey.pageFrame).any fun name => Text.sameName name frame.name

/-- The button that shows a page. -/
def tabLine (depth : Nat) (page : Control) : String :=
  line depth (element "button"
    (attr "type" "button" ++ attr "data-page" (elementId page)) (escape page.text))

/-- The lines for a control; the elements of controls that hold others stay open. -/
def widget (doc : Document) (p : Placed) (rank : Nat) : List String :=
  let c := p.control
  let text := escape c.text
  let here := line p.depth
  let within (elementClass : String) : String := attributes c elementClass (look c)
  let number (x : Float) : String := Decimal.plainText x
  match c.kind with
  | .label => [here (element "label" (within "fb-label") text)]
  | .textbox =>
    [here (tag "input" (attr "type" "text" ++ within "fb-textbox" ++
      attr "value" c.text))]
  | .editbox => [here (element "textarea" (within "fb-editbox") text)]
  | .button =>
    [here (element "button" (attr "type" "button" ++ within "fb-button") text)]
  | .checkbox =>
    let checked := (c.props.extraNumber? ExtraKey.value).getD 0.0 != 0.0
    [here (option c (attr "type" "checkbox" ++ switch "checked" checked))]
  | .radio =>
    [here (option c (attr "type" "radio" ++ attr "name" p.radioGroup ++
      attr "value" (Decimal.intText (rank + 1))))]
  | .spinner =>
    let low := (c.props.extraNumber? ExtraKey.minimum).getD 0.0
    let high := (c.props.extraNumber? ExtraKey.maximum).getD 100.0
    let value := (c.props.extraNumber? ExtraKey.value).getD low
    [here (tag "input" (attr "type" "number" ++ within "fb-spinner" ++
      attr "min" (number low) ++ attr "max" (number high) ++
      attr "value" (number value)))]
  | .combobox =>
    here (tag "select" (within "fb-combobox")) ::
      c.props.items.map (itemLine (p.depth + 1) c) ++ [here "</select>"]
  | .grid =>
    [here (tag "table" (within "fb-grid")), line (p.depth + 1) "<thead><tr>"] ++
      c.props.columns.map (columnLine (p.depth + 2)) ++
      [line (p.depth + 1) "</tr></thead>", line (p.depth + 1) "<tbody></tbody>",
        here "</table>"]
  | .shape =>
    let frame := match c.props.extraText? ExtraKey.border with
      | some "double" => "fb-shape fb-double"
      | some "panel" => "fb-shape fb-raised"
      | _ => "fb-shape"
    [here (element "div" (within frame) "")]
  | .image =>
    let source := (c.props.extraText? ExtraKey.picture).getD ""
    [here (tag "img" (within "fb-image" ++ attr "src" source ++
      attr "alt" c.text))]
  | .container => [here (tag "div" (within "fb-container"))]
  | .pageframe =>
    [here (tag "div" (within "fb-pageframe")),
      line (p.depth + 1) "<div class=\"fb-tabbar\">"] ++
      (tabsOf doc c).map (tabLine (p.depth + 2)) ++ [line (p.depth + 1) "</div>"]
  | .page =>
    if p.isFramedPage then
      -- of the pages of a frame only the first is shown at the beginning
      [here (tag "div" (attributes c "fb-page" (styleRules c.props.style) ++
        switch "hidden" (rank != 0 && c.props.visible)))]
    else [here (tag "div" (within "fb-container"))]

/-- The lines for one step of the walk through the controls. -/
def visitLines (doc : Document) (step : Visit × Nat) : List String :=
  match step with
  | (.enter p, rank) => widget doc p rank
  | (.leave p, _) => [line p.depth "</div>"]

/-! ## Events -/

/-- The event for an event of a control, or of the form. -/
def event? (event : String) (kind : Option ControlKind) : Option String :=
  match event with
  | "InteractiveChange" =>
    some (match kind with
      | some .checkbox | some .radio | some .combobox => "change"
      | _ => "input")
  | "Click" => some "click"
  | "DblClick" => some "dblclick"
  | "RightClick" => some "contextmenu"
  | "GotFocus" | "When" => some "focus"
  | "LostFocus" | "Valid" => some "blur"
  | "KeyPress" => some "keydown"
  | "MouseEnter" => some "mouseenter"
  | "MouseLeave" => some "mouseleave"
  | "MouseDown" => some "mousedown"
  | "MouseUp" => some "mouseup"
  | "MouseMove" => some "mousemove"
  | "Resize" => if kind.isNone then some "resize" else none
  | _ => none

/-- What raises an event. It is the window that is resized, and not the form within it. -/
def eventTarget (h : Handler) : String :=
  match h.owner with
  | some c => "ui." ++ Code.memberName .html c.name
  | none => if h.event = "Resize" then "window" else "ui.form"

/-- The line that binds a handler to its event. -/
def binding (h : Handler) : String :=
  match event? h.event h.ownerKind? with
  | some event => eventTarget h ++ ".addEventListener(\"" ++ event ++ "\", " ++ h.name ++ ");"
  | none => "// No DOM event for " ++ h.event ++ "; " ++ h.name ++ " is not bound"

/-! ## Functions -/

/-- The lines of a function. -/
def function (name : String) (parameters : List String) (body : String) : List String :=
  ["function " ++ name ++ "(" ++ Text.join ", " parameters ++ ") \x7b"] ++
  (if Text.isBlankText body then [] else Text.indentLines 1 body) ++
  ["\x7d"]

/-- The lines of a free method of the form. -/
def freeMethod (m : FormMethod) : List String :=
  function (identifier m.name) (m.parameters.map identifier) m.body

/-! ## Programs -/

/-- The style sheet of all pages. -/
def styleSheet : List String :=
  ["  <style>",
    "    body \x7b font-family: Tahoma, Arial, sans-serif; font-size: 9pt; margin: 16px; background: #ece9d8; \x7d",
    "    .fb-form \x7b position: relative; overflow: hidden; background: #f0f0f0; border: 1px solid #7f7f7f; \x7d",
    "    .fb \x7b position: absolute; box-sizing: border-box; margin: 0; \x7d",
    "    .fb-option \x7b display: flex; align-items: center; gap: 4px; \x7d",
    "    .fb-shape, .fb-container \x7b border: 1px solid #7f7f7f; \x7d",
    "    .fb-double \x7b border: 3px double #7f7f7f; \x7d",
    "    .fb-raised \x7b border: 2px outset #d4d0c8; \x7d",
    "    .fb-grid \x7b border-collapse: collapse; background: #fff; overflow: auto; display: block; \x7d",
    "    .fb-grid th \x7b border: 1px solid #aaa; background: #e0e0e0; text-align: left; \x7d",
    "    .fb-tabbar \x7b position: absolute; left: 0; top: 0; right: 0; height: 24px; display: flex; \x7d",
    "    .fb-tabbar button \x7b font: inherit; \x7d",
    "    .fb-page \x7b left: 0; top: 24px; right: 0; bottom: 0; border: 1px solid #7f7f7f; \x7d",
    "    [hidden] \x7b display: none !important; \x7d",
    "  </style>"]

/-- The functions that translated code relies on. -/
def supportFunctions : List String :=
  ["",
    "function messageBox(text, flags = 0, title = \"\") \x7b",
    "  const message = (title ? String(title) + \"\\n\\n\" : \"\") + String(text);",
    "  switch (flags & 15) \x7b",
    "    case 1:",
    "      return window.confirm(message) ? 1 : 2;",
    "    case 3:",
    "    case 4:",
    "      return window.confirm(message) ? 6 : 7;",
    "    default:",
    "      window.alert(message);",
    "      return 1;",
    "  \x7d",
    "\x7d",
    "",
    "function showPage(frame, pageId) \x7b",
    "  for (const page of frame.querySelectorAll(\":scope > .fb-page\")) \x7b",
    "    page.hidden = page.id !== pageId;",
    "  \x7d",
    "\x7d",
    "",
    "for (const bar of document.querySelectorAll(\".fb-tabbar\")) \x7b",
    "  for (const tab of bar.querySelectorAll(\"button\")) \x7b",
    "    tab.addEventListener(\"click\", () => showPage(bar.parentElement, tab.dataset.page));",
    "  \x7d",
    "\x7d"]

/-- A member of the object that gives the elements. -/
def memberLine (name id : String) : String :=
  "  " ++ name ++ ": document.getElementById(" ++ quoted id ++ "),"

/-- The object that gives the elements. -/
def memberObject (doc : Document) : List String :=
  ["const ui = \x7b", memberLine "form" (identifier doc.window.name)] ++
  (doc.layout.map fun p => memberLine (Code.memberName .html p.control.name) (elementId p.control)) ++
  ["\x7d;"]

/-- Lines behind a blank line; nothing when there are none. -/
def spaced (lines : List String) : List String := if lines.isEmpty then [] else "" :: lines

/-- The script of a page. -/
def script (doc : Document) : List String :=
  let handlers := doc.handlers
  let functions := handlers.map (fun h => function h.name [] h.body) ++ doc.methods.map freeMethod
  let closing := lifecycleCalls .closing handlers
  memberObject doc ++ supportFunctions ++
  functions.flatMap spaced ++
  spaced ((handlers.filter Handler.isBound).map binding) ++
  (if closing.isEmpty then []
    else
      ["", "window.addEventListener(\"beforeunload\", () => \x7b"] ++
        closing.map (fun name => "  " ++ name ++ "();") ++ ["\x7d);"]) ++
  spaced ((lifecycleCalls .opening handlers).map fun name => name ++ "();")

/-- The element of the form, with everything in it. -/
def formLines (doc : Document) : List String :=
  let w := doc.window
  let size := "width:" ++ Decimal.intText w.width ++ "px;height:" ++ Decimal.intText w.height ++ "px"
  ["  " ++ tag "main" (attr "id" (identifier w.name) ++ attr "class" "fb-form" ++
    attr "style" size ++ attr "aria-label" w.caption)] ++
  doc.rankedVisits.flatMap (visitLines doc) ++
  ["  </main>"]

/-- The program of a form. -/
def program (doc : Document) : List String :=
  ["<!doctype html>", "<html lang=\"en\">", "<head>", "  <meta charset=\"utf-8\">",
    "  " ++ element "title" "" (escape doc.window.caption)] ++
  styleSheet ++
  ["</head>", "<body>"] ++
  formLines doc ++
  ["  <script>"] ++ Text.indentLines 0 (Text.unlines (script doc)) ++
  ["  </script>", "</body>", "</html>"]

end ScreenForms.Html
