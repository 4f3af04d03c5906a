import ScreenForms.Screen.Canvas
import ScreenForms.Screen.Caption

/-!
# Painting

A painting command gives a position and then says what is painted there: a text or an image, a
field to fill in, a text to edit, or a box. What kind of field a `GET` paints follows from its
picture clause and its other clauses, and groups of buttons become one control for each caption.
-/

namespace ScreenForms.Screen

/-- The keywords of painting commands. -/
def paintKeywords : List String :=
  ["SAY", "GET", "EDIT", "TO", "SIZE", "FONT", "STYLE", "PICTURE", "FUNCTION", "DEFAULT",
    "VALID", "WHEN", "SPINNER", "FROM", "RANGE", "ENABLE", "DISABLE", "COLOR", "BITMAP",
    "MESSAGE", "ERROR", "NOMODIFY", "SCROLL", "CENTER", "ISOMETRIC", "STRETCH", "TAB", "PEN",
    "PATTERN", "CURVATURE", "MODE", "DOUBLE", "PANEL", "CLEAR"]

/-- How names of image files end. -/
def imageEndings : List String := [".bmp", ".ico", ".jpg", ".jpeg", ".gif", ".png", ".msk"]

/-- Sets font and style as the clauses say. -/
def applyFont (env : Surroundings) (clauses : Clauses) (control : Control) : Control :=
  let style := control.props.style
  let style := match clauses.get? "FONT" with
    | none => style
    | some font =>
      let parts := Text.splitTopLevel ',' font
      let fontName := (parts.head?.map literal).filter fun n => !n.isEmpty
      { style with
        fontName := (fontName.map String.ofList).orElse fun _ => style.fontName
        fontSize := parts[1]?.bind env.eval? }
  let style := match clauses.get? "STYLE" with
    | none => style
    | some letters =>
      let letters := Text.upper (literal letters)
      { style with fontBold := letters.contains 'B', fontItalic := letters.contains 'I' }
  { control with props := { control.props with style } }

/-- Sets an extra value of a control. -/
def withExtra (key : String) (value : Value) (control : Control) : Control :=
  { control with props := control.props.withExtra key value }

/-- Sets an extra text of a control. -/
def withExtraText (key : String) (text : List Char) (control : Control) : Control :=
  withExtra key (.text (String.ofList text)) control

/-- The argument of a clause without blanks at its ends; empty when there is no such clause. -/
def argumentOf (clauses : Clauses) (keyword : String) : List Char :=
  Text.trim ((clauses.get? keyword).getD [])

/-! ## Texts and images -/

/-- Whether a text names an image file. -/
def namesImage (text : List Char) : Bool :=
  imageEndings.any fun ending => (Text.dropTail? ending.toList (Text.lower text)).isSome

/-- Paints a text or an image. -/
def paintSay (env : Surroundings) (clauses : Clauses) (row column : Float) (c : Canvas) :
    Canvas :=
  let text := literal (argumentOf clauses "SAY")
  let size := env.size? clauses
  if clauses.has "BITMAP" || namesImage text then
    let (control, c) := c.newControl env.cells .image row column
    let control := sized env.cells (size.getD (4.0, 10.0)) control
    c.add [applyFont env clauses (withExtraText ExtraKey.picture text control)]
  else
    let (control, c) := c.newControl env.cells .label row column
    let control := sized env.cells (size.getD (1.0, Float.ofNat (max 1 text.length))) control
    let props := { control.props with text := some (String.ofList text) }
    c.add [applyFont env clauses { control with props }]

/-! ## Fields -/

/-- What a `GET` paints. -/
inductive FieldKind where
  | textbox
  | spinner
  | combobox
  | checkbox
  | buttons
  | radios
  deriving DecidableEq, Repr

/-- The kind of field that a picture and the other clauses ask for. -/
def fieldKind (picture : Picture) (clauses : Clauses) : FieldKind :=
  match picture.code with
  | '*' :: rest =>
    if rest.contains 'C' then .checkbox else if rest.contains 'R' then .radios else .buttons
  | '^' :: _ => .combobox
  | '&' :: _ => .combobox
  | _ =>
    if clauses.has "SPINNER" then .spinner
    else if clauses.has "FROM" then .combobox
    else .textbox

/-- The event that validates a field. -/
def FieldKind.validEvent : FieldKind → String
  | .buttons | .radios | .checkbox => "Click"
  | .textbox | .spinner | .combobox => "LostFocus"

/-- Gives a control the text and the marks of a caption. -/
def applyCaption (item : Caption) (control : Control) : Control :=
  let control := match item.hotkey with
    | some key => withExtraText ExtraKey.hotkey [key] control
    | none => control
  let control := if item.isDefault then withExtra ExtraKey.defaultButton (.flag true) control
    else control
  let control := if item.isCancel then withExtra ExtraKey.cancelButton (.flag true) control
    else control
  let props := control.props
  { control with
    props := { props with enabled := !item.disabled, text := some (String.ofList item.text) } }

/-- One button for each caption, side by side or one above the other. -/
def paintGroup (env : Surroundings) (kind : ControlKind) (horizontal : Bool)
    (size : Option (Float × Float)) (row column : Float) (field : List Char) :
    Int → List (List Char) → Canvas → List Control × Canvas
  | _, [], c => ([], c)
  | step, raw :: rest, c =>
    let item := Caption.read raw
    let (control, c) := c.newControl env.cells kind row column
    let control :=
      if horizontal then
        { control with x := Decimal.wrap32 (control.x + step * env.screen.groupStrideX) }
      else { control with y := Decimal.wrap32 (control.y + step * env.screen.groupStrideY) }
    let margin := if kind = .radio then 4.0 else 2.0
    let control := sized env.cells (size.getD (1.0, columnsOf item.text + margin)) control
    let control := if field.isEmpty then control
      else withExtraText ExtraKey.group field control
    let (others, c) := paintGroup env kind horizontal size row column field (step + 1) rest c
    (applyCaption item control :: others, c)

/-- The entries that the payload of a picture gives a combobox. -/
def comboItems (picture : Picture) : List (List Char) :=
  ((Text.splitOn ';' picture.payload).map fun raw => (Caption.read raw).text).filter
    fun item => !item.isEmpty

/-- Sets the bounds of a spinner. -/
def withBounds (env : Surroundings) (clauses : Clauses) (control : Control) : Control :=
  match clauses.get? "SPINNER" with
  | none => control
  | some range =>
    ([ExtraKey.minimum, ExtraKey.maximum].zip (Text.splitTopLevel ',' range)).foldl
      (fun control bound =>
        let value := match env.eval? bound.2 with
          | some x => Value.number x
          | none => Value.sniff (String.ofList bound.2)
        withExtra bound.1 value control) control

/-- The controls of a field, before what all kinds of fields have in common is set. -/
def paintField (env : Surroundings) (clauses : Clauses) (picture : Picture) (kind : FieldKind)
    (field : List Char) (row column : Float) (c : Canvas) : List Control × Canvas :=
  let cells := env.cells
  let size := env.size? clauses
  match kind with
  | .buttons =>
    paintGroup env .button (picture.code.contains 'H') size row column field 0
      (Text.splitOn ';' picture.payload) c
  | .radios =>
    paintGroup env .radio (picture.code.contains 'H') size row column field 0
      (Text.splitOn ';' picture.payload) c
  | .checkbox =>
    let item := Caption.read picture.payload
    let (control, c) := c.newControl cells .checkbox row column
    let control := sized cells (size.getD (1.0, columnsOf item.text + 4.0)) control
    ([applyCaption item control], c)
  | .combobox =>
    let (control, c) := c.newControl cells .combobox row column
    let items := comboItems picture
    let control :=
      { control with props := { control.props with items := items.map String.ofList } }
    let control := match clauses.get? "FROM" with
      | some source => withExtraText ExtraKey.rowSource (Text.trim source) control
      | none => control
    let longest := ((items.map List.length).max?).getD 10
    ([sized cells (size.getD (1.0, Float.ofNat longest + 4.0)) control], c)
  | .spinner =>
    let (control, c) := c.newControl cells .spinner row column
    ([sized cells (size.getD (1.0, 8.0)) (withBounds env clauses control)], c)
  | .textbox =>
    let (control, c) := c.newControl cells .textbox row column
    let columns := (picture.mask.map columnsOf).getD 10.0
    let control := sized cells (size.getD (1.0, columns)) control
    match picture.mask with
    | some mask => ([withExtraText ExtraKey.picture mask control], c)
    | none => ([control], c)

/-- Sets what all kinds of fields have in common. -/
def finishField (env : Surroundings) (clauses : Clauses) (field : List Char)
    (control : Control) : Control :=
  let control := if field.isEmpty then control
    else withExtraText ExtraKey.controlSource field control
  let control := match clauses.get? "DEFAULT" with
    | some value => withExtra ExtraKey.value (Value.sniff (String.ofList value)) control
    | none => control
  let enabled := control.props.enabled && !clauses.has "DISABLE"
  applyFont env clauses { control with props := { control.props with enabled } }

/-- The bindings of a field: its validation and what runs when it is entered. -/
def fieldBindings (env : Surroundings) (clauses : Clauses) (kind : FieldKind) (id : ControlId) :
    List EventBinding :=
  let code (keyword event : String) : List EventBinding :=
    match clauses.get? keyword with
    | some argument => [⟨id, event, env.boundCode keyword argument⟩]
    | none => []
  code "VALID" kind.validEvent ++ code "WHEN" "GotFocus"

/-- Paints a field. -/
def paintGet (env : Surroundings) (clauses : Clauses) (row column : Float) (c : Canvas) :
    Canvas :=
  let field := argumentOf clauses "GET"
  let picture := Picture.read (clauses.get? "PICTURE") (clauses.get? "FUNCTION")
  let kind := fieldKind picture clauses
  let c := ["VALID", "WHEN"].foldl (fun c keyword =>
    match clauses.get? keyword with
    | some argument => c.noteBound env argument
    | none => c) c
  let (controls, c) := paintField env clauses picture kind field row column c
  let controls := controls.map (finishField env clauses field)
  let bindings := controls.flatMap fun control => fieldBindings env clauses kind control.id
  (bindings.foldl Canvas.bind c).add controls

/-! ## Texts to edit and boxes -/

/-- Paints a text to edit. -/
def paintEdit (env : Surroundings) (clauses : Clauses) (row column : Float) (c : Canvas) :
    Canvas :=
  let field := argumentOf clauses "EDIT"
  let (control, c) := c.newControl env.cells .editbox row column
  let control := sized env.cells ((env.size? clauses).getD (4.0, 30.0)) control
  let control := if field.isEmpty then control
    else withExtraText ExtraKey.controlSource field control
  let enabled := !clauses.has "DISABLE" && !clauses.has "NOMODIFY"
  c.add [applyFont env clauses { control with props := { control.props with enabled } }]

/-- The border of a box. -/
def borderOf (clauses : Clauses) : String :=
  if clauses.has "DOUBLE" then "double" else if clauses.has "PANEL" then "panel" else "single"

/-- Paints a box between two corners. -/
def paintBox (env : Surroundings) (line : Nat) (clauses : Clauses) (row column : Float)
    (c : Canvas) : Canvas :=
  match (clauses.get? "TO").bind env.pair? with
  | none => c.warn line "spr.position" "could not evaluate box corner"
  | some (row2, column2) =>
    let (control, c) := c.newControl env.cells .shape row column
    let control := sized env.cells ((row2 - row).abs, (column2 - column).abs) control
    c.add [withExtra ExtraKey.border (.text (borderOf clauses)) control]

/-- Carries out a painting command: its first clause decides what is painted. -/
def paint (env : Surroundings) (line : Nat) (rest : List Char) (c : Canvas) : Canvas :=
  let clauses := Clauses.parse paintKeywords rest
  match env.pair? clauses.head with
  | none =>
    c.warn line "spr.position"
      ("could not evaluate position \x60" ++ String.ofList clauses.head ++ "\x60")
  | some (row, column) =>
    match clauses.list.head?.map Clause.keyword with
    | some "SAY" => paintSay env clauses row column c
    | some "GET" => paintGet env clauses row column c
    | some "EDIT" => paintEdit env clauses row column c
    | some "TO" => paintBox env line clauses row column c
    | _ => c

end ScreenForms.Screen
