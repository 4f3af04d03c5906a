import ScreenForms.Screen.Canvas

/-!
# Windows and grids

The first window that a program defines becomes the form. Every later one becomes a container:
inside another container when it is defined in one, else on the form, where its position on the
screen is taken relative to that of the form. A browse command adds a grid that fills its window.
-/

namespace ScreenForms.Screen

/-- The keywords of the command that defines a window. -/
def windowKeywords : List String :=
  ["FROM", "TO", "AT", "SIZE", "TITLE", "FOOTER", "FLOAT", "NOFLOAT", "CLOSE", "NOCLOSE",
    "MINIMIZE", "ZOOM", "NOZOOM", "GROW", "NOGROW", "SHADOW", "NOSHADOW", "SYSTEM", "DOUBLE",
    "PANEL", "NONE", "COLOR", "FONT", "STYLE", "IN", "FILL", "ICON", "HALFHEIGHT", "MDI",
    "NOMDI", "NAME"]

/-- The keywords of the browse command. -/
def browseKeywords : List String :=
  ["FIELDS", "NOEDIT", "IN", "TITLE", "NOMENU", "NOAPPEND", "NODELETE", "NOWAIT", "SAVE",
    "LAST", "NOCLEAR", "NORMAL", "FONT", "STYLE", "COLOR", "WIDTH", "TIMEOUT", "FREEZE", "KEY",
    "FOR", "WHEN", "VALID", "NOMODIFY", "PARTITION", "LEDIT", "REDIT", "LPARTITION", "NOLGRID",
    "NORGRID", "NOLINK", "NOOPTIMIZE", "PREFERENCE", "REST", "FORMAT"]

/-- The title of a window or grid. -/
def titleOf (clauses : Clauses) : Option String :=
  (clauses.get? "TITLE").map fun t => String.ofList (literal t)

/-- A rectangle of cells. -/
structure CellBox where
  row : Float
  column : Float
  height : Float
  width : Float
  deriving DecidableEq, Repr

/-- The rectangle of a window, from its corners or from one corner and its size. -/
def windowBox? (env : Surroundings) (clauses : Clauses) : Option CellBox :=
  match clauses.get? "FROM", clauses.get? "TO" with
  | some start, some stop => do
    let (row, column) ← env.pair? start
    let (row2, column2) ← env.pair? stop
    some ⟨row, column, row2 - row + 1.0, column2 - column + 1.0⟩
  | _, _ =>
    match clauses.get? "AT", clauses.get? "SIZE" with
    | some start, some size => do
      let (row, column) ← env.pair? start
      let (height, width) ← env.pair? size
      some ⟨row, column, height, width⟩
    | _, _ => none

/-- The name of the window that an `IN` clause gives, in lower case and with or without the word
`WINDOW` in front. -/
def hostName (argument : List Char) : String :=
  let bare := Text.trim argument
  String.ofList (Text.lower
    (((Text.dropLeadNoCase? "window".toList bare).map Text.trim).getD bare))

/-- Makes the first window the form. -/
def defineForm (env : Surroundings) (name : List Char) (clauses : Clauses) (box : Option CellBox)
    (c : Canvas) : Canvas :=
  let cells := env.cells
  let box := box.getD ⟨0.0, 0.0, Float.ofInt cells.screenRows, Float.ofInt cells.screenColumns⟩
  let size := cells.formSize box.width box.height
  let formName := String.ofList name
  { c with
    formWindow := some (NameRegistry.fold formName)
    origin := (box.row, box.column)
    names := c.names.reserve formName
    window :=
      { name := formName
        caption := (titleOf clauses).getD formName
        x := cells.width box.column
        y := cells.height box.row
        width := size.1
        height := size.2
        minimizable := clauses.has "MINIMIZE"
        maximizable := clauses.has "ZOOM" && !clauses.has "NOZOOM"
        closable := clauses.has "CLOSE" && !clauses.has "NOCLOSE"
        movable := clauses.has "FLOAT" && !clauses.has "NOFLOAT" } }

/-- The parent and the position of a window other than the form. -/
def hostedPlace (env : Surroundings) (clauses : Clauses) (box : CellBox) (c : Canvas) :
    Option ControlId × Int × Int :=
  let cells := env.cells
  let host := ((clauses.get? "IN").map hostName).filter fun n => n ≠ "" ∧ n ≠ "screen"
  let onScreen := (none, cells.x (Decimal.floatMax (box.column - c.origin.2) 0.0),
    cells.y (Decimal.floatMax (box.row - c.origin.1) 0.0))
  match host with
  | none => onScreen
  | some host =>
    match c.window? host with
    | some id => (some id, cells.width box.column, cells.height box.row)
    | none =>
      if some host = c.formWindow then (none, cells.x box.column, cells.y box.row) else onScreen

/-- Makes a later window a container. -/
def defineContainer (env : Surroundings) (name : List Char) (clauses : Clauses)
    (box : Option CellBox) (c : Canvas) : Canvas :=
  let box := box.getD ⟨0.0, 0.0, 10.0, 40.0⟩
  let (parent, x, y) := hostedPlace env clauses box c
  let windowName := String.ofList name
  let (id, ids) := c.ids.next windowName
  let (controlName, names) := c.names.claim windowName id
  let control : Control :=
    { id
      kind := .container
      name := controlName
      x
      y
      width := env.cells.width box.width
      height := env.cells.height box.height
      parent
      props := { text := titleOf clauses } }
  { c.add [control] with
    ids
    names
    windows := (NameRegistry.fold windowName, id) :: c.windows
    lastWindow := some id }

/-- Carries out a command that defines a window. -/
def defineWindow (env : Surroundings) (line : Nat) (rest : List Char) (c : Canvas) : Canvas :=
  let name := Text.trim (rest.takeWhile fun ch => !Text.isBlank ch)
  let clauses := Clauses.parse windowKeywords (rest.dropWhile fun ch => !Text.isBlank ch)
  if name.isEmpty then
    c.warn line "spr.window_without_name" "DEFINE WINDOW without a name"
  else
    let box := windowBox? env clauses
    let c :=
      if box.isSome then c
      else c.warn line "spr.window_geometry"
        ("could not evaluate the geometry of window \x60" ++ String.ofList name ++ "\x60")
    if c.formWindow.isNone then defineForm env name clauses box c
    else defineContainer env name clauses box c

/-- Makes a window the target of what is painted. An unknown name changes nothing. -/
def activateWindow (argument : List Char) (c : Canvas) : Canvas :=
  let name := String.ofList (Text.lower (Text.dropEndWhile (· == ',') argument))
  match c.window? name with
  | some id => { c with target := some id }
  | none => if some name = c.formWindow then { c with target := none } else c

/-- Applies one modifier of a browse field to its column: a header, read-only, or a width. -/
def columnModifier (cells : CellMetrics) (column : GridColumn) (modifier : List Char) :
    GridColumn :=
  let bare := Text.trim modifier
  let header? := match Text.dropLeadNoCase? ['h'] bare with
    | none => none
    | some rest => Text.dropLead? ['='] (Text.trimStart rest)
  match header? with
  | some header => { column with header := String.ofList (literal header) }
  | none =>
    if Text.upper bare = ['R'] then { column with readOnly := true }
    else
      match Decimal.read? bare with
      | some columns => { column with width := some (cells.width columns) }
      | none => column

/-- The column of one browse field. -/
def browseColumn? (cells : CellMetrics) (readOnly : Bool) (spec : List Char) :
    Option GridColumn :=
  match Text.splitTopLevel ':' (Text.trim spec) with
  | [] => none
  | first :: modifiers =>
    match Text.blankWords first with
    | [] => none
    | field :: _ =>
      let field := String.ofList field
      some (modifiers.foldl (columnModifier cells) ⟨field, field, none, readOnly⟩)

/-- The columns of a browse command. -/
def browseColumns (cells : CellMetrics) (clauses : Clauses) : List GridColumn :=
  match clauses.get? "FIELDS" with
  | none => []
  | some fields =>
    (Text.splitTopLevel ',' fields).filterMap (browseColumn? cells (clauses.has "NOEDIT"))

/-- Carries out a browse command: a grid over the window it names, or over the latest window, or
over the form. -/
def browse (env : Surroundings) (rest : List Char) (c : Canvas) : Canvas :=
  let cells := env.cells
  let clauses := Clauses.parseWithList browseKeywords (some "FIELDS") rest
  let host := ((clauses.get? "IN").bind fun argument => c.window? (hostName argument)).orElse
    fun _ => c.lastWindow
  let (id, ids) := c.ids.next "grid"
  let (name, counter, names) := c.counter.next .grid c.names
  let props : Properties := { text := titleOf clauses, columns := browseColumns cells clauses }
  let grid : Control := match host.bind c.control? with
    | some container =>
      { id, kind := .grid, name, width := container.width, height := container.height
        parent := host, props }
    | none =>
      { id, kind := .grid, name, x := cells.paddingLeft, y := cells.paddingTop
        width := Decimal.wrap32 (c.window.width - 2 * cells.paddingLeft)
        height := Decimal.wrap32 (c.window.height - 2 * cells.paddingTop)
        props }
  { c.add [grid] with ids, counter, names }

end ScreenForms.Screen
