import ScreenForms.Config
import ScreenForms.Diagnostic
import ScreenForms.Import.Naming
import ScreenForms.Screen.Expr
import ScreenForms.Screen.Program

/-!
# The canvas

While a screen program is read, a canvas holds the form as it stands: the window, the controls,
the bindings, which windows are open under which names, and on which of them commands paint. Its
operations are the small steps that every command is made of.
-/

namespace ScreenForms.Screen

/-- What commands are read against: the metrics and the procedures of the program. -/
structure Surroundings where
  cells : CellMetrics
  screen : ScreenMetrics
  procedures : List Procedure

namespace Surroundings

/-- The last procedure with a name, up to ASCII case. -/
def procedure? (env : Surroundings) (name : String) : Option Procedure :=
  env.procedures.reverse.find? fun p => Text.sameName p.name name

/-- The procedure that an argument calls. -/
def calledProcedure? (env : Surroundings) (argument : List Char) : Option Procedure :=
  (calledName? argument).bind fun name => env.procedure? (String.ofList name)

/-- The code bound by a clause: a comment that holds the procedure it calls, or the clause. -/
def boundCode (env : Surroundings) (keyword : String) (argument : List Char) : String :=
  match env.calledProcedure? argument with
  | some p => p.placeholder
  | none => "* " ++ keyword ++ " " ++ String.ofList (Text.trim argument)

/-- The value of an expression. -/
def eval? (env : Surroundings) (text : List Char) : Option Float :=
  Expr.eval? ⟨env.screen.rows, env.screen.columns⟩ text

/-- The values of two expressions with a comma between them. -/
def pair? (env : Surroundings) (text : List Char) : Option (Float × Float) :=
  match Text.splitTopLevel ',' text with
  | [first, second] => do
    let first ← env.eval? first
    let second ← env.eval? second
    some (first, second)
  | _ => none

/-- Height and width of a size clause. -/
def size? (env : Surroundings) (clauses : Clauses) : Option (Float × Float) :=
  (clauses.get? "SIZE").bind env.pair?

end Surroundings

/-- The form as far as the program has been read. -/
structure Canvas where
  window : Window
  controls : List Control := []
  events : EventMap := SortedMap.empty
  diagnostics : List Diagnostic := []
  names : NameRegistry := {}
  counter : NameCounter := {}
  ids : IdSequence
  /-- the names of the procedures bound to events, in lower case -/
  bound : List String := []
  /-- the name of the window that became the form, in lower case -/
  formWindow : Option String := none
  /-- row and column of that window on the screen -/
  origin : Float × Float := (0.0, 0.0)
  /-- the other windows by their names in lower case, the latest first -/
  windows : List (String × ControlId) := []
  lastWindow : Option ControlId := none
  /-- the window on which commands paint; none stands for the form -/
  target : Option ControlId := none

namespace Canvas

/-- The control of a window other than the form. -/
def window? (c : Canvas) (name : String) : Option ControlId :=
  (c.windows.find? fun w => w.1 == name).map Prod.snd

/-- The first control with an id. -/
def control? (c : Canvas) (id : ControlId) : Option Control :=
  c.controls.find? fun control => control.id == id

/-- Adds a remark on a statement. -/
def warn (c : Canvas) (line : Nat) (code message : String) : Canvas :=
  { c with diagnostics := c.diagnostics ++ [⟨.warning, code, message, some line⟩] }

/-- Adds controls on top of the others. -/
def add (c : Canvas) (controls : List Control) : Canvas :=
  { c with controls := c.controls ++ controls }

/-- Stores code for an event. -/
def bind (c : Canvas) (binding : EventBinding) : Canvas :=
  { c with events := c.events.bind binding }

/-- Notes that a clause binds the procedure it calls. -/
def noteBound (c : Canvas) (env : Surroundings) (argument : List Char) : Canvas :=
  match env.calledProcedure? argument with
  | some p => { c with bound := NameRegistry.fold p.name :: c.bound }
  | none => c

/-- The pixels of a cell on the target. The form has padding, a window has none. -/
def place (c : Canvas) (cells : CellMetrics) (row column : Float) : Int × Int :=
  if c.target.isSome then (cells.width column, cells.height row)
  else (cells.x column, cells.y row)

/-- A new control on the target with the next id and default name, not yet added. -/
def newControl (c : Canvas) (cells : CellMetrics) (kind : ControlKind) (row column : Float) :
    Control × Canvas :=
  let (id, ids) := c.ids.next kind.name
  let (name, counter, names) := c.counter.next kind c.names
  let (x, y) := c.place cells row column
  ({ id, kind, name, x, y, parent := c.target }, { c with ids, counter, names })

end Canvas

/-- A control with a size in cells. -/
def sized (cells : CellMetrics) (size : Float × Float) (control : Control) : Control :=
  { control with width := cells.width size.2, height := cells.height size.1 }

/-- The number of characters of a text as a float. -/
def columnsOf (text : List Char) : Float := Float.ofNat text.length

end ScreenForms.Screen
