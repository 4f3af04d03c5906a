import ScreenForms.Import.Outcome
import ScreenForms.Screen.Painting
import ScreenForms.Screen.Window

/-!
# Building the document of a screen program

The statements of the main body are carried out in order. A `READ` binds code to the form and also
carries out the windows and grids of the procedures it calls; in those, painting and reading do
not count. Procedures that no clause binds become methods of the form. No procedure is ever run:
bound or not, it is kept as a comment.
-/

namespace ScreenForms.Screen

/-- The keywords of the read command. -/
def readKeywords : List String :=
  ["CYCLE", "WHEN", "ACTIVATE", "VALID", "SHOW", "DEACTIVATE", "MODAL", "WITH", "OBJECT",
    "COLOR", "SAVE", "NOLOCK", "LOCK", "TIMEOUT", "NOMOUSE"]

/-- A statement that means something for the screen. -/
inductive Command where
  | paint (rest : List Char)
  | defineWindow (rest : List Char)
  | activateWindow (name : List Char)
  | activateScreen
  | browse (rest : List Char)
  | read (rest : List Char)
  deriving DecidableEq, Repr

/-- The command that a statement gives, if it gives one. -/
def Command.ofText? (text : List Char) : Option Command :=
  match Text.words text with
  | [] => none
  | first :: rest =>
    let second := rest.head?.getD []
    if first.head? = some '@' then
      some (.paint ((Text.trimStart text).dropWhile (· == '@')))
    else if isKeyword first "DEFINE" && isKeyword second "WINDOW" then
      some (.defineWindow (Text.unwords (rest.drop 1)))
    else if isKeyword first "ACTIVATE" && isKeyword second "WINDOW" then
      some (.activateWindow ((rest.drop 1).head?.getD []))
    else if isKeyword first "ACTIVATE" && isKeyword second "SCREEN" then some .activateScreen
    else if isKeyword first "BROWSE" then some (.browse (Text.unwords rest))
    else if isKeyword first "READ" then some (.read (Text.unwords rest))
    else none

/-- Carries out a command that concerns windows and grids; other commands change nothing. -/
def carryOutNested (env : Surroundings) (c : Canvas) (s : Statement) : Canvas :=
  match Command.ofText? s.text with
  | some (.defineWindow rest) => defineWindow env s.line rest c
  | some (.activateWindow name) => activateWindow name c
  | some .activateScreen => { c with target := none }
  | some (.browse rest) => browse env rest c
  | _ => c

/-- The first of some clauses that a command has, with its argument. -/
def firstClause? (clauses : Clauses) (keywords : List String) :
    Option (String × List Char) :=
  keywords.findSome? fun keyword => (clauses.get? keyword).map fun argument => (keyword, argument)

/-- The events of the form that a read command binds, each with the clauses that may bind it. -/
def readEvents : List (String × List String) :=
  [("Load", ["WHEN"]), ("Init", ["ACTIVATE", "SHOW"]), ("Unload", ["VALID", "DEACTIVATE"])]

/-- Binds one event of the form, unless it is bound already, and carries out what the procedure
it calls does with windows and grids. -/
def bindFormEvent (env : Surroundings) (clauses : Clauses) (c : Canvas)
    (entry : String × List String) : Canvas :=
  match firstClause? clauses entry.2 with
  | none => c
  | some (keyword, argument) =>
    if (c.events.code? formOwner entry.1).isSome then c
    else
      let c := c.noteBound env argument
      let c := c.bind ⟨formOwner, entry.1, env.boundCode keyword argument⟩
      match env.calledProcedure? argument with
      | none => c
      | some p => (statements p.source).foldl (carryOutNested env) c

/-- Carries out a read command. -/
def read (env : Surroundings) (rest : List Char) (c : Canvas) : Canvas :=
  readEvents.foldl (bindFormEvent env (Clauses.parse readKeywords rest)) c

/-- Carries out a statement of the main body. -/
def carryOut (env : Surroundings) (c : Canvas) (s : Statement) : Canvas :=
  match Command.ofText? s.text with
  | some (.paint rest) => paint env s.line rest c
  | some (.read rest) => read env rest c
  | _ => carryOutNested env c s

/-- The methods that the procedures become which no clause binds, in the order of the program. Of
procedures with one name the last counts. -/
def freeMethods (env : Surroundings) (bound : List String) : List FormMethod :=
  (env.procedures.filter fun p => NameRegistry.fold p.name ∉ bound).filterMap fun p =>
    (env.procedure? p.name).map fun p => ⟨p.name, p.parameters, p.placeholder⟩

/-- The empty canvas of a program. Ids depend on the length of its text in bytes. -/
def emptyCanvas (cells : CellMetrics) (source : String) : Canvas :=
  let size := cells.formSize (Float.ofInt cells.screenColumns) (Float.ofInt cells.screenRows)
  { window := { width := size.1, height := size.2 }
    ids := { salt := Decimal.intText source.utf8ByteSize } }

/-- What the statements of a program are read against. -/
def surroundings (config : Config) (source : String) : Surroundings :=
  ⟨config.cells, config.screen, (Program.read source).procedures⟩

/-- The canvas after all statements of the main body. -/
def painted (config : Config) (source : String) : Canvas :=
  (statements (Program.read source).body).foldl (carryOut (surroundings config source))
    (emptyCanvas config.cells source)

/-- Builds the document of a screen program. -/
def build (config : Config) (source : String) : ImportOutcome :=
  let c := painted config source
  { dialect := .spr
    document :=
      { window := c.window
        controls := c.controls
        events := c.events
        methods := freeMethods (surroundings config source) c.bound }
    diagnostics := c.diagnostics }

end ScreenForms.Screen
