import ScreenForms.Config
import ScreenForms.Import.EventName
import ScreenForms.Import.Naming
import ScreenForms.Import.Outcome
import ScreenForms.Import.Parameters
import ScreenForms.Import.PropertyTable

/-!
# Screens placed in character cells

Records of character screens carry no reliable classes. The kind of a control is found by looking
for telling words in its classes and, failing that, in its name. Positions count rows and columns,
and every control stands on the form itself.
-/

namespace ScreenForms.CellScreen

/-- The words that tell the kind of a control; the first that occurs decides. -/
def kindWords : List (String × ControlKind) :=
  [("say", .label), ("get", .textbox), ("push", .button), ("check", .checkbox),
    ("radio", .radio), ("list", .combobox), ("popup", .combobox)]

/-- The kind that the words in a text tell. -/
def kindInText? (cs : List Char) : Option ControlKind :=
  (kindWords.find? fun e => Text.occurs e.1.toList cs).map Prod.snd

/-- The kind of a control: its classes decide before its name. -/
def kindOf? (r : Record) : Option ControlKind :=
  (kindInText? (Text.lower (r.className ++ " " ++ r.baseClass).toList)).orElse fun _ =>
    kindInText? (Text.lower r.objName.toList)

/-- Names of methods that stand for events of another name. -/
def eventNames : List (String × String) :=
  [("valid", "LostFocus"), ("when", "GotFocus"), ("clicked", "Click")]

/-- The event that a method handles. -/
def eventOf (name : String) : String :=
  match eventNames.find? fun e => Text.sameName e.1 (Text.trimmed name) with
  | some e => e.2
  | none => EventName.normalize name

/-- Whether a record describes the screen itself. -/
def isScreen (r : Record) : Bool :=
  ["screen", "form"].any fun tag => Text.sameName r.className tag || Text.sameName r.baseClass tag

/-- The properties that give a position in cells. -/
def cellProperties : List String := ["Row", "Column", "VPos", "HPos", "Expr"]

/-- The window of a screen. -/
def window (m : CellMetrics) (screen : Option Record) : Window :=
  let columns := (screen.bind (·.number? ["Width"])).getD (Float.ofInt m.screenColumns)
  let rows := (screen.bind (·.number? ["Height"])).getD (Float.ofInt m.screenRows)
  let size := m.formSize columns rows
  let default : Window := {}
  let name := ((screen.map fun s => Text.trimmed s.objName).filter (· ≠ "")).getD default.name
  let caption := screen.bind fun s => (s.text? "Caption").orElse fun _ => s.text? "Title"
  { name
    caption := caption.getD name
    width := size.1
    height := size.2 }

/-- The properties of a control, without its position in cells. -/
def properties (r : Record) (kind : ControlKind) : Properties :=
  let props := PropertyTable.read r kind
  { props with
    text := props.text.orElse fun _ => (r.text? "Caption").orElse fun _ => r.text? "Expr"
    extra := cellProperties.foldl SortedMap.erase props.extra }

/-- A control under the name claimed for it. Without a width it is as wide as its text. -/
def control (m : CellMetrics) (r : Record) (kind : ControlKind) (name : String) : Control :=
  let props := properties r kind
  let textColumns := max 1 ((props.text.map String.length).getD 0)
  let columns := Decimal.floatMax ((r.number? ["Width"]).getD (Float.ofNat textColumns)) 1.0
  let rows := Decimal.floatMax ((r.number? ["Height"]).getD 1.0) 1.0
  { id := r.id
    kind
    name
    x := m.x ((r.number? ["Column", "HPos"]).getD 0.0)
    y := m.y ((r.number? ["Row", "VPos"]).getD 0.0)
    width := m.width columns
    height := m.height rows
    parent := none
    props }

/-- The controls in the order of their records, each under the name claimed for it. -/
def controls (m : CellMetrics) : NameRegistry → List (Record × ControlKind) → List Control
  | _, [] => []
  | names, (r, kind) :: rest =>
    let (name, names) := names.claim (Text.trimmed r.objName) r.id
    control m r kind name :: controls m names rest

/-- The known event of the form that a method of the screen handles. -/
def formEvent? (m : RecordMethod) : Option String := EventName.known? (eventOf m.name)

/-- The method of the form that a method of the screen becomes when it handles no known event. -/
def formMethod? (m : RecordMethod) : Option FormMethod :=
  match formEvent? m with
  | some _ => none
  | none =>
    let (parameters, body) := Parameters.split m.body
    some ⟨m.name, parameters, body⟩

/-- The remark on a record whose kind no word tells. -/
def untypedRemark (r : Record) : Diagnostic :=
  ⟨.info, "fox26dos.untyped_record", "no type rule matched \x60" ++ r.objName ++ "\x60",
    some r.line⟩

/-- Builds the document of a screen placed in character cells. -/
def build (m : CellMetrics) (records : List Record) : ImportOutcome :=
  let screen := records.find? isScreen
  let formMethods := (screen.map Record.methods).getD []
  let window := window m screen
  let others := records.filter fun r => !isScreen r
  let typed := others.filterMap fun r => (kindOf? r).map fun kind => (r, kind)
  let bindings : List EventBinding :=
    (formMethods.filterMap fun m => (formEvent? m).map fun event => ⟨formOwner, event, m.body⟩) ++
    typed.flatMap fun e => e.1.methods.map fun m => ⟨e.1.id, eventOf m.name, m.body⟩
  { dialect := .fox26dos
    document :=
      { window
        controls := controls m (NameRegistry.reserve {} window.name) typed
        events := bindings.foldl EventMap.bind SortedMap.empty
        methods := formMethods.filterMap formMethod? }
    diagnostics := (others.filter fun r => (kindOf? r).isNone).map untypedRemark }

end ScreenForms.CellScreen
