import ScreenForms.Import.EventName
import ScreenForms.Import.Naming
import ScreenForms.Import.Outcome
import ScreenForms.Import.Parameters
import ScreenForms.Import.PropertyTable

/-!
# Screens placed in pixels

Records name their parents by paths, in any order and possibly in circles. A control inside a
container or a page keeps its own position and gets a parent; every other control gets its
position on the form, which sums up the positions of the records around it. Pages are no children
of their page frame: they stand on the form and remember the name of the frame. Columns and
headers of a grid become columns of its control.
-/

namespace ScreenForms.PixelScreen

/-- A text in lower case and without blanks at its ends. -/
def foldName (s : String) : String := Text.onChars (fun cs => Text.lower (Text.trim cs)) s

/-- The path of a record, in lower case. -/
def path (r : Record) : String :=
  if (Text.trim r.parent.toList).isEmpty then foldName r.objName
  else foldName r.parent ++ "." ++ foldName r.objName

/-- The base class of a record, or its class when it has none, in lower case. -/
def baseClass (r : Record) : String :=
  if (Text.trim r.baseClass.toList).isEmpty then foldName r.className else foldName r.baseClass

/-- The record that a parent path stands for: the first with that path, else the first with the
name at its end. -/
def parentIndex? (paths names : List String) (r : Record) : Option Nat :=
  if (Text.trim r.parent.toList).isEmpty then none
  else
    (paths.findIdx? (· == foldName r.parent)).orElse fun _ =>
      names.findIdx? (· == foldName r.immediateParent)

/-- The records of a screen, the parent of each, and which one is the form. -/
structure Nesting where
  records : List Record
  parents : List (Option Nat)
  form : Option Nat

/-- What a record contributes to the document. -/
inductive Role where
  | form
  | control (kind : ControlKind)
  /-- a column of the grid at an index -/
  | column (grid : Nat)
  /-- a header of the column at an index -/
  | header (column : Nat)
  /-- an editor inside a column, which has no place in a document -/
  | cellEditor
  /-- a class that no kind of control stands for -/
  | unmapped
  deriving DecidableEq, Repr

namespace Nesting

/-- Finds the parents and the form. -/
def ofRecords (records : List Record) : Nesting :=
  let paths := records.map path
  let names := records.map fun r => foldName r.objName
  { records
    parents := records.map (parentIndex? paths names)
    form := records.findIdx? fun r => baseClass r == "form" }

/-- The parent of a record. -/
def parent? (t : Nesting) (i : Nat) : Option Nat := (t.parents[i]?).join

/-- The parent of a record, unless it is the form. -/
def container? (t : Nesting) (i : Nat) : Option Nat :=
  (t.parent? i).filter fun p => some p ≠ t.form

/-- The record at an index. -/
def record (t : Nesting) (i : Nat) : Record := t.records[i]?.getD {}

/-- What the record at an index contributes. -/
def role (t : Nesting) (i : Nat) : Role :=
  let base := baseClass (t.record i)
  let parentBase := (t.parent? i).map fun p => baseClass (t.record p)
  if some i = t.form then .form
  else if base = "column" ∧ parentBase = some "grid" then .column ((t.parent? i).getD i)
  else if base = "header" ∧ parentBase = some "column" then .header ((t.parent? i).getD i)
  else if parentBase = some "column" then .cellEditor
  else
    match ControlKind.ofLegacyBaseClass? base with
    | some kind => .control kind
    | none => .unmapped

/-- The kind of the control that a record becomes. -/
def kind? (t : Nesting) (i : Nat) : Option ControlKind :=
  match t.role i with
  | .control kind => some kind
  | _ => none

/-- The indices of all records. -/
def indices (t : Nesting) : List Nat := List.range t.records.length

/-- The containers around a record, from the inside out, at most `fuel` of them. -/
def containers (t : Nesting) : Nat → Nat → List Nat
  | 0, _ => []
  | fuel + 1, i =>
    match t.container? i with
    | none => []
    | some p => p :: t.containers fuel p

/-- Whether a record is among its own containers. -/
def inCycle (t : Nesting) (i : Nat) : Bool := i ∈ t.containers t.records.length i

/-- A number as a coordinate. -/
def coordinate (x : Option Float) (default : Int) : Int := (x.map Decimal.nearest).getD default

/-- The position that a record gives. -/
def ownOffset (t : Nesting) (i : Nat) : Int × Int :=
  (coordinate ((t.record i).number? ["Left"]) 0, coordinate ((t.record i).number? ["Top"]) 0)

/-- The position on the form, summed up with 32 bits, and the record on a cycle at which the sum
had to stop. -/
def place (t : Nesting) : Nat → Nat → (Int × Int) × Option Nat
  | 0, i => (t.ownOffset i, none)
  | fuel + 1, i =>
    let own := t.ownOffset i
    if t.inCycle i then (own, some i)
    else
      match t.container? i with
      | none => (own, none)
      | some p =>
        let (base, stop) := t.place fuel p
        (Decimal.wrapPlace (base.1 + own.1, base.2 + own.2), stop)

/-- The position of a record on the form. -/
def absolute (t : Nesting) (i : Nat) : (Int × Int) × Option Nat :=
  t.place (t.records.length + 1) i

/-- The container that becomes the parent of a control: one that may hold controls, for a control
that is not on a cycle. -/
def relativeParent? (t : Nesting) (i : Nat) : Option Nat :=
  (t.container? i).filter fun p =>
    ((t.kind? p).map ControlKind.holdsControls).getD false && !t.inCycle i

/-- The names of the controls, claimed in the order of the records. -/
def claimNames (t : Nesting) (registry : NameRegistry) : List (Option String) :=
  (t.indices.foldl (fun (names, registry) i =>
    match t.kind? i with
    | none => (names ++ [none], registry)
    | some _ =>
      let (name, registry) :=
        registry.claim (Text.trimmed (t.record i).objName) (t.record i).id
      (names ++ [some name], registry)) (([] : List (Option String)), registry)).1

/-- The page frame around a page. -/
def pageFrame? (t : Nesting) (i : Nat) : Option Nat :=
  (t.container? i).filter fun p => t.kind? p = some .pageframe

/-- The size of a control that gives none; a page takes the size of what it is in. -/
def sizeFallback (t : Nesting) (i : Nat) (kind : ControlKind) : Int × Int :=
  match kind, t.container? i with
  | .page, some frame =>
    (coordinate ((t.record frame).number? ["Width"]) 241,
      coordinate ((t.record frame).number? ["Height"]) 169)
  | kind, _ => kind.defaultSize

/-- The text of the header of a column, when it has one: the caption of its first header. -/
def headerText? (t : Nesting) (column : Nat) : Option String :=
  (t.indices.find? fun i => t.role i = .header column).map fun i =>
    ((t.record i).text? "Caption").getD ""

/-- The column that a record describes. -/
def gridColumn (t : Nesting) (i : Nat) : GridColumn :=
  let r := t.record i
  { field := (r.text? "ControlSource").getD ""
    header := (t.headerText? i).getD (Text.trimmed r.objName)
    width := (r.number? ["Width"]).map Decimal.nearest
    readOnly := (r.flag? "ReadOnly").getD false }

/-- The columns of a grid in the order of their records. -/
def columnsOf (t : Nesting) (grid : Nat) : List GridColumn :=
  (t.indices.filter fun i => t.role i = .column grid).map t.gridColumn

/-- The control that a record becomes, given the names of all controls. -/
def control (t : Nesting) (names : List (Option String)) (i : Nat) (kind : ControlKind) :
    Control :=
  let r := t.record i
  let parent := t.relativeParent? i
  let position := if parent.isSome then t.ownOffset i else (t.absolute i).1
  let size := t.sizeFallback i kind
  let props := PropertyTable.read r kind
  let frameName := if kind = .page then (t.pageFrame? i).bind fun p => (names[p]?).join else none
  { id := r.id
    kind
    name := ((names[i]?).join).getD ""
    x := position.1
    y := position.2
    width := coordinate (r.number? ["Width"]) size.1
    height := coordinate (r.number? ["Height"]) size.2
    parent := parent.map fun p => (t.record p).id
    props :=
      { props with
        columns := t.columnsOf i
        extra := match frameName with
          | some name => props.extra.insert ExtraKey.pageFrame (.text name)
          | none => props.extra } }

/-- The window that the form describes. -/
def window (t : Nesting) : Window :=
  match t.form.map t.record with
  | none => {}
  | some form =>
    let default : Window := {}
    let name := Text.trimmed form.objName
    { name
      caption := (form.text? "Caption").getD name
      x := coordinate (form.number? ["Left"]) default.x
      y := coordinate (form.number? ["Top"]) default.y
      width := coordinate (form.number? ["Width"]) default.width
      height := coordinate (form.number? ["Height"]) default.height
      minimizable := (form.flag? "MinButton").getD true
      maximizable := (form.flag? "MaxButton").getD true
      closable := (form.flag? "Closable").getD true
      movable := (form.flag? "Movable").getD true }

/-- The methods of the form. -/
def formMethods (t : Nesting) : List RecordMethod :=
  ((t.form.map t.record).map Record.methods).getD []

/-- The method of the form that is no known event. -/
def formMethod? (m : RecordMethod) : Option FormMethod :=
  match EventName.known? m.name with
  | some _ => none
  | none =>
    let (parameters, body) := Parameters.split m.body
    some ⟨m.name, parameters, body⟩

/-- The event bindings in the order in which they are stored: those of the form, then those of
the controls. -/
def bindings (t : Nesting) : List EventBinding :=
  (t.formMethods.filterMap fun m =>
    (EventName.known? m.name).map fun event => ⟨formOwner, event, m.body⟩) ++
  (t.indices.filter fun i => (t.kind? i).isSome).flatMap fun i =>
    (t.record i).methods.map fun m => ⟨(t.record i).id, EventName.normalize m.name, m.body⟩

/-- The remarks on records that no kind of control stands for. -/
def unmappedRemarks (t : Nesting) : List Diagnostic :=
  (t.indices.filter fun i => t.role i = .unmapped).map fun i =>
    let r := t.record i
    ⟨.info, "vfp9.unmapped_class", "record \x60" ++ r.objName ++ "\x60 of class \x60" ++
      baseClass r ++ "\x60 has no widget type", some r.line⟩

/-- The cycles at which the sums for controls on the form had to stop, each once. -/
def cycleStops (t : Nesting) : List Nat :=
  ((t.indices.filter fun i => (t.kind? i).isSome && (t.relativeParent? i).isNone).filterMap
    fun i => (t.absolute i).2).eraseDups

/-- The remarks on these cycles. -/
def cycleRemarks (t : Nesting) : List Diagnostic :=
  t.cycleStops.map fun i =>
    let r := t.record i
    ⟨.warning, "vfp9.parent_cycle",
      "parent chain of \x60" ++ r.objName ++ "\x60 loops back to itself", some r.line⟩

/-- The document that the records describe. -/
def document (t : Nesting) : Document :=
  let window := t.window
  let names := t.claimNames (NameRegistry.reserve {} window.name)
  { window
    controls := t.indices.filterMap fun i => (t.kind? i).map (t.control names i)
    events := t.bindings.foldl EventMap.bind SortedMap.empty
    methods := t.formMethods.filterMap formMethod? }

end Nesting

/-- Builds the document of a screen placed in pixels. -/
def build (records : List Record) : ImportOutcome :=
  let t := Nesting.ofRecords records
  { dialect := .vfp9
    document := t.document
    diagnostics := t.unmappedRemarks ++ t.cycleRemarks }

end ScreenForms.PixelScreen
