import ScreenForms.Form.Nesting
import ScreenForms.Import.PropertyTable

/-!
# Writing records

A document is written as one record for the form and one for each control, in the order of the
controls; the columns of a grid and their headers follow their grid as records of their own.
Positions of pages are written relative to their page frame. Only what differs from the defaults
is written.
-/

namespace ScreenForms

/-- A record as it is written: its values are texts already. -/
structure WrittenRecord where
  /-- the class, which is its own base class -/
  className : String
  name : String
  /-- the path of what holds the object, empty for the form -/
  parent : String := ""
  uniqueId : String
  properties : List (String × String) := []
  methods : List RecordMethod := []
  deriving DecidableEq, Repr

namespace WrittenRecord

/-- The lines of a block between a first and a last line; none at all for an empty block. -/
def block (first last : String) (body : List String) : List String :=
  if body.isEmpty then [] else first :: body ++ [last]

/-- The lines of one method. -/
def methodLines (m : RecordMethod) : List String :=
  ["PROCEDURE " ++ m.name] ++ (if m.body.isEmpty then [] else [m.body]) ++ ["ENDPROC"]

/-- The lines of a record; a blank line follows it. -/
def lines (r : WrittenRecord) : List String :=
  ["[ RECORD]", "[PLATFORM] WINDOWS", "[UNIQUEID] " ++ r.uniqueId, "[CLASS] " ++ r.className,
    "[BASECLASS] " ++ r.className, "[OBJNAME] " ++ r.name] ++
  (if r.parent.isEmpty then [] else ["[PARENT] " ++ r.parent]) ++
  block "[START PROPERTIES]" "[END PROPERTIES]"
    (r.properties.map fun p => p.1 ++ " = " ++ p.2) ++
  block "[START METHODS]" "[END METHODS]" (r.methods.flatMap methodLines) ++
  [""]

end WrittenRecord

namespace RecordWriter

/-- An identifier of nine letters and digits that depends on a seed: zeros are put in front when
the seed has fewer. -/
def uniqueId (seed : String) : String :=
  let own := Text.upper ((seed.toList.filter Char.isAlphanum).take 9)
  String.ofList ('_' :: List.replicate (9 - own.length) '0' ++ own)

/-- A property with a text. -/
def textProperty (name text : String) : String × String := (name, (Value.text text).toLegacy)

/-- A property with a truth value, written only when it has the given one. -/
def flagProperty (name : String) (value written : Bool) : List (String × String) :=
  if value = written then [(name, (Value.flag value).toLegacy)] else []

/-- A property that may be absent. -/
def optionalProperty {α : Type} (name : String) (write : α → String) :
    Option α → List (String × String)
  | none => []
  | some a => [(name, write a)]

/-- Position and size. -/
def geometry (position : Int × Int) (width height : Int) : List (String × String) :=
  [("Left", Decimal.intText position.1), ("Top", Decimal.intText position.2),
    ("Width", Decimal.intText width), ("Height", Decimal.intText height)]

/-- Colors and font. -/
def styleProperties (s : Style) : List (String × String) :=
  optionalProperty "ForeColor" (fun c => Decimal.intText (Color.packed c)) s.foreColor ++
  optionalProperty "BackColor" (fun c => Decimal.intText (Color.packed c)) s.backColor ++
  optionalProperty "FontName" (fun name => (Value.text name).toLegacy) s.fontName ++
  optionalProperty "FontSize" Decimal.plainText s.fontSize ++
  flagProperty "FontBold" s.fontBold true ++
  flagProperty "FontItalic" s.fontItalic true

/-- The legacy name of an extra value. -/
def extraName (key : String) : String :=
  ((PropertyTable.extraNames.find? fun e => e.1 == key).map Prod.snd).getD key

/-- The extra values. The page frame of a page is written as its parent and not as a value. -/
def extraProperties (extra : SortedMap Value) : List (String × String) :=
  (extra.entries.filter fun e => e.1 != ExtraKey.pageFrame).map
    fun e => (extraName e.1, e.2.toLegacy)

/-- All properties of a control but its position and size. -/
def ownProperties (c : Control) : List (String × String) :=
  let p := c.props
  optionalProperty (PropertyTable.textProperties c.kind).1 (fun t => (Value.text t).toLegacy)
    p.text ++
  flagProperty "Visible" p.visible false ++
  flagProperty "Enabled" p.enabled false ++
  styleProperties p.style ++
  (if p.items.isEmpty then [] else [textProperty "RowSource" (Text.join ";" p.items)]) ++
  extraProperties p.extra

/-- The methods that carry the events of an owner. -/
def eventMethods (doc : Document) (owner : ControlId) : List RecordMethod :=
  (EventMap.ofOwner doc.events owner).map fun b => ⟨b.event, b.code⟩

/-- A free method; its parameters are declared on the first line of its body. -/
def freeMethod (m : FormMethod) : RecordMethod :=
  ⟨m.name,
    if m.parameters.isEmpty then m.body
    else "LPARAMETERS " ++ Text.join ", " m.parameters ++ "\n" ++ m.body⟩

/-- The record of the form. -/
def formRecord (doc : Document) : WrittenRecord :=
  let w := doc.window
  { className := "form"
    name := w.name
    uniqueId := uniqueId formOwner
    properties :=
      textProperty "Caption" w.caption :: geometry (w.x, w.y) w.width w.height ++
        flagProperty "MinButton" w.minimizable false ++
        flagProperty "MaxButton" w.maximizable false ++
        flagProperty "Closable" w.closable false ++
        flagProperty "Movable" w.movable false
    methods := eventMethods doc formOwner ++ doc.methods.map freeMethod }

/-- The name of the column with the given number, counted from one. -/
def columnName (number : Nat) : String := "Column" ++ Decimal.intText number

/-- The record of a column of the grid with the given path. -/
def columnRecord (grid : Control) (gridPath : String) (column : GridColumn) (number : Nat) :
    WrittenRecord :=
  { className := "column"
    name := columnName number
    parent := gridPath
    uniqueId := uniqueId (grid.id ++ columnName number)
    properties :=
      (if column.field.isEmpty then [] else [textProperty "ControlSource" column.field]) ++
        optionalProperty "Width" Decimal.intText column.width ++
        flagProperty "ReadOnly" column.readOnly true }

/-- The record of the header of a column. -/
def headerRecord (grid : Control) (gridPath : String) (column : GridColumn) (number : Nat) :
    WrittenRecord :=
  { className := "header"
    name := "Header1"
    parent := gridPath ++ "." ++ columnName number
    uniqueId := uniqueId (grid.id ++ columnName number ++ "H")
    properties := [textProperty "Caption" column.header] }

/-- The columns that are written for a control: only a grid has some. -/
def writtenColumns (c : Control) : List (GridColumn × Nat) :=
  (if c.kind = .grid then c.props.columns else []).zipIdx 1

/-- The position that is written for a control: that of a page is relative to its frame. -/
def writtenPosition (doc : Document) (c : Control) : Except DocumentError (Int × Int) :=
  match doc.pageFrameOf? c with
  | none => .ok (c.x, c.y)
  | some frame =>
    match doc.absolutePosition frame.id with
    | .ok (x, y) => .ok (Decimal.wrapPlace (c.x - x, c.y - y))
    | .error e => .error e

/-- The record of a control itself, for the path of what holds it and its written position. -/
def ownRecord (doc : Document) (c : Control) (parent : String) (position : Int × Int) :
    WrittenRecord :=
  { className := c.kind.legacyBaseClass
    name := c.name
    parent
    uniqueId := uniqueId c.id
    properties := geometry position c.width c.height ++ ownProperties c
    methods := eventMethods doc c.id }

/-- The records of a control: its own and those of its columns if it is a grid. -/
def controlRecords (doc : Document) (c : Control) :
    Except DocumentError (List WrittenRecord) := do
  let parent ← doc.holderPath c
  let position ← writtenPosition doc c
  let path := parent ++ "." ++ c.name
  return ownRecord doc c parent position :: (writtenColumns c).flatMap fun column =>
    [columnRecord c path column.1 column.2, headerRecord c path column.1 column.2]

end RecordWriter

/-- The records of a document. It has to be sound, and what holds its controls must not go round
in a circle. -/
def Document.toRecords (doc : Document) : Except DocumentError (List WrittenRecord) := do
  doc.validate
  let records ← doc.controls.mapM (RecordWriter.controlRecords doc)
  return RecordWriter.formRecord doc :: records.flatten

/-- The legacy text of a document. -/
def Document.toLegacy (doc : Document) : Except DocumentError String := do
  let records ← doc.toRecords
  return Text.unlines (records.flatMap WrittenRecord.lines)

end ScreenForms
