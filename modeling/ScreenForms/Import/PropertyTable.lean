import ScreenForms.Record.Basic

/-!
# From record properties to control properties

Which legacy property becomes which field of a control. Properties without a field of their own
are kept among the extra values, under a key of their own or under their legacy name.
-/

namespace ScreenForms.PropertyTable

/-- Legacy names of the extra values that have a key of their own. -/
def extraNames : List (String × String) :=
  [(ExtraKey.value, "Value"), (ExtraKey.minimum, "SpinnerLowValue"),
    (ExtraKey.maximum, "SpinnerHighValue"), (ExtraKey.picture, "Picture"),
    (ExtraKey.controlSource, "ControlSource"), (ExtraKey.defaultButton, "Default"),
    (ExtraKey.cancelButton, "Cancel"), (ExtraKey.border, "BorderStyle")]

/-- Second spellings of the bounds of a spinner. -/
def olderNames : List (String × String) :=
  [("SpinnerLow", ExtraKey.minimum), ("SpinnerHigh", ExtraKey.maximum)]

/-- The legacy properties that are mapped to something. -/
def mapped : List String :=
  ["Name", "Caption", "Value", "Left", "Top", "Width", "Height", "Visible", "Enabled",
    "ForeColor", "BackColor", "FontName", "FontSize", "FontBold", "FontItalic", "RowSource",
    "SpinnerLowValue", "SpinnerHighValue", "Picture", "ControlSource", "Default", "Cancel",
    "BorderStyle"]

/-- Whether a legacy property is mapped to something. -/
def isMapped (name : String) : Bool :=
  mapped.any (Text.sameName · name) || olderNames.any fun e => Text.sameName e.1 name

/-- The entries of a list written on one line: between semicolons, or between commas when there
is no semicolon. Blank entries do not count. -/
def splitItems (source : String) : List String :=
  let cs := source.toList
  let separator := if ';' ∈ cs then ';' else ','
  (((Text.splitOn separator cs).map Text.trim).filter fun item => !item.isEmpty).map String.ofList

/-- The property that holds the text of a kind of control, and the one that does not. -/
def textProperties (kind : ControlKind) : String × String :=
  if kind.textIsValue then ("Value", "Caption") else ("Caption", "Value")

/-- The extra values of a record, in the order in which they are set: the text property that
holds no text, the values with keys of their own, the older spellings where these left a gap, and
the unmapped properties under their legacy names. -/
def extraValues (r : Record) (kind : ControlKind) : SortedMap Value :=
  let second := (textProperties kind).2
  let secondKey := if second = "Value" then ExtraKey.value else second
  let put (m : SortedMap Value) (key : String) (v : Option Value) : SortedMap Value :=
    match v with
    | some v => m.insert key v
    | none => m
  let text := put SortedMap.empty secondKey (r.property? second)
  let keyed := (extraNames.filter fun e => e.1 != ExtraKey.value).foldl
    (fun m e => put m e.1 (r.property? e.2)) text
  let older := olderNames.foldl
    (fun m e => if (m.get? e.2).isSome then m else put m e.2 (r.property? e.1)) keyed
  (r.properties.filter fun p => !isMapped p.1).foldl (fun m p => m.insert p.1 p.2) older

/-- The properties of a control of the given kind. Grid columns come from other records. -/
def read (r : Record) (kind : ControlKind) : Properties :=
  { text := r.text? (textProperties kind).1
    visible := (r.flag? "Visible").getD true
    enabled := (r.flag? "Enabled").getD true
    style :=
      { foreColor := (r.property? "ForeColor").bind Color.ofValue?
        backColor := (r.property? "BackColor").bind Color.ofValue?
        fontName := r.text? "FontName"
        fontSize := r.number? ["FontSize"]
        fontBold := (r.flag? "FontBold").getD false
        fontItalic := (r.flag? "FontItalic").getD false }
    items := ((r.text? "RowSource").map splitItems).getD []
    columns := []
    extra := extraValues r kind }

end ScreenForms.PropertyTable
