import ScreenForms.Config
import ScreenForms.Json.Reader
import ScreenForms.Toml.Document

/-!
# Reading configurations

A configuration is written in JSON or in TOML. Both know records, numbers, truth values and names,
and differ in how strictly they take them, so settings are read through the few questions of
`SettingData`. Settings that are left out keep their defaults, unknown ones are ignored, and the
result has to be usable.
-/

namespace ScreenForms

/-- Why there is no configuration. -/
inductive ConfigError where
  /-- a text that is no JSON, or holds a setting of a wrong type -/
  | json
  /-- a text that is no TOML, or holds a setting of a wrong type -/
  | toml
  /-- a configuration that cannot be used -/
  | unusable (complaints : List String)
  deriving DecidableEq, Repr

namespace ConfigError

/-- The text of an error. What exactly is wrong with a text is not said. -/
def message : ConfigError → String
  | .json => "JSON parse error:"
  | .toml => "TOML parse error:"
  | .unusable complaints => "validation errors: " ++ Text.join "; " complaints

end ConfigError

/-- A kind of data that settings are written in. -/
class SettingData (V : Type) where
  /-- the members of a record with the given fields -/
  record? : List String → V → Option (List (String × V))
  /-- a whole number between two bounds -/
  int? : Int → Int → V → Option Int
  float? : V → Option Float
  flag? : V → Option Bool
  /-- the name of an alternative without contents -/
  alternative? : V → Option String

instance : SettingData Json where
  record? := Json.asRecord?
  int? := Json.asInt?
  float? := Json.asFloat?
  flag? := Json.asBool?
  alternative? := Json.asAlternative?

instance : SettingData Toml where
  record? := Toml.asRecord?
  int? := Toml.asInt?
  float? := Toml.asFloat?
  flag? := Toml.asBool?
  alternative? := Toml.asAlternative?

namespace Config

section Reading

variable {V : Type}

/-- The setting with a name, or its default when it is left out. -/
def setting? {α : Type} (members : List (String × V)) (name : String) (default : α)
    (read? : V → Option α) : Option α :=
  match members.lookup name with
  | none => some default
  | some v => read? v

variable [SettingData V]

open SettingData

/-- A signed 32-bit number. -/
def size? (v : V) : Option Int := int? (-2147483648) 2147483647 v

/-- Reads the metrics of character cells. -/
def readCells? (v : V) : Option CellMetrics := do
  let members ← record?
    ["col_width", "row_height", "padding_left", "padding_top", "screen_cols", "screen_rows"] v
  let d : CellMetrics := {}
  let columnWidth ← setting? members "col_width" d.columnWidth size?
  let rowHeight ← setting? members "row_height" d.rowHeight size?
  let paddingLeft ← setting? members "padding_left" d.paddingLeft size?
  let paddingTop ← setting? members "padding_top" d.paddingTop size?
  let screenColumns ← setting? members "screen_cols" d.screenColumns size?
  let screenRows ← setting? members "screen_rows" d.screenRows size?
  some { columnWidth, rowHeight, paddingLeft, paddingTop, screenColumns, screenRows }

/-- Reads the metrics of the screen. -/
def readScreen? (v : V) : Option ScreenMetrics := do
  let members ← record? ["srows", "scols", "group_stride_x", "group_stride_y"] v
  let d : ScreenMetrics := {}
  let rows ← setting? members "srows" d.rows float?
  let columns ← setting? members "scols" d.columns float?
  let groupStrideX ← setting? members "group_stride_x" d.groupStrideX size?
  let groupStrideY ← setting? members "group_stride_y" d.groupStrideY size?
  some { rows, columns, groupStrideX, groupStrideY }

/-- Reads the name of a target. Targets go by their exact names here. -/
def readTarget? (v : V) : Option Target := (alternative? v).bind Target.ofName?

/-- Reads the options of exports. -/
def readExport? (v : V) : Option ExportOptions := do
  let members ← record? ["default_target", "translate_events", "translate_custom_methods"] v
  let d : ExportOptions := {}
  let defaultTarget ← setting? members "default_target" d.defaultTarget readTarget?
  let translateEvents ← setting? members "translate_events" d.translateEvents flag?
  let translateMethods ← setting? members "translate_custom_methods" d.translateMethods flag?
  some { defaultTarget, translateEvents, translateMethods }

/-- Reads all settings. -/
def readSettings? (v : V) : Option Config := do
  let members ← record? ["cells", "screen", "export"] v
  let d : Config := {}
  let cells ← setting? members "cells" d.cells readCells?
  let screen ← setting? members "screen" d.screen readScreen?
  let output ← setting? members "export" d.output readExport?
  some { cells, screen, output }

end Reading

/-- The configuration itself, when it can be used. -/
def checked (c : Config) : Except ConfigError Config :=
  match c.complaints with
  | [] => .ok c
  | complaints => .error (.unusable complaints)

/-- Reads a configuration in JSON. -/
def ofJsonText (text : String) : Except ConfigError Config :=
  match (Json.read? text).bind readSettings? with
  | some c => c.checked
  | none => .error .json

/-- Reads a configuration in TOML. -/
def ofTomlText (text : String) : Except ConfigError Config :=
  match (Toml.read? text).bind readSettings? with
  | some c => c.checked
  | none => .error .toml

open Json in
/-- The serialized form of a configuration. -/
def toJson (c : Config) : Json :=
  obj [("cells", obj [("col_width", int c.cells.columnWidth), ("row_height", int c.cells.rowHeight),
      ("padding_left", int c.cells.paddingLeft), ("padding_top", int c.cells.paddingTop),
      ("screen_cols", int c.cells.screenColumns), ("screen_rows", int c.cells.screenRows)]),
    ("screen", obj [("srows", float c.screen.rows), ("scols", float c.screen.columns),
      ("group_stride_x", int c.screen.groupStrideX),
      ("group_stride_y", int c.screen.groupStrideY)]),
    ("export", obj [("default_target", str c.output.defaultTarget.name),
      ("translate_events", bool c.output.translateEvents),
      ("translate_custom_methods", bool c.output.translateMethods)])]

end Config

end ScreenForms
