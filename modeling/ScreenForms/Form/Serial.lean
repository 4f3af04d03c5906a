import ScreenForms.Form.Document
import ScreenForms.Json.Basic

/-!
# The serialized form of documents

Documents are exchanged as JSON objects. A field that may be absent is written as `null`, or left
out where its absence is the usual case; reading takes both spellings, ignores members it does not
know and refuses everything of a wrong type. Reading what was written gives the document back.
-/

namespace ScreenForms.Serial

open Json

/-! ## Writing -/

/-- The value, or `null` when there is none. -/
def optionJson {α : Type} (f : α → Json) : Option α → Json
  | none => null
  | some a => f a

/-- One member, left out when the list is empty. -/
def listMember {α : Type} (name : String) (f : α → Json) (l : List α) : List (String × Json) :=
  if l.isEmpty then [] else [(name, arr (l.map f))]

/-- A value with the name of its kind. -/
def valueJson : Value → Json
  | .text s => obj [("kind", str "text"), ("value", str s)]
  | .flag b => obj [("kind", str "bool"), ("value", bool b)]
  | .number x => obj [("kind", str "number"), ("value", float x)]
  | .expr s => obj [("kind", str "expr"), ("value", str s)]

/-- A color as its three parts. -/
def colorJson (c : Color) : Json :=
  obj [("r", int c.red.toNat), ("g", int c.green.toNat), ("b", int c.blue.toNat)]

/-- A style; all of its fields are written. -/
def styleJson (s : Style) : Json :=
  obj [("fore_color", optionJson colorJson s.foreColor),
    ("back_color", optionJson colorJson s.backColor),
    ("font_name", optionJson str s.fontName),
    ("font_size", optionJson float s.fontSize),
    ("font_bold", bool s.fontBold),
    ("font_italic", bool s.fontItalic)]

/-- A column of a grid. -/
def columnJson (c : GridColumn) : Json :=
  obj [("field", str c.field), ("header", str c.header), ("width", optionJson int c.width),
    ("read_only", bool c.readOnly)]

/-- What a control shows. Empty lists and maps are left out. -/
def propertiesJson (p : Properties) : Json :=
  obj ([("text", optionJson str p.text), ("visible", bool p.visible),
      ("enabled", bool p.enabled), ("style", styleJson p.style)] ++
    listMember "items" str p.items ++ listMember "columns" columnJson p.columns ++
    if p.extra.isEmpty then []
    else [("extra", obj (p.extra.entries.map fun e => (e.1, valueJson e.2)))])

/-- A control; one without a parent has no member for it. -/
def controlJson (c : Control) : Json :=
  obj ([("id", str c.id), ("type", str c.kind.name), ("name", str c.name), ("x", int c.x),
      ("y", int c.y), ("width", int c.width), ("height", int c.height)] ++
    (match c.parent with
      | none => []
      | some parent => [("parent_id", str parent)]) ++
    [("props", propertiesJson c.props)])

/-- The window of a form. -/
def windowJson (w : Window) : Json :=
  obj [("name", str w.name), ("caption", str w.caption), ("x", int w.x), ("y", int w.y),
    ("width", int w.width), ("height", int w.height), ("minimizable", bool w.minimizable),
    ("maximizable", bool w.maximizable), ("closable", bool w.closable),
    ("movable", bool w.movable)]

/-- An event with its code. -/
def bindingJson (b : EventBinding) : Json :=
  obj [("owner", str b.owner), ("event", str b.event), ("code", str b.code)]

/-- A method of the form. -/
def methodJson (m : FormMethod) : Json :=
  obj [("name", str m.name), ("parameters", arr (m.parameters.map str)), ("body", str m.body)]

/-- The serialized form of a document. -/
def documentJson (doc : Document) : Json :=
  obj [("form", windowJson doc.window), ("nodes", arr (doc.controls.map controlJson)),
    ("events", obj (doc.events.entries.map fun e => (e.1, bindingJson e.2))),
    ("methods", arr (doc.methods.map methodJson))]

/-! ## Reading -/

/-- A member that has to be there. -/
def required? {α : Type} (members : List (String × Json)) (name : String)
    (read? : Json → Option α) : Option α :=
  (lookup? name members).bind read?

/-- A member that stands for nothing when it is absent or `null`. -/
def optional? {α : Type} (members : List (String × Json)) (name : String)
    (read? : Json → Option α) : Option (Option α) :=
  match lookup? name members with
  | none => some none
  | some v => asOption? read? v

/-- A member with a value to take when it is absent. -/
def defaulted? {α : Type} (members : List (String × Json)) (name : String) (default : α)
    (read? : Json → Option α) : Option α :=
  match lookup? name members with
  | none => some default
  | some v => read? v

/-- A signed 32-bit number. -/
def asInt32? : Json → Option Int := asInt? (-2147483648) 2147483647

/-- An 8-bit number. -/
def asByte? (v : Json) : Option UInt8 := (asInt? 0 255 v).map fun n => UInt8.ofNat n.toNat

/-- Reads a value; what its content may be depends on the name of its kind. -/
def readValue? (v : Json) : Option Value := do
  let members ← asRecord? ["kind", "value"] v
  let content ← lookup? "value" members
  match ← required? members "kind" asAlternative? with
  | "text" => content.asString?.map .text
  | "bool" => content.asBool?.map .flag
  | "number" => content.asFloat?.map .number
  | "expr" => content.asString?.map .expr
  | _ => none

/-- Reads a color. -/
def readColor? (v : Json) : Option Color := do
  let members ← asRecord? ["r", "g", "b"] v
  let red ← required? members "r" asByte?
  let green ← required? members "g" asByte?
  let blue ← required? members "b" asByte?
  some { red, green, blue }

/-- Reads a style. Colors and the font may be absent. -/
def readStyle? (v : Json) : Option Style := do
  let members ← asRecord?
    ["fore_color", "back_color", "font_name", "font_size", "font_bold", "font_italic"] v
  let foreColor ← optional? members "fore_color" readColor?
  let backColor ← optional? members "back_color" readColor?
  let fontName ← optional? members "font_name" asString?
  let fontSize ← optional? members "font_size" asFloat?
  let fontBold ← required? members "font_bold" asBool?
  let fontItalic ← required? members "font_italic" asBool?
  some { foreColor, backColor, fontName, fontSize, fontBold, fontItalic }

/-- Reads a column of a grid. -/
def readColumn? (v : Json) : Option GridColumn := do
  let members ← asRecord? ["field", "header", "width", "read_only"] v
  let field ← required? members "field" asString?
  let header ← required? members "header" asString?
  let width ← optional? members "width" asInt32?
  let readOnly ← required? members "read_only" asBool?
  some { field, header, width, readOnly }

/-- The members of an object as a map; of two members with one name the later counts. -/
def readMap? {α : Type} (read? : Json → Option α) : Json → Option (SortedMap α)
  | obj members => (members.mapM fun m => (read? m.2).map fun v => (m.1, v)).map SortedMap.ofList
  | _ => none

/-- Reads what a control shows. -/
def readProperties? (v : Json) : Option Properties := do
  let members ← asRecord? ["text", "visible", "enabled", "style", "items", "columns", "extra"] v
  let text ← optional? members "text" asString?
  let visible ← required? members "visible" asBool?
  let enabled ← required? members "enabled" asBool?
  let style ← required? members "style" readStyle?
  let items ← defaulted? members "items" [] (asList? asString?)
  let columns ← defaulted? members "columns" [] (asList? readColumn?)
  let extra ← defaulted? members "extra" SortedMap.empty (readMap? readValue?)
  some { text, visible, enabled, style, items, columns, extra }

/-- Reads the name of a kind of control. -/
def readKind? (v : Json) : Option ControlKind := v.asAlternative?.bind ControlKind.ofName?

/-- Reads a control. -/
def readControl? (v : Json) : Option Control := do
  let members ← asRecord?
    ["id", "type", "name", "x", "y", "width", "height", "parent_id", "props"] v
  let id ← required? members "id" asString?
  let kind ← required? members "type" readKind?
  let name ← required? members "name" asString?
  let x ← required? members "x" asInt32?
  let y ← required? members "y" asInt32?
  let width ← required? members "width" asInt32?
  let height ← required? members "height" asInt32?
  let parent ← optional? members "parent_id" asString?
  let props ← required? members "props" readProperties?
  some { id, kind, name, x, y, width, height, parent, props }

/-- Reads the window of a form. -/
def readWindow? (v : Json) : Option Window := do
  let members ← asRecord?
    ["name", "caption", "x", "y", "width", "height", "minimizable", "maximizable", "closable",
      "movable"] v
  let name ← required? members "name" asString?
  let caption ← required? members "caption" asString?
  let x ← required? members "x" asInt32?
  let y ← required? members "y" asInt32?
  let width ← required? members "width" asInt32?
  let height ← required? members "height" asInt32?
  let minimizable ← required? members "minimizable" asBool?
  let maximizable ← required? members "maximizable" asBool?
  let closable ← required? members "closable" asBool?
  let movable ← required? members "movable" asBool?
  some { name, caption, x, y, width, height, minimizable, maximizable, closable, movable }

/-- Reads an event with its code. -/
def readBinding? (v : Json) : Option EventBinding := do
  let members ← asRecord? ["owner", "event", "code"] v
  let owner ← required? members "owner" asString?
  let event ← required? members "event" asString?
  let code ← required? members "code" asString?
  some { owner, event, code }

/-- Reads a method of the form. -/
def readMethod? (v : Json) : Option FormMethod := do
  let members ← asRecord? ["name", "parameters", "body"] v
  let name ← required? members "name" asString?
  let parameters ← defaulted? members "parameters" [] (asList? asString?)
  let body ← required? members "body" asString?
  some { name, parameters, body }

/-- Reads a document from its serialized form. -/
def readDocument? (v : Json) : Option Document := do
  let members ← asRecord? ["form", "nodes", "events", "methods"] v
  let window ← required? members "form" readWindow?
  let controls ← required? members "nodes" (asList? readControl?)
  let events ← defaulted? members "events" SortedMap.empty (readMap? readBinding?)
  let methods ← defaulted? members "methods" [] (asList? readMethod?)
  some { window, controls, events, methods }

end ScreenForms.Serial
