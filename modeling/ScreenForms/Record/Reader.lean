import ScreenForms.Diagnostic
import ScreenForms.Digest.Sha256
import ScreenForms.Record.Basic

/-!
# Reading records

A source is cut at its lines `[ RECORD]`. Each section is read on its own, line by line: keys in
square brackets, a block of properties, a block of methods and reserved blocks to skip. A section
gives a record when it names its object, and the ids of the records depend on their names,
parents and positions among the records alone.
-/

namespace ScreenForms

/-- A short id that depends on the bytes of a content alone. -/
def contentId (content : List UInt8) : ControlId :=
  String.ofList ('w' :: ((Digest.Sha256.hash content).take 5).flatMap Color.hexByte)

namespace Record

/-- A line with its number, counted from one. -/
abbrev NumberedLine := List Char × Nat

/-! ## The forms of lines -/

/-- The line that opens a record. -/
def isDelimiter (line : List Char) : Bool := Text.trim line == "[ RECORD]".toList

/-- ASCII letters, digits and the underscore. -/
def isWordChar (c : Char) : Bool := c.isAlphanum || c == '_'

/-- A character that may begin a name. -/
def isNameStart (c : Char) : Bool := c.isAlpha || c == '_'

/-- A character within a name, which may have several parts with dots between them. -/
def isNameChar (c : Char) : Bool := isWordChar c || c == '.'

/-- A name at the front of a text and what follows it. -/
def spanName? : List Char → Option (List Char × List Char)
  | [] => none
  | c :: cs =>
    if isNameStart c then some (c :: cs.takeWhile isNameChar, cs.dropWhile isNameChar) else none

/-- A key in square brackets, without blanks at its ends and in upper case, and the value behind
it. -/
def readKey? : List Char → Option (List Char × List Char)
  | '[' :: cs =>
    let inner := cs.takeWhile fun c => isWordChar c || c == ' '
    match cs.dropWhile fun c => isWordChar c || c == ' ' with
    | ']' :: value =>
      if inner.isEmpty then none else some (Text.upper (Text.trim inner), Text.trim value)
    | _ => none
  | _ => none

/-- A name, an equals sign and the text of a value. -/
def readProperty? (cs : List Char) : Option (List Char × List Char) := do
  let (name, rest) ← spanName? cs
  match rest.dropWhile Text.isAsciiBlank with
  | '=' :: value => some (name, value)
  | _ => none

/-- The name behind the word `PROCEDURE`. -/
def readProcedure? (cs : List Char) : Option (List Char) := do
  let rest ← Text.dropLeadNoCase? "procedure".toList (cs.dropWhile Text.isAsciiBlank)
  let name := rest.dropWhile Text.isAsciiBlank
  if rest.length = name.length then none else (spanName? name).map Prod.fst

/-- Whether a line starts with the word `ENDPROC`. -/
def isEndProcedure (cs : List Char) : Bool :=
  match Text.dropLeadNoCase? "endproc".toList (cs.dropWhile Text.isAsciiBlank) with
  | none => false
  | some [] => true
  | some (c :: _) => !isWordChar c

/-! ## Methods -/

/-- The lines without blank lines at both ends. -/
def trimLines (ls : List (List Char)) : List (List Char) :=
  let isBlankLine (l : List Char) : Bool := (Text.trim l).isEmpty
  ((ls.dropWhile isBlankLine).reverse.dropWhile isBlankLine).reverse

/-- A method from its name and the lines of its body. -/
def methodOfLines (name : List Char) (body : List (List Char)) : RecordMethod :=
  ⟨String.ofList name, String.ofList (Text.joinWith ['\n'] (trimLines body))⟩

/-- The lines up to the next procedure, and the procedures from there on with their lines. -/
def cutAtProcedures : List (List Char) → List (List Char) × List (List Char × List (List Char))
  | [] => ([], [])
  | line :: rest =>
    let (body, procedures) := cutAtProcedures rest
    match readProcedure? line with
    | some name => ([], (name, body) :: procedures)
    | none => if isEndProcedure line then (body, procedures) else (line :: body, procedures)

/-- The methods of a block. Lines before the first procedure belong to none. -/
def readMethods (block : List (List Char)) : List RecordMethod :=
  (cutAtProcedures block).2.map fun p => methodOfLines p.1 p.2

/-! ## Sections -/

/-- The part of a section that a line stands in. -/
inductive Mode where
  | header
  | properties
  | methods
  | reserved
  deriving DecidableEq, Repr

/-- What has been read of a section. Before the first delimiter there is no record to fill. -/
structure Draft where
  record : Option Record
  mode : Mode := .header
  /-- the lines of the open block of methods -/
  methodLines : List (List Char) := []
  diagnostics : List Diagnostic := []

namespace Draft

/-- Leaves a line out and says so. -/
def skip (d : Draft) (line : Nat) (code : String) (text : List Char) : Draft :=
  { d with diagnostics := d.diagnostics ++
      [⟨.info, code, "skipped \x60" ++ String.ofList text ++ "\x60", some line⟩] }

/-- Takes the lines of the open block of methods over into the record. -/
def closeMethods (d : Draft) : Draft :=
  { d with
    record := d.record.map fun r => { r with methods := readMethods d.methodLines }
    methodLines := [] }

/-- Sets the field of the record that a key names; other keys mean nothing. -/
def setField (key value : String) (r : Record) : Record :=
  match key with
  | "PLATFORM" => { r with platform := value }
  | "UNIQUEID" => { r with uniqueId := value }
  | "TIMESTAMP" => { r with timestamp := value }
  | "CLASS" => { r with className := value }
  | "CLASSLOC" => { r with classLoc := value }
  | "BASECLASS" => { r with baseClass := value }
  | "OBJNAME" => { r with objName := value }
  | "PARENT" => { r with parent := value }
  | _ => r

/-- Reads a line that starts with a square bracket. -/
def keyLine (d : Draft) (line : Nat) (text : List Char) : Draft :=
  match readKey? text with
  | none => d.skip line "record.malformed_key" text
  | some (key, value) =>
    if key = "START PROPERTIES".toList then { d with mode := .properties }
    else if key = "END PROPERTIES".toList then { d with mode := .header }
    else if key = "START METHODS".toList then { d with mode := .methods, methodLines := [] }
    else if (Text.dropLead? "START RESERVED".toList key).isSome then { d with mode := .reserved }
    else if (Text.dropLead? "END RESERVED".toList key).isSome then { d with mode := .header }
    else
      match d.record with
      | none => d.skip line "record.key_outside_record" text
      | some r => { d with record := some (setField (String.ofList key) (String.ofList value) r) }

/-- Reads a line of the block of properties. -/
def propertyLine (d : Draft) (line : Nat) (text : List Char) : Draft :=
  if text.isEmpty then d
  else
    match readProperty? text with
    | none => d.skip line "record.malformed_property" text
    | some (name, value) =>
      match d.record with
      | none => d.skip line "record.property_outside_record" text
      | some r =>
        let property := (String.ofList name, Value.sniff (String.ofList value))
        { d with record := some { r with properties := r.properties ++ [property] } }

/-- Reads one line. -/
def step (d : Draft) (numbered : NumberedLine) : Draft :=
  let line := Text.dropEndWhile (· == '\r') numbered.1
  let text := Text.trim line
  match d.mode with
  | .methods =>
    if Text.lower text = "[end methods]".toList then { d.closeMethods with mode := .header }
    else { d with methodLines := d.methodLines ++ [line] }
  | .reserved =>
    if (Text.dropLeadNoCase? "[end reserved".toList text).isSome then { d with mode := .header }
    else d
  | .properties =>
    if Text.lower text = "[end properties]".toList then { d with mode := .header }
    else if text.head? = some '[' then d.keyLine numbered.2 text
    else d.propertyLine numbered.2 text
  | .header =>
    if text.isEmpty then d
    else if text.head? = some '[' then d.keyLine numbered.2 text
    else d.skip numbered.2 "record.stray_line" text

/-- A block of methods that is still open at the end of its section counts as closed. -/
def finish (d : Draft) : Draft := if d.mode = .methods then d.closeMethods else d

end Draft

/-- What a section holds, from the record it fills and its lines. -/
def readSection (record : Option Record) (body : List NumberedLine) : Draft :=
  (body.foldl Draft.step { record }).finish

/-- The lines before the first delimiter, and for each delimiter its line number and the lines
up to the next one. -/
def cutAtDelimiters : List NumberedLine → List NumberedLine × List (Nat × List NumberedLine)
  | [] => ([], [])
  | line :: rest =>
    let (body, sections) := cutAtDelimiters rest
    if isDelimiter line.1 then ([], (line.2, body) :: sections) else (line :: body, sections)

/-- What the record with the given position among the records is recognised by. -/
def identity (position : Nat) (r : Record) : List UInt8 :=
  (Decimal.intText position ++ "\x00" ++ r.parent ++ "\x00" ++ r.objName).toUTF8.data.toList

/-- The records of a source and the remarks on what was left out of them. -/
structure Listing where
  records : List Record
  diagnostics : List Diagnostic
  deriving DecidableEq, Repr

/-- Whether a record names its object. -/
def isNamed (r : Record) : Bool := !(Text.trim r.objName.toList).isEmpty

/-- The lines of a text with their numbers. -/
def numberedLines (text : String) : List NumberedLine := (Text.lines text.toList).zipIdx 1

/-- The characters of a text decide what its lines are. -/
theorem numberedLines_of_toList {text : String} {cs : List Char} (h : text.toList = cs) :
    numberedLines text = (Text.lines cs).zipIdx 1 := by
  rw [numberedLines, h]

/-- Reads all records of the lines of a source. -/
def readLines (source : List NumberedLine) : Listing :=
  let (preamble, sections) := cutAtDelimiters source
  let drafts := readSection none preamble ::
    sections.map fun s => readSection (some { line := s.1 }) s.2
  let records := (drafts.filterMap Draft.record).filter isNamed
  { records := records.zipIdx.map fun r => { r.1 with id := contentId (identity r.2 r.1) }
    diagnostics := drafts.flatMap Draft.diagnostics }

/-- Reads all records of a source. -/
def readAll (source : String) : Listing := readLines (numberedLines source)

end Record

end ScreenForms
