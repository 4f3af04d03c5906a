import ScreenForms.Record.Reader
import ScreenForms.Screen.Clause

/-!
# The parts of a screen program

A screen program is a main body and procedures, in any order. Each line is the header of a
procedure, the end of one, or belongs to the nearest header above it; lines with no open procedure
above them form the main body. From its lines a part is read as statements: a semicolon at the end
continues a statement on the next line, and comments do not count.
-/

namespace ScreenForms.Screen

/-- A statement on one line, and the line on which it begins. -/
structure Statement where
  line : Nat
  text : List Char
  deriving DecidableEq, Repr, Inhabited

/-- A procedure or function with the lines between its header and its end. -/
structure Procedure where
  name : String
  line : Nat
  source : List Record.NumberedLine
  deriving DecidableEq, Repr

/-! ## Statements -/

/-- Whether a line without blanks at its ends is a comment. -/
def isCommentLine (line : List Char) : Bool :=
  line.head? == some '*' || (Text.dropLeadNoCase? "note ".toList line).isSome ||
    Text.lower line == "note".toList

/-- A line without its remark and without blanks at its ends. -/
def bareLine (line : List Char) : List Char := Text.trim (Text.dropRemark line)

/-- What a line adds to its statement, and whether the statement goes on. -/
def continuation (bare : List Char) : List Char × Bool :=
  match Text.dropTail? [';'] bare with
  | some head => (Text.trimEnd head, true)
  | none => (bare, false)

/-- A finished statement, unless it is blank. -/
def emit (s : Statement) : List Statement := if (Text.trim s.text).isEmpty then [] else [s]

/-- The statements of a list of lines, given the statement that is still open. -/
def statementsFrom : Option Statement → List Record.NumberedLine → List Statement
  | none, [] => []
  | some s, [] => emit s
  | open?, line :: rest =>
    let bare := bareLine line.1
    let (part, continues) := continuation bare
    match open? with
    | none =>
      if isCommentLine bare then statementsFrom none rest
      else if continues then statementsFrom (some ⟨line.2, part⟩) rest
      else emit ⟨line.2, part⟩ ++ statementsFrom none rest
    | some s =>
      let s := { s with text := s.text ++ ' ' :: part }
      if continues then statementsFrom (some s) rest else emit s ++ statementsFrom none rest

/-- The statements of a list of lines. -/
def statements (lines : List Record.NumberedLine) : List Statement := statementsFrom none lines

/-! ## Procedures -/

/-- Whether a word opens a procedure or a function. -/
def isHeaderWord (word : List Char) : Bool :=
  isKeyword word "PROCEDURE" || isKeyword word "FUNCTION"

/-- The name in the header of a procedure or function. -/
def readHeader? (line : List Char) : Option (List Char) :=
  let start := line.dropWhile Text.isAsciiBlank
  let word := start.takeWhile fun c => !Text.isAsciiBlank c
  let rest := start.dropWhile fun c => !Text.isAsciiBlank c
  match rest.dropWhile Text.isAsciiBlank with
  | [] => none
  | c :: cs =>
    if isHeaderWord word && Record.isNameStart c then
      some (c :: cs.takeWhile Record.isWordChar)
    else none

/-- Whether a line is the end of a procedure or function. -/
def isEndMarker (line : List Char) : Bool :=
  let start := line.dropWhile Text.isAsciiBlank
  ["endproc", "endfunc"].any fun word =>
    match Text.dropLeadNoCase? word.toList start with
    | none => false
    | some [] => true
    | some (c :: _) => !Record.isWordChar c

/-- What a line is to the division of a program. -/
inductive LineKind where
  | header (name : List Char)
  | endMarker
  | plain
  deriving DecidableEq, Repr

/-- Classifies a line. -/
def lineKind (line : List Char) : LineKind :=
  match readHeader? line with
  | some name => .header name
  | none => if isEndMarker line then .endMarker else .plain

/-- A program in parts. -/
structure Program where
  /-- the lines that no procedure holds -/
  body : List Record.NumberedLine
  /-- the procedures in the order of their headers -/
  procedures : List Procedure
  deriving DecidableEq, Repr

/-- Divides lines into those that belong to what stands above them, up to the next header or end,
and the rest of the program. -/
def divide : List Record.NumberedLine → List Record.NumberedLine × Program
  | [] => ([], ⟨[], []⟩)
  | line :: rest =>
    let (own, program) := divide rest
    match lineKind line.1 with
    | .header name =>
      ([], { program with procedures := ⟨String.ofList name, line.2, own⟩ :: program.procedures })
    | .endMarker => ([], { program with body := own ++ program.body })
    | .plain => (line :: own, program)

/-- The lines of a text with their numbers and without carriage returns at their ends. -/
def programLines (text : String) : List Record.NumberedLine :=
  (Record.numberedLines text).map fun l => (Text.dropEndWhile (· == '\r') l.1, l.2)

/-- Divides a text into its main body and its procedures. -/
def Program.read (text : String) : Program :=
  let (own, program) := divide (programLines text)
  { program with body := own ++ program.body }

namespace Procedure

/-- The lines of a procedure up to the last that is not blank. -/
def sourceLines (p : Procedure) : List (List Char) :=
  ((p.source.map Prod.fst).reverse.dropWhile fun l => (Text.trim l).isEmpty).reverse

/-- A line as a comment. -/
def commentLine (line : List Char) : List Char :=
  let line := Text.trimEnd line
  if line.isEmpty then ['*'] else '*' :: ' ' :: line

/-- A comment in place of the procedure that holds its source. -/
def placeholder (p : Procedure) : String :=
  let first := "* Screen procedure ".toList ++ p.name.toList ++
    " (original body kept as comment)".toList
  String.ofList (Text.joinWith ['\n'] (first :: p.sourceLines.map commentLine))

/-- The names that the first statement of the procedure declares as parameters. -/
def parameters (p : Procedure) : List String :=
  match (statements p.source).head? with
  | none => []
  | some first =>
    match Text.words first.text with
    | word :: rest =>
      if isKeyword word "PARAMETERS" || isKeyword word "LPARAMETERS" then
        (((Text.splitTopLevel ',' (Text.unwords rest)).map Text.trim).filter
          fun name => !name.isEmpty).map String.ofList
      else []
    | [] => []

end Procedure

end ScreenForms.Screen
