import ScreenForms.Command.Arguments
import ScreenForms.ConfigReader
import ScreenForms.Export
import ScreenForms.Form.Serial
import ScreenForms.Json.Printer
import ScreenForms.Record.Writer
import ScreenForms.Text.Utf8

/-!
# Running commands

A command reads at most a configuration and one input, and what it does with them is a list of
actions that is settled before the first one is carried out. Whoever carries them out stops at the
first file that cannot be written.
-/

namespace ScreenForms.Command

/-! ## What is read -/

/-- What is found under a path. -/
inductive Source where
  | missing
  /-- something that is there but cannot be read -/
  | unreadable (reason : String)
  | content (bytes : List UInt8)
  deriving DecidableEq, Repr

/-- Everything that a command can read. -/
structure Inputs where
  file : String → Source
  stdin : List UInt8

/-- The complaint about a text that has to be UTF-8 and is not. -/
def notUtf8 : String := "stream did not contain valid UTF-8"

/-- Why a command fails. -/
inductive Failure where
  | missingPath (path : String)
  | unreadable (reason : String)
  | unreadableConfig (reason : String)
  /-- a document that does not decode -/
  | undecodable
  | config (error : ConfigError)
  | document (error : DocumentError)
  deriving DecidableEq, Repr

namespace Failure

/-- The text of a failure. -/
def message : Failure → String
  | .missingPath path => "required path does not exist: " ++ path
  | .unreadable reason => "I/O error: " ++ reason
  | .unreadableConfig reason => "configuration error: I/O error: " ++ reason
  | .undecodable => "JSON error:"
  | .config error => "configuration error: " ++ error.message
  | .document error => "invalid form document: " ++ error.message

/-- The exit code of a failure. -/
def exitCode : Failure → Nat
  | .document _ => 3
  | _ => 1

end Failure

namespace Inputs

/-- The text of a file, with replacements for what is no UTF-8. -/
def text (inputs : Inputs) (path : String) : Except Failure String :=
  match inputs.file path with
  | .missing => .error (.missingPath path)
  | .unreadable reason => .error (.unreadable reason)
  | .content bytes => .ok (Text.Utf8.decode bytes)

/-- The document in a file. -/
def document (inputs : Inputs) (path : String) : Except Failure Document :=
  match inputs.text path with
  | .error e => .error e
  | .ok text =>
    match (Json.read? text).bind Serial.readDocument? with
    | some doc => .ok doc
    | none => .error .undecodable

/-- The text on the standard input. -/
def stdinText (inputs : Inputs) : Except Failure String :=
  match Text.Utf8.decode? inputs.stdin with
  | some text => .ok text
  | none => .error (.unreadable notUtf8)

/-- The part of a path behind its last slash. -/
def lastPart (path : String) : List Char :=
  ((Text.splitOn '/' path.toList).filter fun part => !part.isEmpty && part != ['.']).getLast?.getD []

/-- What follows the last dot of a name, unless the name begins with it. -/
def suffix? (name : List Char) : Option (List Char) :=
  match Text.splitOn '.' name with
  | [] | [_] | [[], _] => none
  | parts => parts.getLast?

/-- The configuration in a file. Files whose name ends in `.json` hold JSON and all others TOML. -/
def config (inputs : Inputs) (path : String) : Except Failure Config :=
  match inputs.file path with
  | .missing => .error (.missingPath path)
  | .unreadable reason => .error (.unreadableConfig reason)
  | .content bytes =>
    match Text.Utf8.decode? bytes with
    | none => .error (.unreadableConfig notUtf8)
    | some text =>
      let isJson := (suffix? (lastPart path)).any fun cs => Text.lower cs == "json".toList
      match if isJson then Config.ofJsonText text else Config.ofTomlText text with
      | .ok c => .ok c
      | .error e => .error (.config e)

end Inputs

/-! ## What is done -/

/-- A step of what a command does. -/
inductive Action where
  /-- writes to the standard output -/
  | print (text : String)
  /-- writes a line to the standard error -/
  | report (text : String)
  /-- writes a file, with the directories above it -/
  | save (path content : String)
  deriving DecidableEq, Repr

/-- What a command does and how it ends. -/
structure Run where
  actions : List Action
  exitCode : Nat := 0
  deriving DecidableEq, Repr

namespace Run

/-- A command that fails at once. -/
def failed (f : Failure) : Run := ⟨[.report f.message], f.exitCode⟩

/-- Actions before everything else. -/
def after (actions : List Action) (r : Run) : Run := { r with actions := actions ++ r.actions }

end Run

/-- The path of a file in a directory. -/
def joinPath (directory name : String) : String :=
  if directory.endsWith "/" then directory ++ name else directory ++ "/" ++ name

/-- Writes a program into a directory, or prints it. -/
def deliver (outDir : Option String) (p : Program) : List Action :=
  match outDir with
  | some directory =>
    let path := joinPath directory p.fileName
    [.save path p.content, .report ("wrote " ++ path ++ " (" ++ p.target.label ++ ")")]
  | none => [.print p.content]

/-- Exports a document for one target after another. -/
def deliverAll (options : ExportOptions) (outDir : Option String) (doc : Document) :
    List Target → Run
  | [] => ⟨[], 0⟩
  | target :: rest =>
    match doc.exportTo options target with
    | .ok p => (deliverAll options outDir doc rest).after (deliver outDir p)
    | .error e => .failed (.document e)

/-- The remarks on a source, when they are asked for. -/
def remarks (asked : Bool) (outcome : ImportOutcome) : List Action :=
  if asked then outcome.diagnostics.map fun d => .report d.display else []

/-- Imports a source and writes its document. -/
def runImport (input : String) (out : Option String) (diagnostics : Bool) (source : String)
    (config : Config) : Run :=
  let outcome := ScreenForms.importSource config source
  let json := Json.pretty (Serial.documentJson outcome.document)
  let written : List Action := match out with
    | some path =>
      [.save path json,
        .report ("imported " ++ input ++ " (" ++ outcome.dialect.name ++ ", " ++
          Decimal.intText outcome.document.controls.length ++ " nodes) into " ++ path)]
    | none => [.print (json ++ "\n")]
  ⟨remarks diagnostics outcome ++ written, 0⟩

/-- A text in a column of a given width. -/
def column (width : Nat) (text : String) : String := text ++ Text.spaces (width - text.length)

/-- The line about a target in the list of targets. -/
def targetLine (t : Target) : String :=
  column 10 t.name ++ " " ++ column 20 t.label ++ " " ++ t.fileName "form" ++ "\n"

/-- Carries out a task. -/
def runTask (inputs : Inputs) (config : Config) : Task → Except Failure Run
  | .importSource input out diagnostics => do
    return runImport input out diagnostics (← inputs.text input) config
  | .exportDocument document target outDir => do
    let doc ← inputs.document document
    return deliverAll config.output outDir doc [target.getD config.output.defaultTarget]
  | .convert input target all outDir diagnostics => do
    let outcome := ScreenForms.importSource config (← inputs.text input)
    let targets := if all then Target.all else [target.getD config.output.defaultTarget]
    return (deliverAll config.output outDir outcome.document targets).after
      (remarks diagnostics outcome)
  | .translate input target owner => do
    let body ← if input = "-" then inputs.stdinText else inputs.text input
    let target := target.getD config.output.defaultTarget
    return ⟨[.print (Code.translate { target, owner } body ++ "\n")], 0⟩
  | .classify input => do
    let listing := Record.readAll (← inputs.text input)
    return ⟨[.print ((Dialect.ofRecords listing.records).name ++ "\n")], 0⟩
  | .legacy document out => do
    let doc ← inputs.document document
    match doc.toLegacy, out with
    | .error e, _ => throw (.document e)
    | .ok text, some path => return ⟨[.save path text], 0⟩
    | .ok text, none => return ⟨[.print text], 0⟩
  | .listTargets => return ⟨Target.all.map fun t => .print (targetLine t), 0⟩

/-- Carries out what a command line asks for. The configuration is read first. -/
def Invocation.run (inputs : Inputs) (i : Invocation) : Run :=
  let run := do
    let config ← match i.config with
      | some path => inputs.config path
      | none => pure {}
    runTask inputs config i.task
  match run with
  | .ok r => r
  | .error f => .failed f

/-! ## Command lines -/

/-- The version of the program. -/
def versionText : String := "formbridge 0.1.0\n"

/-- The forms of command lines. -/
def usageText : String :=
  Text.unlines
    ["Usage: formbridge [--config FILE] [-v] COMMAND",
      "  import INPUT [--out FILE] [--diagnostics]",
      "  export DOCUMENT [--target TARGET] [--out-dir DIR]",
      "  convert INPUT [--target TARGET | --all-targets] [--out-dir DIR] [--diagnostics]",
      "  translate INPUT [--target TARGET] [--owner NAME]",
      "  classify INPUT",
      "  legacy DOCUMENT [--out FILE]",
      "  targets"]

/-- What is done when a command line gives no command. -/
def Refusal.run : Refusal → Run
  | .usage => ⟨[.report ("error: unusable arguments\n\n" ++ usageText)], 2⟩
  | .help => ⟨[.print usageText], 0⟩
  | .version => ⟨[.print versionText], 0⟩

/-- The files that a task reads. -/
def Task.reads : Task → List String
  | .importSource path .. | .exportDocument path .. | .convert path .. | .classify path
  | .legacy path _ => [path]
  | .translate path .. => if path = "-" then [] else [path]
  | .listTargets => []

/-- The files that a command line reads. -/
def Invocation.reads (i : Invocation) : List String := i.config.toList ++ i.task.reads

end ScreenForms.Command
