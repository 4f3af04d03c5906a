import ScreenForms.Target
import ScreenForms.Text.Search

/-!
# Command lines

A command line names one command, with options before and behind its operands. Every option but
the one for more logging may be given once; a value follows its option as the next argument or
behind an equals sign. Behind two dashes everything is an operand. Arguments are looked at from
left to right, and the first that is wrong, or asks for help or for the version, decides.
-/

namespace ScreenForms.Command

/-- The options of all commands. -/
inductive Flag where
  | config
  | verbose
  | out
  | diagnostics
  | target
  | outDir
  | allTargets
  | owner
  | help
  | version
  deriving DecidableEq, Repr

namespace Flag

/-- The name of an option behind its two dashes. -/
def name : Flag → String
  | .config => "config"
  | .verbose => "verbose"
  | .out => "out"
  | .diagnostics => "diagnostics"
  | .target => "target"
  | .outDir => "out-dir"
  | .allTargets => "all-targets"
  | .owner => "owner"
  | .help => "help"
  | .version => "version"

/-- The letter of an option behind one dash. -/
def letter? : Flag → Option Char
  | .verbose => some 'v'
  | .help => some 'h'
  | .version => some 'V'
  | _ => none

/-- Whether an option takes a value. -/
def takesValue : Flag → Bool
  | .config | .out | .target | .outDir | .owner => true
  | _ => false

/-- Whether a value is fit for an option: paths are not empty, and targets exist. -/
def accepts (flag : Flag) (value : String) : Bool :=
  match flag with
  | .config | .out | .outDir => !value.isEmpty
  | .target => (Target.find? value).isSome
  | _ => true

end Flag

/-- The commands by name. -/
inductive Verb where
  | importing
  | exporting
  | converting
  | translating
  | classifying
  | legacy
  | targets
  deriving DecidableEq, Repr

namespace Verb

/-- Every command. -/
def all : List Verb :=
  [.importing, .exporting, .converting, .translating, .classifying, .legacy, .targets]

/-- The word for a command. -/
def name : Verb → String
  | .importing => "import"
  | .exporting => "export"
  | .converting => "convert"
  | .translating => "translate"
  | .classifying => "classify"
  | .legacy => "legacy"
  | .targets => "targets"

/-- The command that a word stands for. -/
def ofName? (s : String) : Option Verb := all.find? fun v => v.name == s

/-- The options of a command. -/
def flags (v : Verb) : List Flag :=
  [.config, .verbose, .help] ++
    match v with
    | .importing => [.out, .diagnostics]
    | .exporting => [.target, .outDir]
    | .converting => [.target, .allTargets, .outDir, .diagnostics]
    | .translating => [.target, .owner]
    | .legacy => [.out]
    | .classifying | .targets => []

/-- Whether a command has an operand. -/
def hasOperand (v : Verb) : Bool := v != .targets

/-- Whether an operand is fit for a command. It is a path that is not empty, but a text may also
be read from elsewhere. -/
def acceptsOperand (v : Verb) (operand : String) : Bool :=
  v == .translating || !operand.isEmpty

end Verb

/-- Why a command line gives no command. -/
inductive Refusal where
  /-- something is wrong with the arguments -/
  | usage
  | help
  | version
  deriving DecidableEq, Repr

/-- The arguments of a command line that have been read. -/
structure Given where
  flags : List (Flag × String) := []
  operand : Option String := none
  deriving DecidableEq, Repr

namespace Given

/-- Whether an option is given. -/
def has (g : Given) (flag : Flag) : Bool := g.flags.any fun f => f.1 == flag

/-- The value of an option. -/
def value? (g : Given) (flag : Flag) : Option String :=
  (g.flags.find? fun f => f.1 == flag).map Prod.snd

/-- Takes an option with its value. Only the one for more logging may be repeated; the one for help
and the one for the version end everything. -/
def take (g : Given) (flag : Flag) (value : String) : Except Refusal Given :=
  match flag with
  | .help => .error .help
  | .version => .error .version
  | flag =>
    if !flag.accepts value || (g.has flag && flag != .verbose) then .error .usage
    else .ok { g with flags := g.flags ++ [(flag, value)] }

/-- Takes options given by letters. -/
def takeLetters (allowed : List Flag) : Given → List Char → Except Refusal Given
  | g, [] => .ok g
  | g, c :: cs =>
    match allowed.find? fun f => f.letter? == some c with
    | none => .error .usage
    | some flag =>
      match g.take flag "" with
      | .ok g => takeLetters allowed g cs
      | .error e => .error e

end Given

/-- The forms of an argument. -/
inductive Argument where
  /-- two dashes -/
  | operandsFollow
  /-- two dashes, a name and maybe a value -/
  | long (name : String) (value : Option String)
  /-- a dash and letters -/
  | letters (cs : List Char)
  | operand (text : String)
  deriving DecidableEq, Repr

/-- The form of an argument. A single dash is an operand. -/
def Argument.read (s : String) : Argument :=
  match s.toList with
  | ['-', '-'] => .operandsFollow
  | '-' :: '-' :: cs =>
    match Text.breakOn? ['='] cs with
    | some (name, value) => .long (String.ofList name) (some (String.ofList value))
    | none => .long (String.ofList cs) none
  | '-' :: c :: cs => .letters (c :: cs)
  | _ => .operand s

/-- Whether an argument may be the value of the option before it. -/
def Argument.isValue (s : String) : Bool :=
  match read s with
  | .operand _ => true
  | _ => false

/-- Where the options of a command line end for the moment. -/
inductive Stop where
  /-- at its end -/
  | done
  /-- at an operand, with more arguments behind it -/
  | operand (text : String) (rest : List String)
  /-- at two dashes, with nothing but operands behind them -/
  | operands (texts : List String)
  deriving DecidableEq, Repr

/-- Takes options up to the first operand. -/
def takeOptions (allowed : List Flag) : Given → List String → Except Refusal (Given × Stop)
  | g, [] => .ok (g, .done)
  | g, arg :: rest =>
    match Argument.read arg with
    | .operand text => .ok (g, .operand text rest)
    | .operandsFollow => .ok (g, .operands rest)
    | .letters cs =>
      match g.takeLetters allowed cs with
      | .ok g => takeOptions allowed g rest
      | .error e => .error e
    | .long name value =>
      match allowed.find? fun f => f.name == name with
      | none => .error .usage
      | some flag =>
        if flag.takesValue then
          match value, rest with
          | some value, rest =>
            match g.take flag value with
            | .ok g => takeOptions allowed g rest
            | .error e => .error e
          | none, value :: rest =>
            if Argument.isValue value then
              match g.take flag value with
              | .ok g => takeOptions allowed g rest
              | .error e => .error e
            else .error .usage
          | none, [] => .error .usage
        else if value.isSome then .error .usage
        else
          match g.take flag "" with
          | .ok g => takeOptions allowed g rest
          | .error e => .error e

/-- Takes the operand of a command, if it has one. -/
def takeOperand (verb : Verb) (g : Given) (text : String) : Except Refusal Given :=
  if verb.hasOperand && verb.acceptsOperand text then .ok { g with operand := some text }
  else .error .usage

/-- Takes operands that nothing follows. One is enough. -/
def takeOperands (verb : Verb) (g : Given) : List String → Except Refusal Given
  | [] => .ok g
  | [text] => if g.operand.isSome then .error .usage else takeOperand verb g text
  | _ => .error .usage

/-- Reads the arguments of a command. -/
def takeArguments (verb : Verb) (args : List String) : Except Refusal Given := do
  let (g, stop) ← takeOptions verb.flags {} args
  match stop with
  | .done => return g
  | .operands texts => takeOperands verb g texts
  | .operand text rest =>
    let (g, stop) ← takeOptions verb.flags (← takeOperand verb g text) rest
    match stop with
    | .done => return g
    | .operands texts => takeOperands verb g texts
    | .operand .. => throw .usage

/-! ## Commands -/

/-- What is to be done. -/
inductive Task where
  /-- reads a legacy source into a document -/
  | importSource (input : String) (out : Option String) (diagnostics : Bool)
  /-- makes a program of a document -/
  | exportDocument (document : String) (target : Option Target) (outDir : Option String)
  /-- makes programs of a legacy source: one, or those for all targets -/
  | convert (input : String) (target : Option Target) (all : Bool) (outDir : Option String)
      (diagnostics : Bool)
  /-- translates one body of code -/
  | translate (input : String) (target : Option Target) (owner : Option String)
  /-- tells the dialect of a legacy source -/
  | classify (input : String)
  /-- writes a document as a legacy source -/
  | legacy (document : String) (out : Option String)
  | listTargets
  deriving DecidableEq, Repr

/-- A command line that was understood. -/
structure Invocation where
  task : Task
  /-- the file that holds the configuration -/
  config : Option String
  deriving DecidableEq, Repr

/-- The task of a command with its arguments. A single target and all targets exclude each other,
and programs for all targets need a directory. -/
def taskOf (verb : Verb) (g : Given) : Except Refusal Task :=
  let target := (g.value? .target).bind Target.find?
  match verb, g.operand with
  | .targets, _ => .ok .listTargets
  | _, none => .error .usage
  | .importing, some input =>
    .ok (.importSource input (g.value? .out) (g.has .diagnostics))
  | .exporting, some document => .ok (.exportDocument document target (g.value? .outDir))
  | .converting, some input =>
    if g.has .allTargets && (g.has .target || !g.has .outDir) then .error .usage
    else .ok (.convert input target (g.has .allTargets) (g.value? .outDir) (g.has .diagnostics))
  | .translating, some input => .ok (.translate input target (g.value? .owner))
  | .classifying, some input => .ok (.classify input)
  | .legacy, some document => .ok (.legacy document (g.value? .out))

/-- Whether the arguments behind the word for help name a command, or nothing. -/
def asksForHelp (args : List String) : Bool :=
  match args with
  | [] => true
  | [name] => name == "help" || (Verb.ofName? name).isSome
  | _ => false

/-- Reads a command line. Of two files for the configuration the one given behind the command
counts. -/
def Invocation.read (args : List String) : Except Refusal Invocation := do
  let (before, stop) ← takeOptions [.config, .verbose, .help, .version] {} args
  match stop with
  | .operand word rest =>
    if word = "help" then throw (if asksForHelp rest then .help else .usage)
    match Verb.ofName? word with
    | none => throw .usage
    | some verb =>
      let g ← takeArguments verb rest
      let task ← taskOf verb g
      return { task, config := (g.value? .config).orElse fun _ => before.value? .config }
  | _ => throw .usage

end ScreenForms.Command
