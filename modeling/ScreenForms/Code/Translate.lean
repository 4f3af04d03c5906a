import ScreenForms.Code.Expression
import ScreenForms.Code.Line

/-!
# Translating bodies of code

A body is translated line by line. Open blocks are kept on a stack of frames; each line is written
at the depth of its block, and lines that would close or continue a block of another kind are
passed through as they are. Where blocks are marked by indentation alone, a block without a
statement gets one that does nothing. Translating never fails: what is not recognized is kept.
-/

namespace ScreenForms.Code

/-- The kinds of blocks. -/
inductive FrameKind where
  | conditional
  | choice
  | loop
  deriving DecidableEq, Repr

/-- An open block. -/
structure Frame where
  kind : FrameKind
  /-- whether its current branch holds a statement -/
  hasBody : Bool := false
  /-- for a choice, whether it has a branch yet -/
  opened : Bool := false
  deriving DecidableEq, Repr

/-- What has been written, the open blocks from the inside out, and the depth of indentation. -/
structure Output where
  lines : List String := []
  frames : List Frame := []
  depth : Nat := 0
  deriving DecidableEq, Repr

/-- A line at a depth of indentation. -/
def indented (depth : Nat) (text : String) : String :=
  String.ofList (List.replicate (4 * depth) ' ') ++ text

namespace Output

/-- Changes the innermost frame. -/
def updateTop (f : Frame → Frame) : List Frame → List Frame
  | [] => []
  | frame :: frames => f frame :: frames

/-- Writes a line at the given depth. -/
def writeAt (depth : Nat) (text : String) (o : Output) : Output :=
  { o with lines := o.lines ++ [indented depth text] }

/-- Writes a statement into the current block. -/
def write (text : String) (o : Output) : Output :=
  { o.writeAt o.depth text with frames := updateTop (fun f => { f with hasBody := true }) o.frames }

/-- The last character of a text. -/
def lastChar? (text : String) : Option Char := text.toList.getLast?

/-- A simple statement with the terminator of the language, unless it ends in one or in a brace. -/
def terminated (target : Target) (text : String) : String :=
  if !(idiom target).braces then text
  else
    match lastChar? text with
    | some ';' | some '\x7b' | some '\x7d' => text
    | _ => text ++ (idiom target).terminator

/-- Writes a simple statement. -/
def writeStatement (target : Target) (text : String) (o : Output) : Output :=
  o.write (terminated target text)

/-- A text as a comment. -/
def commentText (target : Target) (text : List Char) : String :=
  let bare := Text.trim text
  if bare.isEmpty then (idiom target).comment
  else (idiom target).comment ++ " " ++ String.ofList bare

/-- Writes a comment. A comment does not count as a statement of its block. -/
def comment (target : Target) (text : List Char) (o : Output) : Output :=
  o.writeAt o.depth (commentText target text)

/-- Where indentation marks blocks, gives the current block a statement if it has none. -/
def fillEmpty (target : Target) (o : Output) : Output :=
  if (idiom target).braces then o
  else
    match o.frames with
    | frame :: _ => if frame.hasBody then o else o.writeAt o.depth "pass"
    | [] => o

/-- Opens a block with its header. -/
def openBlock (kind : FrameKind) (header : String) (o : Output) : Output :=
  let o := o.write header
  { o with frames := { kind } :: o.frames, depth := o.depth + 1 }

/-- Goes on with another branch of the current block. -/
def branch (target : Target) (header : String) (o : Output) : Output :=
  let o := o.fillEmpty target
  let o := o.writeAt (o.depth - 1) header
  { o with frames := updateTop (fun f => { f with hasBody := false }) o.frames }

/-- Closes the current block. A choice without a branch leaves nothing to close. -/
def close (target : Target) (o : Output) : Output :=
  let o := o.fillEmpty target
  match o.frames with
  | [] => o
  | frame :: frames =>
    if frame.kind = .choice ∧ !frame.opened then { o with frames }
    else
      let o := { o with frames, depth := o.depth - 1 }
      let o := if (idiom target).braces then o.writeAt o.depth "\x7d" else o
      { o with frames := updateTop (fun f => { f with hasBody := true }) o.frames }

/-- Whether the current block is of a kind. -/
def inside (kind : FrameKind) (o : Output) : Bool :=
  match o.frames with
  | frame :: _ => frame.kind == kind
  | [] => false

/-- Begins a branch of a choice. The first branch opens a conditional block, also when it is the
one without a condition; the others go on with it. -/
def choiceBranch (target : Target) (condition : Option String) (o : Output) : Output :=
  match o.frames with
  | frame :: frames =>
    if frame.opened then
      match condition with
      | some c => o.branch target (elseIfLine target c)
      | none => o.branch target (elseLine target)
    else
      let header := Code.ifLine target (condition.getD (idiom target).trueWord)
      let o := o.writeAt o.depth header
      { o with
        frames := { frame with hasBody := false, opened := true } :: frames
        depth := o.depth + 1 }
  | [] => o

end Output

/-- The arguments of a call in the target's spelling; arguments that are empty do not count. -/
def callArguments (ctx : Context) (arguments : List Char) : List String :=
  ((Text.splitTopLevel ',' arguments).map fun a => exprText ctx true (Text.trim a)).filter (· ≠ "")

/-- The name under which a procedure is called. -/
def calleeText (target : Target) (name : List Char) : String :=
  match target with
  | .html => String.ofList name
  | target => (idiom target).selfLead ++ String.ofList name

/-- Writes what a classified line means. `raw` is the line as it stands in the body. -/
def writeLine (ctx : Context) (raw : List Char) (o : Output) : Line → Output
  | .blank => if (Text.trim raw).isEmpty then { o with lines := o.lines ++ [""] } else o
  | .comment text => o.comment ctx.target text
  | .ifLine condition =>
    o.openBlock .conditional (ifLine ctx.target (exprText ctx true condition))
  | .elseIfLine condition =>
    if o.inside .conditional then
      o.branch ctx.target (elseIfLine ctx.target (exprText ctx true condition))
    else passThrough
  | .elseLine =>
    if o.inside .conditional then o.branch ctx.target (elseLine ctx.target) else passThrough
  | .endIf => if o.inside .conditional then o.close ctx.target else passThrough
  | .doCase => { o with frames := { kind := .choice } :: o.frames }
  | .caseLine condition =>
    if o.inside .choice then o.choiceBranch ctx.target (some (exprText ctx true condition))
    else passThrough
  | .otherwise => if o.inside .choice then o.choiceBranch ctx.target none else passThrough
  | .endCase => if o.inside .choice then o.close ctx.target else passThrough
  | .forLine counter first last step =>
    o.openBlock .loop (forLine ctx.target (exprText ctx false counter)
      (exprText ctx false first) (exprText ctx false last) (step.map (exprText ctx false)))
  | .forEachLine element collection =>
    o.openBlock .loop
      (forEachLine ctx.target (String.ofList element) (exprText ctx false collection))
  | .doWhile condition =>
    o.openBlock .loop (whileLine ctx.target (exprText ctx true condition))
  | .endFor => if o.inside .loop then o.close ctx.target else passThrough
  | .endDo => if o.inside .loop then o.close ctx.target else passThrough
  | .localNames names =>
    if names.isEmpty then passThrough
    else o.writeStatement ctx.target (localDeclaration ctx.target (names.map String.ofList))
  | .parameters names =>
    o.comment ctx.target ("parameters: ".toList ++ Text.joinWith [',', ' '] names)
  | .returnLine value =>
    o.writeStatement ctx.target
      (if value.isEmpty then "return" else "return " ++ exprText ctx true value)
  | .release => o.writeStatement ctx.target (idiom ctx.target).closeForm
  | .wait message =>
    let text := if message.isEmpty then stringLiteral "" else exprText ctx true message
    o.writeStatement ctx.target ((idiom ctx.target).messageBox ++ "(" ++ text ++ ")")
  | .store value targets =>
    let value := exprText ctx true value
    targets.foldl (fun o t => o.writeStatement ctx.target (assignment ctx (Token.lex t) value)) o
  | .call name arguments =>
    o.writeStatement ctx.target (calleeText ctx.target name ++ "(" ++
      Text.join ", " (callArguments ctx arguments) ++ ")")
  | .print value =>
    o.writeStatement ctx.target
      ((idiom ctx.target).print ++ "(" ++ exprText ctx true value ++ ")")
  | .statement text => o.writeStatement ctx.target (statement ctx (Token.lex text))
where
  /-- The line as it stands in the body. -/
  passThrough : Output := o.write (String.ofList (Text.trim raw))

/-- The text of a comment line: behind asterisks, or behind the word `NOTE`. -/
def commentLine? (line : List Char) : Option (List Char) :=
  match line with
  | '*' :: rest => some (rest.dropWhile (· == '*'))
  | line =>
    match Text.dropLeadNoCase? "note".toList line with
    | some [] => some []
    | some (c :: rest) => if Text.isBlank c then some (c :: rest) else none
    | none => none

/-- Appends a remark to the last line, or writes it as a comment when there is none or the line
it stands on holds nothing else. -/
def addRemark (target : Target) (codeIsBlank : Bool) (remark : List Char) (o : Output) : Output :=
  match o.lines.getLast? with
  | some last =>
    if codeIsBlank then o.comment target remark
    else
      { o with lines := o.lines.dropLast ++
          [last ++ "  " ++ (idiom target).comment ++ " " ++ String.ofList remark] }
  | none => o.comment target remark

/-- Translates one line. -/
def translateLine (ctx : Context) (o : Output) (raw : List Char) : Output :=
  let bare := Text.trim raw
  match commentLine? bare with
  | some text => o.comment ctx.target text
  | none =>
    let code := Text.dropRemark bare
    let o := writeLine ctx raw o (Line.read code)
    let remark := Text.trim ((bare.drop code.length).drop 2)
    if remark.isEmpty then o else addRemark ctx.target (Text.trim code).isEmpty remark o

/-- Closes blocks until none of `fuel` many is open. -/
def closeAll (target : Target) : Nat → Output → Output
  | 0, o => o
  | fuel + 1, o => if o.frames.isEmpty then o else closeAll target fuel (o.close target)

/-- The lines without blank lines at the end. -/
def dropBlankEnd (lines : List String) : List String :=
  (lines.reverse.dropWhile fun l => (Text.trim l.toList).isEmpty).reverse

/-- The lines of a translated body, once all of it has been read. -/
def Output.finish (target : Target) (o : Output) : List String :=
  dropBlankEnd (closeAll target o.frames.length o).lines

/-- The lines of a translated body. -/
def translatedLines (ctx : Context) (body : String) : List String :=
  ((logicalLines body).foldl (translateLine ctx) {}).finish ctx.target

/-- Translates a body of code. -/
def translate (ctx : Context) (body : String) : String := Text.join "\n" (translatedLines ctx body)

/-- Whether a translated body holds anything but comments. -/
def hasCode (target : Target) (code : String) : Bool :=
  (Text.lines code.toList).any fun l =>
    let bare := Text.trim l
    !bare.isEmpty && (Text.dropLead? (idiom target).comment.toList bare).isNone

/-- Every line of a body as a comment; blank lines become empty. -/
def commentOut (target : Target) (body : String) : String :=
  let lead := (idiom target).comment.toList ++ [' ']
  String.ofList (Text.joinWith ['\n'] ((Text.lines body.toList).map fun l =>
    if (Text.trim l).isEmpty then [] else lead ++ l))

end ScreenForms.Code
