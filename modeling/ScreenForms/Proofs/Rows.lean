import Mathlib.Data.List.DropRight
import ScreenForms.Proofs.SimpleLines

/-!
# Rows of a translation

The translation keeps a depth of indentation beside its open blocks and counts it up and down. A
sheet keeps no depth: it holds rows, each with what it does to the blocks, and the open blocks, and
reads the depth off them, so that nothing is ever subtracted. Every line of code comes down to a
few edits of a sheet (`edits`), and the sheet says at every line what the translation has written,
at which depth it stands and which blocks are open (`output_sheetOf`, `output_closeBlocks`).
-/

namespace ScreenForms.Code

open Text

/-- Whether a frame stands for a block of the translation. A choice without a branch does not. -/
def Frame.isOpen (frame : Frame) : Bool := frame.kind != .choice || frame.opened

/-- Only a choice without a branch has not opened a block yet. -/
theorem Frame.isOpen_eq_false_iff {frame : Frame} :
    frame.isOpen = false ↔ frame.kind = .choice ∧ (!frame.opened) = true := by
  simp [isOpen]

/-- Every other block is open from its first line on. -/
theorem Frame.isOpen_of_ne_choice {kind : FrameKind} (h : kind ≠ .choice) :
    Frame.isOpen { kind } = true := by
  simp [isOpen, h]

theorem Frame.isOpen_opened (kind : FrameKind) (hasBody : Bool) :
    Frame.isOpen { kind, hasBody, opened := true } = true := by
  simp [isOpen]

/-- How many blocks of the translation some frames stand for. -/
def openBlocks (frames : List Frame) : Nat := frames.countP Frame.isOpen

/-- An open block is one level of indentation, and a choice before its first branch is none. -/
theorem openBlocks_cons_of_pos {frame : Frame} (h : frame.isOpen = true) (frames : List Frame) :
    openBlocks (frame :: frames) = openBlocks frames + 1 :=
  List.countP_cons_of_pos h

theorem openBlocks_cons_of_neg {frame : Frame} (h : frame.isOpen = false) (frames : List Frame) :
    openBlocks (frame :: frames) = openBlocks frames :=
  List.countP_cons_of_neg (by simp [h])

/-- Noting a statement in the innermost block leaves the blocks open that are. -/
@[simp] theorem openBlocks_mark (frames : List Frame) :
    openBlocks (Output.mark frames) = openBlocks frames := by
  cases frames <;> rfl

/-- Whether the innermost frame is of a kind. -/
def innermost (kind : FrameKind) : List Frame → Bool
  | [] => false
  | frame :: _ => frame.kind == kind

/-- A block that is innermost and no choice is open, so the line that closes it steps back. -/
theorem exists_isOpen_of_innermost {kind : FrameKind} (hkind : kind ≠ .choice) {frames : List Frame}
    (h : innermost kind frames = true) :
    ∃ frame outer, frames = frame :: outer ∧ frame.isOpen = true := by
  rcases frames with _ | ⟨frame, outer⟩
  · cases h
  · have hframe : frame.kind = kind := eq_of_beq h
    exact ⟨frame, outer, rfl, by simp [Frame.isOpen, hframe, hkind]⟩

/-! ## Rows -/

/-- What a row does to the blocks. -/
inductive Move where
  | opens
  | continues
  | closes
  deriving DecidableEq, Repr

/-- A row of a translation: a text at a depth, and the remarks behind it. -/
structure Row where
  depth : Nat
  text : String
  move : Option Move := none
  remarks : List (List Char) := []
  deriving DecidableEq, Repr

/-- A line with a remark behind it. -/
def withRemark (target : Target) (line : String) (remark : List Char) : String :=
  line ++ "  " ++ (idiom target).comment ++ " " ++ String.ofList remark

/-- The line of a row. -/
def Row.line (target : Target) (r : Row) : String :=
  r.remarks.foldl (withRemark target) (indented r.depth r.text)

/-- The rows that close a block at a depth, where blocks have closing lines. -/
def closingRows (target : Target) (depth : Nat) : List Row :=
  if (idiom target).braces then [{ depth, text := "\x7d", move := some .closes }] else []

/-- The rows of a translation and its open blocks from the inside out. -/
structure Sheet where
  rows : List Row := []
  frames : List Frame := []
  deriving DecidableEq, Repr

/-- What is done to a sheet. -/
inductive Edit where
  /-- a statement of the current block -/
  | write (text : String)
  | comment (text : List Char)
  /-- an empty row -/
  | skip
  | openBlock (kind : FrameKind) (header : String)
  | enterChoice
  /-- the header that opens the block of a choice -/
  | firstBranch (header : String)
  | branch (header : String)
  | close
  /-- a remark behind the last row -/
  | remark (text : List Char)
  deriving DecidableEq, Repr

namespace Sheet

/-- The depth of the current block. -/
def depth (s : Sheet) : Nat := openBlocks s.frames

/-- What the translation has written and which blocks are open in it. -/
def output (target : Target) (s : Sheet) : Output :=
  { lines := s.rows.map (Row.line target), frames := s.frames, depth := s.depth }

/-- Appends a row. -/
def put (s : Sheet) (r : Row) : Sheet := { s with rows := s.rows ++ [r] }

/-- Where indentation marks blocks, gives the current block a statement if it has none. -/
def fill (target : Target) (s : Sheet) : Sheet :=
  if (idiom target).braces then s
  else
    match s.frames with
    | frame :: _ => if frame.hasBody then s else s.put { depth := s.depth, text := "pass" }
    | [] => s

/-- Makes an edit. What an edit asks for that the open blocks do not allow is left undone. -/
def apply (target : Target) (s : Sheet) : Edit → Sheet
  | .write text =>
    { s.put { depth := s.depth, text } with frames := Output.mark s.frames }
  | .comment text => s.put { depth := s.depth, text := Output.commentText target text }
  | .skip => s.put { depth := 0, text := "" }
  | .openBlock kind header =>
    { s.put { depth := s.depth, text := header, move := some .opens } with
      frames := { kind } :: Output.mark s.frames }
  | .enterChoice => { s with frames := { kind := .choice } :: s.frames }
  | .firstBranch header =>
    match s.frames with
    | frame :: outer =>
      if frame.isOpen then s
      else
        { s.put { depth := s.depth, text := header, move := some .opens } with
          frames := { frame with hasBody := false, opened := true } :: outer }
    | [] => s
  | .branch header =>
    match s.frames with
    | frame :: outer =>
      if frame.isOpen then
        { (s.fill target).put
            { depth := openBlocks outer, text := header, move := some .continues } with
          frames := { frame with hasBody := false } :: outer }
      else s
    | [] => s
  | .close =>
    match s.frames with
    | frame :: outer =>
      if frame.isOpen then
        { rows := (s.fill target).rows ++ closingRows target (openBlocks outer)
          frames := Output.mark outer }
      else { s.fill target with frames := outer }
    | [] => s
  | .remark text =>
    match s.rows.getLast? with
    | some row =>
      { s with rows := s.rows.dropLast ++ [{ row with remarks := row.remarks ++ [text] }] }
    | none => s.put { depth := s.depth, text := Output.commentText target text }

/-- Makes edits in order. -/
def run (target : Target) (s : Sheet) (edits : List Edit) : Sheet := edits.foldl (apply target) s

/-- Edits are made one after the other. -/
theorem run_append (target : Target) (s : Sheet) (xs ys : List Edit) :
    s.run target (xs ++ ys) = (s.run target xs).run target ys :=
  List.foldl_append

end Sheet

/-! ## Edits of lines -/

/-- Whether an edit leads out of the current block: to its next branch, or to what stands around
it. -/
def Edit.stepsBack (frames : List Frame) : Edit → Bool
  | .branch _ => true
  | .close => (frames.head?.map Frame.isOpen).getD false
  | _ => false

/-- The edits for a branch of a choice. -/
def choiceEdits (target : Target) (condition : Option String) : List Frame → List Edit
  | [] => []
  | frame :: _ =>
    if frame.opened then
      match condition with
      | some c => [.branch (elseIfLine target c)]
      | none => [.branch (elseLine target)]
    else [.firstBranch (ifLine target (condition.getD (idiom target).trueWord))]

/-- The simple statements that a line is translated to, without their terminators. -/
def Line.statements (ctx : Context) : Line → List String
  | .localNames names => [localDeclaration ctx.target (names.map String.ofList)]
  | .returnLine value =>
    [if value.isEmpty then "return" else "return " ++ exprText ctx true value]
  | .release => [(idiom ctx.target).closeForm]
  | .wait message =>
    [(idiom ctx.target).messageBox ++ "(" ++
      (if message.isEmpty then stringLiteral "" else exprText ctx true message) ++ ")"]
  | .store value targets =>
    targets.map fun t => assignment ctx (Token.lex t) (exprText ctx true value)
  | .call name arguments =>
    [calleeText ctx.target name ++ "(" ++ join ", " (callArguments ctx arguments) ++ ")"]
  | .print value => [(idiom ctx.target).print ++ "(" ++ exprText ctx true value ++ ")"]
  | .statement text => [Code.statement ctx (Token.lex text)]
  | _ => []

/-- The edits for a classified line, given the open blocks. `raw` is the line as it stands in the
body. -/
def lineEdits (ctx : Context) (raw : List Char) (frames : List Frame) : Line → List Edit
  | .blank => if (trim raw).isEmpty then [.skip] else []
  | .comment text => [.comment text]
  | .parameters names => [.comment ("parameters: ".toList ++ joinWith [',', ' '] names)]
  | .ifLine condition =>
    [.openBlock .conditional (ifLine ctx.target (exprText ctx true condition))]
  | .elseIfLine condition =>
    inside .conditional [.branch (elseIfLine ctx.target (exprText ctx true condition))]
  | .elseLine => inside .conditional [.branch (elseLine ctx.target)]
  | .endIf => inside .conditional [.close]
  | .doCase => [.enterChoice]
  | .caseLine condition =>
    inside .choice (choiceEdits ctx.target (some (exprText ctx true condition)) frames)
  | .otherwise => inside .choice (choiceEdits ctx.target none frames)
  | .endCase => inside .choice [.close]
  | .forLine counter first last step =>
    [.openBlock .loop (forLine ctx.target (exprText ctx false counter) (exprText ctx false first)
      (exprText ctx false last) (step.map (exprText ctx false)))]
  | .forEachLine element collection =>
    [.openBlock .loop
      (forEachLine ctx.target (String.ofList element) (exprText ctx false collection))]
  | .doWhile condition => [.openBlock .loop (whileLine ctx.target (exprText ctx true condition))]
  | .endFor => inside .loop [.close]
  | .endDo => inside .loop [.close]
  | .localNames [] => [passThrough]
  | line => (line.statements ctx).map fun text => .write (Output.terminated ctx.target text)
where
  /-- The line as it stands in the body. -/
  passThrough : Edit := .write (String.ofList (trim raw))
  /-- Edits that belong to an innermost block of a kind. -/
  inside (kind : FrameKind) (edits : List Edit) : List Edit :=
    if innermost kind frames then edits else [passThrough]

/-- The edits for a remark behind code. -/
def remarkEdits (codeIsBlank : Bool) (remark : List Char) : List Edit :=
  if remark.isEmpty then [] else if codeIsBlank then [.comment remark] else [.remark remark]

/-- The edits for a line of a body, given the open blocks. -/
def edits (ctx : Context) (frames : List Frame) (raw : List Char) : List Edit :=
  let bare := trim raw
  match commentLine? bare with
  | some text => [.comment text]
  | none =>
    let code := dropRemark bare
    lineEdits ctx raw frames (Line.read code) ++
      remarkEdits (trim code).isEmpty (trim ((bare.drop code.length).drop 2))

/-- The sheet behind some lines of a body. -/
def sheetOf (ctx : Context) (raws : List (List Char)) : Sheet :=
  raws.foldl (fun s raw => s.run ctx.target (edits ctx s.frames raw)) {}

/-- Closes the innermost blocks. -/
def Sheet.closeBlocks (target : Target) (s : Sheet) (count : Nat) : Sheet :=
  s.run target (List.replicate count .close)

/-- The sheet of a whole body, with all blocks closed. -/
def closedSheet (ctx : Context) (body : String) : Sheet :=
  let s := sheetOf ctx (logicalLines body)
  s.closeBlocks ctx.target s.frames.length

/-- The rows of a translated body. -/
def translatedRows (ctx : Context) (body : String) : List Row :=
  (closedSheet ctx body).rows.rdropWhile fun r => (trim (r.line ctx.target).toList).isEmpty

/-! ## Edits and the translation -/

namespace Sheet

variable (target : Target) (s : Sheet)

@[simp] theorem output_frames : (s.output target).frames = s.frames := rfl

theorem inside_output (kind : FrameKind) :
    (s.output target).inside kind = innermost kind s.frames := by
  rw [Output.inside, output_frames]
  cases s.frames <;> rfl

/-- A row without remarks adds the line that the translation writes, with the depth of the row. -/
theorem output_put (r : Row) (hremarks : r.remarks = []) :
    (s.put r).output target = (s.output target).writeAt r.depth r.text := by
  simp [output, put, Output.writeAt, Row.line, depth, hremarks]

/-- Writing a statement as a row is what the translation does with its text. -/
theorem output_write (text : String) :
    (s.apply target (.write text)).output target = (s.output target).write text := by
  simp [apply, output, put, Row.line, depth, Output.write, Output.writeAt]
  rfl

/-- The same for a comment. -/
theorem output_comment (text : List Char) :
    (s.apply target (.comment text)).output target = (s.output target).comment target text :=
  s.output_put target _ rfl

/-- A filler is written in both where the innermost block is empty. -/
theorem output_fill : (s.fill target).output target = (s.output target).fillEmpty target := by
  rw [fill, Output.fillEmpty, output_frames]
  split
  · rfl
  · rcases s.frames with _ | ⟨frame, outer⟩
    · rfl
    · dsimp only
      split
      · rfl
      · exact s.output_put target _ rfl

/-- It closes nothing and opens nothing. -/
@[simp] theorem frames_fill : (s.fill target).frames = s.frames := by
  rw [fill]
  split
  · rfl
  · split
    · split <;> rfl
    · rfl

/-- An empty line is written at no depth. -/
theorem output_skip :
    (s.apply target .skip).output target =
      { s.output target with lines := (s.output target).lines ++ [""] } := by
  rw [apply, s.output_put target _ rfl, Output.writeAt, indented_zero]

/-- A header opens its block one level deeper in both. -/
theorem output_openBlock (kind : FrameKind) (hkind : kind ≠ .choice) (header : String) :
    (s.apply target (.openBlock kind header)).output target =
      (s.output target).openBlock kind header := by
  rw [Output.openBlock, ← output_write]
  simp [apply, output, put, depth, Row.line,
    openBlocks_cons_of_pos (Frame.isOpen_of_ne_choice hkind)]

/-- A choice opens without a line: its first branch will write the header. -/
theorem output_enterChoice :
    (s.apply target .enterChoice).output target =
      { s.output target with frames := { kind := .choice } :: s.frames } := by
  rw [apply, output, depth, openBlocks_cons_of_neg rfl]
  rfl

/-- A remark behind code goes to the line before, in the row as in the text. -/
theorem output_remark (text : List Char) :
    (s.apply target (.remark text)).output target =
      addRemark target false text (s.output target) := by
  rcases hlast : s.rows.getLast? with _ | row
  · rw [apply, hlast, addRemark]
    simp only [output, List.getLast?_map, hlast]
    exact s.output_comment target text
  · simp [apply, hlast, addRemark, output, Row.line, withRemark, depth]

variable {s} {frame : Frame} {outer : List Frame}

/-- The first branch of a choice writes the header of the whole and opens its block. -/
theorem output_firstBranch (hframes : s.frames = frame :: outer) (hopen : frame.isOpen = false)
    (header : String) :
    (s.apply target (.firstBranch header)).output target =
      { (s.output target).writeAt s.depth header with
        frames := { frame with hasBody := false, opened := true } :: outer
        depth := s.depth + 1 } := by
  have hbranch := openBlocks_cons_of_pos (Frame.isOpen_opened frame.kind false)
  simp [apply, hframes, hopen, output, put, depth, Row.line, Output.writeAt, hbranch,
    openBlocks_cons_of_neg hopen]

/-- A further branch goes back by one level, fills the branch before it if need be, and writes its
header. -/
theorem output_branch (hframes : s.frames = frame :: outer) (hopen : frame.isOpen = true)
    (header : String) :
    (s.apply target (.branch header)).output target = (s.output target).branch target header := by
  have hfill := s.output_fill target
  have hbranch : Frame.isOpen { frame with hasBody := false } = true := hopen
  rw [Output.branch, ← hfill]
  simp [apply, hframes, hopen, output, put, depth, Row.line, Output.writeAt, Output.updateTop,
    openBlocks_cons_of_pos hopen, openBlocks_cons_of_pos hbranch]

/-- The end of a block fills it if need be and goes back by one level. A choice without a branch has
no line of its own, and so goes back without writing one. -/
theorem output_close : (s.apply target .close).output target = (s.output target).close target := by
  rw [Output.close, ← output_fill, apply, output_frames, frames_fill]
  rcases hframes : s.frames with _ | ⟨frame, outer⟩
  · have hfill : s.fill target = s := by
      rw [fill, hframes, ite_self]
    rw [hfill]
  · dsimp only
    cases hopen : frame.isOpen with
    | false =>
      rw [if_neg Bool.false_ne_true, if_pos (Frame.isOpen_eq_false_iff.mp hopen)]
      simp [output, depth, hframes, openBlocks_cons_of_neg hopen]
    | true =>
      have hkeep : ¬ (frame.kind = .choice ∧ (!frame.opened) = true) := by
        rw [← Frame.isOpen_eq_false_iff, hopen]
        exact Bool.noConfusion
      rw [if_pos rfl, if_neg hkeep, closingRows]
      rcases (idiom target).braces with _ | _
      · simp [output, depth, hframes, openBlocks_cons_of_pos hopen]
        rfl
      · simp [output, depth, hframes, openBlocks_cons_of_pos hopen, Output.writeAt, Row.line]
        rfl

/-- The branches of conditional blocks are always further ones, since these blocks are open from the
start. -/
theorem output_branch_of_innermost {kind : FrameKind} (hkind : kind ≠ .choice)
    (h : innermost kind s.frames = true) (header : String) :
    (s.apply target (.branch header)).output target = (s.output target).branch target header := by
  obtain ⟨frame, outer, hframes, hopen⟩ := exists_isOpen_of_innermost hkind h
  exact output_branch target hframes hopen header

end Sheet

/-- A branch of a choice is its first one or a further one, and the edits tell them apart as the
translation does. -/
theorem output_run_choiceEdits {target : Target} {s : Sheet} {condition : Option String}
    (h : innermost .choice s.frames = true) :
    (s.run target (choiceEdits target condition s.frames)).output target =
      (s.output target).choiceBranch target condition := by
  rcases hframes : s.frames with _ | ⟨frame, outer⟩
  · rw [hframes] at h
    cases h
  · simp only [choiceEdits, Output.choiceBranch, Sheet.output_frames, hframes]
    cases hopened : frame.opened with
    | false =>
      have hkind : frame.kind = .choice := by
        rw [hframes] at h
        exact eq_of_beq h
      exact Sheet.output_firstBranch target hframes
        (Frame.isOpen_eq_false_iff.mpr ⟨hkind, by rw [hopened]; rfl⟩) _
    | true =>
      have hopen : frame.isOpen = true := by simp [Frame.isOpen, hopened]
      cases condition with
      | none => exact Sheet.output_branch target hframes hopen _
      | some c => exact Sheet.output_branch target hframes hopen _

/-- The edits of a line do to a sheet what the line does to the translation. The cases are those of
the lines, and lines that belong to a block are handed through where it is not the innermost. -/
theorem output_run_lineEdits (ctx : Context) (s : Sheet) (raw : List Char) (line : Line) :
    (s.run ctx.target (lineEdits ctx raw s.frames line)).output ctx.target =
      writeLine ctx raw (s.output ctx.target) line := by
  have hpass : (s.run ctx.target [lineEdits.passThrough raw]).output ctx.target =
      writeLine.passThrough raw (s.output ctx.target) := s.output_write ctx.target _
  -- a line that belongs to the innermost block if it is of the right kind
  have hinside : ∀ {kind : FrameKind} {es : List Edit} {o : Output},
      (innermost kind s.frames = true → (s.run ctx.target es).output ctx.target = o) →
      (s.run ctx.target (lineEdits.inside raw s.frames kind es)).output ctx.target =
        if (s.output ctx.target).inside kind then o
        else writeLine.passThrough raw (s.output ctx.target) := by
    intro kind es o h
    rw [Sheet.inside_output, lineEdits.inside]
    split
    · next hkind => exact h hkind
    · exact hpass
  cases line with
  | blank =>
    rw [lineEdits, writeLine]
    split
    · exact s.output_skip ctx.target
    · rfl
  | comment text => exact s.output_comment ctx.target text
  | ifLine condition => exact s.output_openBlock ctx.target _ (by decide) _
  | elseIfLine condition =>
    exact hinside fun h => Sheet.output_branch_of_innermost ctx.target (by decide) h _
  | elseLine => exact hinside fun h => Sheet.output_branch_of_innermost ctx.target (by decide) h _
  | endIf => exact hinside fun _ => Sheet.output_close ctx.target
  | doCase => exact s.output_enterChoice ctx.target
  | caseLine condition => exact hinside output_run_choiceEdits
  | otherwise => exact hinside output_run_choiceEdits
  | endCase => exact hinside fun _ => Sheet.output_close ctx.target
  | forLine counter first last step => exact s.output_openBlock ctx.target _ (by decide) _
  | forEachLine element collection => exact s.output_openBlock ctx.target _ (by decide) _
  | doWhile condition => exact s.output_openBlock ctx.target _ (by decide) _
  | endFor => exact hinside fun _ => Sheet.output_close ctx.target
  | endDo => exact hinside fun _ => Sheet.output_close ctx.target
  | localNames names =>
    cases names with
    | nil => exact hpass
    | cons name names => exact s.output_write ctx.target _
  | store value targets =>
    show (s.run ctx.target ((targets.map _).map _)).output ctx.target = _
    rw [List.map_map, Sheet.run, List.foldl_map]
    exact (List.foldl_hom (Sheet.output ctx.target)
      fun s t => (s.output_write ctx.target _).symm).symm
  | parameters names => exact s.output_comment ctx.target _
  | returnLine value => exact s.output_write ctx.target _
  | release => exact s.output_write ctx.target _
  | wait message => exact s.output_write ctx.target _
  | call name arguments => exact s.output_write ctx.target _
  | print value => exact s.output_write ctx.target _
  | statement text => exact s.output_write ctx.target _

/-- The remark of a line is written after its code, or as a comment of its own where there is no
code. -/
theorem output_run_remarkEdits (target : Target) (s : Sheet) (codeIsBlank : Bool)
    (remark : List Char) :
    (s.run target (remarkEdits codeIsBlank remark)).output target =
      if remark.isEmpty then s.output target
      else addRemark target codeIsBlank remark (s.output target) := by
  rw [remarkEdits]
  split
  · rfl
  · cases codeIsBlank with
    | false => exact s.output_remark target remark
    | true =>
      rw [if_pos rfl, addRemark]
      split <;> exact s.output_comment target remark

/-- The edits of a line as it stands in a body. -/
theorem output_run_edits (ctx : Context) (s : Sheet) (raw : List Char) :
    (s.run ctx.target (edits ctx s.frames raw)).output ctx.target =
      translateLine ctx (s.output ctx.target) raw := by
  rcases hcomment : commentLine? (trim raw) with _ | text
  · simp only [edits, translateLine, hcomment]
    rw [Sheet.run_append, output_run_remarkEdits, output_run_lineEdits]
  · simp only [edits, translateLine, hcomment]
    exact s.output_comment ctx.target text

/-- Behind every line a sheet says where the translation stands. -/
theorem output_sheetOf (ctx : Context) (raws : List (List Char)) :
    (sheetOf ctx raws).output ctx.target = raws.foldl (translateLine ctx) {} :=
  (List.foldl_hom (Sheet.output ctx.target) fun s raw => (output_run_edits ctx s raw).symm).symm

/-- Without open blocks there is nothing to close. -/
theorem Sheet.closeBlocks_of_isEmpty (target : Target) {s : Sheet} (h : s.frames = [])
    (count : Nat) : s.closeBlocks target count = s := by
  induction count with
  | zero => rfl
  | succ count ih =>
    have hclose : s.apply target .close = s := by rw [apply, h]
    rw [closeBlocks, List.replicate_succ, run, List.foldl_cons, hclose]
    exact ih

/-- Closing blocks on a sheet closes them in the translation. -/
theorem output_closeBlocks (target : Target) (s : Sheet) (count : Nat) :
    (s.closeBlocks target count).output target = closeAll target count (s.output target) := by
  induction count generalizing s with
  | zero => rfl
  | succ count ih =>
    rw [closeAll, Sheet.output_frames]
    split
    · next h => rw [s.closeBlocks_of_isEmpty target (List.isEmpty_iff.mp h)]
    · rw [← Sheet.output_close, ← ih]
      rfl

/-- The lines of a translated body are those of its rows. -/
theorem translatedLines_eq (ctx : Context) (body : String) :
    translatedLines ctx body = (translatedRows ctx body).map (Row.line ctx.target) := by
  have hlines : translatedLines ctx body =
      dropBlankEnd ((closedSheet ctx body).rows.map (Row.line ctx.target)) := by
    rw [translatedLines, ← output_sheetOf, Output.finish, Sheet.output_frames, ← output_closeBlocks]
    rfl
  rw [hlines, dropBlankEnd, translatedRows, List.rdropWhile, ← List.map_reverse, List.dropWhile_map,
    List.map_reverse]
  rfl

/-- Remarks are written behind the text of a row. -/
theorem Row.exists_line_eq (r : Row) (target : Target) :
    ∃ tail, r.line target = indented r.depth r.text ++ tail := by
  have hremarks : ∀ (remarks : List (List Char)) (line : String),
      ∃ tail, remarks.foldl (withRemark target) line = line ++ tail := by
    intro remarks
    induction remarks with
    | nil => exact fun line => ⟨"", by simp⟩
    | cons remark remarks ih =>
      intro line
      obtain ⟨tail, htail⟩ := ih (withRemark target line remark)
      refine ⟨"  " ++ (idiom target).comment ++ " " ++ String.ofList remark ++ tail, ?_⟩
      rw [List.foldl_cons, htail, withRemark]
      simp only [String.append_assoc]
  exact hremarks r.remarks _

/-- Remarks do not make a line blank. -/
theorem Row.solid_line {r : Row} (h : Solid r.text) (target : Target) : Solid (r.line target) := by
  obtain ⟨tail, hline⟩ := r.exists_line_eq target
  rw [hline]
  exact (h.indented r.depth).append_right tail

/-- A translated body leaves out blank rows at the end. -/
theorem exists_rows_eq (ctx : Context) (body : String) :
    ∃ blank, (closedSheet ctx body).rows = translatedRows ctx body ++ blank ∧
      ∀ r ∈ blank, ¬ Solid (r.line ctx.target) := by
  refine ⟨_, (List.rdropWhile_append_rtakeWhile ..).symm, fun r hr hsolid => ?_⟩
  have hblank := List.mem_rtakeWhile_imp hr
  rw [(solid_iff _).mp hsolid] at hblank
  cases hblank

/-! ## Invariants of sheets -/

/-- What every edit keeps holds behind all edits of a line. -/
theorem Sheet.run_induction {target : Target} {P : Sheet → Prop} {s : Sheet} {es : List Edit}
    (hs : P s) (hedit : ∀ e ∈ es, ∀ s, P s → P (s.apply target e)) : P (s.run target es) :=
  List.foldlRecOn es _ hs fun s hs e he => hedit e he s hs

variable {ctx : Context}

/-- What every edit for some lines keeps holds behind them. -/
theorem sheetOf_induction {P : Sheet → Prop} {raws : List (List Char)} (hnil : P {})
    (hedit : ∀ frames, ∀ raw ∈ raws, ∀ e ∈ edits ctx frames raw, ∀ s, P s →
      P (s.apply ctx.target e)) : P (sheetOf ctx raws) :=
  List.foldlRecOn raws _ hnil fun s hs raw hraw =>
    Sheet.run_induction hs fun e he => hedit s.frames raw hraw e he

/-- What every edit for the lines of a body keeps, and closing blocks as well, holds of the sheet
of the body. -/
theorem closedSheet_induction {P : Sheet → Prop} {body : String} (hnil : P {})
    (hedit : ∀ frames, ∀ raw ∈ logicalLines body, ∀ e ∈ edits ctx frames raw, ∀ s, P s →
      P (s.apply ctx.target e))
    (hclose : ∀ s, P s → P (s.apply ctx.target .close)) : P (closedSheet ctx body) := by
  refine Sheet.run_induction (sheetOf_induction hnil hedit) ?_
  intro e he
  rw [List.eq_of_mem_replicate he]
  exact hclose

/-- Every closing takes one frame, so that none is left when all are closed. -/
theorem Sheet.frames_closeBlocks (target : Target) {s : Sheet} {count : Nat}
    (h : s.frames.length = count) : (s.closeBlocks target count).frames = [] := by
  induction count generalizing s with
  | zero => exact List.length_eq_zero_iff.mp h
  | succ count ih =>
    rcases hframes : s.frames with _ | ⟨frame, outer⟩
    · simp [hframes] at h
    · have hclose : (s.apply target .close).frames.length = count := by
        rw [hframes, List.length_cons, Nat.add_right_cancel_iff] at h
        rw [apply, hframes]
        dsimp only
        split
        · cases outer <;> exact h
        · exact h
      exact ih hclose

/-- In the end all blocks are closed. -/
theorem closedSheet_frames (ctx : Context) (body : String) : (closedSheet ctx body).frames = [] :=
  Sheet.frames_closeBlocks ctx.target rfl

end ScreenForms.Code
