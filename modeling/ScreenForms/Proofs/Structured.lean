import ScreenForms.Proofs.BlockLines
import ScreenForms.Proofs.SimpleLines

/-!
# Structured translation

A body of code that is nested well is a tree of comments, simple lines and blocks. Its translation
follows the tree: every inner body is translated on its own and moved one level to the right, with
a filler where it holds no code, and stands between the target's header and the next header or the
closing line (`translate_body`). The leaves of a tree carry their lines as they stand in the
source, in any spelling, together with what the lines are read as.
-/

namespace ScreenForms.Code

open Text

/-! ## Lines as they stand in the source -/

/-- A line that is read as a comment with a text. -/
structure CommentLine (text : List Char) where
  raw : List Char
  isSource : IsSourceLine raw
  reads : commentLine? (trim raw) = some text ∨
    commentLine? (trim raw) = none ∧ dropRemark (trim raw) = trim raw ∧
      Line.read (trim raw) = .comment text

/-- The text of some lines. -/
def bodyText (raws : List (List Char)) : String := join "\n" (raws.map String.ofList)

/-- A line that is no block keyword and whose own translation holds code. -/
structure SimpleLine (ctx : Context) where
  raw : List Char
  isCode : IsCodeLine raw
  notKeyword : (Line.read (trim raw)).isKeyword = false
  hasCode : hasCode ctx.target (translate ctx (bodyText [raw])) = true

/-! ## Trees -/

/-- The two constructs that have several branches. -/
inductive Chain where
  | conditional
  | choice
  deriving DecidableEq, Repr

namespace Chain

/-- The line that begins another branch with a condition. -/
def nextLine : Chain → List Char → Line
  | conditional => .elseIfLine
  | choice => .caseLine

/-- The line that begins the branch without a condition. -/
def lastLine : Chain → Line
  | conditional => .elseLine
  | choice => .otherwise

/-- The line that closes the construct. -/
def closeLine : Chain → Line
  | conditional => .endIf
  | choice => .endCase

end Chain

/-- The head of a loop. -/
inductive LoopHead where
  | counted (counter first last : List Char) (step : Option (List Char))
  | each (element collection : List Char)
  | tested (condition : List Char)

namespace LoopHead

/-- The line that opens the loop. -/
def openLine : LoopHead → Line
  | counted counter first last step => .forLine counter first last step
  | each element collection => .forEachLine element collection
  | .tested condition => .doWhile condition

/-- The line that closes the loop. -/
def closeLine : LoopHead → Line
  | .tested _ => .endDo
  | _ => .endFor

/-- The header of the loop in the target's language. -/
def header (ctx : Context) : LoopHead → String
  | counted counter first last step =>
    forLine ctx.target (exprText ctx false counter) (exprText ctx false first)
      (exprText ctx false last) (step.map (exprText ctx false))
  | each element collection =>
    forEachLine ctx.target (String.ofList element) (exprText ctx false collection)
  | .tested condition => whileLine ctx.target (exprText ctx true condition)

end LoopHead

mutual

/-- A body of code that is nested well. -/
inductive Body (ctx : Context) where
  | nil
  | comment {text : List Char} (line : CommentLine text) (rest : Body ctx)
  | simple (line : SimpleLine ctx) (rest : Body ctx)
  | block (first : Block ctx) (rest : Body ctx)

/-- A construct with bodies inside. -/
inductive Block (ctx : Context) where
  | conditional {condition : List Char} (head : CodeLine (.ifLine condition)) (body : Body ctx)
    (more : Branches ctx .conditional) (last : CodeLine (Chain.closeLine .conditional))
  | choice {condition : List Char} (opening : CodeLine .doCase)
    (head : CodeLine (.caseLine condition)) (body : Body ctx) (more : Branches ctx .choice)
    (last : CodeLine (Chain.closeLine .choice))
  | loop {head : LoopHead} (line : CodeLine head.openLine) (body : Body ctx)
    (last : CodeLine head.closeLine)

/-- The branches behind the first. -/
inductive Branches (ctx : Context) : Chain → Type where
  | none {kind : Chain} : Branches ctx kind
  | otherwise {kind : Chain} (head : CodeLine kind.lastLine) (body : Body ctx) : Branches ctx kind
  | next {kind : Chain} {condition : List Char} (head : CodeLine (kind.nextLine condition))
    (body : Body ctx) (rest : Branches ctx kind) : Branches ctx kind

end

variable {ctx : Context}

mutual

/-- The lines of a body as they stand in the source. -/
def Body.raws : Body ctx → List (List Char)
  | .nil => []
  | .comment line rest => line.raw :: rest.raws
  | .simple line rest => line.raw :: rest.raws
  | .block first rest => first.raws ++ rest.raws

/-- The lines of a construct as they stand in the source. -/
def Block.raws : Block ctx → List (List Char)
  | .conditional head body more last => head.raw :: body.raws ++ more.raws ++ [last.raw]
  | .choice opening head body more last =>
    opening.raw :: head.raw :: body.raws ++ more.raws ++ [last.raw]
  | .loop line body last => line.raw :: body.raws ++ [last.raw]

/-- The lines of branches as they stand in the source. -/
def Branches.raws {kind : Chain} : Branches ctx kind → List (List Char)
  | .none => []
  | .otherwise head body => head.raw :: body.raws
  | .next head body rest => head.raw :: body.raws ++ rest.raws

end

/-! ## Rendering -/

/-- The lines of an inner body: those of its own translation, with a filler behind them when they
hold no code, all moved one level to the right. -/
def Body.inner (body : Body ctx) : List String :=
  deeper (translatedLines ctx (bodyText body.raws) ++
    filler ctx.target (hasCode ctx.target (translate ctx (bodyText body.raws))))

/-- The target's rendering of branches. -/
def Branches.rendered {kind : Chain} : Branches ctx kind → List String
  | .none => []
  | .otherwise _ body => elseLine ctx.target :: body.inner
  | @Branches.next _ _ condition _ body rest =>
    elseIfLine ctx.target (exprText ctx true condition) :: body.inner ++ rest.rendered

/-- The target's rendering of a construct. -/
def Block.rendered : Block ctx → List String
  | @Block.conditional _ condition _ body more _ =>
    ifLine ctx.target (exprText ctx true condition) :: body.inner ++ more.rendered ++
      closing ctx.target
  | @Block.choice _ condition _ _ body more _ =>
    ifLine ctx.target (exprText ctx true condition) :: body.inner ++ more.rendered ++
      closing ctx.target
  | @Block.loop _ head _ body _ => head.header ctx :: body.inner ++ closing ctx.target

/-- The target's rendering of a body. -/
def Body.rendered : Body ctx → List String
  | .nil => []
  | @Body.comment _ text _ rest => Output.commentText ctx.target text :: rest.rendered
  | .simple line rest => translatedLines ctx (bodyText [line.raw]) ++ rest.rendered
  | .block first rest => first.rendered ++ rest.rendered

/-! ## Reading the lines of a tree -/

/-- The lines of a tree are the logical lines of its text, up to blanks at their ends: none of them
goes on in the next one. -/
theorem logicalLines_bodyText {raws : List (List Char)} (h : ∀ raw ∈ raws, IsSourceLine raw) :
    logicalLines (bodyText raws) = raws.map trimEnd := by
  have hcontinuation : ∀ {raw l : List Char}, IsSourceLine raw → trimEnd l = trimEnd raw →
      lineContinuation l = (trimEnd raw, false) := by
    intro raw l hraw hl
    have hsame : lineContinuation l = lineContinuation raw := by
      rw [lineContinuation, lineContinuation, hl]
    have hcomplete := hraw.complete
    rw [hsame]
    unfold lineContinuation at hcomplete ⊢
    dsimp only at hcomplete ⊢
    split
    · rfl
    · split at hcomplete
      · contradiction
      · split at hcomplete <;> simp_all
  have hlines : ∀ raws : List (List Char), (∀ raw ∈ raws, IsSourceLine raw) →
      joinFrom none (lines (joinWith ['\n'] raws)) = raws.map trimEnd := by
    intro raws h
    induction raws with
    | nil => rfl
    | cons raw raws ih =>
      obtain ⟨hraw, hraws⟩ := List.forall_mem_cons.mp h
      have hne : raw ≠ [] := by
        rintro rfl
        exact hraw.notBlank rfl
      have htrim : trimEnd (if raws = [] then raw else chomp raw) = trimEnd raw := by
        split
        · rfl
        · exact trimEnd_chomp raw
      rw [lines_joinWith_cons hraw.noBreak hne, joinFrom, hcontinuation hraw htrim, List.map_cons,
        ← ih hraws]
      rfl
  unfold logicalLines bodyText
  rw [toList_join, List.map_map]
  have hid : String.toList ∘ String.ofList = id := by
    funext cs
    exact String.toList_ofList
  rw [hid, List.map_id]
  exact hlines raws h

/-- Lines translate to others, whatever was written before them. -/
structure Translates (ctx : Context) (raws : List (List Char)) (texts : List String)
    (code : Bool) : Prop where
  isSource : ∀ raw ∈ raws, IsSourceLine raw
  run : ∀ o, (raws.map trimEnd).foldl (translateLine ctx) o = o.after texts code
  solid : ∀ t ∈ texts, Solid t
  hasCode : texts.any (hasCode ctx.target) = code

namespace Translates

variable {raws raws' : List (List Char)} {texts texts' : List String} {code code' : Bool}

theorem nil : Translates ctx [] [] false :=
  ⟨by simp, fun o => (Output.after_nil o).symm, by simp, rfl⟩

/-- What is translated piece by piece is translated as a whole. Code is in it where it is in one of
the pieces. -/
theorem append (h : Translates ctx raws texts code) (h' : Translates ctx raws' texts' code') :
    Translates ctx (raws ++ raws') (texts ++ texts') (code || code') := by
  refine ⟨List.forall_mem_append.mpr ⟨h.isSource, h'.isSource⟩, fun o => ?_,
    List.forall_mem_append.mpr ⟨h.solid, h'.solid⟩, ?_⟩
  · rw [List.map_append, List.foldl_append, h.run, h'.run, Output.after_after]
  · rw [List.any_append, h.hasCode, h'.hasCode]

/-- A text with lines that translate to others is translated to them. -/
theorem translatedLines_of_logicalLines (h : Translates ctx raws texts code) {body : String}
    (hbody : logicalLines body = raws.map trimEnd) : translatedLines ctx body = texts := by
  unfold translatedLines Output.finish
  rw [hbody, h.run]
  have hframes : (Output.after {} texts code).frames = [] := by
    cases code <;> rfl
  rw [hframes]
  show dropBlankEnd ([] ++ texts.map (indented 0)) = texts
  rw [List.nil_append, map_indented_zero]
  exact dropBlankEnd_of_forall h.solid

/-- Lines that translate to others are translated to them on their own. -/
theorem translatedLines_eq (h : Translates ctx raws texts code) :
    translatedLines ctx (bodyText raws) = texts :=
  h.translatedLines_of_logicalLines (logicalLines_bodyText h.isSource)

/-- The flag says whether the translation has code, so a block that needs a filler can be told by
it. -/
theorem hasCode_translate (h : Translates ctx raws texts code) :
    Code.hasCode ctx.target (translate ctx (bodyText raws)) = code := by
  rw [translate, hasCode_join, h.translatedLines_eq, h.hasCode]

end Translates

/-! ## Leaves -/

/-- A line of code without a remark is written as what it is read as. -/
theorem IsCodeLine.translateLine_eq {raw : List Char} (h : IsCodeLine raw) (o : Output) :
    translateLine ctx o (trimEnd raw) = writeLine ctx (trimEnd raw) o (Line.read (trim raw)) := by
  unfold translateLine
  simp only [trim_trimEnd, h.notComment, h.noRemark]
  have hremark : trim (((trim raw).drop (trim raw).length).drop 2) = [] := by
    rw [List.drop_length]
    rfl
  rw [hremark]
  rfl

/-- What is left behind a lead stands in the text. -/
theorem mem_of_dropLeadNoCase? {lead cs rest : List Char}
    (h : dropLeadNoCase? lead cs = some rest) {c : Char} (hc : c ∈ rest) : c ∈ cs := by
  obtain ⟨word, rfl, -⟩ := dropLeadNoCase?_eq_some_iff.mp h
  exact List.mem_append_right word hc

/-- The text of a comment stands in its line. -/
theorem mem_of_commentLine? {line text : List Char} (h : commentLine? line = some text) {c : Char}
    (hc : c ∈ text) : c ∈ line := by
  unfold commentLine? at h
  split at h
  · obtain rfl := Option.some.inj h
    exact List.mem_cons_of_mem _ ((List.dropWhile_sublist _).subset hc)
  · split at h
    · obtain rfl := Option.some.inj h
      cases hc
    · next d rest hnote =>
      split at h
      · obtain rfl := Option.some.inj h
        exact mem_of_dropLeadNoCase? hnote hc
      · cases h
    · cases h

namespace CommentLine

variable {text : List Char} (line : CommentLine text)
include line

/-- So a comment has no line feed. -/
theorem not_mem : '\n' ∉ text := by
  have hraw : '\n' ∉ trim line.raw := fun h => line.isSource.noBreak (mem_of_mem_trim h)
  rcases line.reads with h | ⟨-, -, h⟩
  · exact fun hmem => hraw (mem_of_commentLine? h hmem)
  · rcases read_cases (trim line.raw) with ⟨hblank, -⟩ | hcomment | hkeyword | ⟨hsimple, -⟩
    · rw [h] at hblank
      cases hblank
    · rw [h, trim_trim] at hcomment
      rw [Line.comment.inj hcomment]
      exact hraw
    · rw [h] at hkeyword
      cases hkeyword
    · rw [h] at hsimple
      cases hsimple

/-- A comment becomes one comment of the target, and is no code. -/
theorem translates : Translates ctx [line.raw] [Output.commentText ctx.target text] false := by
  have hsolid : Solid (Output.commentText ctx.target text) := by
    have hmark : Solid (idiom ctx.target).comment := by
      cases ctx.target
      · exact ⟨'#', by decide, rfl⟩
      · exact ⟨'#', by decide, rfl⟩
      · exact ⟨'/', by decide, rfl⟩
      · exact ⟨'/', by decide, rfl⟩
    unfold Output.commentText
    dsimp only
    split
    · exact hmark
    · exact (hmark.append_right _).append_right _
  refine ⟨by simpa using line.isSource, fun o => ?_, by simpa using hsolid, ?_⟩
  · show translateLine ctx o (trimEnd line.raw) = _
    rw [← Output.comment_eq_after]
    rcases line.reads with h | ⟨hcomment, hremark, h⟩
    · unfold translateLine
      simp only [trim_trimEnd, h]
    · have hcode : IsCodeLine line.raw :=
        { line.isSource with notComment := hcomment, noRemark := hremark }
      rw [hcode.translateLine_eq, h]
      rfl
  · simp [hasCode_commentText ctx.target line.not_mem]

end CommentLine

theorem mem_of_mem_dropBlankEnd {ls : List String} {l : String} (h : l ∈ dropBlankEnd ls) :
    l ∈ ls :=
  List.mem_reverse.mp ((List.dropWhile_sublist _).subset (List.mem_reverse.mp h))

/-- A simple line becomes the lines that it is translated to when it stands alone, wherever it
stands in a tree. -/
theorem SimpleLine.translates (line : SimpleLine ctx) :
    Translates ctx [line.raw] (translatedLines ctx (bodyText [line.raw])) true := by
  have hsource : ∀ raw ∈ [line.raw], IsSourceLine raw := by
    simpa using line.isCode.toIsSourceLine
  obtain ⟨texts, code, hwrites⟩ : ∃ texts code,
      WritesPlainly ctx (trimEnd line.raw) (Line.read (trim line.raw)) texts code := by
    refine exists_writesPlainly ctx ?_ line.notKeyword ?_ ?_
    · rw [trim_trimEnd]
      exact line.isCode.notBlank
    · intro text h
      exact (CommentLine.mk line.raw line.isCode.toIsSourceLine
        (.inr ⟨line.isCode.notComment, line.isCode.noRemark, h⟩)).not_mem
    · intro names h
      rcases read_cases (trim line.raw) with ⟨hblank, -⟩ | hcomment | hkeyword | ⟨-, hnames, -⟩
      · rw [h] at hblank
        cases hblank
      · rw [h] at hcomment
        cases hcomment
      · rw [h] at hkeyword
        cases hkeyword
      · exact hnames names (by rw [h]; rfl)
  have hrun : ∀ o, ([line.raw].map trimEnd).foldl (translateLine ctx) o = o.after texts code := by
    intro o
    show translateLine ctx o (trimEnd line.raw) = _
    rw [line.isCode.translateLine_eq]
    exact hwrites.writes o
  -- on its own the line is translated to the same texts, but for blank ones at the end
  have hown : translatedLines ctx (bodyText [line.raw]) = dropBlankEnd texts := by
    unfold translatedLines Output.finish
    rw [logicalLines_bodyText hsource, hrun]
    have hframes : (Output.after {} texts code).frames = [] := by
      cases code <;> rfl
    rw [hframes]
    show dropBlankEnd ([] ++ texts.map (indented 0)) = dropBlankEnd texts
    rw [List.nil_append, map_indented_zero]
  have hcode : (dropBlankEnd texts).any (Code.hasCode ctx.target) = true := by
    have h := line.hasCode
    rwa [translate, hasCode_join, hown] at h
  obtain ⟨t, ht, htcode⟩ := List.any_eq_true.mp hcode
  obtain rfl : code = true := by
    by_contra hcomment
    have hnone := hwrites.of_comment (by simpa using hcomment) t (mem_of_mem_dropBlankEnd ht)
    rw [hnone] at htcode
    cases htcode
  have hsolid : ∀ t ∈ texts, Solid t := by
    rcases hwrites.solid with ⟨s, rfl⟩ | hall
    · by_contra hblank
      rw [dropBlankEnd_singleton (by simpa using hblank)] at ht
      cases ht
    · exact hall
  rw [hown, dropBlankEnd_of_forall hsolid] at *
  exact ⟨hsource, hrun, hsolid, hcode⟩

/-! ## Blocks -/

/-- The lines of a block are indented and its filler is no blank line. -/
theorem solid_of_mem_inner {target : Target} {texts : List String} {code : Bool}
    (h : ∀ t ∈ texts, Solid t) : ∀ t ∈ deeper (texts ++ filler target code), Solid t := by
  intro t ht
  obtain ⟨s, hs, rfl⟩ := List.mem_map.mp ht
  refine Solid.indented ?_ 1
  rcases List.mem_append.mp hs with hs | hs
  · exact h s hs
  · unfold filler at hs
    split at hs
    · cases hs
    · obtain rfl := List.mem_singleton.mp hs
      exact ⟨'p', by decide, rfl⟩

theorem solid_of_mem_closing {target : Target} : ∀ t ∈ closing target, Solid t := by
  intro t ht
  unfold closing at ht
  split at ht
  · obtain rfl := List.mem_singleton.mp ht
    exact ⟨'\x7d', by decide, rfl⟩
  · cases ht

/-- Lines go on with an open block and close it, whatever was written into it before. -/
structure Closes (ctx : Context) (fits : Frame → Prop) (raws : List (List Char))
    (texts : List String) : Prop where
  isSource : ∀ raw ∈ raws, IsSourceLine raw
  run : ∀ (o : Output) (outer : List Frame) (frame : Frame) (lines : List String), fits frame →
    (raws.map trimEnd).foldl (translateLine ctx) (o.within outer frame lines) =
      { o with
        lines := o.lines ++
          (lines ++ deeper (filler ctx.target frame.hasBody) ++ texts).map (indented o.depth)
        frames := Output.mark outer }
  solid : ∀ t ∈ texts, Solid t

variable {fits : Frame → Prop} {raws bodyRaws : List (List Char)} {texts bodyTexts : List String}
  {code : Bool} {line : Line}

/-- The closing line by itself. -/
theorem Closes.of_close (last : CodeLine line)
    (hclose : ∀ (raw : List Char) (o : Output) outer frame lines, fits frame →
      writeLine ctx raw (o.within outer frame lines) line =
        (o.within outer frame lines).close ctx.target)
    (hopened : ∀ frame, fits frame → frame.kind ≠ .choice ∨ frame.opened = true) :
    Closes ctx fits [last.raw] (closing ctx.target) := by
  refine ⟨by simpa using last.isCode.toIsSourceLine, ?_, solid_of_mem_closing⟩
  intro o outer frame lines hfits
  show translateLine ctx _ (trimEnd last.raw) = _
  rw [last.isCode.translateLine_eq, last.reads, hclose _ o outer frame lines hfits,
    Output.close_within ctx.target o (hopened frame hfits)]

/-- Another branch before the lines that close the block. What stands in it is one level deeper,
with a filler if it has no statement of its own. -/
theorem Closes.of_branch (head : CodeLine line) {header : String} (hheader : Solid header)
    (hbranch : ∀ (raw : List Char) (o : Output) outer frame lines, fits frame →
      writeLine ctx raw (o.within outer frame lines) line =
        (o.within outer frame lines).branch ctx.target header)
    (hfits : ∀ frame hasBody, fits frame → fits { frame with hasBody })
    (hbody : Translates ctx bodyRaws bodyTexts code) (hrest : Closes ctx fits raws texts) :
    Closes ctx fits (head.raw :: bodyRaws ++ raws)
      (header :: deeper (bodyTexts ++ filler ctx.target code) ++ texts) := by
  refine ⟨?_, ?_, ?_⟩
  · exact List.forall_mem_append.mpr ⟨List.forall_mem_cons.mpr
      ⟨head.isCode.toIsSourceLine, hbody.isSource⟩, hrest.isSource⟩
  · intro o outer frame lines hframe
    rw [List.map_append, List.map_cons, List.foldl_append, List.foldl_cons,
      head.isCode.translateLine_eq, head.reads, hbranch _ o outer frame lines hframe,
      Output.branch_within, hbody.run, Output.within_after,
      hrest.run o outer _ _ (hfits _ _ (hfits _ _ hframe))]
    simp [deeper]
  · exact List.forall_mem_append.mpr ⟨List.forall_mem_cons.mpr
      ⟨hheader, solid_of_mem_inner hbody.solid⟩, hrest.solid⟩

/-- A block from the output inside it: its first lines lead there from any output. The body is
translated without knowing what is around it, and all of it comes to stand one level deeper. -/
theorem Translates.of_opening {opening : List (List Char)} {header : String} {frame : Frame}
    {outer : List Frame → List Frame} (hsource : ∀ raw ∈ opening, IsSourceLine raw)
    (hopen : ∀ o, (opening.map trimEnd).foldl (translateLine ctx) o =
      o.within (outer o.frames) frame [header])
    (houter : ∀ frames, Output.mark (outer frames) = Output.mark frames)
    (hheader : Code.hasCode ctx.target header = true) (hsolid : Solid header)
    (hempty : frame.hasBody = false) (hframe : ∀ hasBody, fits { frame with hasBody })
    (hbody : Translates ctx bodyRaws bodyTexts code) (hrest : Closes ctx fits raws texts) :
    Translates ctx (opening ++ bodyRaws ++ raws)
      (header :: deeper (bodyTexts ++ filler ctx.target code) ++ texts) true := by
  refine ⟨?_, ?_, ?_, ?_⟩
  · exact List.forall_mem_append.mpr ⟨List.forall_mem_append.mpr ⟨hsource, hbody.isSource⟩,
      hrest.isSource⟩
  · intro o
    rw [List.map_append, List.map_append, List.foldl_append, List.foldl_append, hopen, hbody.run,
      Output.within_after, hrest.run o _ _ _ (hframe _), houter]
    simp [deeper, hempty, Output.after]
  · exact List.forall_mem_append.mpr ⟨List.forall_mem_cons.mpr
      ⟨hsolid, solid_of_mem_inner hbody.solid⟩, hrest.solid⟩
  · rw [List.cons_append, List.any_cons, hheader, Bool.true_or]

/-! ## Headers -/

theorem head?_append {s : String} {c : Char} (h : s.toList.head? = some c) (t : String) :
    (s ++ t).toList.head? = some c := by
  rw [String.toList_append, List.head?_append, h]
  rfl

/-- A text that begins with a given letter holds code and is not blank. -/
theorem header_of_head {target : Target} {s : String} {c : Char} (h : s.toList.head? = some c)
    (hblank : isBlank c = false) (hmark : c ≠ '#' ∧ c ≠ '/') :
    Code.hasCode target s = true ∧ Solid s :=
  ⟨hasCode_of_head h hblank hmark, c, List.mem_of_head? h, hblank⟩

/-- The header of a conditional block is code and no blank line, whatever its condition is. -/
theorem header_ifLine (target : Target) (condition : String) :
    Code.hasCode target (ifLine target condition) = true ∧ Solid (ifLine target condition) := by
  refine header_of_head (c := 'i') ?_ rfl (by decide)
  unfold ifLine
  split
  · exact head?_append (head?_append rfl _) _
  · exact head?_append (head?_append rfl _) _

/-- The same for the header of a loop. -/
theorem LoopHead.header_header (ctx : Context) (head : LoopHead) :
    Code.hasCode ctx.target (head.header ctx) = true ∧ Solid (head.header ctx) := by
  cases head with
  | counted counter first last step =>
    refine header_of_head (c := 'f') ?_ rfl (by decide)
    show (forLine ctx.target _ _ _ _).toList.head? = _
    unfold forLine
    dsimp only
    split
    · iterate 7 refine head?_append ?_ _
      rfl
    · iterate 14 refine head?_append ?_ _
      rfl
  | each element collection =>
    refine header_of_head (c := 'f') ?_ rfl (by decide)
    show (forEachLine ctx.target _ _).toList.head? = _
    unfold forEachLine
    split
    · iterate 4 refine head?_append ?_ _
      rfl
    · iterate 4 refine head?_append ?_ _
      rfl
    · iterate 4 refine head?_append ?_ _
      rfl
  | tested condition =>
    refine header_of_head (c := 'w') ?_ rfl (by decide)
    show (whileLine ctx.target _).toList.head? = _
    unfold whileLine
    split
    · exact head?_append (head?_append rfl _) _
    · exact head?_append (head?_append rfl _) _

theorem solid_elseIfLine (target : Target) (condition : String) :
    Solid (elseIfLine target condition) := by
  unfold elseIfLine
  split
  · exact Solid.append_right (Solid.append_right ⟨'\x7d', by decide, rfl⟩ _) _
  · exact Solid.append_right (Solid.append_right ⟨'e', by decide, rfl⟩ _) _

theorem solid_elseLine (target : Target) : Solid (elseLine target) := by
  unfold elseLine
  split
  · exact ⟨'\x7d', by decide, rfl⟩
  · exact ⟨'e', by decide, rfl⟩

/-! ## Trees -/

/-- The open block that goes on with the branches of a construct. -/
def Chain.Fits : Chain → Frame → Prop
  | .conditional, frame => frame.kind = .conditional
  | .choice, frame => frame.kind = .choice ∧ frame.opened = true

namespace Chain

variable {kind : Chain} {frame : Frame} (o : Output) (raw : List Char) (outer : List Frame)
  (lines : List String)

/-- Whether the block has a statement does not matter for which chain it belongs to. -/
theorem Fits.hasBody (h : kind.Fits frame) (hasBody : Bool) : kind.Fits { frame with hasBody } := by
  cases kind <;> exact h

/-- The block of a chain is one that closing steps back from. -/
theorem Fits.closes (h : kind.Fits frame) : frame.kind ≠ .choice ∨ frame.opened = true := by
  cases kind with
  | conditional => exact .inl (by rw [show frame.kind = .conditional from h]; decide)
  | choice => exact .inr h.2

/-- The line of a further branch is written as such, for conditional blocks and choices alike. -/
theorem writeLine_nextLine (h : kind.Fits frame) (condition : List Char) :
    writeLine ctx raw (o.within outer frame lines) (kind.nextLine condition) =
      (o.within outer frame lines).branch ctx.target
        (elseIfLine ctx.target (exprText ctx true condition)) := by
  cases kind with
  | conditional =>
    simp [nextLine, writeLine, Output.inside, Output.within, show frame.kind = .conditional from h]
  | choice =>
    simp [nextLine, writeLine, Output.inside, Output.choiceBranch, Output.within, h.1, h.2]

/-- So is the line of the branch without a condition. -/
theorem writeLine_lastLine (h : kind.Fits frame) :
    writeLine ctx raw (o.within outer frame lines) kind.lastLine =
      (o.within outer frame lines).branch ctx.target (elseLine ctx.target) := by
  cases kind with
  | conditional =>
    simp [lastLine, writeLine, Output.inside, Output.within, show frame.kind = .conditional from h]
  | choice =>
    simp [lastLine, writeLine, Output.inside, Output.choiceBranch, Output.within, h.1, h.2]

theorem writeLine_closeLine (h : kind.Fits frame) :
    writeLine ctx raw (o.within outer frame lines) kind.closeLine =
      (o.within outer frame lines).close ctx.target := by
  cases kind with
  | conditional =>
    simp [closeLine, writeLine, Output.inside, Output.within, show frame.kind = .conditional from h]
  | choice => simp [closeLine, writeLine, Output.inside, Output.within, h.1]

end Chain

namespace LoopHead

variable (head : LoopHead) (raw : List Char) (o : Output)

/-- The line that opens a loop writes its header and opens a block. -/
theorem writeLine_openLine :
    writeLine ctx raw o head.openLine = o.openBlock .loop (head.header ctx) := by
  cases head <;> rfl

theorem writeLine_closeLine {frame : Frame} (h : frame.kind = .loop) (outer : List Frame)
    (lines : List String) :
    writeLine ctx raw (o.within outer frame lines) head.closeLine =
      (o.within outer frame lines).close ctx.target := by
  cases head <;> simp [closeLine, writeLine, Output.inside, Output.within, h]

end LoopHead

/-- The lines of an inner body, once its translation is known. -/
theorem Body.inner_eq {body : Body ctx} {code : Bool}
    (h : Translates ctx body.raws body.rendered code) :
    body.inner = deeper (body.rendered ++ filler ctx.target code) := by
  rw [Body.inner, h.translatedLines_eq, h.hasCode_translate]

mutual

/-- A body translates to its rendering, whatever was written before it. -/
theorem Body.translates (body : Body ctx) : ∃ code, Translates ctx body.raws body.rendered code :=
  match body with
  | .nil => ⟨false, .nil⟩
  | .comment line rest => by
    obtain ⟨code, h⟩ := rest.translates
    exact ⟨_, line.translates.append h⟩
  | .simple line rest => by
    obtain ⟨code, h⟩ := rest.translates
    exact ⟨_, line.translates.append h⟩
  | .block first rest => by
    obtain ⟨code, h⟩ := rest.translates
    exact ⟨_, first.translates.append h⟩

/-- The step for the constructs of the tree: each translates to its rendering, and counts as a
statement of the block around it. There is one case for each constructor. -/
theorem Block.translates (block : Block ctx) : Translates ctx block.raws block.rendered true :=
  match block with
  | @Block.conditional _ condition head body more last => by
    obtain ⟨code, hbody⟩ := body.translates
    obtain ⟨hcode, hsolid⟩ := header_ifLine ctx.target (exprText ctx true condition)
    have hopen : ∀ o, ([head.raw].map trimEnd).foldl (translateLine ctx) o =
        o.within (Output.mark o.frames) { kind := .conditional }
          [ifLine ctx.target (exprText ctx true condition)] := by
      intro o
      show translateLine ctx o (trimEnd head.raw) = _
      rw [head.isCode.translateLine_eq, head.reads]
      rfl
    have h := Translates.of_opening (by simpa using head.isCode.toIsSourceLine) hopen
      Output.mark_mark hcode hsolid rfl (fun _ => rfl) hbody (more.closes last)
    rw [← Body.inner_eq hbody] at h
    simpa [Block.raws, Block.rendered] using h
  | @Block.choice _ condition opening head body more last => by
    obtain ⟨code, hbody⟩ := body.translates
    obtain ⟨hcode, hsolid⟩ := header_ifLine ctx.target (exprText ctx true condition)
    have hopen : ∀ o, ([opening.raw, head.raw].map trimEnd).foldl (translateLine ctx) o =
        o.within o.frames { kind := .choice, opened := true }
          [ifLine ctx.target (exprText ctx true condition)] := by
      intro o
      show translateLine ctx (translateLine ctx o (trimEnd opening.raw)) (trimEnd head.raw) = _
      rw [opening.isCode.translateLine_eq, opening.reads, head.isCode.translateLine_eq, head.reads]
      rfl
    have h := Translates.of_opening
      (by simpa using ⟨opening.isCode.toIsSourceLine, head.isCode.toIsSourceLine⟩) hopen
      (fun _ => rfl) hcode hsolid rfl (fun _ => ⟨rfl, rfl⟩) hbody (more.closes last)
    rw [← Body.inner_eq hbody] at h
    simpa [Block.raws, Block.rendered] using h
  | @Block.loop _ head line body last => by
    obtain ⟨code, hbody⟩ := body.translates
    obtain ⟨hcode, hsolid⟩ := head.header_header ctx
    have hopen : ∀ o, ([line.raw].map trimEnd).foldl (translateLine ctx) o =
        o.within (Output.mark o.frames) { kind := .loop } [head.header ctx] := by
      intro o
      show translateLine ctx o (trimEnd line.raw) = _
      rw [line.isCode.translateLine_eq, line.reads, head.writeLine_openLine]
      rfl
    have hclose : Closes ctx (fun frame => frame.kind = .loop) [last.raw] (closing ctx.target) :=
      .of_close last
        (fun raw o outer _ lines h => head.writeLine_closeLine raw o h outer lines)
        fun frame h => .inl (by rw [h]; decide)
    have h := Translates.of_opening (by simpa using line.isCode.toIsSourceLine) hopen
      Output.mark_mark hcode hsolid rfl (fun _ => rfl) hbody hclose
    rw [← Body.inner_eq hbody] at h
    simpa [Block.raws, Block.rendered] using h

/-- Branches and the closing line go on with an open construct. The recursion is on the branches,
and for the bodies inside it is `Body.translates`. -/
theorem Branches.closes {kind : Chain} (branches : Branches ctx kind)
    (last : CodeLine kind.closeLine) :
    Closes ctx kind.Fits (branches.raws ++ [last.raw])
      (branches.rendered ++ closing ctx.target) :=
  have hlast : Closes ctx kind.Fits [last.raw] (closing ctx.target) :=
    .of_close last (fun raw o outer _ lines h => kind.writeLine_closeLine o raw outer lines h)
      fun _ h => h.closes
  match branches with
  | .none => hlast
  | .otherwise head body => by
    obtain ⟨code, hbody⟩ := body.translates
    have h := Closes.of_branch head (solid_elseLine ctx.target)
      (fun raw o outer _ lines h => kind.writeLine_lastLine o raw outer lines h)
      (fun _ hasBody h => h.hasBody hasBody) hbody hlast
    rw [← Body.inner_eq hbody] at h
    simpa [Branches.raws, Branches.rendered] using h
  | @Branches.next _ _ condition head body rest => by
    obtain ⟨code, hbody⟩ := body.translates
    have h := Closes.of_branch head (solid_elseIfLine ctx.target (exprText ctx true condition))
      (fun raw o outer _ lines h => kind.writeLine_nextLine o raw outer lines h condition)
      (fun _ hasBody h => h.hasBody hasBody) hbody (rest.closes last)
    rw [← Body.inner_eq hbody] at h
    simpa [Branches.raws, Branches.rendered] using h

end

/-- Structured translation follows the tree of a body: every inner body is translated on its own,
moved to the right, and stands between the headers and the closing line of its construct. -/
theorem translate_body (body : Body ctx) :
    translatedLines ctx (bodyText body.raws) = body.rendered ∧
      translate ctx (bodyText body.raws) = join "\n" body.rendered := by
  obtain ⟨code, h⟩ := body.translates
  have hlines := h.translatedLines_eq
  exact ⟨hlines, by rw [translate, hlines]⟩

/-- The line `FOR i = 1 TO n`. -/
def countedHead : CodeLine (LoopHead.openLine (.counted ['i'] ['1'] ['n'] none)) :=
  .keyword "for" "FOR".toList "i = 1 TO n".toList (by decide) (by decide) (by decide)
    (by decide +kernel)
    (@read_forLine "FOR".toList ['i'] ['1'] ['n'] "TO".toList (by decide)
      ⟨by decide, List.forall_mem_singleton.mpr (by decide)⟩ (by decide) (by decide) (by decide)
      (by decide) (by decide))

/-- A choice with a loop in its only branch. The loop holds a comment and no code. -/
def loopInChoice : Body ⟨.tkinter, none⟩ :=
  .block
    (.choice ⟨"DO CASE".toList, by decide +kernel, by decide +kernel⟩
      (.keyword "case" "CASE".toList "a > 1".toList (by decide) (by decide) (by decide)
        (by decide +kernel) (read_caseLine (by decide) (by decide +kernel)))
      (.block
        (.loop (countedHead.indented 2)
          (@Body.comment _ " later".toList
            ⟨"* later".toList, by decide +kernel, by decide +kernel⟩ .nil)
          ⟨"ENDFOR".toList, by decide +kernel, by decide +kernel⟩)
        .nil)
      .none ⟨"ENDCASE".toList, by decide +kernel, by decide +kernel⟩)
    .nil

/-- The first branch of a choice opens late, and a block without code is filled. -/
theorem translate_body_loopInChoice :
    translatedLines ⟨.tkinter, none⟩
        "DO CASE\nCASE a > 1\n  FOR i = 1 TO n\n* later\nENDFOR\nENDCASE" =
      ["if a > 1:", "    for i in range(1, n + 1):", "        # later", "        pass"] := by
  have hbody : bodyText loopInChoice.raws =
      "DO CASE\nCASE a > 1\n  FOR i = 1 TO n\n* later\nENDFOR\nENDCASE" := by decide +kernel
  rw [← hbody, (translate_body loopInChoice).1]
  decide +kernel

end ScreenForms.Code
