import ScreenForms.Proofs.TextHeads

/-!
# Filled blocks

Where indentation marks blocks, every header has to be followed by code one level deeper. A header
waits for such a row (`Row.await`), and as long as one waits, the current block has no statement
yet (`Sheet.Awaits.apply`), so that the filler is written before the block ends. Comments and blank
rows do not count. A lone equals sign does, although nothing is written for it, so that blocks are
filled in every body without such a line (`blocks_filled`), and not in every body
(`not_fillsBlocks_loneSign`).
-/

namespace ScreenForms.Code

open Text

variable {ctx : Context} {target : Target}

/-! ## Statements begin with code -/

theorem beginsCode_terminated {text : String} (h : BeginsCode text) :
    BeginsCode (Output.terminated target text) := by
  rw [Output.terminated]
  split
  · exact h
  · split
    · exact h
    · exact h
    · exact h
    · exact h.append_right _

/-- A declaration starts with a name, which no sign of a comment can be part of. -/
theorem beginsCode_localDeclaration {names : List (List Char)} (h : ∀ name ∈ names, '#' ∉ name) :
    BeginsCode (localDeclaration target (names.map String.ofList)) := by
  have hjoin : '#' ∉ (join " = " (names.map String.ofList)).toList := by
    rw [toList_join, List.map_map]
    refine not_mem_joinWith (by decide) fun name hname => ?_
    obtain ⟨name, hmem, rfl⟩ := List.mem_map.mp hname
    simpa using h name hmem
  rw [localDeclaration]
  split
  · exact BeginsCode.append_left (by decide) hjoin
  · exact BeginsCode.append_right (by decide) _
  · exact BeginsCode.append_right (by decide) _

theorem Line.declared?_of_isKeyword {line : Line} (h : line.isKeyword = true) :
    line.declared? = none := by
  cases line <;> first | rfl | cases h

/-- The simple statements of a line begin with code. -/
theorem beginsCode_of_mem_statements (hbraces : (idiom ctx.target).braces = false) {line : Line}
    (hnames : ∀ names, line.declared? = some names → ∃ list, names = declaredNames list)
    (hstatement : ∀ text, line = .statement text → BeginsCode (statement ctx (Token.lex text)))
    {text : String} (h : text ∈ line.statements ctx) : BeginsCode text := by
  have hlead : ∀ {lead : String}, BeginsCode lead → ∀ s t u, BeginsCode (lead ++ s ++ t ++ u) :=
    fun hlead s t u => (hlead.append_right₂ s t).append_right u
  cases line with
  | localNames names =>
    obtain ⟨list, rfl⟩ := hnames names rfl
    obtain rfl := List.mem_singleton.mp h
    exact beginsCode_localDeclaration fun name => not_mem_declaredNames (by decide)
  | returnLine value =>
    obtain rfl := List.mem_singleton.mp h
    split
    · decide
    · exact BeginsCode.append_right (by decide) _
  | release =>
    obtain rfl := List.mem_singleton.mp h
    exact beginsCode_closeForm ctx.target
  | wait message =>
    obtain rfl := List.mem_singleton.mp h
    exact hlead (by cases ctx.target <;> decide) _ _ _
  | store value targets =>
    obtain ⟨t, -, rfl⟩ := List.mem_map.mp h
    exact beginsCode_assignment (fun _ => isRead_of_mem_lex) _
  | call name arguments =>
    obtain rfl := List.mem_singleton.mp h
    have hcallee : BeginsCode (calleeText ctx.target name) := by
      cases htarget : ctx.target with
      | html =>
        rw [htarget] at hbraces
        cases hbraces
      | _ => exact BeginsCode.append_right (by decide) _
    exact hlead hcallee _ _ _
  | print value =>
    obtain rfl := List.mem_singleton.mp h
    exact hlead (by cases ctx.target <;> decide) _ _ _
  | statement text =>
    obtain rfl := List.mem_singleton.mp h
    exact hstatement text rfl
  | _ => cases h

/-- A line of code that is neither blank nor a comment begins as it stands in the source. -/
theorem beginsCode_of_read {raw : List Char}
    (hblank : Line.read (dropRemark (trim raw)) ≠ .blank)
    (hcomment : ∀ text, Line.read (dropRemark (trim raw)) ≠ .comment text) :
    BeginsCode (String.ofList (trim raw)) := by
  rcases hcode : dropRemark (trim raw) with _ | ⟨c, cs⟩
  · rw [hcode] at hblank
    exact absurd rfl hblank
  · obtain ⟨rest, hrest⟩ := hcode ▸ dropRemark_isPrefix (trim raw)
    have hhead : (trim raw).head? = some c := by rw [← hrest]; rfl
    have hc : isBlank c = false := not_isBlank_of_head?_trim hhead
    refine .of_head? (by rw [String.toList_ofList]; exact hhead) hc ?_
    rintro rfl
    rw [hcode, Line.read, trim_cons_of_neg hc] at hcomment
    exact hcomment _ rfl

/-- What is written as a statement begins with code, unless the line is a lone equals sign. The sign
alone is translated to an empty text and still counts as a statement. -/
theorem beginsCode_of_mem_edits (hbraces : (idiom ctx.target).braces = false)
    {frames : List Frame} {raw : List Char} (hraw : trim (dropRemark (trim raw)) ≠ ['='])
    {text : String} (h : .write text ∈ edits ctx frames raw) : BeginsCode text := by
  have hread := read_cases (dropRemark (trim raw))
  rcases mem_edits_cases h with h | ⟨_, h⟩ | ⟨_, h⟩
  · generalize hline : Line.read (dropRemark (trim raw)) = line at h hread
    cases h with
    | passThrough hpass =>
      refine beginsCode_of_read (fun hblank => ?_) fun text hcomment => ?_
      · obtain rfl := hline.symm.trans hblank
        rcases hpass with hpass | hpass <;> cases hpass
      · obtain rfl := hline.symm.trans hcomment
        rcases hpass with hpass | hpass <;> cases hpass
    | statement htext =>
      refine beginsCode_terminated (beginsCode_of_mem_statements hbraces ?_ ?_ htext)
      · intro names hnames
        rcases hread with ⟨rfl, -⟩ | rfl | hkeyword | ⟨-, hdeclared, -⟩
        · cases hnames
        · cases hnames
        · rw [Line.declared?_of_isKeyword hkeyword] at hnames
          cases hnames
        · exact hdeclared names hnames
      · rintro text rfl
        rcases hread with ⟨hblank, -⟩ | hcomment | hkeyword | ⟨-, -, hstatement⟩
        · cases hblank
        · cases hcomment
        · cases hkeyword
        · obtain rfl := hstatement text rfl
          refine beginsCode_statement (trim_trim _) (fun hnil => ?_) hraw
          rw [Line.read, hnil] at hline
          cases hline
  · cases h
  · cases h

/-! ## Rows and their lines -/

variable (hbraces : (idiom target).braces = false)

/-- Moving a text to the right does not make it a comment or code. -/
theorem beginsCode_indented_iff (depth : Nat) (text : String) :
    BeginsCode (indented depth text) ↔ BeginsCode text := by
  have hspaces : ∀ c ∈ List.replicate (4 * depth) ' ', isBlank c = true := by
    intro c hc
    rw [List.eq_of_mem_replicate hc]
    rfl
  rw [BeginsCode, BeginsCode, indented, String.toList_append, String.toList_ofList, trimStart,
    List.dropWhile_append_of_pos hspaces]
  rfl

include hbraces

/-- A remark behind a line does not change how the line begins. -/
theorem beginsCode_withRemark_iff (line : String) (remark : List Char) :
    BeginsCode (withRemark target line remark) ↔ BeginsCode line := by
  have hremark : ¬ BeginsCode ("  " ++ ("#" ++ (" " ++ String.ofList remark))) := by
    rw [BeginsCode.append_iff]
    rintro (h | ⟨-, h⟩)
    · exact absurd h (by decide)
    · exact BeginsCode.not_mark _ h
  rw [withRemark, comment_eq hbraces, String.append_assoc, String.append_assoc,
    String.append_assoc, BeginsCode.append_iff]
  simp [hremark]

/-- Whether a row is code is decided by its text alone. -/
theorem beginsCode_line_iff (r : Row) : BeginsCode (r.line target) ↔ BeginsCode r.text := by
  have hremarks : ∀ (remarks : List (List Char)) (line : String),
      BeginsCode (remarks.foldl (withRemark target) line) ↔ BeginsCode line := by
    intro remarks
    induction remarks with
    | nil => exact fun _ => Iff.rfl
    | cons remark remarks ih =>
      intro line
      rw [List.foldl_cons, ih, beginsCode_withRemark_iff hbraces]
  rw [Row.line, hremarks, beginsCode_indented_iff]

/-- A comment is no code and fills no block. -/
theorem not_beginsCode_commentText (text : List Char) :
    ¬ BeginsCode (Output.commentText target text) := by
  rw [Output.commentText, comment_eq hbraces]
  split
  · decide
  · rw [String.append_assoc]
    exact BeginsCode.not_mark _

omit hbraces

/-- Headers are code, so that a block inside of a block fills the outer one. -/
theorem IsHeader.beginsCode {text : String} (h : IsHeader target text) : BeginsCode text := by
  have hlead : ∀ {lead : String}, BeginsCode lead → ∀ s t, BeginsCode (lead ++ s ++ t) :=
    BeginsCode.append_right₂
  cases h with
  | conditional condition =>
    rw [ifLine]
    split <;> exact hlead (by decide) _ _
  | tested condition =>
    rw [whileLine]
    split <;> exact hlead (by decide) _ _
  | counted counter first last step =>
    unfold forLine
    dsimp only
    split <;> repeat apply BeginsCode.append_right
    all_goals decide
  | each element collection =>
    rw [forEachLine]
    split <;> exact hlead (hlead (by decide) _ _) _ _

theorem IsBranchLine.beginsCode {text : String} (h : IsBranchLine target text) :
    BeginsCode text := by
  cases h with
  | condition condition =>
    rw [elseIfLine]
    split <;> exact BeginsCode.append_right₂ (by decide) _ _
  | last =>
    rw [elseLine]
    split <;> decide

/-! ## Waiting headers -/

/-- Whether a row is the header of a block or of another branch of it. -/
def Row.isHeader (r : Row) : Bool := r.move == some .opens || r.move == some .continues

theorem Row.Says.beginsCode {r : Row} (h : r.Says target) (hheader : r.isHeader = true) :
    BeginsCode r.text := by
  rw [Row.Says] at h
  simp only [Row.isHeader, Bool.or_eq_true, beq_iff_eq] at hheader
  rcases hheader with hmove | hmove
  · exact IsHeader.beginsCode (by simpa only [hmove] using h)
  · exact IsBranchLine.beginsCode (by simpa only [hmove] using h)

/-- The depth of the header that waits for code behind a row, given the one that waits before it.
The first code has to stand one level deeper than the header that waits for it, and so have rows
before it, unless they are empty. -/
def Row.await (waiting : Option Nat) (r : Row) : Option (Option Nat) :=
  if BeginsCode r.text then
    if ∀ depth ∈ waiting, r.depth = depth + 1 then
      some (if r.isHeader then some r.depth else none)
    else none
  else if r.text = "" ∨ ∀ depth ∈ waiting, r.depth = depth + 1 then some waiting
  else none

/-- The depth of the header that waits for code behind rows, if no header before has waited in
vain. -/
def unfilled (waiting : Option Nat) (rows : List Row) : Option (Option Nat) :=
  rows.foldlM Row.await waiting

section

variable {waiting : Option Nat} {r : Row} {rows : List Row}

/-- A row of code must stand one level below the header that waits, and lets a header wait only if
it is one. -/
theorem Row.await_of_code (hcode : BeginsCode r.text)
    (hdepth : ∀ depth ∈ waiting, r.depth = depth + 1) :
    r.await waiting = some (if r.isHeader then some r.depth else none) := by
  rw [await, if_pos hcode, if_pos hdepth]

/-- A comment leaves the header waiting. An empty row may stand at any depth. -/
theorem Row.await_of_not_code (hcode : ¬ BeginsCode r.text)
    (hplace : r.text = "" ∨ ∀ depth ∈ waiting, r.depth = depth + 1) :
    r.await waiting = some waiting := by
  rw [await, if_neg hcode, if_pos hplace]

/-- Rows are checked one after another, so that a sheet may be cut anywhere. -/
theorem unfilled_append (waiting : Option Nat) (xs ys : List Row) :
    unfilled waiting (xs ++ ys) = (unfilled waiting xs).bind fun w => unfilled w ys :=
  List.foldlM_append

theorem unfilled_cons (waiting : Option Nat) (r : Row) (rows : List Row) :
    unfilled waiting (r :: rows) = (r.await waiting).bind fun w => unfilled w rows :=
  List.foldlM_cons

/-- Rows without code end no waiting. -/
theorem eq_of_unfilled_eq_some (hcode : ∀ r ∈ rows, ¬ BeginsCode r.text) {behind : Option Nat}
    (h : unfilled waiting rows = some behind) : behind = waiting := by
  induction rows with
  | nil => exact (Option.some.inj h).symm
  | cons r rows ih =>
    obtain ⟨hr, hrows⟩ := List.forall_mem_cons.mp hcode
    rw [unfilled_cons, Row.await, if_neg hr] at h
    split at h
    · exact ih hrows h
    · cases h

/-- A header that does not wait in vain is followed by code one level deeper, with nothing but
empty rows and comments of its block before it. -/
theorem exists_code {depth : Nat} (h : unfilled (some depth) rows = some none) :
    ∃ (idle : List Row) (row : Row) (rest : List Row), rows = idle ++ row :: rest ∧
      (∀ r ∈ idle, ¬ BeginsCode r.text ∧ (r.text = "" ∨ r.depth = depth + 1)) ∧
      BeginsCode row.text ∧ row.depth = depth + 1 := by
  induction rows with
  | nil => cases h
  | cons r rows ih =>
    rw [unfilled_cons, Row.await] at h
    by_cases hcode : BeginsCode r.text
    · rw [if_pos hcode] at h
      split at h
      · next hdepth =>
        exact ⟨[], r, rows, rfl, List.forall_mem_nil _, hcode, hdepth depth rfl⟩
      · cases h
    · rw [if_neg hcode] at h
      split at h
      · next hplace =>
        obtain ⟨idle, row, rest, rfl, hidle, hrow⟩ := ih h
        have hr : r.text = "" ∨ r.depth = depth + 1 := by simpa using hplace
        exact ⟨r :: idle, row, rest, rfl, List.forall_mem_cons.mpr ⟨⟨hcode, hr⟩, hidle⟩, hrow⟩
      · cases h

end

namespace Sheet

variable {s : Sheet} {waiting : Option Nat}

/-- Where a header waits, its block is the current one and has no statement yet. -/
def Awaits (s : Sheet) : Prop :=
  ∃ waiting, unfilled none s.rows = some waiting ∧ ∀ depth ∈ waiting, s.depth = depth + 1 ∧
    ∃ frame outer, s.frames = frame :: outer ∧ frame.hasBody = false

/-- One more row is checked against the header that waits. -/
theorem unfilled_put (h : unfilled none s.rows = some waiting) (r : Row) :
    unfilled none (s.put r).rows = r.await waiting := by
  rw [put, unfilled_append, h, Option.bind_some, unfilled, List.foldlM_cons]
  exact bind_pure _

/-- Code of the current block ends the waiting, and a header begins to wait itself. -/
theorem Awaits.put_code (h : s.Awaits) {text : String} (hcode : BeginsCode text)
    (move : Option Move) :
    unfilled none (s.put { depth := s.depth, text, move }).rows =
      some (if move == some .opens || move == some .continues then some s.depth else none) := by
  obtain ⟨waiting, hwaiting, hframes⟩ := h
  rw [unfilled_put hwaiting]
  exact Row.await_of_code hcode fun depth hdepth => (hframes depth hdepth).1

/-- A comment is written at the depth of the open blocks, which is what a waiting header asks
for. -/
theorem Awaits.put_comment (hbraces : (idiom target).braces = false) (h : s.Awaits)
    (text : List Char) :
    (s.put { depth := s.depth, text := Output.commentText target text }).Awaits := by
  obtain ⟨waiting, hwaiting, hframes⟩ := h
  refine ⟨waiting, ?_, hframes⟩
  rw [unfilled_put hwaiting]
  exact Row.await_of_not_code (not_beginsCode_commentText hbraces text)
    (.inr fun depth hdepth => (hframes depth hdepth).1)

/-- The filler is there for every header that waits: it is written exactly where the innermost block
has no statement yet, and a header waits only there. -/
theorem Awaits.unfilled_fill (hbraces : (idiom target).braces = false) (h : s.Awaits) :
    unfilled none (s.fill target).rows = some none := by
  have hpass : unfilled none (s.put { depth := s.depth, text := "pass" }).rows = some none :=
    h.put_code (by decide) none
  rw [fill, if_neg (by simp [hbraces])]
  obtain ⟨waiting | depth, hwaiting, hframes⟩ := h
  · split
    · split
      · exact hwaiting
      · exact hpass
    · exact hwaiting
  · obtain ⟨-, frame, outer, heq, hbody⟩ := hframes depth rfl
    rw [heq]
    dsimp only
    rw [if_neg (by simp [hbody])]
    exact hpass

/-- The step: every edit keeps to it that only a block without a statement has a header that
waits. It is here that statements must begin with code, since an empty one would mark its block
as filled. -/
theorem Awaits.apply (hbraces : (idiom target).braces = false) (h : s.Awaits) {e : Edit}
    {frames : List Frame} (hfits : e.Fits target frames)
    (hcode : ∀ text, e = .write text → BeginsCode text) : (s.apply target e).Awaits := by
  have hdone : ∀ {s : Sheet}, unfilled none s.rows = some none → s.Awaits :=
    fun hrows => ⟨none, hrows, nofun⟩
  cases e with
  | write text => exact hdone (h.put_code (hcode text rfl) none)
  | comment text => exact h.put_comment hbraces text
  | skip =>
    obtain ⟨waiting, hwaiting, hframes⟩ := h
    refine ⟨waiting, ?_, hframes⟩
    rw [Sheet.apply, unfilled_put hwaiting]
    exact Row.await_of_not_code (by decide) (.inl rfl)
  | openBlock kind header =>
    refine ⟨some s.depth, h.put_code hfits.2.beginsCode _, ?_⟩
    rintro depth ⟨⟩
    refine ⟨?_, _, _, rfl, rfl⟩
    rw [Sheet.apply, depth, openBlocks_cons_of_pos (Frame.isOpen_of_ne_choice hfits.1),
      openBlocks_mark]
    rfl
  | enterChoice =>
    obtain ⟨waiting, hwaiting, hframes⟩ := h
    refine ⟨waiting, hwaiting, fun depth hdepth => ⟨?_, _, _, rfl, rfl⟩⟩
    rw [Sheet.apply, Sheet.depth, openBlocks_cons_of_neg rfl]
    exact (hframes depth hdepth).1
  | firstBranch header =>
    rw [Sheet.apply]
    split
    · next frame outer hframes =>
      split
      · exact h
      · next hopen =>
        refine ⟨some s.depth, h.put_code (IsHeader.beginsCode hfits) _, ?_⟩
        rintro depth ⟨⟩
        refine ⟨?_, _, _, rfl, rfl⟩
        rw [Sheet.depth, openBlocks_cons_of_pos (Frame.isOpen_opened ..), Sheet.depth, hframes,
          openBlocks_cons_of_neg (by simpa using hopen)]
    · exact h
  | branch header =>
    rw [Sheet.apply]
    split
    · next frame outer hframes =>
      split
      · next hopen =>
        have hbranch : Frame.isOpen { frame with hasBody := false } = true := hopen
        refine ⟨some (openBlocks outer), ?_, ?_⟩
        · refine (unfilled_put (h.unfilled_fill hbraces) _).trans ?_
          exact Row.await_of_code hfits.1.beginsCode nofun
        · rintro depth ⟨⟩
          exact ⟨openBlocks_cons_of_pos hbranch outer, _, _, rfl, rfl⟩
      · exact h
    · exact h
  | close =>
    have hfill := h.unfilled_fill hbraces
    rw [Sheet.apply]
    split
    · split
      · refine hdone ?_
        rw [closingRows, if_neg (by simp [hbraces]), List.append_nil]
        exact hfill
      · exact hdone hfill
    · exact h
  | remark text =>
    rcases hlast : s.rows.getLast? with _ | row
    · rw [Sheet.apply, hlast]
      exact h.put_comment hbraces text
    · obtain ⟨waiting, hwaiting, hframes⟩ := h
      refine ⟨waiting, ?_, ?_⟩
      · rw [unfilled, foldlM_remark (fun _ _ _ => rfl) hlast]
        exact hwaiting
      · rw [Sheet.apply, hlast]
        exact hframes

end Sheet

/-! ## Whole bodies -/

variable {body : String}

/-- In a body without a lone equals sign no header waits in vain. At the end all blocks were closed,
and closing fills a block whose header still waits. -/
theorem unfilled_translatedRows (hbraces : (idiom ctx.target).braces = false)
    (hbody : ∀ raw ∈ logicalLines body, trim (dropRemark (trim raw)) ≠ ['=']) :
    unfilled none (translatedRows ctx body) = some none := by
  have hclose : Edit.close.Fits ctx.target [] := trivial
  have hawaits : (closedSheet ctx body).Awaits := by
    refine closedSheet_induction ⟨none, rfl, nofun⟩ ?_ fun _ hs => hs.apply hbraces hclose nofun
    intro frames raw hraw e he s hs
    refine hs.apply hbraces (fits_of_mem_edits he) ?_
    rintro text rfl
    exact beginsCode_of_mem_edits hbraces (hbody raw hraw) he
  obtain ⟨waiting, hwaiting, hframes⟩ := hawaits
  -- a header that still waited would have an open block
  obtain rfl : waiting = none := by
    rw [Option.eq_none_iff_forall_not_mem]
    intro depth hdepth
    obtain ⟨-, frame, outer, heq, -⟩ := hframes depth hdepth
    rw [closedSheet_frames] at heq
    cases heq
  obtain ⟨blank, hrows, hblank⟩ := exists_rows_eq ctx body
  rw [hrows, unfilled_append] at hwaiting
  obtain ⟨behind, hbehind, hnone⟩ := Option.bind_eq_some_iff.mp hwaiting
  have hidle : ∀ r ∈ blank, ¬ BeginsCode r.text :=
    fun r hr hcode => hblank r hr (Row.solid_line hcode.solid ctx.target)
  rw [hbehind, eq_of_unfilled_eq_some hidle hnone]

/-- Every header among some rows is followed by code one level deeper. What stands between the two
is blank or a comment, and stands one level deeper as well but for empty rows. -/
def FillsBlocks (target : Target) (rows : List Row) : Prop :=
  ∀ before header behind, rows = before ++ header :: behind → header.isHeader = true →
    ∃ idle row rest, behind = idle ++ row :: rest ∧
      (∀ r ∈ idle, isCode target (r.line target).toList = false ∧
        (r.text = "" ∨ r.depth = header.depth + 1)) ∧
      isCode target (row.line target).toList = true ∧ row.depth = header.depth + 1

/-- Where indentation marks blocks, every header of a translated body is followed by code one level
deeper, and only blank lines and comments come before that, well nested or not, as long as no line
of the body is a lone equals sign. -/
theorem blocks_filled (ctx : Context) (hbraces : (idiom ctx.target).braces = false) (body : String)
    (hbody : ∀ raw ∈ logicalLines body, trim (dropRemark (trim raw)) ≠ ['=']) :
    translatedLines ctx body = (translatedRows ctx body).map (Row.line ctx.target) ∧
      (∀ r ∈ translatedRows ctx body, r.Says ctx.target) ∧
      FillsBlocks ctx.target (translatedRows ctx body) := by
  have hrowsSay : ∀ r ∈ translatedRows ctx body, r.Says ctx.target :=
    fun r hr => says_of_mem_closedSheet (mem_closedSheet_of_mem hr)
  refine ⟨translatedLines_eq ctx body, hrowsSay, fun before header behind hrows hheader => ?_⟩
  have hunfilled := unfilled_translatedRows hbraces hbody
  rw [hrows, unfilled_append] at hunfilled
  obtain ⟨waiting, -, hwaiting⟩ := Option.bind_eq_some_iff.mp hunfilled
  have hcode : BeginsCode header.text :=
    (hrowsSay header (hrows ▸ List.mem_append_right _ List.mem_cons_self)).beginsCode hheader
  have hbehind : unfilled (some header.depth) behind = some none := by
    rw [unfilled_cons, Row.await, if_pos hcode] at hwaiting
    split at hwaiting
    · exact hwaiting
    · cases hwaiting
  obtain ⟨idle, row, rest, rfl, hidle, hrow, hdepth⟩ := exists_code hbehind
  have hline : ∀ r : Row, isCode ctx.target (r.line ctx.target).toList = true ↔
      BeginsCode r.text :=
    fun r => (isCode_iff hbraces _).trans (beginsCode_line_iff hbraces r)
  refine ⟨idle, row, rest, rfl, fun r hr => ⟨?_, (hidle r hr).2⟩, (hline row).mpr hrow, hdepth⟩
  exact Bool.eq_false_iff.mpr fun h => (hidle r hr).1 ((hline r).mp h)

/-- A body with an empty choice, a comment and a blank line alone in their branches, and a loop
that is not closed. -/
def idleBody : String :=
  "IF a\n* later\nELSEIF b\nDO CASE\nENDCASE\nELSE\n\nDO CASE\nCASE c\nOTHERWISE\n= f(1)\n" ++
    "ENDCASE\nENDIF\nFOR i = 1 TO 3 && three times"

theorem blocks_filled_idle :
    (idiom .tkinter).braces = false ∧
      (∀ raw ∈ logicalLines idleBody, trim (dropRemark (trim raw)) ≠ ['=']) ∧
      translatedLines ⟨.tkinter, none⟩ idleBody =
        ["if a:", "    # later", "    pass", "elif b:", "    pass", "    pass", "else:", "",
          "    if c:", "        pass", "    else:", "        f(1)",
          "for i in range(1, 4):  # three times", "    pass"] ∧
      FillsBlocks .tkinter (translatedRows ⟨.tkinter, none⟩ idleBody) := by
  have hlines : logicalLines idleBody = _ := logicalLines_of_toList
    (Text.toList_append_of String.toList_ofList String.toList_ofList)
  have hbody : ∀ raw ∈ logicalLines idleBody, trim (dropRemark (trim raw)) ≠ ['='] := by
    rw [hlines]
    decide +kernel
  refine ⟨rfl, hbody, ?_, (blocks_filled ⟨.tkinter, none⟩ rfl idleBody hbody).2.2⟩
  rw [translatedLines, hlines]
  decide +kernel

/-- A lone equals sign counts as the statement of its block although nothing is written for it, so
that the block stays empty. -/
theorem not_fillsBlocks_loneSign :
    translatedLines ⟨.tkinter, none⟩ "IF a\n=\nENDIF" = ["if a:"] ∧
      ¬ FillsBlocks .tkinter (translatedRows ⟨.tkinter, none⟩ "IF a\n=\nENDIF") := by
  have hrows : translatedRows ⟨.tkinter, none⟩ "IF a\n=\nENDIF" =
      [] ++ { depth := 0, text := "if a:", move := some .opens } :: [] := by
    decide +kernel
  refine ⟨by decide +kernel, fun h => ?_⟩
  obtain ⟨idle, row, rest, hbehind, -⟩ := h _ _ _ hrows rfl
  simp at hbehind

end ScreenForms.Code
