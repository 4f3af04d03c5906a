import ScreenForms.Proofs.Rows

/-!
# Blocks of a translation

Whatever the lines of a body say, well nested or not, the translation keeps its books on blocks
right. Lines come down to edits that fit the open blocks (`fits_of_mem_edits`): headers are the
target's, and only an open block goes on with another branch. The rows that open, continue and
close blocks match like brackets, and what stays unclosed are the headers of the open blocks
(`Sheet.Matches.apply`). So the depth counts the open blocks at every line and never runs out,
nothing is left open, and every closing or continuing line stands as deep as its header
(`blocks_nest`).
-/

namespace ScreenForms.Code

open Text

variable {target : Target}

/-! ## Headers -/

/-- The lines that open a block in the target's language. -/
inductive IsHeader (target : Target) : String → Prop where
  | conditional (condition : String) : IsHeader target (ifLine target condition)
  | tested (condition : String) : IsHeader target (whileLine target condition)
  | counted (counter first last : String) (step : Option String) :
    IsHeader target (forLine target counter first last step)
  | each (element collection : String) : IsHeader target (forEachLine target element collection)

/-- The lines that go on with another branch of a block. -/
inductive IsBranchLine (target : Target) : String → Prop where
  | condition (condition : String) : IsBranchLine target (elseIfLine target condition)
  | last : IsBranchLine target (elseLine target)

theorem getLast?_append {s : String} {c : Char} (h : s.toList.getLast? = some c) (t : String) :
    (t ++ s).toList.getLast? = some c := by
  rw [String.toList_append, List.getLast?_append, h]
  rfl

/-- Where blocks stand in braces, a header ends with the opening one. The matching of rows is
thereby a fact about the texts that are written, not only about the moves that are recorded. -/
theorem IsHeader.getLast? {text : String} (h : IsHeader target text)
    (hbraces : (idiom target).braces = true) : text.toList.getLast? = some '\x7b' := by
  cases h with
  | conditional condition =>
    rw [ifLine, if_pos hbraces]
    exact getLast?_append rfl _
  | tested condition =>
    rw [whileLine, if_pos hbraces]
    exact getLast?_append rfl _
  | counted counter first last step =>
    cases target with
    | tkinter => cases hbraces
    | qt => cases hbraces
    | winforms => exact getLast?_append rfl _
    | html => exact getLast?_append rfl _
  | each element collection =>
    cases target with
    | tkinter => cases hbraces
    | qt => cases hbraces
    | winforms => exact getLast?_append rfl _
    | html => exact getLast?_append rfl _

/-- Where blocks stand in braces, another branch begins with the closing one and ends with an
opening one. -/
theorem IsBranchLine.ends {text : String} (h : IsBranchLine target text)
    (hbraces : (idiom target).braces = true) :
    text.toList.head? = some '\x7d' ∧ text.toList.getLast? = some '\x7b' := by
  cases h with
  | condition condition =>
    rw [elseIfLine, if_pos hbraces]
    exact ⟨by simp, getLast?_append rfl _⟩
  | last =>
    rw [elseLine, if_pos hbraces]
    exact ⟨rfl, rfl⟩

/-! ## Edits that fit the open blocks -/

variable {ctx : Context} {frames : List Frame} {raw : List Char} {line : Line}

/-- What a classified line comes down to. -/
inductive LineEdit (ctx : Context) (raw : List Char) (frames : List Frame) (line : Line) :
    Edit → Prop where
  | passThrough (h : line.isKeyword = true ∨ line = .localNames []) :
    LineEdit ctx raw frames line (.write (String.ofList (trim raw)))
  | statement {text : String} (h : text ∈ line.statements ctx) :
    LineEdit ctx raw frames line (.write (Output.terminated ctx.target text))
  | comment (text : List Char) : LineEdit ctx raw frames line (.comment text)
  | skip : LineEdit ctx raw frames line .skip
  | enterChoice : LineEdit ctx raw frames line .enterChoice
  | close : LineEdit ctx raw frames line .close
  | openBlock {kind : FrameKind} {header : String} (hkind : kind ≠ .choice)
    (h : IsHeader ctx.target header) : LineEdit ctx raw frames line (.openBlock kind header)
  | firstBranch {header : String} (h : IsHeader ctx.target header) :
    LineEdit ctx raw frames line (.firstBranch header)
  | branch {header : String} (h : IsBranchLine ctx.target header)
    (hopen : ∃ frame outer, frames = frame :: outer ∧ frame.isOpen = true) :
    LineEdit ctx raw frames line (.branch header)

theorem LineEdit.of_mem_choiceEdits {condition : Option String} {e : Edit}
    (h : e ∈ choiceEdits ctx.target condition frames) : LineEdit ctx raw frames line e := by
  rcases frames with _ | ⟨frame, outer⟩
  · cases h
  · dsimp only [choiceEdits] at h
    cases hopened : frame.opened with
    | false =>
      rw [hopened] at h
      obtain rfl := List.mem_singleton.mp h
      exact .firstBranch (.conditional _)
    | true =>
      have hopen : frame.isOpen = true := by simp [Frame.isOpen, hopened]
      rw [hopened] at h
      cases condition with
      | none =>
        obtain rfl := List.mem_singleton.mp h
        exact .branch .last ⟨frame, outer, rfl, hopen⟩
      | some c =>
        obtain rfl := List.mem_singleton.mp h
        exact .branch (.condition c) ⟨frame, outer, rfl, hopen⟩

/-- Each edit of a line is one of the known forms, and what the rows say follows from the form
alone. -/
theorem LineEdit.of_mem {e : Edit} (h : e ∈ lineEdits ctx raw frames line) :
    LineEdit ctx raw frames line e := by
  have hone : ∀ {e' : Edit}, e ∈ [e'] → LineEdit ctx raw frames line e' →
      LineEdit ctx raw frames line e := by
    intro e' hmem hfits
    exact List.mem_singleton.mp hmem ▸ hfits
  have hinside : ∀ {kind : FrameKind} {es : List Edit},
      e ∈ lineEdits.inside raw frames kind es → line.isKeyword = true →
      (innermost kind frames = true → e ∈ es → LineEdit ctx raw frames line e) →
      LineEdit ctx raw frames line e := by
    intro kind es hmem hkeyword hfits
    rw [lineEdits.inside] at hmem
    split at hmem
    · next hkind => exact hfits hkind hmem
    · exact hone hmem (.passThrough (.inl hkeyword))
  have hstatements : e ∈ ((line.statements ctx).map fun text =>
      .write (Output.terminated ctx.target text)) → LineEdit ctx raw frames line e := by
    intro hmem
    obtain ⟨text, htext, rfl⟩ := List.mem_map.mp hmem
    exact .statement htext
  cases line with
  | blank =>
    rw [lineEdits] at h
    split at h
    · exact hone h .skip
    · cases h
  | comment text => exact hone h (.comment text)
  | parameters names => exact hone h (.comment _)
  | ifLine condition => exact hone h (.openBlock (by decide) (.conditional _))
  | elseIfLine condition =>
    exact hinside h rfl fun hkind hmem =>
      hone hmem (.branch (.condition _) (exists_isOpen_of_innermost (by decide) hkind))
  | elseLine =>
    exact hinside h rfl fun hkind hmem =>
      hone hmem (.branch .last (exists_isOpen_of_innermost (by decide) hkind))
  | endIf => exact hinside h rfl fun _ hmem => hone hmem .close
  | doCase => exact hone h .enterChoice
  | caseLine condition => exact hinside h rfl fun _ => .of_mem_choiceEdits
  | otherwise => exact hinside h rfl fun _ => .of_mem_choiceEdits
  | endCase => exact hinside h rfl fun _ hmem => hone hmem .close
  | forLine counter first last step => exact hone h (.openBlock (by decide) (.counted ..))
  | forEachLine element collection => exact hone h (.openBlock (by decide) (.each ..))
  | doWhile condition => exact hone h (.openBlock (by decide) (.tested _))
  | endFor => exact hinside h rfl fun _ hmem => hone hmem .close
  | endDo => exact hinside h rfl fun _ hmem => hone hmem .close
  | localNames names =>
    cases names with
    | nil => exact hone h (.passThrough (.inr rfl))
    | cons name names => exact hstatements h
  | returnLine value => exact hstatements h
  | release => exact hstatements h
  | wait message => exact hstatements h
  | store value targets => exact hstatements h
  | call name arguments => exact hstatements h
  | print value => exact hstatements h
  | statement text => exact hstatements h

/-- Whether an edit fits the open blocks: it opens blocks with a header of the target, and goes on
with another branch only in an open block. -/
def Edit.Fits (target : Target) (frames : List Frame) : Edit → Prop
  | .openBlock kind header => kind ≠ .choice ∧ IsHeader target header
  | .firstBranch header => IsHeader target header
  | .branch header =>
    IsBranchLine target header ∧ ∃ frame outer, frames = frame :: outer ∧ frame.isOpen = true
  | _ => True

/-- What the edits of a line are: those of its code, and comments and remarks. -/
theorem mem_edits_cases {e : Edit} (h : e ∈ edits ctx frames raw) :
    LineEdit ctx raw frames (Line.read (dropRemark (trim raw))) e ∨ (∃ text, e = .comment text) ∨
      ∃ text, e = .remark text := by
  rw [edits] at h
  dsimp only at h
  split at h
  · next text _ => exact .inr (.inl ⟨text, List.mem_singleton.mp h⟩)
  · rcases List.mem_append.mp h with h | h
    · exact .inl (.of_mem h)
    · rw [remarkEdits] at h
      split at h
      · cases h
      · split at h
        · exact .inr (.inl ⟨_, List.mem_singleton.mp h⟩)
        · exact .inr (.inr ⟨_, List.mem_singleton.mp h⟩)

/-- The edits of every line fit the open blocks. -/
theorem fits_of_mem_edits {e : Edit} (he : e ∈ edits ctx frames raw) :
    e.Fits ctx.target frames := by
  rcases mem_edits_cases he with h | ⟨text, rfl⟩ | ⟨text, rfl⟩
  · cases h with
    | openBlock hkind h => exact ⟨hkind, h⟩
    | firstBranch h => exact h
    | branch h hopen => exact ⟨h, hopen⟩
    | _ => trivial
  · trivial
  · trivial

/-- An edit that leads out of the current block finds it open. So the depth is at least one before
it is lessened, and the subtraction never clips. -/
theorem Edit.Fits.pos {e : Edit} (h : e.Fits target frames) (hback : e.stepsBack frames = true) :
    0 < openBlocks frames := by
  have hopen : ∀ {frame : Frame} {outer : List Frame}, frames = frame :: outer →
      frame.isOpen = true → 0 < openBlocks frames := by
    rintro frame outer rfl hopen
    rw [openBlocks_cons_of_pos hopen]
    exact Nat.succ_pos _
  cases e with
  | branch header =>
    obtain ⟨-, frame, outer, hframes, hframe⟩ := h
    exact hopen hframes hframe
  | close =>
    rcases frames with _ | ⟨frame, outer⟩
    · cases hback
    · exact hopen rfl hback
  | _ => cases hback

/-! ## Matching rows -/

/-- The depths of the open headers behind a row, the innermost first. A row that goes on with a
block or closes it has to stand as deep as the innermost open header. -/
def Row.follow : List Nat → Row → Option (List Nat)
  | headers, r =>
    match r.move, headers with
    | none, headers => some headers
    | some .opens, headers => some (r.depth :: headers)
    | some .continues, depth :: outer => if r.depth = depth then some (depth :: outer) else none
    | some .closes, depth :: outer => if r.depth = depth then some outer else none
    | _, [] => none

/-- The depths of the headers that rows leave open, if the rows match. -/
def unclosed (headers : List Nat) (rows : List Row) : Option (List Nat) :=
  rows.foldlM Row.follow headers

/-- Headers are matched row after row, so that a sheet may be cut anywhere. -/
theorem unclosed_append (headers : List Nat) (xs ys : List Row) :
    unclosed headers (xs ++ ys) = (unclosed headers xs).bind fun hs => unclosed hs ys :=
  List.foldlM_append

/-- The depths at which the headers of open blocks stand, the innermost first. -/
def headerDepths : List Frame → List Nat
  | [] => []
  | frame :: outer =>
    if frame.isOpen then openBlocks outer :: headerDepths outer else headerDepths outer

/-- An open frame has written its header at the depth of the frames around it. -/
theorem headerDepths_cons_of_pos {frame : Frame} (h : frame.isOpen = true) (outer : List Frame) :
    headerDepths (frame :: outer) = openBlocks outer :: headerDepths outer :=
  if_pos h

theorem headerDepths_cons_of_neg {frame : Frame} (h : frame.isOpen = false) (outer : List Frame) :
    headerDepths (frame :: outer) = headerDepths outer :=
  if_neg (by simp [h])

/-- Marking a block as filled does not move its header. -/
@[simp] theorem headerDepths_mark (frames : List Frame) :
    headerDepths (Output.mark frames) = headerDepths frames := by
  cases frames <;> rfl

namespace Sheet

variable {s : Sheet}

/-- The rows match, and the open headers are those of the open blocks. -/
def Matches (s : Sheet) : Prop := unclosed [] s.rows = some (headerDepths s.frames)

/-- One more row changes the open headers by what that row says. -/
theorem unclosed_put {headers : List Nat} (h : unclosed [] s.rows = some headers) (r : Row) :
    unclosed [] (s.put r).rows = r.follow headers := by
  rw [put, unclosed_append, h, Option.bind_some, unclosed, List.foldlM_cons]
  exact bind_pure _

/-- Where blocks have braces, nothing is filled in. -/
theorem fill_of_braces (hbraces : (idiom target).braces = true) : s.fill target = s :=
  if_pos hbraces

/-- A remark changes nothing about what is read off the rows without their remarks. -/
theorem foldlM_remark {β : Type} {f : β → Row → Option β}
    (hf : ∀ b r remarks, f b { r with remarks } = f b r) {row : Row}
    (hlast : s.rows.getLast? = some row) (text : List Char) (b : β) :
    (s.apply target (.remark text)).rows.foldlM f b = s.rows.foldlM f b := by
  have hrows : s.rows.dropLast ++ [row] = s.rows := List.dropLast_append_getLast? row hlast
  rw [apply, hlast]
  conv_rhs => rw [← hrows]
  simp only [List.foldlM_append, List.foldlM_cons, hf]

/-- The step: every edit keeps the headers that the rows leave open equal to the depths of the open
frames. The cases are those of the edits, and only braces let rows end what rows opened. -/
theorem Matches.apply (h : s.Matches) (hbraces : (idiom target).braces = true) {e : Edit}
    (hfits : e.Fits target frames) : (s.apply target e).Matches := by
  have hfill : s.fill target = s := fill_of_braces hbraces
  cases e with
  | write text => exact (unclosed_put h _).trans (by rw [← headerDepths_mark]; rfl)
  | comment text => exact unclosed_put h _
  | skip => exact unclosed_put h _
  | openBlock kind header =>
    refine (unclosed_put h _).trans ?_
    rw [Sheet.apply, headerDepths_cons_of_pos (Frame.isOpen_of_ne_choice hfits.1),
      headerDepths_mark, openBlocks_mark]
    rfl
  | enterChoice => exact h.trans (by rw [Sheet.apply, headerDepths_cons_of_neg rfl])
  | firstBranch header =>
    rw [Sheet.apply]
    split
    · next frame outer hframes =>
      split
      · exact h
      · next hopen =>
        refine (unclosed_put h _).trans ?_
        rw [headerDepths_cons_of_pos (Frame.isOpen_opened ..), hframes, depth, hframes,
          openBlocks_cons_of_neg (by simpa using hopen),
          headerDepths_cons_of_neg (by simpa using hopen)]
        rfl
    · exact h
  | branch header =>
    rw [Sheet.apply]
    split
    · next frame outer hframes =>
      split
      · next hopen =>
        rw [hfill]
        have hbranch : Frame.isOpen { frame with hasBody := false } = true := hopen
        refine (unclosed_put h _).trans ?_
        rw [hframes, headerDepths_cons_of_pos hopen, headerDepths_cons_of_pos hbranch]
        exact if_pos rfl
      · exact h
    · exact h
  | close =>
    rw [Sheet.apply]
    split
    · next frame outer hframes =>
      rw [hfill, closingRows, if_pos hbraces]
      split
      · next hopen =>
        refine (unclosed_put h _).trans ?_
        rw [hframes, headerDepths_cons_of_pos hopen, headerDepths_mark]
        exact if_pos rfl
      · next hopen =>
        rw [Matches, h, hframes, headerDepths_cons_of_neg (by simpa using hopen)]
    · exact h
  | remark text =>
    rcases hlast : s.rows.getLast? with _ | row
    · rw [Sheet.apply, hlast]
      exact unclosed_put h _
    · rw [Matches, unclosed, foldlM_remark (fun _ _ _ => rfl) hlast, ← unclosed, h, Sheet.apply,
        hlast]

end Sheet

/-! ## What the rows say -/

/-- A row that opens a block is a header of the target, one that goes on with a block is another
branch, and one that closes it is a closing brace. -/
def Row.Says (target : Target) (r : Row) : Prop :=
  match r.move with
  | none => True
  | some .opens => IsHeader target r.text
  | some .continues => IsBranchLine target r.text
  | some .closes => r.text = "\x7d"

namespace Sheet

variable {s : Sheet} {P : Row → Prop}

theorem forall_mem_put {row : Row} :
    (∀ r ∈ (s.put row).rows, P r) ↔ (∀ r ∈ s.rows, P r) ∧ P row := by
  rw [put, List.forall_mem_append, List.forall_mem_singleton]

theorem forall_mem_fill (h : ∀ r ∈ s.rows, P r) (hpass : P { depth := s.depth, text := "pass" }) :
    ∀ r ∈ (s.fill target).rows, P r := by
  rw [fill]
  split
  · exact h
  · split
    · split
      · exact h
      · exact forall_mem_put.mpr ⟨h, hpass⟩
    · exact h

/-- The step for the texts: a row that opens a block is a header, one that ends a block is the
closing line, and all others say nothing about blocks. -/
theorem says_apply (h : ∀ r ∈ s.rows, r.Says target) {e : Edit} (hfits : e.Fits target frames) :
    ∀ r ∈ (s.apply target e).rows, r.Says target := by
  have hfill : ∀ r ∈ (s.fill target).rows, r.Says target := forall_mem_fill h trivial
  cases e with
  | write text => exact forall_mem_put.mpr ⟨h, trivial⟩
  | comment text => exact forall_mem_put.mpr ⟨h, trivial⟩
  | skip => exact forall_mem_put.mpr ⟨h, trivial⟩
  | openBlock kind header => exact forall_mem_put.mpr ⟨h, hfits.2⟩
  | enterChoice => exact h
  | firstBranch header =>
    rw [apply]
    split
    · split
      · exact h
      · exact forall_mem_put.mpr ⟨h, hfits⟩
    · exact h
  | branch header =>
    rw [apply]
    split
    · split
      · exact forall_mem_put.mpr ⟨hfill, hfits.1⟩
      · exact h
    · exact h
  | close =>
    rw [apply]
    split
    · split
      · refine List.forall_mem_append.mpr ⟨hfill, ?_⟩
        rw [closingRows]
        split
        · exact List.forall_mem_singleton.mpr rfl
        · exact List.forall_mem_nil _
      · exact hfill
    · exact h
  | remark text =>
    rw [apply]
    split
    · next row hlast =>
      refine List.forall_mem_append.mpr ⟨fun r hr => h r (List.dropLast_subset _ hr), ?_⟩
      exact List.forall_mem_singleton.mpr (h row (List.mem_of_getLast? hlast))
    · exact forall_mem_put.mpr ⟨h, trivial⟩

end Sheet

/-- Whether a row has the braces of what it does to the blocks. -/
def Row.HasBraces (r : Row) : Prop :=
  match r.move with
  | none => True
  | some .opens => r.text.toList.getLast? = some '\x7b'
  | some .continues =>
    r.text.toList.head? = some '\x7d' ∧ r.text.toList.getLast? = some '\x7b'
  | some .closes => r.text = "\x7d"

/-- What a row says of the blocks it opens and ends can be seen in its braces. -/
theorem Row.Says.hasBraces {r : Row} (h : r.Says target) (hbraces : (idiom target).braces = true) :
    r.HasBraces := by
  rw [Row.Says] at h
  rw [Row.HasBraces]
  split
  · trivial
  · next hmove => exact IsHeader.getLast? (by simpa only [hmove] using h) hbraces
  · next hmove => exact IsBranchLine.ends (by simpa only [hmove] using h) hbraces
  · next hmove => simpa only [hmove] using h

/-- A row that does something to the blocks is not blank. -/
theorem Row.HasBraces.solid {r : Row} (h : r.HasBraces) (hmove : r.move ≠ none) : Solid r.text := by
  rw [Row.HasBraces] at h
  split at h
  · contradiction
  · exact ⟨_, List.mem_of_getLast? h, rfl⟩
  · exact ⟨_, List.mem_of_getLast? h.2, rfl⟩
  · exact ⟨'\x7d', by simp [h], rfl⟩

/-- Rows that neither open nor end a block leave the headers as they are. -/
theorem unclosed_of_forall {rows : List Row} (h : ∀ r ∈ rows, r.move = none) (headers : List Nat) :
    unclosed headers rows = some headers := by
  induction rows with
  | nil => rfl
  | cons r rows ih =>
    obtain ⟨hr, hrows⟩ := List.forall_mem_cons.mp h
    have hfollow : r.follow headers = some headers := by simp only [Row.follow, hr]
    rw [unclosed, List.foldlM_cons, hfollow]
    exact ih hrows

/-! ## Whole bodies -/

variable {body : String}

/-- By induction over the lines of the body, every row says what its edit says. -/
theorem says_of_mem_closedSheet {r : Row} (hr : r ∈ (closedSheet ctx body).rows) :
    r.Says ctx.target := by
  have hclose : Edit.close.Fits ctx.target [] := trivial
  have hrows : ∀ r ∈ (closedSheet ctx body).rows, r.Says ctx.target :=
    closedSheet_induction (P := fun s => ∀ r ∈ s.rows, r.Says ctx.target) (List.forall_mem_nil _)
      (fun _ _ _ _ he _ hs => Sheet.says_apply hs (fits_of_mem_edits he))
      fun _ hs => Sheet.says_apply hs hclose
  exact hrows r hr

theorem mem_closedSheet_of_mem {r : Row} (hr : r ∈ translatedRows ctx body) :
    r ∈ (closedSheet ctx body).rows :=
  (List.rdropWhile_prefix _ _).subset hr

/-- The rows of a body match, and no header stays open. This is the invariant of the steps at the
end, where no frame is left. -/
theorem unclosed_translatedRows (hbraces : (idiom ctx.target).braces = true) :
    unclosed [] (translatedRows ctx body) = some [] := by
  have hclose : Edit.close.Fits ctx.target [] := trivial
  have hmatches : (closedSheet ctx body).Matches :=
    closedSheet_induction rfl
      (fun _ _ _ _ he _ hs => hs.apply hbraces (fits_of_mem_edits he))
      fun _ hs => hs.apply hbraces hclose
  obtain ⟨blank, hrows, hblank⟩ := exists_rows_eq ctx body
  -- the blank rows left out at the end do nothing to the blocks
  have hmoves : ∀ r ∈ blank, r.move = none := by
    intro r hr
    by_contra hmove
    have hmem : r ∈ (closedSheet ctx body).rows := hrows ▸ List.mem_append_right _ hr
    have hbrace := (says_of_mem_closedSheet hmem).hasBraces hbraces
    exact hblank r hr (Row.solid_line (hbrace.solid hmove) ctx.target)
  rw [Sheet.Matches, closedSheet_frames, hrows, unclosed_append] at hmatches
  obtain ⟨headers, hheaders, hnone⟩ := Option.bind_eq_some_iff.mp hmatches
  rw [unclosed_of_forall hmoves] at hnone
  rw [hheaders, hnone]
  rfl

/-- The translation keeps its books on blocks right, well nested or not. Behind every line its
depth counts the open blocks, and the sheet, which subtracts nothing, stands where it stands; the
depth is not zero where the next line leads out of a block, nor where one is closed at the end. In
the end no block is open and the depth is zero. Where blocks stand in braces, the rows that open,
continue and close blocks match, each at the depth of the header it belongs to. -/
theorem blocks_nest (ctx : Context) (body : String) :
    (∀ done rest, logicalLines body = done ++ rest →
      let o := done.foldl (translateLine ctx) {}
      (sheetOf ctx done).output ctx.target = o ∧ o.depth = openBlocks o.frames ∧
        ∀ raw ∈ rest.head?, ∀ e ∈ edits ctx o.frames raw, e.stepsBack o.frames = true →
          0 < o.depth) ∧
    (∀ count,
      let o := closeAll ctx.target count ((logicalLines body).foldl (translateLine ctx) {})
      o.depth = openBlocks o.frames ∧ (Edit.close.stepsBack o.frames = true → 0 < o.depth)) ∧
    (let o := (logicalLines body).foldl (translateLine ctx) {}
      let closed := closeAll ctx.target o.frames.length o
      closed.frames = [] ∧ closed.depth = 0) ∧
    translatedLines ctx body = (translatedRows ctx body).map (Row.line ctx.target) ∧
    (∀ r ∈ translatedRows ctx body, r.Says ctx.target) ∧
    ((idiom ctx.target).braces = true →
      (∀ r ∈ translatedRows ctx body, r.HasBraces) ∧
        unclosed [] (translatedRows ctx body) = some []) := by
  refine ⟨?_, ?_, ?_, translatedLines_eq ctx body,
    fun r hr => says_of_mem_closedSheet (mem_closedSheet_of_mem hr), ?_⟩
  · intro done rest _
    dsimp only
    rw [← output_sheetOf]
    exact ⟨rfl, rfl, fun raw _ e he hback => (fits_of_mem_edits he).pos hback⟩
  · intro count
    have hclose : ∀ frames, Edit.close.Fits ctx.target frames := fun _ => trivial
    dsimp only
    rw [← output_sheetOf, ← output_closeBlocks]
    exact ⟨rfl, fun hback => (hclose _).pos hback⟩
  · dsimp only
    rw [← output_sheetOf, ← output_closeBlocks]
    have hframes := closedSheet_frames ctx body
    exact ⟨hframes, by rw [Sheet.output, Sheet.depth]; exact congrArg openBlocks hframes⟩
  · intro hbraces
    exact ⟨fun r hr => (says_of_mem_closedSheet (mem_closedSheet_of_mem hr)).hasBraces hbraces,
      unclosed_translatedRows hbraces⟩

/-- A body that closes what it did not open, leaves blocks open, and has a statement before the
first branch of a choice. -/
def unrulyBody : String :=
  "ENDDO\nIF a\nDO CASE\nx = 1\nELSE\nCASE b\nFOR i = 1 TO 3\nENDIF\nENDFOR && three times\n" ++
    "OTHERWISE\n? c\nDO CASE"

theorem blocks_nest_unruly :
    let ctx : Context := ⟨.winforms, none⟩
    let o := ((logicalLines unrulyBody).take 8).foldl (translateLine ctx) {}
    (Edit.close ∈ edits ctx o.frames "ENDFOR && three times".toList ∧
      Edit.close.stepsBack o.frames = true ∧ 0 < o.depth) ∧
    (idiom ctx.target).braces = true ∧
      (translatedRows ctx unrulyBody).filterMap (fun r => r.move.map fun m => (m, r.depth)) =
        [(.opens, 0), (.opens, 1), (.opens, 2), (.closes, 2), (.continues, 1), (.closes, 1),
          (.closes, 0)] ∧
      unclosed [] (translatedRows ctx unrulyBody) = some [] := by
  intro ctx o
  have hlines : logicalLines unrulyBody = _ := logicalLines_of_toList
    (Text.toList_append_of String.toList_ofList String.toList_ofList)
  have h := blocks_nest ctx unrulyBody
  have hclose : Edit.close ∈ edits ctx o.frames "ENDFOR && three times".toList := by
    unfold o
    rw [hlines]
    decide +kernel
  have hback : Edit.close.stepsBack o.frames = true := by
    unfold o
    rw [hlines]
    decide +kernel
  have hnext : "ENDFOR && three times".toList ∈ ((logicalLines unrulyBody).drop 8).head? := by
    rw [hlines]
    decide +kernel
  have hline := (h.1 _ _ (List.take_append_drop 8 (logicalLines unrulyBody)).symm).2.2
    "ENDFOR && three times".toList hnext .close hclose hback
  refine ⟨⟨hclose, hback, hline⟩, rfl, ?_, (h.2.2.2.2.2 rfl).2⟩
  rw [translatedRows, closedSheet, hlines]
  decide +kernel

end ScreenForms.Code
