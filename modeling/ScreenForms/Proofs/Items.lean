import ScreenForms.Proofs.Holders

/-!
# What is written of a document

The records of a document stand for its form, its controls, and the columns and headers of its
grids. An `Item` is what one record stands for; the text of a document is that of its items, one
after another (`toLegacy_eq_ok`). Every item but the form is held by another item, and its
path is the path of that item with its own name behind it (`HoldersEnd.itemPath_eq`).
-/

namespace ScreenForms

open RecordWriter

/-- What a record of a document stands for. -/
inductive Item where
  | form
  | control (c : Control)
  /-- a column of a grid, with its number -/
  | column (grid : Control) (column : GridColumn) (number : Nat)
  /-- the header of a column -/
  | header (grid : Control) (column : GridColumn) (number : Nat)
  deriving DecidableEq, Repr

/-- The items of a control: itself, and each of its columns with its header. -/
def Control.items (c : Control) : List Item :=
  .control c :: (writtenColumns c).flatMap fun column =>
    [.column c column.1 column.2, .header c column.1 column.2]

namespace Document

variable (doc : Document)

/-- The items of a document in the order of their records. -/
def items : List Item := .form :: doc.controls.flatMap Control.items

/-- The path of what holds a control. -/
def holderText (c : Control) : String :=
  match doc.holderPath c with
  | .ok path => path
  | .error _ => ""

/-- The path of a control. -/
def pathText (c : Control) : String := doc.holderText c ++ "." ++ c.name

/-- The position that is written for a control. -/
def writtenPlace (c : Control) : Int × Int :=
  match writtenPosition doc c with
  | .ok position => position
  | .error _ => (0, 0)

/-- The record of an item. -/
def recordOf : Item → WrittenRecord
  | .form => formRecord doc
  | .control c => ownRecord doc c (doc.holderText c) (doc.writtenPlace c)
  | .column c column number => columnRecord c (doc.pathText c) column number
  | .header c column number => headerRecord c (doc.pathText c) column number

/-- The path of an item. -/
def itemPath : Item → String
  | .form => doc.window.name
  | .control c => doc.pathText c
  | .column c _ number => doc.pathText c ++ "." ++ columnName number
  | .header c _ number => doc.pathText c ++ "." ++ columnName number ++ "." ++ "Header1"

/-- The item that holds an item. -/
def holderItem? : Item → Option Item
  | .form => none
  | .control c => some ((doc.holder? c).elim .form .control)
  | .column c _ _ => some (.control c)
  | .header c column number => some (.column c column number)

variable {doc}

/-! ## Members -/

theorem form_mem_items : .form ∈ doc.items := List.mem_cons_self

theorem control_mem_items {c : Control} : .control c ∈ doc.items ↔ c ∈ doc.controls := by
  simp [items, Control.items]

theorem column_mem_items {c : Control} {column : GridColumn} {number : Nat} :
    .column c column number ∈ doc.items ↔
      c ∈ doc.controls ∧ (column, number) ∈ writtenColumns c := by
  simp [items, Control.items]

theorem header_mem_items {c : Control} {column : GridColumn} {number : Nat} :
    .header c column number ∈ doc.items ↔
      c ∈ doc.controls ∧ (column, number) ∈ writtenColumns c := by
  simp [items, Control.items]

theorem mem_columns {c : Control} {column : GridColumn} {number : Nat}
    (h : (column, number) ∈ writtenColumns c) : c.kind = .grid ∧ column ∈ c.props.columns := by
  have hmem := List.fst_mem_of_mem_zipIdx h
  by_cases hgrid : c.kind = .grid
  · rw [if_pos hgrid] at hmem
    exact ⟨hgrid, hmem⟩
  · rw [if_neg hgrid] at hmem
    cases hmem

/-- A column is found by its number. -/
theorem column_eq {c : Control} {column column' : GridColumn} {number : Nat}
    (h : (column, number) ∈ writtenColumns c) (h' : (column', number) ∈ writtenColumns c) :
    column = column' := by
  obtain ⟨hlow, -, hcolumn⟩ := List.mem_zipIdx h
  obtain ⟨-, -, hcolumn'⟩ := List.mem_zipIdx h'
  rw [hcolumn, hcolumn']

theorem holderItem?_mem_items {a b : Item} (ha : a ∈ doc.items) (h : doc.holderItem? a = some b) :
    b ∈ doc.items := by
  cases a with
  | form => cases h
  | control c =>
    obtain rfl := Option.some.inj h
    rcases hholder : doc.holder? c with _ | holder
    · exact form_mem_items
    · exact control_mem_items.mpr (mem_of_holder? hholder)
  | column c column number =>
    obtain rfl := Option.some.inj h
    exact control_mem_items.mpr (column_mem_items.mp ha).1
  | header c column number =>
    obtain rfl := Option.some.inj h
    exact column_mem_items.mpr (header_mem_items.mp ha)

/-! ## Texts of documents -/

theorem controlRecords_eq_ok {c : Control} {records : List WrittenRecord}
    (h : controlRecords doc c = .ok records) : records = c.items.map doc.recordOf := by
  unfold controlRecords at h
  rcases hpath : doc.holderPath c with e | path
  · rw [hpath] at h
    cases h
  · rcases hposition : writtenPosition doc c with e | position
    · rw [hpath, hposition] at h
      cases h
    · rw [hpath, hposition] at h
      have htext : doc.holderText c = path := by rw [holderText, hpath]
      have hplace : doc.writtenPlace c = position := by rw [writtenPlace, hposition]
      obtain rfl := Except.ok.inj h
      simp only [Control.items, List.map_cons, List.map_nil, List.map_flatMap, recordOf, pathText,
        htext, hplace]

theorem flatten_controlRecords {cs : List Control} {records : List (List WrittenRecord)}
    (h : List.Forall₂ (fun c r => controlRecords doc c = .ok r) cs records) :
    records.flatten = (cs.flatMap Control.items).map doc.recordOf := by
  induction h with
  | nil => rfl
  | cons hc _ ih =>
    rw [List.flatten_cons, ih, controlRecords_eq_ok hc, List.flatMap_cons, List.map_append]

/-- The text of a document is that of its items. -/
theorem toLegacy_eq_ok {text : String} (h : doc.toLegacy = .ok text) :
    text = Text.unlines ((doc.items.map doc.recordOf).flatMap WrittenRecord.lines) := by
  unfold toLegacy toRecords at h
  rcases hvalid : doc.validate with e | _
  · rw [hvalid] at h
    cases h
  · rcases hrecords : doc.controls.mapM (controlRecords doc) with e | records
    · rw [hvalid, hrecords] at h
      cases h
    · rw [hvalid, hrecords] at h
      obtain rfl := (Except.ok.inj h).symm
      rw [flatten_controlRecords (mapM_eq_ok_iff.mp hrecords)]
      rfl

/-! ## Paths -/

theorem pathFrom_succ {n : Nat} {c : Control} {path : String} (h : doc.pathFrom n c = .ok path) :
    doc.pathFrom (n + 1) c = .ok path := by
  induction n generalizing c path with
  | zero => cases h
  | succ n ih =>
    rw [pathFrom] at h
    rw [pathFrom]
    rcases hholder : doc.holder? c with _ | holder
    · rwa [hholder] at h
    · rcases hpath : doc.pathFrom n holder with e | path
      · simp [hholder, hpath] at h
      · simp only [hholder, hpath] at h
        simp only [ih hpath]
        exact h

theorem holderText_of_none {c : Control} (h : doc.holder? c = none) :
    doc.holderText c = doc.window.name := by
  rw [holderText, holderPath, h]

theorem HoldersEnd.pathFrom_eq (hend : doc.HoldersEnd) {c : Control} (hc : c ∈ doc.controls) :
    doc.pathFrom (doc.controls.length + 1) c = .ok (doc.pathText c) := by
  obtain ⟨path, hpath⟩ := (pathFrom_isOk_iff (doc.controls.length + 1) c).mpr
    (climb_eq_none_of_le (Nat.le_succ _) (hend.climb_holder?_eq_none hc))
  rw [pathFrom] at hpath ⊢
  rcases hholder : doc.holder? c with _ | holder
  · rw [pathText, holderText_of_none hholder]
  · rcases hupper : doc.pathFrom doc.controls.length holder with e | upper
    · simp [hholder, hupper] at hpath
    · have htext : doc.holderText c = upper := by
        rw [holderText, holderPath, hholder]
        simp only [pathFrom_succ hupper]
      rw [pathText, htext]
      simp only [hupper]

/-- What holds a control stands at the path of the holder. -/
theorem HoldersEnd.holderText_of_some (hend : doc.HoldersEnd) {c holder : Control}
    (h : doc.holder? c = some holder) : doc.holderText c = doc.pathText holder := by
  rw [holderText, holderPath, h]
  simp only [hend.pathFrom_eq (mem_of_holder? h)]

theorem HoldersEnd.parent_recordOf (hend : doc.HoldersEnd) {a b : Item}
    (h : doc.holderItem? a = some b) : (doc.recordOf a).parent = doc.itemPath b := by
  cases a with
  | form => cases h
  | control c =>
    obtain rfl := Option.some.inj h
    rcases hholder : doc.holder? c with _ | holder
    · exact holderText_of_none hholder
    · exact hend.holderText_of_some hholder
  | column c column number =>
    obtain rfl := Option.some.inj h
    rfl
  | header c column number =>
    obtain rfl := Option.some.inj h
    rfl

/-- The path of an item is that of its holder with its own name behind it. -/
theorem HoldersEnd.itemPath_eq (hend : doc.HoldersEnd) {a b : Item}
    (h : doc.holderItem? a = some b) :
    doc.itemPath a = doc.itemPath b ++ "." ++ (doc.recordOf a).name := by
  rw [← hend.parent_recordOf h]
  cases a with
  | form => cases h
  | control c => rfl
  | column c column number => rfl
  | header c column number => rfl

end Document

end ScreenForms
