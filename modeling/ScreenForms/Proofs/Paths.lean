import ScreenForms.Proofs.Folding
import ScreenForms.Proofs.Writable

/-!
# Paths tell the items of a document apart

The names of controls are distinct up to case, but a control may have the name of a column or of a
header, and then the paths differ further up: what holds a control is no grid and no column. So no
two items of a document have the same path in lower case (`Writable.eq_of_fold_itemPath_eq`).
-/

namespace ScreenForms.Document

open NameRegistry RecordWriter

variable {doc : Document}

/-! ## Last names -/

theorem dot_not_mem_columnName (number : Nat) : '.' ∉ (columnName number).toList := by
  intro h
  rcases mem_columnName h with h | h
  · exact absurd h (by decide)
  · exact absurd h (by decide)

/-- Below the form, names have no dot, so that a path can be cut in front of the last one. -/
theorem Writable.dot_not_mem_name (h : doc.Writable) {a b : Item} (ha : a ∈ doc.items)
    (hb : doc.holderItem? a = some b) : '.' ∉ (doc.recordOf a).name.toList := by
  cases a with
  | form => cases hb
  | control c => exact (h.names c (control_mem_items.mp ha)).2
  | column c column number => exact dot_not_mem_columnName number
  | header c column number => exact (by decide : '.' ∉ "Header1".toList)

theorem lower_columnName (number : Nat) :
    Text.lower (columnName number).toList = "column".toList ++ Decimal.decimalText number := by
  rw [columnName, String.toList_append, Text.lower, List.map_append, ← Text.lower, ← Text.lower,
    Decimal.toList_intText_ofNat, Text.lower_decimalText]
  rfl

/-- Columns have different numbers, and so different names. -/
theorem columnName_injective {m n : Nat} (h : fold (columnName m) = fold (columnName n)) :
    m = n := by
  have hlists := fold_eq_iff.mp h
  rw [lower_columnName, lower_columnName] at hlists
  exact Decimal.decimalText_injective (List.append_cancel_left hlists)

/-- No column is called like a header. -/
theorem fold_columnName_ne_header (number : Nat) : fold (columnName number) ≠ fold "Header1" := by
  intro h
  have hlists := fold_eq_iff.mp h
  rw [lower_columnName] at hlists
  have hhead : some 'c' = some 'h' := congrArg List.head? hlists
  cases hhead

/-! ## Lengths -/

/-- Every path is longer than that of the form, with which it starts. -/
theorem length_lt_of_pathFrom {n : Nat} {c : Control} {path : String}
    (h : doc.pathFrom n c = .ok path) : doc.window.name.toList.length < path.toList.length := by
  induction n generalizing c path with
  | zero => cases h
  | succ n ih =>
    rw [pathFrom] at h
    rcases hholder : doc.holder? c with _ | holder
    · rw [hholder] at h
      obtain rfl := Except.ok.inj h
      simp [String.toList_append]
    · rcases hupper : doc.pathFrom n holder with e | upper
      · simp [hholder, hupper] at h
      · simp only [hholder, hupper] at h
        obtain rfl := Except.ok.inj h
        have := ih hupper
        simp only [String.toList_append, List.length_append]
        omega

section

variable (hend : doc.HoldersEnd)
include hend

/-- The path of the form is shorter than all others. -/
theorem HoldersEnd.fold_itemPath_ne_form {a : Item} (ha : a ∈ doc.items) (hne : a ≠ .form) :
    fold (doc.itemPath a) ≠ fold (doc.itemPath .form) := by
  intro h
  have hlength : (doc.itemPath a).toList.length = doc.window.name.toList.length :=
    length_eq_of_fold_eq h
  have hcontrol : ∀ {c}, c ∈ doc.controls →
      doc.window.name.toList.length < (doc.pathText c).toList.length :=
    fun hc => length_lt_of_pathFrom (hend.pathFrom_eq hc)
  cases a with
  | form => exact hne rfl
  | control c =>
    have := hcontrol (control_mem_items.mp ha)
    simp only [itemPath] at hlength
    omega
  | column c column number =>
    have := hcontrol (column_mem_items.mp ha).1
    simp only [itemPath, String.toList_append, List.length_append] at hlength
    omega
  | header c column number =>
    have := hcontrol (header_mem_items.mp ha).1
    simp only [itemPath, String.toList_append, List.length_append] at hlength
    omega

/-- Items with the same path in lower case have the same name, and so have their holders the same
path. -/
theorem HoldersEnd.fold_holder_eq (h : doc.Writable) {a b a' b' : Item} (ha : a ∈ doc.items)
    (hb : b ∈ doc.items) (ha' : doc.holderItem? a = some a') (hb' : doc.holderItem? b = some b')
    (heq : fold (doc.itemPath a) = fold (doc.itemPath b)) :
    fold (doc.itemPath a') = fold (doc.itemPath b') ∧
      fold (doc.recordOf a).name = fold (doc.recordOf b).name := by
  rw [hend.itemPath_eq ha', hend.itemPath_eq hb'] at heq
  exact eq_of_fold_path_eq (h.dot_not_mem_name ha ha') (h.dot_not_mem_name hb hb') heq

end

/-! ## Distinct paths -/

theorem Sound.kind_of_parentOf? (hs : doc.Sound) {c p : Control} (hc : c ∈ doc.controls)
    (h : doc.parentOf? c = some p) : p.kind = .container ∨ p.kind = .page := by
  obtain ⟨id, hid, hp⟩ := Option.bind_eq_some_iff.mp h
  obtain ⟨q, hq, rfl, hkind⟩ := hs.parent_holds c hc id hid
  obtain rfl : q = p := Option.some.inj ((control?_of_mem hs.ids_nodup hq).symm.trans hp)
  exact hkind

/-- A control is held by its parent, or by its page frame when it is a page without a parent. -/
theorem parentOf?_or_pageFrameOf? {c d : Control} (hholder : doc.holder? c = some d) :
    (doc.parentOf? c = some d ∧ doc.pageFrameOf? c = none) ∨
      (c.parent = none ∧ doc.pageFrameOf? c = some d) := by
  unfold holder? at hholder
  rcases hparent : c.parent with _ | id
  · exact .inr ⟨rfl, by rwa [hparent] at hholder⟩
  · rw [hparent] at hholder
    refine .inl ⟨by rw [parentOf?, hparent]; exact hholder, ?_⟩
    rw [pageFrameOf?, if_neg (by simp [hparent])]

/-- What holds a control is a container, a page or a page frame, and never a grid. -/
theorem Sound.kind_of_holder? (hs : doc.Sound) {c holder : Control} (hc : c ∈ doc.controls)
    (h : doc.holder? c = some holder) :
    holder.kind = .container ∨ holder.kind = .page ∨ holder.kind = .pageframe := by
  rcases parentOf?_or_pageFrameOf? h with ⟨hparent, -⟩ | ⟨-, hframe⟩
  · exact (hs.kind_of_parentOf? hc hparent).imp_right .inl
  · exact .inr (.inr (mem_of_pageFrameOf? hframe).2)

/-- Controls have different names, also without regard to case. -/
theorem Writable.eq_of_fold_name_eq (h : doc.Writable) {c d : Control} (hc : c ∈ doc.controls)
    (hd : d ∈ doc.controls) (heq : fold c.name = fold d.name) : c = d := by
  have hnodup := (List.nodup_cons.mp h.distinct).2
  rw [List.map_map] at hnodup
  exact List.inj_on_of_nodup_map hnodup hc hd heq

section distinctPaths

variable (h : doc.Writable) (hs : doc.Sound) (hend : doc.HoldersEnd)
include h hend

/-- The last name of a path tells which control it is of. -/
theorem Writable.control_eq {c d : Control} (hc : .control c ∈ doc.items)
    (hd : .control d ∈ doc.items)
    (heq : fold (doc.itemPath (.control c)) = fold (doc.itemPath (.control d))) : c = d :=
  h.eq_of_fold_name_eq (control_mem_items.mp hc) (control_mem_items.mp hd)
    (hend.fold_holder_eq h hc hd rfl rfl heq).2

include hs

/-- No control is held by a grid. -/
theorem Writable.control_ne_column {c d : Control} {column : GridColumn} {number : Nat}
    (hc : .control c ∈ doc.items) (hd : .column d column number ∈ doc.items) :
    fold (doc.itemPath (.control c)) ≠ fold (doc.itemPath (.column d column number)) := by
  intro heq
  obtain ⟨hholders, -⟩ := hend.fold_holder_eq h hc hd rfl rfl heq
  obtain ⟨hd, hcolumn⟩ := column_mem_items.mp hd
  have hc := control_mem_items.mp hc
  rcases hholder : doc.holder? c with _ | holder
  · rw [hholder] at hholders
    exact hend.fold_itemPath_ne_form (control_mem_items.mpr hd) (by simp) hholders.symm
  · rw [hholder] at hholders
    obtain rfl := h.control_eq hend (control_mem_items.mpr (mem_of_holder? hholder))
      (control_mem_items.mpr hd) hholders
    have hkind := hs.kind_of_holder? hc hholder
    rw [(mem_columns hcolumn).1] at hkind
    simp at hkind

/-- No control is held by a column. -/
theorem Writable.control_ne_header {c d : Control} {column : GridColumn} {number : Nat}
    (hc : .control c ∈ doc.items) (hd : .header d column number ∈ doc.items) :
    fold (doc.itemPath (.control c)) ≠ fold (doc.itemPath (.header d column number)) := by
  intro heq
  obtain ⟨hholders, -⟩ := hend.fold_holder_eq h hc hd rfl rfl heq
  have hcolumn : .column d column number ∈ doc.items := holderItem?_mem_items hd rfl
  rcases hholder : doc.holder? c with _ | holder
  · rw [hholder] at hholders
    exact hend.fold_itemPath_ne_form hcolumn (by simp) hholders.symm
  · rw [hholder] at hholders
    exact h.control_ne_column hs hend (control_mem_items.mpr (mem_of_holder? hholder)) hcolumn
      hholders

omit hs in
/-- Columns of one grid differ by their numbers, and those of two grids by the paths in front. -/
theorem Writable.column_eq {c d : Control} {column column' : GridColumn} {number number' : Nat}
    (hc : .column c column number ∈ doc.items) (hd : .column d column' number' ∈ doc.items)
    (heq : fold (doc.itemPath (.column c column number)) =
      fold (doc.itemPath (.column d column' number'))) :
    Item.column c column number = .column d column' number' := by
  obtain ⟨hgrids, hnames⟩ := hend.fold_holder_eq h hc hd rfl rfl heq
  obtain rfl := columnName_injective hnames
  obtain rfl := h.control_eq hend (holderItem?_mem_items hc rfl) (holderItem?_mem_items hd rfl)
    hgrids
  rw [Document.column_eq (column_mem_items.mp hc).2 (column_mem_items.mp hd).2]

omit hs in
/-- A column and a header differ in their last names. -/
theorem Writable.column_ne_header {c d : Control} {column column' : GridColumn}
    {number number' : Nat} (hc : .column c column number ∈ doc.items)
    (hd : .header d column' number' ∈ doc.items) :
    fold (doc.itemPath (.column c column number)) ≠
      fold (doc.itemPath (.header d column' number')) :=
  fun heq => fold_columnName_ne_header number (hend.fold_holder_eq h hc hd rfl rfl heq).2

/-- No two items have the same path in lower case. -/
theorem Writable.eq_of_fold_itemPath_eq {a b : Item} (ha : a ∈ doc.items) (hb : b ∈ doc.items)
    (heq : fold (doc.itemPath a) = fold (doc.itemPath b)) : a = b := by
  cases a with
  | form =>
    by_contra hne
    exact hend.fold_itemPath_ne_form hb (Ne.symm hne) heq.symm
  | control c =>
    cases b with
    | form => exact absurd heq (hend.fold_itemPath_ne_form ha (by simp))
    | control d => rw [h.control_eq hend ha hb heq]
    | column d column number => exact absurd heq (h.control_ne_column hs hend ha hb)
    | header d column number => exact absurd heq (h.control_ne_header hs hend ha hb)
  | column c column number =>
    cases b with
    | form => exact absurd heq (hend.fold_itemPath_ne_form ha (by simp))
    | control d => exact absurd heq.symm (h.control_ne_column hs hend hb ha)
    | column d column' number' => exact h.column_eq hend ha hb heq
    | header d column' number' => exact absurd heq (h.column_ne_header hend ha hb)
  | header c column number =>
    cases b with
    | form => exact absurd heq (hend.fold_itemPath_ne_form ha (by simp))
    | control d => exact absurd heq.symm (h.control_ne_header hs hend hb ha)
    | column d column' number' => exact absurd heq.symm (h.column_ne_header hend hb ha)
    | header d column' number' =>
      obtain ⟨hcolumns, -⟩ := hend.fold_holder_eq h ha hb rfl rfl heq
      have hcolumn := h.column_eq hend (holderItem?_mem_items ha rfl)
        (holderItem?_mem_items hb rfl) hcolumns
      obtain ⟨rfl, rfl, rfl⟩ := Item.column.inj hcolumn
      rfl

end distinctPaths

end ScreenForms.Document
