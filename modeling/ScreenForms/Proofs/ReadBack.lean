import ScreenForms.Import.PixelScreen
import ScreenForms.Proofs.Paths
import ScreenForms.Proofs.PixelNesting
import ScreenForms.Proofs.ReadProperties
import ScreenForms.Proofs.RecordTexts

/-!
# Nesting that is read back

The records of a document and the records that are read of them meet at the items of the document:
the record at an index stands for the item at that index. So the importer finds for each record the
item that holds it (`ReadBack.parent?_eq`), and gives each record the role of its item.
-/

namespace ScreenForms

open Decimal RecordWriter PixelScreen NameRegistry

/-! ## Distinct items -/

/-- The control to which an item belongs. -/
def Item.owner? : Item → Option Control
  | .form => none
  | .control c => some c
  | .column c _ _ => some c
  | .header c _ _ => some c

/-- Every record of a control, its columns and headers included, belongs to this control. -/
theorem Control.owner?_of_mem_items {c : Control} {a : Item} (h : a ∈ c.items) :
    a.owner? = some c := by
  simp only [items, List.mem_cons, List.mem_flatMap, List.not_mem_nil, or_false] at h
  rcases h with rfl | ⟨column, -, rfl | rfl⟩
  · rfl
  · rfl
  · rfl

/-- The columns of a control are numbered, so none of its records is like another one. -/
theorem Control.items_nodup (c : Control) : c.items.Nodup := by
  have hnumbers : (writtenColumns c).Nodup := by
    refine List.Nodup.of_map Prod.snd ?_
    rw [writtenColumns, List.zipIdx_map_snd]
    exact List.nodup_range'
  refine List.nodup_cons.mpr ⟨by simp, List.nodup_flatMap.mpr ⟨by simp, ?_⟩⟩
  refine hnumbers.imp fun {a b} hne => ?_
  rintro item ha hb
  simp only [List.mem_cons, List.not_mem_nil, or_false] at ha hb
  rcases ha with rfl | rfl <;> simp only [Item.column.injEq, Item.header.injEq, reduceCtorEq,
    or_false, false_or] at hb
  · exact hne (Prod.ext hb.2.1 hb.2.2)
  · exact hne (Prod.ext hb.2.1 hb.2.2)

/-- The records of different controls belong to different controls, so all records of a document are
distinct. -/
theorem Document.items_nodup {doc : Document} (h : doc.controls.Nodup) : doc.items.Nodup := by
  have hform : Item.form ∉ doc.controls.flatMap Control.items := by
    intro hmem
    obtain ⟨c, -, hc⟩ := List.mem_flatMap.mp hmem
    cases Control.owner?_of_mem_items hc
  refine List.nodup_cons.mpr ⟨hform, List.nodup_flatMap.mpr ⟨fun c _ => c.items_nodup, ?_⟩⟩
  refine h.imp fun {c d} hne a hc hd => hne ?_
  exact Option.some.inj
    ((Control.owner?_of_mem_items hc).symm.trans (Control.owner?_of_mem_items hd))

namespace Document

/-- The whole numbers of a document have 32 bits. -/
structure Fits32 (doc : Document) : Prop where
  window : Is32 doc.window.x ∧ Is32 doc.window.y ∧ Is32 doc.window.width ∧ Is32 doc.window.height
  places : ∀ c ∈ doc.controls, Is32 c.x ∧ Is32 c.y
  sizes : ∀ c ∈ doc.controls, Is32 c.width ∧ Is32 c.height
  columns : ∀ c ∈ doc.controls, ∀ column ∈ c.props.columns, ∀ width ∈ column.width, Is32 width

instance (doc : Document) : Decidable doc.Fits32 :=
  decidable_of_iff ((Is32 doc.window.x ∧ Is32 doc.window.y ∧ Is32 doc.window.width ∧
      Is32 doc.window.height) ∧
    (∀ c ∈ doc.controls, Is32 c.x ∧ Is32 c.y) ∧
    (∀ c ∈ doc.controls, Is32 c.width ∧ Is32 c.height) ∧
    ∀ c ∈ doc.controls, ∀ column ∈ c.props.columns, ∀ width ∈ column.width, Is32 width)
    ⟨fun ⟨window, places, sizes, columns⟩ => ⟨window, places, sizes, columns⟩,
      fun ⟨window, places, sizes, columns⟩ => ⟨window, places, sizes, columns⟩⟩

/-- The records of a screen are what is read of the records of a document. -/
structure ReadBack (doc : Document) (t : Nesting) : Prop where
  writable : doc.Writable
  fits : doc.Fits32
  sound : doc.Sound
  holdersEnd : doc.HoldersEnd
  read : List.Forall₂ (fun a r => (doc.recordOf a).ReadAs r) doc.items t.records
  nested : t = Nesting.ofRecords t.records

namespace ReadBack

variable {doc : Document} {t : Nesting} (h : doc.ReadBack t)
include h

/-! ## Records -/

/-- As many records are read as are written. -/
theorem length_eq : t.records.length = doc.items.length := h.read.length_eq.symm

/-- So whatever stands at an index of the items, a record stands there as well. -/
theorem lt_length {i : Nat} {a : Item} (hi : doc.items[i]? = some a) : i < t.records.length := by
  obtain ⟨hlt, -⟩ := List.getElem?_eq_some_iff.mp hi
  rwa [h.length_eq]

/-- The record at an index is read of that of the item at the index. -/
theorem record_eq {i : Nat} {a : Item} (hi : doc.items[i]? = some a) :
    (doc.recordOf a).ReadAs (t.record i) := by
  obtain ⟨hlt, rfl⟩ := List.getElem?_eq_some_iff.mp hi
  have hread := h.read.get hlt (h.lt_length hi)
  rw [Nesting.record, List.getElem?_eq_getElem (h.lt_length hi)]
  exact hread

/-- Items are distinct, so an item stands at one index only. -/
theorem index_eq {i j : Nat} {a : Item} (hi : doc.items[i]? = some a)
    (hj : doc.items[j]? = some a) : i = j := by
  obtain ⟨hlt, -⟩ := List.getElem?_eq_some_iff.mp hi
  exact (List.getElem?_inj hlt (items_nodup (controls_nodup h.sound.ids_nodup))).mp (hi.trans hj.symm)

omit h in
/-- Names of a document have no blanks at their ends, and are folded as they are. -/
theorem foldName_trimmed {s : String} (hs : IsWrittenName s) :
    foldName (Text.trimmed s) = fold s := by
  rw [foldName, fold, Text.onChars, Text.onChars, Text.toList_onChars, Text.trim_trim, hs.trimmed]

/-- The record at an index has the name of its item. -/
theorem trimmed_objName {i : Nat} {a : Item} (hi : doc.items[i]? = some a) :
    Text.trimmed (t.record i).objName = (doc.recordOf a).name := by
  have hname := h.writable.isWrittenName_name (List.mem_of_getElem? hi)
  obtain ⟨line, methods, id, hr⟩ := h.record_eq hi
  have hobject : (t.record i).objName = Text.trimmed (doc.recordOf a).name := by
    rw [hr]
    rfl
  rw [hobject, Text.trimmed, Text.onChars, Text.toList_onChars, Text.trim_trim, hname.trimmed,
    String.ofList_toList]

/-- The path of a record is that of its item in lower case. It is put together from the parent and
the name that were written, and neither has blanks at its ends. -/
theorem path_eq {a : Item} (ha : a ∈ doc.items) {r : Record} (hr : (doc.recordOf a).ReadAs r) :
    path r = fold (doc.itemPath a) := by
  obtain ⟨line, methods, id, rfl⟩ := hr
  have hname := foldName_trimmed (h.writable.isWrittenName_name ha)
  unfold path
  show (if (Text.trim (Text.trimmed (doc.recordOf a).parent).toList).isEmpty then
      foldName (Text.trimmed (doc.recordOf a).name)
    else foldName (Text.trimmed (doc.recordOf a).parent) ++ "." ++
      foldName (Text.trimmed (doc.recordOf a).name)) = _
  rw [Text.toList_onChars, Text.trim_trim, hname]
  rcases hholder : doc.holderItem? a with _ | b
  · cases a with
    | form => rfl
    | control c => cases hholder
    | column c column number => cases hholder
    | header c column number => cases hholder
  · have hb := h.writable.isWrittenName_itemPath h.holdersEnd (holderItem?_mem_items ha hholder)
    rw [h.holdersEnd.parent_recordOf hholder, h.holdersEnd.itemPath_eq hholder, fold_path,
      foldName_trimmed hb, hb.trimmed, if_neg]
    simpa using hb.ne

/-- The paths of all records are those of the items in lower case, so they can be compared with what
the writer has put down as parents. -/
theorem paths_eq : t.records.map path = doc.items.map fun a => fold (doc.itemPath a) := by
  have hpaths : List.Forall₂ (fun a r => fold (doc.itemPath a) = path r) doc.items t.records :=
    ((List.forall₂_and_left doc.items t.records).mpr ⟨fun _ ha => ha, h.read⟩).imp
      fun a r hr => (h.path_eq hr.1 hr.2).symm
  exact (List.forall₂_eq_eq_eq ▸ List.forall₂_map_right_iff.mpr
    (List.forall₂_map_left_iff.mpr hpaths) : doc.items.map _ = t.records.map path).symm

/-! ## Parents -/

/-- The parent of a record is looked up by the paths and the names of all records. -/
theorem parent?_record {i : Nat} {a : Item} (hi : doc.items[i]? = some a) :
    t.parent? i = parentIndex? (t.records.map path)
      (t.records.map fun r => foldName r.objName) (t.record i) := by
  have hlt := h.lt_length hi
  have hparents : t.parents = t.records.map (parentIndex? (t.records.map path)
      (t.records.map fun r => foldName r.objName)) := by
    rw [h.nested]
    rfl
  rw [Nesting.parent?, hparents, List.getElem?_map, Nesting.record, List.getElem?_eq_getElem hlt]
  rfl

/-- The form has no parent. -/
theorem parent?_form {i : Nat} (hi : doc.items[i]? = some .form) : t.parent? i = none := by
  obtain ⟨line, methods, id, hr⟩ := h.record_eq hi
  have hparent : (t.record i).parent = Text.trimmed "" := by
    rw [hr]
    rfl
  rw [h.parent?_record hi, parentIndex?, hparent, if_pos (by decide)]

/-- The parent of every other record is that of the item which holds its item. Paths are different
up to case, so that the search by path finds no other record. -/
theorem parent?_eq {i p : Nat} {a b : Item} (hi : doc.items[i]? = some a)
    (hp : doc.items[p]? = some b) (hholder : doc.holderItem? a = some b) :
    t.parent? i = some p := by
  have ha := List.mem_of_getElem? hi
  have hb := holderItem?_mem_items ha hholder
  have hname := h.writable.isWrittenName_itemPath h.holdersEnd hb
  obtain ⟨line, methods, id, hr⟩ := h.record_eq hi
  have hparent : (t.record i).parent = Text.trimmed (doc.itemPath b) := by
    rw [hr, ← h.holdersEnd.parent_recordOf hholder]
    rfl
  have hfind : (doc.items.map fun a => fold (doc.itemPath a)).findIdx?
      (· == fold (doc.itemPath b)) = some p := by
    obtain ⟨hlt, hitem⟩ := List.getElem?_eq_some_iff.mp hp
    rw [List.findIdx?_map, List.findIdx?_eq_some_iff_getElem]
    refine ⟨hlt, by simp [hitem], fun j hj => ?_⟩
    have hmem : doc.items[j] ∈ doc.items := List.getElem_mem (hj.trans hlt)
    rw [Function.comp_apply, beq_iff_eq]
    intro heq
    have hsame := h.writable.eq_of_fold_itemPath_eq h.sound h.holdersEnd hmem hb heq
    exact hj.ne (h.index_eq (List.getElem?_eq_some_iff.mpr ⟨hj.trans hlt, hsame⟩) hp)
  rw [h.parent?_record hi, parentIndex?, hparent, Text.toList_onChars, Text.trim_trim,
    hname.trimmed, if_neg (by simpa using hname.ne), foldName_trimmed hname, h.paths_eq, hfind]
  rfl

omit h in
theorem items_zero : doc.items[0]? = some .form := rfl

omit h in
/-- Every item of the document stands at some index. -/
theorem exists_index {a : Item} (ha : a ∈ doc.items) : ∃ i : Nat, doc.items[i]? = some a :=
  List.mem_iff_getElem?.mp ha

/-! ## Classes -/

omit h in
/-- The writer puts down class names in lower case and without blanks. -/
theorem className_recordOf (a : Item) :
    IsWrittenName (doc.recordOf a).className ∧
      fold (doc.recordOf a).className = (doc.recordOf a).className := by
  cases a with
  | form =>
    show IsWrittenName "form" ∧ fold "form" = "form"
    exact ⟨.of_all (by decide) (by decide), by decide⟩
  | control c =>
    show IsWrittenName c.kind.legacyBaseClass ∧
      fold c.kind.legacyBaseClass = c.kind.legacyBaseClass
    generalize c.kind = kind
    cases kind <;> exact ⟨.of_all (by decide) (by decide), by decide⟩
  | column c column number =>
    show IsWrittenName "column" ∧ fold "column" = "column"
    exact ⟨.of_all (by decide) (by decide), by decide⟩
  | header c column number =>
    show IsWrittenName "header" ∧ fold "header" = "header"
    exact ⟨.of_all (by decide) (by decide), by decide⟩

/-- So the base class of a record is the class name that was written. -/
theorem baseClass_eq {i : Nat} {a : Item} (hi : doc.items[i]? = some a) :
    baseClass (t.record i) = (doc.recordOf a).className := by
  obtain ⟨hname, hfold⟩ := className_recordOf a
  obtain ⟨line, methods, id, hr⟩ := h.record_eq hi
  have hclass : (t.record i).baseClass = Text.trimmed (doc.recordOf a).className := by
    rw [hr]
    rfl
  rw [baseClass, hclass, Text.toList_onChars, Text.trim_trim, hname.trimmed,
    if_neg (by simpa using hname.ne), foldName_trimmed hname, hfold]

/-- The first record is that of the form. -/
theorem form_eq : t.form = some 0 := by
  have hform : t.form = t.records.findIdx? fun r => baseClass r == "form" := by
    rw [h.nested]
    rfl
  have hlt := h.lt_length items_zero
  have hclass := h.baseClass_eq items_zero
  rw [Nesting.record, List.getElem?_eq_getElem hlt, Option.getD_some] at hclass
  rw [hform, List.findIdx?_eq_some_iff_getElem]
  refine ⟨hlt, by rw [hclass]; rfl, fun j hj => absurd hj (Nat.not_lt_zero j)⟩

/-! ## Containers -/

/-- What the form itself holds is in no container. -/
theorem container?_eq_none {i : Nat} {a : Item} (hi : doc.items[i]? = some a)
    (hholder : doc.holderItem? a = some .form) : t.container? i = none := by
  rw [Nesting.container?, h.parent?_eq hi items_zero hholder, h.form_eq]
  rfl

/-- What something else holds is in the container that was written. -/
theorem container?_eq {i p : Nat} {a b : Item} (hi : doc.items[i]? = some a)
    (hp : doc.items[p]? = some b) (hholder : doc.holderItem? a = some b) (hne : b ≠ .form) :
    t.container? i = some p := by
  have hzero : p ≠ 0 := by
    rintro rfl
    exact hne (Option.some.inj (hp.symm.trans items_zero))
  rw [Nesting.container?, h.parent?_eq hi hp hholder, h.form_eq]
  exact Option.filter_some_pos (by simpa using hzero)

/-- In particular a control is in the control that holds it. -/
theorem container?_of_holder? {i p : Nat} {c d : Control} (hi : doc.items[i]? = some (.control c))
    (hholder : doc.holder? c = some d) (hp : doc.items[p]? = some (.control d)) :
    t.container? i = some p := by
  refine h.container?_eq hi hp ?_ (by simp)
  rw [holderItem?, hholder]
  rfl

/-- And a control that none holds is in no container. -/
theorem container?_of_holder?_eq_none {i : Nat} {c : Control}
    (hi : doc.items[i]? = some (.control c)) (hholder : doc.holder? c = none) :
    t.container? i = none := by
  refine h.container?_eq_none hi ?_
  rw [holderItem?, hholder]
  rfl

/-! ## Roles -/

/-- The class of the parent is that of the item that holds the record. Roles are decided by it. -/
theorem parentBase_eq {i p : Nat} {a b : Item} (hi : doc.items[i]? = some a)
    (hp : doc.items[p]? = some b) (hholder : doc.holderItem? a = some b) :
    ((t.parent? i).map fun p => baseClass (t.record p)) = some (doc.recordOf b).className := by
  rw [h.parent?_eq hi hp hholder, Option.map_some, h.baseClass_eq hp]

/-- The first record has the role of the form. -/
theorem role_form : t.role 0 = .form := by
  unfold Nesting.role
  rw [if_pos h.form_eq.symm]

/-- No other record has it. -/
theorem index_ne_form {i : Nat} {a : Item} (hi : doc.items[i]? = some a) (hne : a ≠ .form) :
    ¬ some i = t.form := by
  rw [h.form_eq]
  intro heq
  obtain rfl := Option.some.inj heq
  exact hne (Option.some.inj (hi.symm.trans items_zero))

/-- A column of a grid is read as a column of the control that stands at the index of this grid. -/
theorem role_column {i p : Nat} {c : Control} {column : GridColumn} {number : Nat}
    (hi : doc.items[i]? = some (.column c column number))
    (hp : doc.items[p]? = some (.control c)) : t.role i = .column p := by
  have hgrid : c.kind = .grid :=
    (mem_columns (column_mem_items.mp (List.mem_of_getElem? hi)).2).1
  have hbase : baseClass (t.record i) = "column" := h.baseClass_eq hi
  have hparent := h.parentBase_eq hi hp rfl
  rw [show (doc.recordOf (.control c)).className = "grid" by
    show c.kind.legacyBaseClass = "grid"
    rw [hgrid]; rfl] at hparent
  unfold Nesting.role
  dsimp only
  rw [if_neg (h.index_ne_form hi (by simp)), if_pos ⟨hbase, hparent⟩, h.parent?_eq hi hp rfl]
  rfl

/-- A header is read as that of its column. -/
theorem role_header {i p : Nat} {c : Control} {column : GridColumn} {number : Nat}
    (hi : doc.items[i]? = some (.header c column number))
    (hp : doc.items[p]? = some (.column c column number)) : t.role i = .header p := by
  have hbase : baseClass (t.record i) = "header" := h.baseClass_eq hi
  have hparent : ((t.parent? i).map fun p => baseClass (t.record p)) = some "column" :=
    h.parentBase_eq hi hp rfl
  unfold Nesting.role
  dsimp only
  rw [if_neg (h.index_ne_form hi (by simp)), if_neg (by rw [hbase]; simp),
    if_pos ⟨hbase, hparent⟩, h.parent?_eq hi hp rfl]
  rfl

/-- And a control is read as a control of its kind, whichever kind that is. Its class decides,
unless its parent is a column, which never holds a control. -/
theorem role_control {i : Nat} {c : Control} (hi : doc.items[i]? = some (.control c)) :
    t.role i = .control c.kind := by
  have hbase : baseClass (t.record i) = c.kind.legacyBaseClass := h.baseClass_eq hi
  have hparent : ∃ base, ((t.parent? i).map fun p => baseClass (t.record p)) = some base ∧
      base ≠ "column" := by
    rcases hholder : doc.holder? c with _ | d
    · refine ⟨"form", h.parentBase_eq hi items_zero ?_, by decide⟩
      rw [holderItem?, hholder]
      rfl
    · obtain ⟨p, hp⟩ := exists_index (control_mem_items.mpr (mem_of_holder? hholder))
      refine ⟨d.kind.legacyBaseClass, h.parentBase_eq hi hp ?_, ?_⟩
      · rw [holderItem?, hholder]
        rfl
      · generalize d.kind = kind
        cases kind <;> decide
  obtain ⟨base, hparent, hne⟩ := hparent
  have hclass : c.kind.legacyBaseClass ≠ "column" ∧ c.kind.legacyBaseClass ≠ "header" := by
    generalize c.kind = kind
    cases kind <;> decide
  unfold Nesting.role
  dsimp only
  rw [if_neg (h.index_ne_form hi (by simp)), hbase, hparent, if_neg (by tauto), if_neg (by tauto),
    if_neg (by simpa using hne), ControlKind.ofLegacyBaseClass?_legacyBaseClass]

/-- The controls of the document come back with their kinds. -/
theorem kind?_control {i : Nat} {c : Control} (hi : doc.items[i]? = some (.control c)) :
    t.kind? i = some c.kind := by
  rw [Nesting.kind?, h.role_control hi]

end ReadBack

end Document

end ScreenForms
