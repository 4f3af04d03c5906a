import ScreenForms.Proofs.Names
import ScreenForms.Proofs.ReadExtras

/-!
# Layouts that are read back

The window comes back from the record of the form, and each control with its place, its size, its
parent and its page frame (`ReadBack.sameLayout`). A page that no page frame owns must have no
extra value that is read under the name of the page frame.
-/

namespace ScreenForms.Document

open PixelScreen RecordWriter NameRegistry WrittenRecord

variable {doc : Document}

/-- Two controls of two documents have the same place, size, parent, page frame and columns. -/
structure SameLayout (doc doc' : Document) (c d : Control) : Prop where
  kind : d.kind = c.kind
  name : d.name = c.name
  x : d.x = c.x
  y : d.y = c.y
  width : d.width = c.width
  height : d.height = c.height
  columns : d.props.columns = c.props.columns
  parent : (doc'.parentOf? d).map Control.name = (doc.parentOf? c).map Control.name
  pageFrame : (doc'.pageFrameOf? d).map Control.name = (doc.pageFrameOf? c).map Control.name

namespace ReadBack

variable {t : Nesting} (h : doc.ReadBack t)
include h

/-! ## The window -/

/-- The truth values of a window with the names of their properties. -/
def windowFlags (w : Window) : List (String × Bool) :=
  [("MinButton", w.minimizable), ("MaxButton", w.maximizable), ("Closable", w.closable),
    ("Movable", w.movable)]

omit h in
/-- The record of the form holds the caption, the place, the size and the flags of the window. -/
theorem form_properties (doc : Document) :
    (doc.recordOf .form).properties =
      [textProperty "Caption" doc.window.caption] ++
        (geometry (doc.window.x, doc.window.y) doc.window.width doc.window.height ++
          (windowFlags doc.window).flatMap fun f => flagProperty f.1 f.2 false) := by
  show (formRecord doc).properties = _
  simp [formRecord, windowFlags]

omit h in
theorem skips_caption {name : String} (hname : Text.sameName "Caption" name = false)
    (text : String) : Skips name [textProperty "Caption" text] :=
  skips_cons.mpr ⟨⟨(by decide : Record.isWord "Caption" = true), hname⟩, skips_nil⟩

/-- The window comes back as it was. -/
theorem window_eq : t.window = doc.window := by
  obtain ⟨hx, hy, hwidth, hheight⟩ := h.fits.window
  have hr := h.record_eq items_zero
  have hproperties := form_properties doc
  have hname : Text.trimmed (t.record 0).objName = doc.window.name := h.trimmed_objName items_zero
  have hcaption : (t.record 0).text? "Caption" = some doc.window.caption := by
    rw [hr.text?_eq]
    exact text?_asRead skips_nil (by decide) hproperties
  have hcaptions : ∀ name ∈ geometryNames,
      Skips name [textProperty "Caption" doc.window.caption] := by
    intro name hname
    have hall : geometryNames.all (fun key => !Text.sameName "Caption" key) = true := by decide
    exact skips_caption (by simpa using List.all_eq_true.mp hall name hname) _
  have hgeometry := geometry_asRead hcaptions hproperties hx hy hwidth hheight
  have hflags : ∀ f ∈ windowFlags doc.window, ((t.record 0).flag? f.1).getD true = f.2 := by
    rw [← List.append_assoc] at hproperties
    have hread := flags_asRead (by simp +decide [windowFlags]) (by simp +decide [windowFlags])
      (fun f hf => skips_append.mpr ⟨skips_caption ?_ _, skips_geometry ?_ _ _ _⟩) hproperties
    · simp only [hr.flag?_eq]
      exact hread
    · revert f
      simp +decide [windowFlags]
    · revert f
      simp +decide [windowFlags]
  simp only [← hr.number?_eq] at hgeometry
  simp only [windowFlags, List.forall_mem_cons] at hflags
  obtain ⟨hmin, hmax, hclosable, hmovable, -⟩ := hflags
  rw [Nesting.window, h.form_eq, Option.map_some]
  dsimp only
  rw [hname, hcaption, (hgeometry _).1, (hgeometry _).2.1, (hgeometry _).2.2.1,
    (hgeometry _).2.2.2, hmin, hmax, hclosable, hmovable]
  rfl

/-! ## The dialect -/

/-- Every record that is read was written for some item of the document. -/
theorem exists_item {r : Record} (hr : r ∈ t.records) :
    ∃ a ∈ doc.items, (doc.recordOf a).ReadAs r := by
  obtain ⟨i, hi, rfl⟩ := List.getElem_of_mem hr
  have hlt := hi
  rw [h.length_eq] at hlt
  have hread := h.record_eq (List.getElem?_eq_getElem hlt)
  rw [Nesting.record, List.getElem?_eq_getElem hi] at hread
  exact ⟨_, List.getElem_mem hlt, hread⟩

omit h in
/-- Written records give their places in pixels, so that the dialect is never taken for one of
cells. -/
theorem usesCells_eq_false {a : Item} {r : Record} (hr : (doc.recordOf a).ReadAs r) :
    Dialect.usesCells r = false := by
  have hleft : (∃ value, (doc.recordOf a).asRead.property? "Left" = some value) →
      Dialect.usesCells r = false := by
    rintro ⟨value, hvalue⟩
    simp [Dialect.usesCells, Record.hasProperty, hr.property?_eq "Left", hvalue]
  have hrows : Skips "Row" (doc.recordOf a).properties →
      Skips "VPos" (doc.recordOf a).properties → Dialect.usesCells r = false := by
    intro hrow hpos
    simp [Dialect.usesCells, Record.hasProperty, hr.property?_eq,
      property?_asRead_eq_none hrow, property?_asRead_eq_none hpos]
  cases a with
  | form =>
    exact hleft ⟨_, property?_asRead (skips_caption (by decide) _) (by decide)
      (form_properties doc)⟩
  | control c => exact hleft ⟨_, property?_asRead skips_nil (by decide) (control_properties c)⟩
  | column c column number =>
    have hskips : ∀ {name : String}, Text.sameName "ControlSource" name = false →
        Text.sameName "Width" name = false → Text.sameName "ReadOnly" name = false →
          Skips name (doc.recordOf (.column c column number)).properties := by
      intro name hfield hwidth hreadOnly
      rw [column_properties]
      exact skips_append.mpr ⟨skips_append.mpr ⟨skips_fieldProperty column hfield,
        skips_optionalProperty (by decide) hwidth _ _⟩, skips_flagProperty (by decide) hreadOnly _ _⟩
    exact hrows (hskips (by decide) (by decide) (by decide))
      (hskips (by decide) (by decide) (by decide))
  | header c column number => exact hrows (skips_caption (by decide) _) (skips_caption (by decide) _)

/-- The records are those of a screen placed in pixels. -/
theorem dialect_eq : Dialect.ofRecords t.records = .vfp9 := by
  have hne : t.records ≠ [] := List.ne_nil_of_length_pos (by
    rw [h.length_eq]
    exact Nat.succ_pos _)
  have hplatform : ∀ r ∈ t.records, Dialect.isCharacterPlatform r.platform = false := by
    intro r hr
    obtain ⟨a, -, line, methods, id, rfl⟩ := h.exists_item hr
    exact (by decide : Dialect.isCharacterPlatform "WINDOWS" = false)
  have hcells : t.records.countP Dialect.usesCells = 0 := by
    rw [List.countP_eq_zero]
    intro r hr
    obtain ⟨a, -, hread⟩ := h.exists_item hr
    simp [usesCells_eq_false hread]
  rw [Dialect.ofRecords, if_neg (by simpa using hne), if_neg (by simpa using hplatform), if_neg]
  omega

/-! ## Controls -/

omit h in
/-- The control that the record at an index becomes. -/
def readControl (t : Nesting) (i : Nat) (kind : ControlKind) : Control :=
  t.control (t.claimNames (reserve {} t.window.name)) i kind

/-- The record of a control is read as a control of its kind. -/
theorem isControl_readControl {i : Nat} {c : Control} (hi : doc.items[i]? = some (.control c)) :
    t.IsControl i (readControl t i c.kind) :=
  ⟨h.lt_length hi, c.kind, h.kind?_control hi, rfl⟩

theorem names_getElem? {i : Nat} {c : Control} (hi : doc.items[i]? = some (.control c)) :
    ((t.claimNames (reserve {} t.window.name))[i]?).join = some c.name := by
  rw [h.window_eq, h.claimNames_eq, List.getElem?_map, Nesting.indices,
    List.getElem?_range (h.lt_length hi), Option.map_some, h.ownName?_eq hi]
  rfl

/-- No name had to be changed: the names were free, and are claimed in the order they were written
in. -/
theorem name_readControl {i : Nat} {c : Control} (hi : doc.items[i]? = some (.control c)) :
    (readControl t i c.kind).name = c.name := by
  show (((t.claimNames (reserve {} t.window.name))[i]?).join).getD "" = c.name
  rw [h.names_getElem? hi, Option.getD_some]

/-- Sizes come back, as they are within 32 bits. -/
theorem size_readControl {i : Nat} {c : Control} (hi : doc.items[i]? = some (.control c)) :
    (readControl t i c.kind).width = c.width ∧ (readControl t i c.kind).height = c.height :=
  ⟨(h.geometry_eq hi _).2.2.1, (h.geometry_eq hi _).2.2.2⟩

/-! ### Parents -/

/-- A control that has a parent is read relative to the record of that parent. -/
theorem relativeParent?_of_parent {i p : Nat} {c d : Control}
    (hi : doc.items[i]? = some (.control c)) (hp : doc.items[p]? = some (.control d))
    (hparent : doc.parentOf? c = some d) : t.relativeParent? i = some p := by
  have hholder : doc.holder? c = some d := by
    obtain ⟨id, hid, hd⟩ := Option.bind_eq_some_iff.mp hparent
    rw [holder?, hid]
    exact hd
  have hholds : d.kind.holdsControls = true := (holdsControls_iff d.kind).mpr
    (h.sound.kind_of_parentOf? (control_mem_items.mp (List.mem_of_getElem? hi)) hparent)
  rw [Nesting.relativeParent?, h.container?_of_holder? hi hholder hp]
  refine Option.filter_some_pos ?_
  rw [h.kind?_control hp, h.inCycle_eq_false i, Option.map_some, Option.getD_some, hholds]
  rfl

/-- A control without one is read relative to the form, even if its record names a page frame. -/
theorem relativeParent?_of_root {i : Nat} {c : Control} (hi : doc.items[i]? = some (.control c))
    (hroot : c.parent = none) : t.relativeParent? i = none := by
  rcases hholder : doc.holder? c with _ | d
  · rw [Nesting.relativeParent?, h.container?_of_holder?_eq_none hi hholder]
    rfl
  · obtain ⟨p, hp⟩ := exists_index (control_mem_items.mpr (mem_of_holder? hholder))
    have hframe : doc.pageFrameOf? c = some d := by
      rw [holder?, hroot] at hholder
      exact hholder
    rw [Nesting.relativeParent?, h.container?_of_holder? hi hholder hp]
    refine Option.filter_some_neg ?_
    rw [h.kind?_control hp, (mem_of_pageFrameOf? hframe).2]
    rfl

/-- Every control comes back in its place. -/
theorem place_readControl {i : Nat} {c : Control} (hi : doc.items[i]? = some (.control c)) :
    (readControl t i c.kind).x = c.x ∧ (readControl t i c.kind).y = c.y := by
  have hc := control_mem_items.mp (List.mem_of_getElem? hi)
  have hplace : (if (t.relativeParent? i).isSome then t.ownOffset i else (t.absolute i).1) =
      (c.x, c.y) := by
    rcases hparent : c.parent with _ | id
    · rw [h.relativeParent?_of_root hi hparent, if_neg (by simp), h.absolute_eq hi,
        h.formPlace_of_root hc hparent]
    · obtain ⟨d, hd, -⟩ := h.sound.parentOf?_isSome hc hparent
      obtain ⟨p, hp⟩ := exists_index (control_mem_items.mpr (mem_of_parentOf? hd))
      rw [h.relativeParent?_of_parent hi hp hd, if_pos (by simp), h.ownOffset_eq hi,
        h.sound.writtenPlace_eq, pageFrameOf?, if_neg (by simp [hparent])]
  exact ⟨congrArg Prod.fst hplace, congrArg Prod.snd hplace⟩

/-! ### Controls of the document -/

/-- The controls of the document that is read back, one for each control in the same order. -/
theorem forall₂_controls :
    List.Forall₂ (fun c d => ∃ i : Nat, doc.items[i]? = some (.control c) ∧
      d = readControl t i c.kind) doc.controls t.document.controls := by
  rw [← filterMap_control?_items doc]
  show List.Forall₂ _ _ (t.indices.filterMap fun i => (t.kind? i).map (readControl t i))
  refine List.rel_filterMap (fun a i hi => ?_) h.forall₂_indices
  rw [h.kind?_eq hi]
  cases a with
  | control c => exact .some ⟨i, hi, rfl⟩
  | form => exact .none
  | column c column number => exact .none
  | header c column number => exact .none

/-- Reading gives the controls in the order they were written in. -/
theorem map_name_controls :
    t.document.controls.map Control.name = doc.controls.map Control.name := by
  have hnames : List.Forall₂ Eq (doc.controls.map Control.name)
      (t.document.controls.map Control.name) := by
    rw [List.forall₂_map_left_iff, List.forall₂_map_right_iff]
    refine h.forall₂_controls.imp ?_
    rintro c d ⟨i, hi, rfl⟩
    exact (h.name_readControl hi).symm
  rw [List.forall₂_eq_eq_eq] at hnames
  exact hnames.symm

/-- Hence a name leads to the control that was read for it. -/
theorem controlNamed?_readControl {i : Nat} {c : Control}
    (hi : doc.items[i]? = some (.control c)) :
    t.document.controlNamed? c.name = some (readControl t i c.kind) := by
  have hnodup : (t.document.controls.map fun c => fold c.name).Nodup := by
    have hdistinct := (List.nodup_cons.mp h.writable.distinct).2
    rw [← h.map_name_controls, List.map_map] at hdistinct
    exact hdistinct
  have hmem := Nesting.mem_controls_iff.mpr ⟨i, h.isControl_readControl hi⟩
  exact (controlNamed?_eq_some_iff hnodup hmem).mpr (by rw [h.name_readControl hi])

/-- Every control comes back in the same parent. -/
theorem parentOf?_readControl (hids : (t.records.map Record.id).Nodup) {i : Nat} {c : Control}
    (hi : doc.items[i]? = some (.control c)) :
    (t.document.parentOf? (readControl t i c.kind)).map Control.name =
      (doc.parentOf? c).map Control.name := by
  have hc := control_mem_items.mp (List.mem_of_getElem? hi)
  have hparent : (readControl t i c.kind).parent =
      (t.relativeParent? i).map fun p => (t.record p).id := rfl
  rcases hroot : c.parent with _ | id
  · rw [parentOf?, parentOf?, hparent, hroot, h.relativeParent?_of_root hi hroot]
    rfl
  · obtain ⟨d, hd, -⟩ := h.sound.parentOf?_isSome hc hroot
    obtain ⟨p, hp⟩ := exists_index (control_mem_items.mpr (mem_of_parentOf? hd))
    have hsound := Nesting.sound_document h.wellLinked hids
    have hmem := Nesting.mem_controls_iff.mpr ⟨p, h.isControl_readControl hp⟩
    have hcontrol : t.document.control? (t.record p).id = some (readControl t p d.kind) :=
      control?_of_mem hsound.ids_nodup hmem
    rw [hd, parentOf?, hparent, h.relativeParent?_of_parent hi hp hd, Option.map_some,
      Option.bind_some, hcontrol, Option.map_some, Option.map_some, h.name_readControl hp]

/-! ### Page frames -/

omit h in
/-- A page keeps the name of its frame in an extra value, from which the frame is found again. -/
theorem frameName_readControl (t : Nesting) (i : Nat) :
    (readControl t i .page).props.extra =
      match (t.pageFrame? i).bind fun p =>
        ((t.claimNames (reserve {} t.window.name))[p]?).join with
      | some name => (PropertyTable.extraValues (t.record i) .page).insert ExtraKey.pageFrame
          (.text name)
      | none => PropertyTable.extraValues (t.record i) .page := rfl

/-- A page that a page frame owns comes back with the name of the frame. -/
theorem pageFrameOf?_readControl_of_some {i : Nat} {c d : Control}
    (hi : doc.items[i]? = some (.control c)) (hframe : doc.pageFrameOf? c = some d) :
    (t.document.pageFrameOf? (readControl t i c.kind)).map Control.name = some d.name := by
  obtain ⟨hd, hkind⟩ := mem_of_pageFrameOf? hframe
  obtain ⟨p, hp⟩ := exists_index (control_mem_items.mpr hd)
  obtain ⟨hpage, hroot⟩ : c.kind = .page ∧ c.parent = none := by
    by_contra hne
    rw [pageFrameOf?, if_neg hne] at hframe
    cases hframe
  have hholder : doc.holder? c = some d := by
    rw [holder?, hroot]
    exact hframe
  have hpageFrame : t.pageFrame? i = some p := by
    rw [Nesting.pageFrame?, h.container?_of_holder? hi hholder hp]
    exact Option.filter_some_pos (by rw [h.kind?_control hp, hkind]; rfl)
  have hparent : (readControl t i c.kind).parent = none := by
    show (t.relativeParent? i).map _ = none
    rw [h.relativeParent?_of_root hi hroot]
    rfl
  have hextra : (readControl t i .page).props.extraText? ExtraKey.pageFrame = some d.name := by
    rw [Properties.extraText?, frameName_readControl, hpageFrame, Option.bind_some,
      h.names_getElem? hp]
    simp only [SortedMap.get?_insert_self]
    rfl
  rw [pageFrameOf?, if_pos ⟨hpage, hparent⟩, hpage, hextra, Option.bind_some,
    h.controlNamed?_readControl hp, Option.filter_some_pos (by rw [hkind]; rfl), Option.map_some,
    h.name_readControl hp]

/-- A control that no page frame owns comes back without one, as long as its extra values keep off
the name of the page frame. -/
theorem pageFrameOf?_readControl_of_none (hkeeps : doc.KeepsRootPages) {i : Nat} {c : Control}
    (hi : doc.items[i]? = some (.control c)) (hframe : doc.pageFrameOf? c = none) :
    t.document.pageFrameOf? (readControl t i c.kind) = none := by
  have hc := control_mem_items.mp (List.mem_of_getElem? hi)
  by_cases hpage : c.kind = .page
  · rcases hparent : c.parent with _ | id
    · have hholder : doc.holder? c = none := by
        rw [holder?, hparent]
        exact hframe
      have hpageFrame : t.pageFrame? i = none := by
        rw [Nesting.pageFrame?, h.container?_of_holder?_eq_none hi hholder]
        rfl
      have hlacks := h.lacksFrame_extraValues hi (hkeeps c hc hpage hholder)
      rw [hpage] at hlacks
      have hextra : (readControl t i .page).props.extraText? ExtraKey.pageFrame = none := by
        rw [Properties.extraText?, frameName_readControl, hpageFrame]
        simp only [Option.bind_none]
        rw [hlacks]
        rfl
      rw [pageFrameOf?, hpage, hextra]
      split <;> rfl
    · obtain ⟨d, hd, -⟩ := h.sound.parentOf?_isSome hc hparent
      obtain ⟨p, hp⟩ := exists_index (control_mem_items.mpr (mem_of_parentOf? hd))
      refine if_neg fun hroot => ?_
      have hsome : (readControl t i c.kind).parent = some (t.record p).id := by
        show (t.relativeParent? i).map _ = _
        rw [h.relativeParent?_of_parent hi hp hd]
        rfl
      rw [hsome] at hroot
      cases hroot.2
  · exact if_neg fun hroot => hpage hroot.1

/-! ### Layouts -/

/-- Every control comes back with its layout. -/
theorem sameLayout (hids : (t.records.map Record.id).Nodup) (hkeeps : doc.KeepsRootPages) :
    List.Forall₂ (SameLayout doc t.document) doc.controls t.document.controls := by
  refine h.forall₂_controls.imp ?_
  rintro c d ⟨i, hi, rfl⟩
  obtain ⟨hx, hy⟩ := h.place_readControl hi
  obtain ⟨hwidth, hheight⟩ := h.size_readControl hi
  refine ⟨rfl, h.name_readControl hi, hx, hy, hwidth, hheight, h.columnsOf_eq hi,
    h.parentOf?_readControl hids hi, ?_⟩
  rcases hframe : doc.pageFrameOf? c with _ | frame
  · rw [h.pageFrameOf?_readControl_of_none hkeeps hi hframe]
  · rw [h.pageFrameOf?_readControl_of_some hi hframe]
    rfl

end ReadBack

end ScreenForms.Document
