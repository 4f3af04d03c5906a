import ScreenForms.Proofs.ImportSound
import ScreenForms.Proofs.ReadLayout

/-!
# Importing what was written

A document that can be written keeps its layout when its records are imported again
(`reimport_sameLayout`): the window, and of each control its kind, name, place, size, parent, page
frame and columns. Only a page that no page frame owns needs care, since an extra value may be read
under the name of the page frame (`reimport_not_sameLayout`).
-/

namespace ScreenForms

open PixelScreen

namespace Document

variable {doc : Document} {text : String}

/-- The records of a written document are those of its items. -/
theorem readBack_readAll (h : doc.toLegacy = .ok text) (hwritable : doc.Writable)
    (hfits : doc.Fits32) : doc.ReadBack (Nesting.ofRecords (Record.readAll text).records) := by
  obtain ⟨hsound, hend⟩ := (toLegacy_isOk_iff doc).mp ⟨text, h⟩
  have hreadable : ∀ w ∈ doc.items.map doc.recordOf,
      w.Readable ∧ Text.trim w.name.toList ≠ [] := by
    intro w hw
    obtain ⟨a, ha, rfl⟩ := List.mem_map.mp hw
    exact hwritable.readable hend ha
  have hread := WrittenRecord.readAll_unlines hreadable
  rw [← toLegacy_eq_ok h, List.forall₂_map_left_iff] at hread
  refine ⟨hwritable, hfits, hsound, hend, ?_, ?_⟩
  · rwa [Nesting.ofRecords_records]
  · rw [Nesting.ofRecords_records]

theorem dialect_readAll (h : doc.toLegacy = .ok text) (hwritable : doc.Writable)
    (hfits : doc.Fits32) : Dialect.ofRecords (Record.readAll text).records = .vfp9 := by
  have hdialect := (readBack_readAll h hwritable hfits).dialect_eq
  rwa [Nesting.ofRecords_records] at hdialect

theorem toLegacy_isOk (h : doc.toLegacy.isOk) : ∃ text, doc.toLegacy = .ok text := by
  rcases hlegacy : doc.toLegacy with e | text
  · rw [hlegacy] at h
    cases h
  · exact ⟨text, rfl⟩

/-- The records that are read from the lines a document is written as. -/
def rereadRecords (doc : Document) : List Record :=
  (Record.readLines ((Text.writtenLines
    ((doc.items.map doc.recordOf).flatMap WrittenRecord.lines)).zipIdx 1)).records

theorem readAll_eq_rereadRecords (h : doc.toLegacy = .ok text) :
    (Record.readAll text).records = doc.rereadRecords := by
  rw [toLegacy_eq_ok h, WrittenRecord.readAll_unlines_eq]
  rfl

end Document

/-! ## Ids -/

/-- What the ids of the records of a written document are made from. -/
def Document.writtenIdentities (doc : Document) : List (List UInt8) :=
  Record.identities (doc.items.map fun a => (doc.recordOf a).asRead)

/-- An identity is made from the position, the parent and the name of a record, and the writer puts
down the last two as they are read again. -/
theorem Document.identities_readAll {doc : Document} {text : String} (h : doc.toLegacy = .ok text)
    (hwritable : doc.Writable) (hfits : doc.Fits32) :
    Record.identities (Record.readAll text).records = doc.writtenIdentities := by
  have hread := (readBack_readAll h hwritable hfits).read
  rw [Nesting.ofRecords_records] at hread
  have hnames : List.Forall₂ (fun a r => ((doc.recordOf a).asRead.parent,
      (doc.recordOf a).asRead.objName) = (r.parent, r.objName)) doc.items
      (Record.readAll text).records := hread.imp fun a r hr => by
    obtain ⟨line, methods, id, rfl⟩ := hr
    rfl
  have hsame : (doc.items.map fun a => ((doc.recordOf a).asRead.parent,
      (doc.recordOf a).asRead.objName)) =
      (Record.readAll text).records.map fun r => (r.parent, r.objName) :=
    List.forall₂_eq_eq_eq ▸ List.forall₂_map_right_iff.mpr (List.forall₂_map_left_iff.mpr hnames)
  rw [writtenIdentities, Record.identities_eq, Record.identities_eq, List.map_map, ← hsame]
  rfl

/-- Where the ids of the written records are distinct, the hash has told their identities apart. -/
theorem Document.collisionFree_of_writtenIdentities (config : Config) {doc : Document}
    {text : String} (h : doc.toLegacy = .ok text) (hwritable : doc.Writable) (hfits : doc.Fits32)
    (hids : (doc.writtenIdentities.map contentId).Nodup) :
    ∀ a ∈ hashedContents config text, ∀ b ∈ hashedContents config text,
      contentId a = contentId b → a = b := by
  rw [hashedContents_of_vfp9 config (dialect_readAll h hwritable hfits),
    identities_readAll h hwritable hfits]
  exact collisionFree_of_nodup hids

/-! ## Layouts are kept -/

/-- Writing a document as records and importing the text again keeps the layout: the importer takes
the text for records in pixels, the window is the same, and so are the controls in their order,
each with its kind, name, place, size, parent, page frame and columns. -/
theorem reimport_sameLayout (config : Config) {doc : Document} {text : String}
    (h : doc.toLegacy = .ok text) (hwritable : doc.Writable) (hfits : doc.Fits32)
    (hkeeps : doc.KeepsRootPages)
    (hcollision : ∀ a ∈ hashedContents config text, ∀ b ∈ hashedContents config text,
      contentId a = contentId b → a = b) :
    (importSource config text).dialect = .vfp9 ∧
      (importSource config text).document.window = doc.window ∧
      List.Forall₂ (doc.SameLayout (importSource config text).document) doc.controls
        (importSource config text).document.controls := by
  have hback := doc.readBack_readAll h hwritable hfits
  have hvfp9 := doc.dialect_readAll h hwritable hfits
  obtain ⟨hdialect, hdocument⟩ := importSource_of_vfp9 config hvfp9
  rw [hashedContents_of_vfp9 config hvfp9] at hcollision
  have hids : ((Nesting.ofRecords (Record.readAll text).records).records.map
      Record.id).Nodup := by
    rw [Nesting.ofRecords_records]
    exact Record.ids_nodup hcollision
  rw [hdocument]
  generalize Nesting.ofRecords (Record.readAll text).records = t at hback hids
  exact ⟨hdialect, hback.window_eq, hback.sameLayout hids hkeeps⟩

/-- Orders on a page of a page frame inside a container. -/
def tabbedOrders : Document where
  window := { name := "frmOrders", caption := "Orders", x := 10, y := 20 }
  controls := [
    { id := "grid", kind := .grid, name := "grdLines", x := 4, y := 6, width := 200, height := 100
      parent := some "page"
      props := { columns := [⟨"lines.item", "Item", some 80, false⟩] } },
    { id := "page", kind := .page, name := "pagLines", x := 30, y := 50, width := 280, height := 180
      props := { extra := SortedMap.empty.insert "page_frame" (.text "PGFMAIN") } },
    { id := "tabs", kind := .pageframe, name := "pgfMain", x := 12, y := 16, width := 300
      height := 200, parent := some "box" },
    { id := "box", kind := .container, name := "Column1", x := 8, y := 8, width := 400
      height := 300 }]

theorem reimport_sameLayout_tabbedOrders :
    ∃ text, tabbedOrders.toLegacy = .ok text ∧ tabbedOrders.Writable ∧ tabbedOrders.Fits32 ∧
      tabbedOrders.KeepsRootPages ∧
      (∀ a ∈ hashedContents {} text, ∀ b ∈ hashedContents {} text,
        contentId a = contentId b → a = b) ∧
      List.Forall₂ (tabbedOrders.SameLayout (importSource {} text).document) tabbedOrders.controls
        (importSource {} text).document.controls := by
  have hwritable : tabbedOrders.Writable := by decide +kernel
  have hfits : tabbedOrders.Fits32 := by decide +kernel
  have hkeeps : tabbedOrders.KeepsRootPages := by decide +kernel
  have hids : (tabbedOrders.writtenIdentities.map contentId).Nodup := by decide +kernel
  obtain ⟨text, hlegacy⟩ := tabbedOrders.toLegacy_isOk (by decide +kernel)
  have hcollision := tabbedOrders.collisionFree_of_writtenIdentities {} hlegacy hwritable hfits hids
  obtain ⟨-, -, hlayout⟩ := reimport_sameLayout {} hlegacy hwritable hfits hkeeps hcollision
  exact ⟨text, hlegacy, hwritable, hfits, hkeeps, hcollision, hlayout⟩

/-! ## A page that changes hands -/

/-- The names of the page frames that own the controls of a document. -/
def Document.frameNames (doc : Document) : List (Option String) :=
  doc.controls.map fun c => (doc.pageFrameOf? c).map Control.name

theorem frameNames_eq {doc doc' : Document}
    (h : List.Forall₂ (doc.SameLayout doc') doc.controls doc'.controls) :
    doc'.frameNames = doc.frameNames := by
  have hnames : List.Forall₂ Eq doc.frameNames doc'.frameNames := by
    unfold Document.frameNames
    rw [List.forall₂_map_left_iff, List.forall₂_map_right_iff]
    exact h.imp fun c d hcd => hcd.pageFrame.symm
  rw [List.forall₂_eq_eq_eq] at hnames
  exact hnames.symm

/-- A page with a blank behind the key of an extra value, and a page frame. -/
def strayPage : Document where
  window := { name := "F", caption := "F" }
  controls := [
    { id := "p", kind := .page, name := "P", width := 10, height := 10
      props := { extra := SortedMap.empty.insert "page_frame " (.text "Q") } },
    { id := "q", kind := .pageframe, name := "Q", width := 10, height := 10 }]

/-- The page is on the form, and after writing and importing it is on the page frame. -/
theorem reimport_not_sameLayout :
    ∃ text, strayPage.toLegacy = .ok text ∧ strayPage.Writable ∧ strayPage.Fits32 ∧
      (∀ a ∈ hashedContents {} text, ∀ b ∈ hashedContents {} text,
        contentId a = contentId b → a = b) ∧
      ¬ List.Forall₂ (strayPage.SameLayout (importSource {} text).document) strayPage.controls
        (importSource {} text).document.controls := by
  have hwritable : strayPage.Writable := by decide +kernel
  have hfits : strayPage.Fits32 := by decide +kernel
  have hids : (strayPage.writtenIdentities.map contentId).Nodup := by decide +kernel
  obtain ⟨text, hlegacy⟩ := strayPage.toLegacy_isOk (by decide +kernel)
  have hdialect := strayPage.dialect_readAll hlegacy hwritable hfits
  have hcollision := strayPage.collisionFree_of_writtenIdentities {} hlegacy hwritable hfits hids
  refine ⟨text, hlegacy, hwritable, hfits, hcollision, fun hlayout => ?_⟩
  have hframes := frameNames_eq hlayout
  rw [(importSource_of_vfp9 {} hdialect).2, strayPage.readAll_eq_rereadRecords hlegacy] at hframes
  exact absurd hframes (by decide +kernel)

end ScreenForms
