import ScreenForms.Export
import ScreenForms.Proofs.Commands
import ScreenForms.Proofs.PixelNesting

/-!
# Imports are sound

Whatever the source, the document that is imported from it is sound, and so it becomes a program
for every target. The three dialects have their own reasons: on a screen placed in cells no control
has a parent, records placed in pixels have their circles broken, and a screen program only places
controls in windows that it has opened before.
-/

namespace ScreenForms

/-! ## Screens placed in cells -/

namespace CellScreen

theorem map_id_controls (m : CellMetrics) (names : NameRegistry)
    (l : List (Record × ControlKind)) :
    (controls m names l).map Control.id = l.map fun e => e.1.id := by
  induction l generalizing names with
  | nil => rfl
  | cons e l ih => exact congrArg (e.1.id :: ·) (ih _)

theorem parent_eq_none {m : CellMetrics} {names : NameRegistry}
    {l : List (Record × ControlKind)} {c : Control} (hc : c ∈ controls m names l) :
    c.parent = none := by
  induction l generalizing names with
  | nil => cases hc
  | cons e l ih =>
    rcases List.mem_cons.mp hc with rfl | hc
    · rfl
    · exact ih hc

/-- Of the records other than that of the screen, those with a kind become controls. -/
theorem controls_build (m : CellMetrics) (records : List Record) :
    (build m records).document.controls =
      controls m (NameRegistry.reserve {} (window m (records.find? isScreen)).name)
        ((records.filter fun r => !isScreen r).filterMap fun r =>
          (kindOf? r).map fun kind => (r, kind)) :=
  rfl

/-- The ids of the records that become controls are ids of records, in the same order. -/
theorem map_id_typed_sublist (records : List Record) :
    ((((records.filter fun r => !isScreen r).filterMap fun r =>
        (kindOf? r).map fun kind => (r, kind)).map fun e => e.1.id)).Sublist
      (records.map Record.id) := by
  induction records with
  | nil => exact List.Sublist.refl _
  | cons r records ih =>
    rcases hscreen : isScreen r with _ | _
    · rw [List.filter_cons_of_pos (by simp [hscreen])]
      rcases hkind : kindOf? r with _ | kind
      · rw [List.filterMap_cons_none (by rw [hkind]; rfl)]
        exact ih.cons _
      · rw [List.filterMap_cons_some (by rw [hkind]; rfl)]
        exact ih.cons_cons _
    · rw [List.filter_cons_of_neg (by simp [hscreen])]
      exact ih.cons _

theorem sound_build (m : CellMetrics) {records : List Record}
    (hids : (records.map Record.id).Nodup) : (build m records).document.Sound := by
  have hparent : ∀ c ∈ (build m records).document.controls, c.parent = none := by
    rw [controls_build]
    exact fun c hc => parent_eq_none hc
  refine ⟨?_, ?_, ?_⟩
  · rw [controls_build, map_id_controls]
    exact hids.sublist (map_id_typed_sublist records)
  · intro c hc id hid
    rw [hparent c hc] at hid
    cases hid
  · intro c hcycle
    obtain ⟨d, ⟨hc, -, hid⟩, -⟩ := Relation.TransGen.head'_iff.mp hcycle
    rw [hparent c hc] at hid
    cases hid

end CellScreen

/-! ## All dialects -/

/-- The contents that are hashed for ids while a source is imported: the identities of its records
and, for a screen program, what its ids were made from. -/
def hashedContents (config : Config) (source : String) : List (List UInt8) :=
  let records := (Record.readAll source).records
  match Dialect.ofRecords records with
  | .vfp9 => Record.identities records
  | .fox26dos => Record.identities records
  | .spr => Record.identities records ++ (Screen.painted config source).ids.issued

section dialects

variable (config : Config) {source : String}

/-- Records in pixels are built into a document, and their identities are what is hashed. -/
theorem importSource_of_vfp9 (h : Dialect.ofRecords (Record.readAll source).records = .vfp9) :
    (importSource config source).dialect = .vfp9 ∧ (importSource config source).document =
      (PixelScreen.Nesting.ofRecords (Record.readAll source).records).document := by
  unfold importSource
  dsimp only
  rw [h]
  exact ⟨rfl, rfl⟩

theorem hashedContents_of_vfp9
    (h : Dialect.ofRecords (Record.readAll source).records = .vfp9) :
    hashedContents config source = Record.identities (Record.readAll source).records := by
  unfold hashedContents
  dsimp only
  rw [h]

end dialects

theorem sound_importSource (config : Config) (source : String)
    (h : CollisionFree (hashedContents config source)) :
    (importSource config source).document.Sound := by
  unfold hashedContents at h
  unfold importSource
  dsimp only at h ⊢
  split <;> rename_i hdialect <;> rw [hdialect] at h
  · show (PixelScreen.build (Record.readAll source).records).document.Sound
    exact PixelScreen.sound_build (Record.ids_nodup h)
  · show (CellScreen.build config.cells (Record.readAll source).records).document.Sound
    exact CellScreen.sound_build config.cells (Record.ids_nodup h)
  · exact Screen.sound_build config source fun a ha b hb =>
      h a (List.mem_append_right _ ha) b (List.mem_append_right _ hb)

namespace Document

/-- Every sound document becomes a program for every target: bringing its code into another
language leaves its controls alone. -/
theorem Sound.exportTo_isOk {doc : Document} (h : doc.Sound) (options : ExportOptions)
    (target : Target) : ∃ program, doc.exportTo options target = .ok program := by
  have hlocal : (doc.localize options target).Sound := h.of_controls_eq rfl
  have hvalid : (doc.localize options target).validate = .ok () :=
    (validate_eq_ok_iff _).mpr ((valid_iff_sound _).mpr hlocal)
  unfold exportTo generate
  rw [hvalid]
  exact ⟨_, rfl⟩

end Document

/-- Whatever the source and the configuration, the imported document passes its checks: ids are
distinct, every parent is a control that may hold others, and no control is its own ancestor. So it
becomes a program for every target. The hash has to tell apart the contents that ids are made
from. -/
theorem import_valid (config : Config) (source : String)
    (hcollision : ∀ a ∈ hashedContents config source, ∀ b ∈ hashedContents config source,
      contentId a = contentId b → a = b) :
    (importSource config source).document.validate = .ok () ∧
      ((importSource config source).document.controls.map Control.id).Nodup ∧
      (∀ c ∈ (importSource config source).document.controls, ∀ id, c.parent = some id →
        ∃ p ∈ (importSource config source).document.controls,
          p.id = id ∧ (p.kind = .container ∨ p.kind = .page)) ∧
      (∀ c, ¬ Relation.TransGen (importSource config source).document.HasParent c c) ∧
      ∀ target, ∃ program, (convert config target source).2 = .ok program := by
  have hs := sound_importSource config source hcollision
  unfold convert
  dsimp only
  generalize (importSource config source).document = doc at hs ⊢
  exact ⟨(Document.validate_eq_ok_iff doc).mpr ((Document.valid_iff_sound doc).mpr hs),
    hs.ids_nodup, hs.parent_holds, hs.no_cycle, fun target => hs.exportTo_isOk config.output target⟩

/-- A program that opens a second window and paints on it. -/
def nestedWindow : String :=
  "DEFINE WINDOW a FROM 0,0 TO 20,60\nDEFINE WINDOW b FROM 1,1 TO 5,5\n" ++
    "ACTIVATE WINDOW b\n@ 1,1 SAY 'x'\n"

theorem collisionFree_nestedWindow : CollisionFree (hashedContents {} nestedWindow) := by
  have hlines : Record.numberedLines nestedWindow = _ := Record.numberedLines_of_toList
    (Text.toList_append_of String.toList_ofList String.toList_ofList)
  rw [hashedContents, Record.readAll, Screen.painted, Screen.surroundings, Screen.Program.read,
    Screen.programLines, hlines]
  unfold CollisionFree
  decide +kernel

theorem import_valid_nestedWindow :
    (∀ a ∈ hashedContents {} nestedWindow, ∀ b ∈ hashedContents {} nestedWindow,
        contentId a = contentId b → a = b) ∧
      ∃ program, (convert {} .qt nestedWindow).2 = .ok program := by
  obtain ⟨-, -, -, -, hprogram⟩ := import_valid {} nestedWindow collisionFree_nestedWindow
  exact ⟨collisionFree_nestedWindow, hprogram .qt⟩

end ScreenForms
