import ScreenForms.Proofs.CanvasNames
import ScreenForms.Proofs.ImportSound
import ScreenForms.Proofs.ReadControls

/-!
# Names of an imported document

Whatever the dialect, the names of an imported document are apart (`namedApart_importSource`): on
screens whose records name their controls the names are claimed one after another behind that of
the form, and the names of a screen program are kept apart by every command. So the names are
distinct exactly where no fallback name was in use already, and no default name was given out that
the form got later.
-/

namespace ScreenForms

open NameRegistry

/-! ## Screens placed in cells -/

namespace CellScreen

theorem name_control (m : CellMetrics) (r : Record) (kind : ControlKind) (name : String) :
    (control m r kind name).name = name := rfl

theorem id_control (m : CellMetrics) (r : Record) (kind : ControlKind) (name : String) :
    (control m r kind name).id = r.id := rfl

theorem claims_controls (m : CellMetrics) (names : NameRegistry)
    (l : List (Record × ControlKind)) : names.Claims (controls m names l) := by
  induction l generalizing names with
  | nil => exact .nil names
  | cons e l ih =>
    rw [controls]
    refine .cons (Text.trimmed e.1.objName) ?_ ?_
    · rw [name_control, id_control]
    · rw [name_control]
      exact ih _

theorem namedApart_build (m : CellMetrics) (records : List Record) :
    (build m records).document.NamedApart :=
  Document.namedApart_of_claims (claims_controls m _ _)

end CellScreen

/-! ## Screens placed in pixels -/

namespace PixelScreen.Nesting

open Document.ReadBack (claimStep claimStep_of_none claimStep_of_kind)

variable {t : Nesting}

/-- Names that have been claimed stay where they are. -/
theorem getElem?_foldl_claimStep {i : Nat} {o : Option String} (l : List Nat)
    (state : List (Option String) × NameRegistry) (h : state.1[i]? = some o) :
    (l.foldl (claimStep t) state).1[i]? = some o := by
  induction l generalizing state with
  | nil => exact h
  | cons j l ih =>
    obtain ⟨hi, -⟩ := List.getElem?_eq_some_iff.mp h
    refine ih (claimStep t state j) ?_
    rcases hkind : t.kind? j with _ | kind
    · rwa [claimStep_of_none hkind, List.getElem?_append_left hi]
    · rwa [claimStep_of_kind hkind rfl, List.getElem?_append_left hi]

theorem name_control {names : List (Option String)} {i : Nat} {name : String}
    (h : names[i]? = some (some name)) (kind : ControlKind) :
    (t.control names i kind).name = name := by
  rw [control, h]
  rfl

/-- The controls of the records from an index on claim their names behind those of the records
before it. -/
theorem claims_from (n : Nat) (names : List (Option String)) (registry : NameRegistry) :
    registry.Claims ((List.range' names.length n).filterMap fun i => (t.kind? i).map
      (t.control ((List.range' names.length n).foldl (claimStep t) (names, registry)).1 i)) := by
  induction n generalizing names registry with
  | zero => exact .nil _
  | succ n ih =>
    rw [List.range'_succ, List.foldl_cons]
    rcases hkind : t.kind? names.length with _ | kind
    · rw [List.filterMap_cons_none (by rw [hkind]; rfl), claimStep_of_none hkind]
      have hrest := ih (names ++ [none]) registry
      rwa [List.length_append] at hrest
    · obtain ⟨name, hname⟩ : ∃ name, registry.choose
        (Text.trimmed (t.record names.length).objName) (t.record names.length).id = name := ⟨_, rfl⟩
      have hstep : claimStep t (names, registry) names.length =
        (names ++ [some name], registry.reserve name) := claimStep_of_kind hkind hname
      rw [List.filterMap_cons_some (by rw [hkind]; rfl), hstep]
      have hrest := ih (names ++ [some name]) (registry.reserve name)
      rw [List.length_append, List.length_singleton] at hrest
      -- what is claimed later does not move the name that this record claims
      have hclaimed := getElem?_foldl_claimStep (t := t) (List.range' (names.length + 1) n)
        (names ++ [some name], registry.reserve name) List.getElem?_concat_length
      have hcontrol := name_control (t := t) hclaimed kind
      refine .cons (Text.trimmed (t.record names.length).objName) ?_ ?_
      · rw [hcontrol]
        exact hname.symm
      · rwa [hcontrol]

theorem namedApart_document (t : Nesting) : t.document.NamedApart := by
  have hclaims := claims_from (t := t) t.records.length [] (reserve {} t.window.name)
  rw [List.length_nil, ← List.range_eq_range'] at hclaims
  exact Document.namedApart_of_claims hclaims

end PixelScreen.Nesting

/-! ## All dialects -/

/-- Whatever the source, the names of the imported document are apart. -/
theorem namedApart_importSource (config : Config) (source : String) :
    (importSource config source).document.NamedApart := by
  unfold importSource
  dsimp only
  split
  · exact PixelScreen.Nesting.namedApart_document _
  · exact CellScreen.namedApart_build config.cells (Record.readAll source).records
  · exact Screen.namedApart_build config source

/-- Names coincide only where a control has a fallback name or where the form took the default name
of a control. So the names of the form and of the controls are distinct, up to ASCII case, exactly
where these names are free. The hash has to tell apart the contents that ids are made from. -/
theorem import_names_distinct_iff (config : Config) (source : String)
    (hcollision : ∀ a ∈ hashedContents config source, ∀ b ∈ hashedContents config source,
      contentId a = contentId b → a = b) :
    (importSource config source).document.NamedApart ∧
      ((((importSource config source).document.window.name ::
          (importSource config source).document.controls.map Control.name).map fold).Nodup ↔
        (importSource config source).document.KeepsNamesFree) := by
  have hnamed := namedApart_importSource config source
  exact ⟨hnamed, hnamed.distinct_iff (sound_importSource config source hcollision).ids_nodup⟩

theorem import_names_distinct_iff_nestedWindow :
    (∀ a ∈ hashedContents {} nestedWindow, ∀ b ∈ hashedContents {} nestedWindow,
        contentId a = contentId b → a = b) ∧
      (importSource {} nestedWindow).document.KeepsNamesFree := by
  obtain ⟨-, hiff⟩ := import_names_distinct_iff {} nestedWindow collisionFree_nestedWindow
  exact ⟨collisionFree_nestedWindow, hiff.mp (by decide +kernel)⟩

/-- A program that paints a label before it opens a window with the name of that label. -/
def lateWindow : String := "@ 1,1 SAY 'x'\nDEFINE WINDOW Label1 FROM 0,0 TO 10,40\n"

/-- Three labels: the first has the name that the third falls back to, as the second has taken its
own. -/
def borrowedName : String :=
  "[ RECORD]\n[BASECLASS] form\n[OBJNAME] F\n" ++
    "[ RECORD]\n[BASECLASS] label\n[OBJNAME] A_w9bf93d1c28\n[PARENT] F\n" ++
    "[ RECORD]\n[BASECLASS] label\n[OBJNAME] A\n[PARENT] F\n" ++
    "[ RECORD]\n[BASECLASS] label\n[OBJNAME] A\n[PARENT] F\n"

/-- The form may have the name of a control, and two controls may have one name. -/
theorem import_names_clash :
    (CollisionFree (hashedContents {} lateWindow) ∧
        ¬ (((importSource {} lateWindow).document.window.name ::
          (importSource {} lateWindow).document.controls.map Control.name).map fold).Nodup) ∧
      CollisionFree (hashedContents {} borrowedName) ∧
        ¬ (((importSource {} borrowedName).document.window.name ::
          (importSource {} borrowedName).document.controls.map Control.name).map fold).Nodup := by
  have hlines : Record.numberedLines borrowedName = _ := Record.numberedLines_of_toList
    (Text.toList_append_of (Text.toList_append_of (Text.toList_append_of String.toList_ofList
      String.toList_ofList) String.toList_ofList) String.toList_ofList)
  have hdialect : Dialect.ofRecords (Record.readAll borrowedName).records = .vfp9 := by
    rw [Record.readAll, hlines]
    decide +kernel
  rw [hashedContents_of_vfp9 {} hdialect, (importSource_of_vfp9 {} hdialect).2, Record.readAll,
    hlines]
  unfold CollisionFree
  refine ⟨?_, ?_, ?_⟩
  · decide +kernel
  · decide +kernel
  · decide +kernel

end ScreenForms
