import ScreenForms.Proofs.ReadControls
import ScreenForms.Proofs.ReorderedEvents

/-!
# Screens whose records stand in another order

Names that are distinct are claimed as they are, in any order, so every record becomes the same
control wherever it stands, up to the order of the columns of a grid and the choice among several
headers of a column (`Nesting.Reorders.controls`). The events depend on the order where the code of
two controls comes under one key, as code is lost then (`not_events_reordered`), and nowhere else.
This is all that a document is made of (`build_reordered`).
-/

namespace ScreenForms

open Text NameRegistry

namespace PixelScreen.Nesting

open Document.ReadBack

variable {t : Nesting}

/-! ## Names -/

theorem filterMap_ownName?_sublist (t : Nesting) :
    ((t.indices.filterMap (ownName? t)).map fold).Sublist
      (t.records.map fun r => foldName r.objName) := by
  have hfilter : ∀ l : List Nat, ((l.filterMap (ownName? t)).map fold).Sublist
      (l.map fun i => foldName (t.record i).objName) := by
    intro l
    induction l with
    | nil => exact List.Sublist.refl _
    | cons i l ih =>
      rcases hkind : t.kind? i with _ | kind
      · rw [List.filterMap_cons_none (by rw [ownName?, hkind]; rfl)]
        exact ih.cons _
      · rw [List.filterMap_cons_some (by rw [ownName?, hkind]; rfl), List.map_cons, fold_trimmed]
        exact ih.cons_cons _
  exact map_indices (fun r => foldName r.objName) ▸ hfilter t.indices

/-- What is asked of the records so that every control keeps the name of its record. -/
structure Named (t : Nesting) : Prop where
  distinct : (t.records.map fun r => foldName r.objName).Nodup
  notBlank : ∀ r ∈ t.records, trim r.objName.toList ≠ []
  form : ∃ f < t.records.length, t.form = some f

namespace Named

variable (h : t.Named)
include h

theorem claimNames_eq : t.claimNames (reserve {} t.window.name) = t.indices.map (ownName? t) := by
  have hnames : ∀ name ∈ t.indices.filterMap (ownName? t), ∃ i < t.records.length,
      (t.kind? i).isSome ∧ name = trimmed (t.record i).objName := by
    intro name hname
    obtain ⟨i, hi, hown⟩ := List.mem_filterMap.mp hname
    obtain ⟨kind, hkind, rfl⟩ := Option.map_eq_some_iff.mp hown
    exact ⟨i, List.mem_range.mp hi, by rw [hkind]; rfl, rfl⟩
  refine (foldl_claimStep ([], reserve {} t.window.name) ?_ ?_ ?_).trans (List.nil_append _)
  · intro name hname
    obtain ⟨i, hi, -, rfl⟩ := hnames name hname
    rw [toList_onChars, trim_trim]
    exact h.notBlank _ (record_mem hi)
  · intro name hname hused
    obtain ⟨i, hi, hkind, rfl⟩ := hnames name hname
    obtain ⟨f, hf, hform⟩ := h.form
    have hwindow : t.window.name = trimmed (t.record f).objName := by
      rw [window, hform]
      rfl
    rw [reserve, List.mem_singleton, hwindow, fold_trimmed, fold_trimmed] at hused
    obtain rfl := index_eq_of_nodup h.distinct hi hf hused
    rw [kind?, role, if_pos hform.symm] at hkind
    cases hkind
  · exact h.distinct.sublist t.filterMap_ownName?_sublist

theorem claimed_name {i : Nat} (hi : i < t.records.length) :
    ((t.claimNames (reserve {} t.window.name))[i]?).join = ownName? t i := by
  rw [h.claimNames_eq, List.getElem?_map, indices, List.getElem?_range hi]
  rfl

end Named

end PixelScreen.Nesting

/-! ## Controls -/

/-- A control without the columns of a grid. -/
def Control.withoutColumns (c : Control) : Control := { c with props := { c.props with columns := [] } }

/-- A column without the text of its header. -/
def GridColumn.withoutHeader (c : GridColumn) : GridColumn := { c with header := "" }

/-- Controls that differ at most in the order of the columns of a grid and in their headers. -/
structure Control.SameButColumns (c c' : Control) : Prop where
  own : c.withoutColumns = c'.withoutColumns
  columns : (c.props.columns.map GridColumn.withoutHeader).Perm
    (c'.props.columns.map GridColumn.withoutHeader)

namespace PixelScreen.Nesting

open Document.ReadBack

namespace Reorders

variable {σ : Nat → Nat} {t t' : Nesting} (h : Reorders σ t t')
include h

theorem ownName? (i : Nat) : ownName? t' (σ i) = ownName? t i := by
  rw [Document.ReadBack.ownName?, Document.ReadBack.ownName?, h.kind?, h.record]

theorem gridColumn (i : Nat) :
    (t'.gridColumn (σ i)).withoutHeader = (t.gridColumn i).withoutHeader := by
  rw [Nesting.gridColumn, Nesting.gridColumn, h.record]
  rfl

theorem columnsOf (grid : Nat) : ((t'.columnsOf (σ grid)).map GridColumn.withoutHeader).Perm
    ((t.columnsOf grid).map GridColumn.withoutHeader) := by
  have hroles : ((t.indices.map σ).filter fun i => t'.role i = .column (σ grid)) =
      (t.indices.filter fun i => t.role i = .column grid).map σ := by
    rw [List.filter_map]
    refine congrArg _ (List.filter_congr fun i _ => ?_)
    exact decide_eq_decide.mpr (h.role_eq_column_iff i grid)
  rw [Nesting.columnsOf, Nesting.columnsOf, List.map_map, List.map_map]
  refine ((h.indices.filter _).map _).symm.trans (.of_eq ?_)
  rw [hroles, List.map_map]
  exact List.map_congr_left fun i _ => h.gridColumn i

section

variable (hlinked : t.WellLinked) (hnamed : t.Named) (hnamed' : t'.Named)
include hlinked hnamed hnamed'

theorem frameName {i : Nat} :
    ((t'.pageFrame? (σ i)).bind fun p =>
        ((t'.claimNames (reserve {} t'.window.name))[p]?).join) =
      (t.pageFrame? i).bind fun p => ((t.claimNames (reserve {} t.window.name))[p]?).join := by
  rw [h.pageFrame?]
  rcases hframe : t.pageFrame? i with _ | p
  · rfl
  · have hp : p < t.records.length :=
      (hlinked.lt_of_container? (Option.filter_eq_some_iff.mp hframe).1).2
    rw [Option.map_some, Option.bind_some, Option.bind_some, hnamed'.claimed_name (h.lt_length hp),
      hnamed.claimed_name hp, h.ownName?]

theorem control {i : Nat} (hi : i < t.records.length) (kind : ControlKind) :
    (t'.control (t'.claimNames (reserve {} t'.window.name)) (σ i) kind).SameButColumns
      (t.control (t.claimNames (reserve {} t.window.name)) i kind) := by
  constructor
  · unfold Nesting.control Control.withoutColumns
    simp only [h.record, h.relativeParent?, h.ownOffset, h.absolute, h.sizeFallback,
      hnamed.claimed_name hi, hnamed'.claimed_name (h.lt_length hi), h.ownName?,
      h.frameName hlinked hnamed hnamed', Option.isSome_map, Option.map_map, Function.comp_def]
  · exact h.columnsOf i

/-- The controls, one by one, in the order of the first records. -/
theorem controls : ∃ controls, controls.Perm t'.document.controls ∧
    List.Forall₂ Control.SameButColumns controls t.document.controls := by
  refine ⟨(t.indices.map σ).filterMap fun i => (t'.kind? i).map
    (t'.control (t'.claimNames (reserve {} t'.window.name)) i), h.indices.filterMap _, ?_⟩
  rw [List.filterMap_map]
  have hmem : List.Forall₂ (fun i j => i = j ∧ i ∈ t.indices) t.indices t.indices :=
    List.forall₂_same.mpr fun i hi => ⟨rfl, hi⟩
  refine List.rel_filterMap (R := fun i j => i = j ∧ i ∈ t.indices) ?_ hmem
  rintro i _ ⟨rfl, hi⟩
  rcases hkind : t.kind? i with _ | kind
  · simp only [Function.comp_apply, h.kind?, hkind]
    exact .none
  · simp only [Function.comp_apply, h.kind?, hkind]
    exact .some (h.control hlinked hnamed hnamed' (List.mem_range.mp hi) kind)

end

end Reorders

end PixelScreen.Nesting

namespace PixelScreen

theorem named_ofRecords {records : List Record}
    (hnames : (records.map fun r => foldName r.objName).Nodup)
    (hblank : ∀ r ∈ records, trim r.objName.toList ≠ [])
    (hform : ∃ r ∈ records, baseClass r = "form") : (Nesting.ofRecords records).Named := by
  refine ⟨hnames, hblank, ?_⟩
  obtain ⟨r, hr, hbase⟩ := hform
  rcases hfound : records.findIdx? fun r => baseClass r == "form" with _ | f
  · rw [List.findIdx?_eq_none_iff] at hfound
    exact absurd (hfound r hr) (by simp [hbase])
  · exact ⟨f, (List.findIdx?_eq_some_iff_getElem.mp hfound).1, hfound⟩

/-- The order of the records plays no part in the window, in the methods of the form and in the
controls, up to the order of grid columns and the choice of their headers. It plays none in the
events exactly where no two controls come to bind code under one key, which would lose the code of
one of them; with ids that are made from contents they never do. -/
theorem build_reordered {records : List Record} (hids : (records.map Record.id).Nodup)
    (hnames : (records.map fun r => foldName r.objName).Nodup)
    (hplain : ∀ r ∈ records, trim r.objName.toList ≠ [] ∧ '.' ∉ r.objName.toList)
    (hform : ∃! r, r ∈ records ∧ baseClass r = "form") :
    (∀ records', records.Perm records' →
      (build records').document.window = (build records).document.window ∧
        (build records').document.methods = (build records).document.methods ∧
        ∃ controls, controls.Perm (build records').document.controls ∧
          List.Forall₂ Control.SameButColumns controls (build records).document.controls) ∧
      ((∀ records', records.Perm records' →
          (build records').document.events = (build records).document.events) ↔
        (Nesting.ofRecords records).KeysApart) ∧
      ((∀ r ∈ records, ∃ content, r.id = contentId content) →
        (Nesting.ofRecords records).KeysApart) := by
  have hdots : ∀ r ∈ records, '.' ∉ r.objName.toList := fun r hr => (hplain r hr).2
  have hsolid : ∀ r ∈ records, trim r.objName.toList ≠ [] := fun r hr => (hplain r hr).1
  refine ⟨fun records' hperm => ?_, Nesting.events_reordered_iff hnames hdots hform hids,
    keysApart_of_contentIds hids⟩
  obtain ⟨σ, h⟩ := Nesting.exists_reorders hperm hnames hdots hform
  obtain ⟨form, ⟨hmem, hbase⟩, -⟩ := hform
  have hnamed := named_ofRecords hnames hsolid ⟨form, hmem, hbase⟩
  have hnamed' : (Nesting.ofRecords records').Named := by
    refine named_ofRecords ((hperm.map _).nodup_iff.mp hnames) (fun r hr => ?_)
      ⟨form, hperm.mem_iff.mp hmem, hbase⟩
    exact hsolid r (hperm.mem_iff.mpr hr)
  refine ⟨h.window, ?_, h.controls (Nesting.wellLinked_ofRecords records) hnamed hnamed'⟩
  exact congrArg (List.filterMap Nesting.formMethod?) h.formMethods

/-- A label in a container, a page in a page frame and a column of a grid, each behind what it is
in. -/
def nestedRecords : List Record :=
  [{ id := "f", objName := "frm", baseClass := "form", methods := [⟨"Init", "x = 1"⟩] },
    { id := "c", objName := "cnt", baseClass := "container", parent := "frm" },
    { id := "l", objName := "lbl", baseClass := "label", parent := "frm.cnt",
      methods := [⟨"Click", "y = 2"⟩] },
    { id := "p", objName := "pgf", baseClass := "pageframe", parent := "frm" },
    { id := "q", objName := "page", baseClass := "page", parent := "frm.pgf" },
    { id := "g", objName := "grd", baseClass := "grid", parent := "frm" },
    { id := "h", objName := "col", baseClass := "column", parent := "frm.grd" }]

theorem build_reordered_nestedRecords :
    (build nestedRecords.reverse).document.window = (build nestedRecords).document.window ∧
      (build nestedRecords.reverse).document.events = (build nestedRecords).document.events ∧
      ∃ controls, controls.Perm (build nestedRecords.reverse).document.controls ∧
        List.Forall₂ Control.SameButColumns controls (build nestedRecords).document.controls := by
  have hform : ∃! r, r ∈ nestedRecords ∧ baseClass r = "form" := by
    refine ⟨_, ⟨List.mem_cons_self, by decide⟩, ?_⟩
    rintro r ⟨hr, hbase⟩
    revert hbase
    revert r
    decide +kernel
  obtain ⟨hsame, hevents, -⟩ :=
    build_reordered (by decide +kernel) (by decide +kernel) (by decide +kernel) hform
  have hperm : nestedRecords.Perm nestedRecords.reverse := (List.reverse_perm _).symm
  have hkeys : (Nesting.ofRecords nestedRecords).KeysApart := by
    unfold Nesting.KeysApart
    decide +kernel
  exact ⟨(hsame _ hperm).1, hevents.mpr hkeys _ hperm, (hsame _ hperm).2.2⟩

/-- Two labels with code for different events, `B_C` of the one and `C` of the other, which come to
the same key `a_B_C`. -/
def clashingRecords : List Record :=
  [{ id := "f", objName := "frm", baseClass := "form" },
    { id := "a", objName := "lblA", baseClass := "label", methods := [⟨"b_C", "1"⟩] },
    { id := "a_B", objName := "lblB", baseClass := "label", methods := [⟨"C", "2"⟩] }]

/-- The events are not the same for every order of all records with distinct ids and names: of two
labels whose keys meet, the order of the records decides which one loses its code. -/
theorem not_events_reordered : ¬ ∀ records records' : List Record, records.Perm records' →
    (records.map Record.id).Nodup → (records.map fun r => foldName r.objName).Nodup →
    (∀ r ∈ records, trim r.objName.toList ≠ [] ∧ '.' ∉ r.objName.toList) →
    (∃! r, r ∈ records ∧ baseClass r = "form") →
      (build records').document.events = (build records).document.events := by
  intro hall
  have hform : ∃! r, r ∈ clashingRecords ∧ baseClass r = "form" := by
    refine ⟨_, ⟨List.mem_cons_self, by decide⟩, ?_⟩
    rintro r ⟨hr, hbase⟩
    revert hbase
    revert r
    decide +kernel
  have hevents := hall clashingRecords clashingRecords.reverse (List.reverse_perm _).symm
    (by decide +kernel) (by decide +kernel) (by decide +kernel) hform
  exact absurd hevents (by decide +kernel)

end PixelScreen

end ScreenForms
