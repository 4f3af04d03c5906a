import Mathlib
import ScreenForms.Proofs.PixelNesting

/-!
# Records of a screen placed in pixels

A record has one role, which its base class and that of its parent settle (`plays_iff`), and every
record is accounted for by its role once: the controls are the records with the role of a control,
the columns of a grid are the records that are columns of it, with the text of their first header,
and a record without a role gives one remark (`build_accounts`). Nothing else becomes a control, a
column or such a remark, so the numbers add up to the number of records.
-/

namespace ScreenForms.PixelScreen

namespace Nesting

variable {t : Nesting} {i : Nat} {role : Role}

/-! ## Roles -/

/-- The parent of a record is the one at an index, and has a base class. -/
def IsUnder (t : Nesting) (i : Nat) (base : String) (p : Nat) : Prop :=
  t.parent? i = some p ∧ baseClass (t.record p) = base

/-- What a record contributes, by its base class and that of its parent. -/
inductive Plays (t : Nesting) (i : Nat) : Role → Prop where
  | form (hform : t.form = some i) : Plays t i .form
  | column {grid : Nat} (hform : t.form ≠ some i) (hbase : baseClass (t.record i) = "column")
    (hgrid : t.IsUnder i "grid" grid) : Plays t i (.column grid)
  | header {column : Nat} (hform : t.form ≠ some i) (hbase : baseClass (t.record i) = "header")
    (hcolumn : t.IsUnder i "column" column) : Plays t i (.header column)
  | cellEditor {column : Nat} (hform : t.form ≠ some i) (hbase : baseClass (t.record i) ≠ "header")
    (hcolumn : t.IsUnder i "column" column) : Plays t i .cellEditor
  | control {kind : ControlKind} (hform : t.form ≠ some i)
    (houtside : ∀ p, ¬ t.IsUnder i "column" p)
    (hkind : ControlKind.ofLegacyBaseClass? (baseClass (t.record i)) = some kind) :
    Plays t i (.control kind)
  | unmapped (hform : t.form ≠ some i) (houtside : ∀ p, ¬ t.IsUnder i "column" p)
    (hcolumn : baseClass (t.record i) = "column" → ∀ p, ¬ t.IsUnder i "grid" p)
    (hkind : ControlKind.ofLegacyBaseClass? (baseClass (t.record i)) = none) :
    Plays t i .unmapped

/-- The class of a parent is what the roles of columns and headers depend on. -/
theorem map_parent?_eq_some {base : String} :
    ((t.parent? i).map fun p => baseClass (t.record p)) = some base ↔ ∃ p, t.IsUnder i base p :=
  Option.map_eq_some_iff

/-- Every record plays the role it is given. The cases are those of the definition, in which each
condition is tried only after the ones before it failed. -/
theorem plays_role (t : Nesting) (i : Nat) : t.Plays i (t.role i) := by
  unfold role
  dsimp only
  split
  · next hform => exact .form hform.symm
  · next hform =>
    have hform : t.form ≠ some i := fun h => hform h.symm
    split
    · next hcolumn =>
      obtain ⟨hbase, hparent⟩ := hcolumn
      obtain ⟨grid, hgrid⟩ := map_parent?_eq_some.mp hparent
      rw [hgrid.1]
      exact .column hform hbase hgrid
    · next hcolumn =>
      split
      · next hheader =>
        obtain ⟨hbase, hparent⟩ := hheader
        obtain ⟨column, hcolumn⟩ := map_parent?_eq_some.mp hparent
        rw [hcolumn.1]
        exact .header hform hbase hcolumn
      · next hheader =>
        split
        · next hparent =>
          obtain ⟨column, hcolumn⟩ := map_parent?_eq_some.mp hparent
          exact .cellEditor hform (fun hbase => hheader ⟨hbase, hparent⟩) hcolumn
        · next hparent =>
          have houtside : ∀ p, ¬ t.IsUnder i "column" p :=
            fun p hp => hparent (map_parent?_eq_some.mpr ⟨p, hp⟩)
          split
          · next kind hkind => exact .control hform houtside hkind
          · next hkind =>
            refine .unmapped hform houtside (fun hbase p hp => ?_) hkind
            exact hcolumn ⟨hbase, map_parent?_eq_some.mpr ⟨p, hp⟩⟩

theorem IsUnder.map_eq {base : String} {p : Nat} (h : t.IsUnder i base p) :
    ((t.parent? i).map fun p => baseClass (t.record p)) = some base :=
  map_parent?_eq_some.mpr ⟨p, h⟩

/-- It plays no other, because the conditions of the roles exclude each other. -/
theorem Plays.role_eq (h : t.Plays i role) : t.role i = role := by
  have hother : t.form ≠ some i → ¬ some i = t.form := fun hform h => hform h.symm
  unfold Nesting.role
  dsimp only
  cases h with
  | form hform => rw [if_pos hform.symm]
  | column hform hbase hgrid =>
    rw [if_neg (hother hform), if_pos ⟨hbase, hgrid.map_eq⟩, hgrid.1]
    rfl
  | header hform hbase hcolumn =>
    rw [if_neg (hother hform), if_neg (by simp [hbase]), if_pos ⟨hbase, hcolumn.map_eq⟩, hcolumn.1]
    rfl
  | cellEditor hform hbase hcolumn =>
    rw [if_neg (hother hform), if_neg (by simp [hcolumn.map_eq]), if_neg (by simp [hbase]),
      if_pos hcolumn.map_eq]
  | control hform houtside hkind =>
    have hcell : ¬ ((t.parent? i).map fun p => baseClass (t.record p)) = some "column" := by
      rw [map_parent?_eq_some]
      exact fun ⟨p, hp⟩ => houtside p hp
    -- no kind of control stands for a column
    have hcolumn : baseClass (t.record i) ≠ "column" := by
      intro hbase
      have hnone : ControlKind.ofLegacyBaseClass? "column" = none := by decide
      rw [hbase, hnone] at hkind
      cases hkind
    rw [if_neg (hother hform), if_neg (by simp [hcolumn]), if_neg (fun h => hcell h.2),
      if_neg hcell, hkind]
  | unmapped hform houtside hcolumn hkind =>
    have hcell : ¬ ((t.parent? i).map fun p => baseClass (t.record p)) = some "column" := by
      rw [map_parent?_eq_some]
      exact fun ⟨p, hp⟩ => houtside p hp
    have hgrid : ¬ (baseClass (t.record i) = "column" ∧
        ((t.parent? i).map fun p => baseClass (t.record p)) = some "grid") := by
      rw [map_parent?_eq_some]
      exact fun ⟨hbase, p, hp⟩ => hcolumn hbase p hp
    rw [if_neg (hother hform), if_neg hgrid, if_neg (fun h => hcell h.2), if_neg hcell, hkind]

/-- A record has one role. -/
theorem plays_iff : t.Plays i role ↔ t.role i = role :=
  ⟨Plays.role_eq, fun h => h ▸ plays_role t i⟩

/-! ## Columns -/

/-- A column of a grid, by the record it is read from: its header is the caption of the first
record that is a header of it, and without one the name of the record. -/
structure IsColumn (t : Nesting) (i : Nat) (column : GridColumn) : Prop where
  field : column.field = ((t.record i).text? "ControlSource").getD ""
  width : column.width = ((t.record i).number? ["Width"]).map Decimal.nearest
  readOnly : column.readOnly = ((t.record i).flag? "ReadOnly").getD false
  captioned : ∀ h ∈ t.indices, t.role h = .header i → (∀ j < h, t.role j ≠ .header i) →
    column.header = ((t.record h).text? "Caption").getD ""
  named : (∀ h ∈ t.indices, t.role h ≠ .header i) →
    column.header = Text.trimmed (t.record i).objName

/-- The column that is read from a record has what the record and its header say. -/
theorem isColumn_gridColumn (t : Nesting) (i : Nat) : t.IsColumn i (t.gridColumn i) where
  field := rfl
  width := rfl
  readOnly := rfl
  captioned h hh hheader hfirst := by
    have hfind : (t.indices.find? fun j => t.role j = .header i) = some h := by
      rw [indices, List.find?_range_eq_some]
      exact ⟨by simpa using hheader, hh, fun j hj => by simpa using hfirst j hj⟩
    rw [gridColumn, headerText?, hfind]
    rfl
  named hnone := by
    have hfind : (t.indices.find? fun j => t.role j = .header i) = none := by
      rw [List.find?_eq_none]
      exact fun h hh => by simpa using hnone h hh
    rw [gridColumn, headerText?, hfind]
    rfl

/-- The grid of a record that is a column of a control. -/
def gridOf? (t : Nesting) (i : Nat) : Option Nat :=
  match t.role i with
  | .column grid => if (t.kind? grid).isSome then some grid else none
  | _ => none

/-- The records that leave nothing of their own in a document: headers and editors in columns, and
columns of what is no control. -/
def isSilent (t : Nesting) (i : Nat) : Bool :=
  match t.role i with
  | .header _ | .cellEditor => true
  | .column grid => (t.kind? grid).isNone
  | _ => false

/-! ## Numbers of records -/

/-- Every record is in one of five groups. -/
theorem groups_eq_one (t : Nesting) (i : Nat) :
    (if t.role i = .form then 1 else 0) + (if (t.kind? i).isSome then 1 else 0) +
      (if (t.gridOf? i).isSome then 1 else 0) + (if t.role i = .unmapped then 1 else 0) +
      (if t.isSilent i then 1 else 0) = 1 := by
  unfold gridOf? isSilent
  rcases hrole : t.role i with _ | kind | grid | column | _ | _
  case column =>
    have hkind : t.kind? i = none := by simp [kind?, hrole]
    cases hgrid : t.kind? grid <;> simp [hkind, hgrid]
  all_goals simp [kind?, hrole]

/-- Every record belongs to exactly one of the five groups. -/
theorem length_eq_countP (t : Nesting) (l : List Nat) :
    l.length = (l.countP fun i => t.role i = .form) + (l.countP fun i => (t.kind? i).isSome) +
      (l.countP fun i => (t.gridOf? i).isSome) + (l.countP fun i => t.role i = .unmapped) +
      l.countP t.isSilent := by
  induction l with
  | nil => rfl
  | cons i l ih =>
    have hone := t.groups_eq_one i
    simp only [List.length_cons, List.countP_cons, decide_eq_true_eq]
    omega

/-- A column belongs to a grid that became a control. -/
theorem gridOf?_eq_some_iff {grid : Nat} :
    t.gridOf? i = some grid ↔ t.role i = .column grid ∧ (t.kind? grid).isSome = true := by
  unfold gridOf?
  split
  · next found hrole =>
    rw [hrole, Role.column.injEq]
    constructor
    · intro h
      split at h
      · next hkind =>
        obtain rfl := Option.some.inj h
        exact ⟨rfl, hkind⟩
      · cases h
    · rintro ⟨rfl, hkind⟩
      rw [if_pos hkind]
  · next hrole => exact iff_of_false nofun fun h => hrole grid h.1

/-- Grids of columns are records of the list. -/
theorem WellLinked.lt_of_gridOf? (h : t.WellLinked) {grid : Nat} (hgrid : t.gridOf? i = some grid) :
    grid < t.records.length := by
  obtain ⟨hrole, -⟩ := gridOf?_eq_some_iff.mp hgrid
  cases plays_iff.mpr hrole with
  | column hform hbase hunder => exact h.2 i grid hunder.1

/-- The columns of all controls are the records that are columns of one. Sorting the records by
their grids keeps their number, as a record has one grid at most. -/
theorem sum_length_columnsOf (hlinked : t.WellLinked) :
    ((t.indices.filter fun i => (t.kind? i).isSome).map fun i => (t.columnsOf i).length).sum =
      t.indices.countP fun i => (t.gridOf? i).isSome := by
  have hnodup : ((t.indices.filter fun i => (t.kind? i).isSome).map some).Nodup :=
    (List.nodup_range.filter _).map fun _ _ => Option.some.inj
  have hsorted := (flatMap_filter_perm t.gridOf? hnodup t.indices).length_eq
  rw [List.length_flatMap, List.map_map, ← List.countP_eq_length_filter] at hsorted
  calc _ = _ := congrArg List.sum (List.map_congr_left fun grid hgrid => ?_)
    _ = _ := hsorted
    _ = _ := List.countP_congr fun i _ => ?_
  · -- where the grid is a control, its columns are the records that have it as their grid
    have hkind : (t.kind? grid).isSome = true := (List.mem_filter.mp hgrid).2
    rw [columnsOf, List.length_map]
    refine congrArg List.length (List.filter_congr fun i _ => ?_)
    rw [Bool.eq_iff_iff, decide_eq_true_eq, beq_iff_eq, gridOf?_eq_some_iff]
    exact (and_iff_left hkind).symm
  · rw [decide_eq_true_eq, Option.isSome_iff_exists, List.mem_map]
    constructor
    · rintro ⟨grid, -, hgrid⟩
      exact ⟨grid, hgrid.symm⟩
    · rintro ⟨grid, hgrid⟩
      refine ⟨grid, List.mem_filter.mpr ⟨?_, (gridOf?_eq_some_iff.mp hgrid).2⟩, hgrid.symm⟩
      exact List.mem_range.mpr (hlinked.lt_of_gridOf? hgrid)

/-- There is one form at most. -/
theorem countP_form (t : Nesting) (hform : ∀ i, t.form = some i → i < t.records.length) :
    (t.indices.countP fun i => t.role i = .form) = t.form.toList.length := by
  have hrole : ∀ i, decide (t.role i = .form) = decide (t.form = some i) := by
    intro i
    rw [decide_eq_decide]
    constructor
    · intro h
      cases plays_iff.mpr h with
      | form hform => exact hform
    · exact fun h => plays_iff.mp (.form h)
  rw [funext hrole]
  cases hfound : t.form with
  | none => simp
  | some form =>
    have hmem : form ∈ t.indices := List.mem_range.mpr (hform form hfound)
    have hcount : (t.indices.countP fun i => some form = some i) = t.indices.count form := by
      refine List.countP_congr fun i _ => ?_
      rw [decide_eq_true_eq, beq_iff_eq, Option.some_inj]
      exact eq_comm
    have hnodup : t.indices.Nodup := List.nodup_range
    rw [hcount, List.count_eq_one_of_mem hnodup hmem]
    rfl

theorem lt_of_form {records : List Record} (h : (ofRecords records).form = some i) :
    i < (ofRecords records).records.length :=
  (List.findIdx?_eq_some_iff_getElem.mp h).1

/-! ## The account -/

/-- The remarks on records that no kind of control stands for. -/
def unmappedIn (o : ImportOutcome) : List Diagnostic :=
  o.diagnostics.filter fun d => d.code = "vfp9.unmapped_class"

/-- What comes out of reading records that accounts for each of them once. -/
structure Accounts (t : Nesting) (o : ImportOutcome) : Prop where
  /-- the role of a record is settled by its base class and that of its parent -/
  roles : ∀ i role, t.Plays i role ↔ t.role i = role
  /-- the controls are the records that have the role of one, in order -/
  controls : o.document.controls.map (fun c => (c.id, c.kind)) =
    t.indices.filterMap fun i => (t.kind? i).map fun kind => ((t.record i).id, kind)
  /-- the columns of a control are the records that are columns of its record, in order -/
  columns : ∀ c ∈ o.document.controls, ∀ i ∈ t.indices, c.id = (t.record i).id →
    List.Forall₂ t.IsColumn (t.indices.filter fun j => t.role j = .column i) c.props.columns
  /-- every record without a role is remarked on, in order -/
  remarks : (unmappedIn o).map Diagnostic.line =
    (t.indices.filter fun i => t.role i = .unmapped).map fun i => some (t.record i).line
  /-- no record is left out or counted twice -/
  tally : t.records.length = t.form.toList.length + o.document.controls.length +
    (o.document.controls.map fun c => c.props.columns.length).sum + (unmappedIn o).length +
    t.indices.countP t.isSilent

/-- What is asked of the controls of the document can be asked of the records they were read
from. -/
theorem map_controls_document {α : Type} (f : Control → α) (g : Nat → ControlKind → α)
    (h : ∀ names i kind, f (t.control names i kind) = g i kind) :
    t.document.controls.map f = t.indices.filterMap fun i => (t.kind? i).map (g i) := by
  rw [document, List.map_filterMap]
  refine List.filterMap_congr fun i _ => ?_
  rw [Option.map_map]
  exact congrArg (Option.map · (t.kind? i)) (funext (h _ i))

theorem filterMap_kind? {α : Type} (t : Nesting) (l : List Nat) (g : Nat → α) :
    (l.filterMap fun i => (t.kind? i).map fun _ => g i) =
      (l.filter fun i => (t.kind? i).isSome).map g := by
  induction l with
  | nil => rfl
  | cons i l ih => cases hkind : t.kind? i <;> simp [hkind, ih]

/-- The diagnostics of the document name the records that no group took. -/
theorem unmappedIn_build (records : List Record) :
    unmappedIn (build records) = (ofRecords records).unmappedRemarks := by
  have hkeep : ∀ d ∈ (ofRecords records).unmappedRemarks, d.code = "vfp9.unmapped_class" := by
    intro d hd
    obtain ⟨i, -, rfl⟩ := List.mem_map.mp hd
    rfl
  have hdrop : ∀ d ∈ (ofRecords records).cycleRemarks, d.code ≠ "vfp9.unmapped_class" := by
    intro d hd
    obtain ⟨i, -, rfl⟩ := List.mem_map.mp hd
    show "vfp9.parent_cycle" ≠ "vfp9.unmapped_class"
    decide
  rw [unmappedIn, build, List.filter_append, List.filter_eq_self.mpr (by simpa using hkeep),
    List.filter_eq_nil_iff.mpr (by simpa using hdrop), List.append_nil]

end Nesting

/-- Records with distinct ids are accounted for once each: every one becomes the form, a control
or a column of a control, or is remarked on, or is a header or an editor in a column or a column
of no control; and there are no other controls, columns or remarks of that kind. -/
theorem build_accounts {records : List Record} (hids : (records.map Record.id).Nodup) :
    (Nesting.ofRecords records).Accounts (build records) := by
  have hlinked := Nesting.wellLinked_ofRecords records
  have hunmapped := Nesting.unmappedIn_build records
  have hids : ((Nesting.ofRecords records).records.map Record.id).Nodup := hids
  have hform : ∀ i, (Nesting.ofRecords records).form = some i →
      i < (Nesting.ofRecords records).records.length := fun _ => Nesting.lt_of_form
  have hdocument : (build records).document = (Nesting.ofRecords records).document := rfl
  generalize Nesting.ofRecords records = t at *
  refine ⟨fun i role => Nesting.plays_iff, ?_, ?_, ?_, ?_⟩
  · rw [hdocument]
    exact Nesting.map_controls_document _ _ fun names i kind => rfl
  · intro c hc i hi hid
    rw [hdocument] at hc
    obtain ⟨j, hj⟩ := Nesting.mem_controls_iff.mp hc
    obtain rfl : j = i := Nesting.index_eq_of_nodup hids hj.1 (List.mem_range.mp hi)
      (hj.id_eq.symm.trans hid)
    obtain ⟨-, kind, -, rfl⟩ := hj
    show List.Forall₂ t.IsColumn _ (t.columnsOf j)
    rw [Nesting.columnsOf, List.forall₂_map_right_iff, List.forall₂_same]
    exact fun k _ => t.isColumn_gridColumn k
  · rw [hunmapped, Nesting.unmappedRemarks, List.map_map]
    rfl
  · have hcontrols : (build records).document.controls.length =
        t.indices.countP fun i => (t.kind? i).isSome := by
      rw [← List.length_map (fun _ => ()), hdocument,
        Nesting.map_controls_document _ (fun _ _ => ()) fun names i kind => rfl,
        Nesting.filterMap_kind?, List.length_map, List.countP_eq_length_filter]
    have hcolumns : ((build records).document.controls.map fun c => c.props.columns.length).sum =
        t.indices.countP fun i => (t.gridOf? i).isSome := by
      rw [← Nesting.sum_length_columnsOf hlinked, ← Nesting.filterMap_kind?, hdocument]
      exact congrArg List.sum (Nesting.map_controls_document _ _ fun names i kind => rfl)
    have hremarks : (Nesting.unmappedIn (build records)).length =
        t.indices.countP fun i => t.role i = .unmapped := by
      rw [hunmapped, Nesting.unmappedRemarks, List.length_map, List.countP_eq_length_filter]
    have hlength : t.records.length = t.indices.length := List.length_range.symm
    rw [hlength, t.length_eq_countP, t.countP_form hform, hcontrols, hcolumns, hremarks]

/-- A header before its column, a column without one, a grid in a column with a column of its own,
a column of no grid and a second form. -/
def gridRecords : List Record :=
  [{ id := "f", line := 1, baseClass := "form", objName := "frm" },
    { id := "h", line := 2, baseClass := "header", objName := "hdr", parent := "frm.grd.col"
      properties := [("Caption", .text "Number")] },
    { id := "g", line := 3, baseClass := "grid", objName := "grd", parent := "frm" },
    { id := "c", line := 4, baseClass := "column", objName := "col", parent := "frm.grd" },
    { id := "t", line := 5, baseClass := "textbox", objName := "txt", parent := "frm.grd.col" },
    { id := "d", line := 6, baseClass := "column", objName := " spare ", parent := "frm.grd" },
    { id := "i", line := 7, baseClass := "grid", objName := "inner", parent := "frm.grd.col" },
    { id := "k", line := 8, baseClass := "column", objName := "lost"
      parent := "frm.grd.col.inner" },
    { id := "o", line := 9, baseClass := "column", objName := "free", parent := "frm" },
    { id := "s", line := 10, baseClass := "form", objName := "second" }]

theorem build_accounts_gridRecords :
    (gridRecords.map Record.id).Nodup ∧
    (Nesting.ofRecords gridRecords).Accounts (build gridRecords) ∧
    (build gridRecords).document.controls.map (fun c => (c.id, c.kind)) = [("g", .grid)] ∧
    ((build gridRecords).document.controls.flatMap fun c => c.props.columns.map (·.header)) =
      ["Number", "spare"] ∧
    (Nesting.unmappedIn (build gridRecords)).map Diagnostic.line = [some 9, some 10] := by
  have hids : (gridRecords.map Record.id).Nodup := by decide +kernel
  have haccounts := build_accounts hids
  exact ⟨hids, haccounts, haccounts.controls.trans (by decide +kernel), by decide +kernel,
    haccounts.remarks.trans (by decide +kernel)⟩

end ScreenForms.PixelScreen
