import ScreenForms.Import.PixelScreen
import ScreenForms.Proofs.Soundness

/-!
# Nesting of screens placed in pixels

Records name their parents freely, and a parent counts only where it becomes a control that may
hold others and where the record is on no circle of containers. A circle of parents in the document
would be a circle of containers of records, and each record on one is noticed (`inCycle_iff`).
-/

namespace ScreenForms.PixelScreen

namespace Nesting

variable {t : Nesting}

/-- The parents of a nesting are indices of its records. -/
def WellLinked (t : Nesting) : Prop :=
  t.parents.length = t.records.length ∧ ∀ i p, t.parent? i = some p → p < t.records.length

theorem parent?_eq_some {i p : Nat} (h : t.parent? i = some p) : t.parents[i]? = some (some p) := by
  unfold parent? at h
  rcases hi : t.parents[i]? with _ | o
  · rw [hi] at h
    cases h
  · rw [hi] at h
    exact congrArg some h

/-- A parent that is found by path or by name is one of the records. -/
theorem lt_of_parentIndex? {paths names : List String} {r : Record} {n p : Nat}
    (hpaths : paths.length = n) (hnames : names.length = n)
    (h : parentIndex? paths names r = some p) : p < n := by
  unfold parentIndex? at h
  split at h
  · cases h
  · rcases hpath : paths.findIdx? (· == foldName r.parent) with _ | q
    · rw [hpath] at h
      exact hnames ▸ (List.findIdx?_eq_some_iff_getElem.mp h).1
    · rw [hpath] at h
      obtain rfl := Option.some.inj h
      exact hpaths ▸ (List.findIdx?_eq_some_iff_getElem.mp hpath).1

@[simp]
theorem ofRecords_records (records : List Record) : (ofRecords records).records = records := rfl

/-- So parents, and with them containers, never point outside of the list. -/
theorem wellLinked_ofRecords (records : List Record) : (ofRecords records).WellLinked := by
  refine ⟨List.length_map _, ?_⟩
  intro i p h
  have hi : (records.map (parentIndex? (records.map path)
      (records.map fun r => foldName r.objName)))[i]? = some (some p) := parent?_eq_some h
  rw [List.getElem?_map] at hi
  obtain ⟨r, -, hr⟩ := Option.map_eq_some_iff.mp hi
  exact lt_of_parentIndex? (List.length_map _) (List.length_map _) hr

theorem WellLinked.lt_of_parent? (h : t.WellLinked) {i p : Nat} (hp : t.parent? i = some p) :
    i < t.records.length := by
  obtain ⟨hi, -⟩ := List.getElem?_eq_some_iff.mp (parent?_eq_some hp)
  exact h.1 ▸ hi

theorem WellLinked.lt_of_container? (h : t.WellLinked) {i p : Nat}
    (hp : t.container? i = some p) : i < t.records.length ∧ p < t.records.length := by
  obtain ⟨hparent, -⟩ := Option.filter_eq_some_iff.mp hp
  exact ⟨h.lt_of_parent? hparent, h.2 i p hparent⟩

/-! ## Circles of containers -/

/-- The containers of a record are what climbing meets in so many steps. -/
theorem mem_containers (n i p : Nat) :
    p ∈ t.containers n i ↔ ∃ k < n, climb t.container? (k + 1) i = some p := by
  induction n generalizing i with
  | zero => simp [containers]
  | succ n ih =>
    rcases hc : t.container? i with _ | q
    · simp [containers, hc, climb_succ]
    · have hstep : ∀ k, climb t.container? (k + 1) i = climb t.container? k q := by
        intro k
        rw [climb_succ, hc]
        rfl
      rw [containers]
      simp only [hc, List.mem_cons, ih, hstep]
      constructor
      · rintro (rfl | ⟨k, hk, h⟩)
        · exact ⟨0, Nat.succ_pos n, rfl⟩
        · exact ⟨k + 1, Nat.succ_lt_succ hk, h⟩
      · rintro ⟨_ | k, hk, h⟩
        · exact .inl (Option.some.inj h).symm
        · exact .inr ⟨k, Nat.lt_of_succ_lt_succ hk, h⟩

/-- The bounded walk notices every circle. -/
theorem WellLinked.inCycle_iff (h : t.WellLinked) (i : Nat) :
    t.inCycle i ↔ Above t.container? i i := by
  unfold inCycle
  rw [decide_eq_true_iff, mem_containers]
  constructor
  · rintro ⟨k, -, hk⟩
    exact transGen_iff.mpr ⟨k, hk⟩
  · intro hcycle
    have hsource : ∀ j p, t.container? j = some p → j ∈ t.indices := by
      intro j p hj
      exact List.mem_range.mpr (h.lt_of_container? hj).1
    obtain ⟨k, hk, hclimb⟩ := exists_climb_lt_length hsource hcycle
    rw [indices, List.length_range] at hk
    exact ⟨k, hk, hclimb⟩

/-! ## The document -/

/-- A record is placed relative to its container if that can hold controls and is in no circle. -/
theorem relativeParent?_eq_some {i p : Nat} (h : t.relativeParent? i = some p) :
    t.container? i = some p ∧ t.inCycle i = false ∧
      ∃ kind, t.kind? p = some kind ∧ kind.holdsControls := by
  obtain ⟨hcontainer, hholds⟩ := Option.filter_eq_some_iff.mp h
  rw [Bool.and_eq_true, Bool.not_eq_true'] at hholds
  refine ⟨hcontainer, hholds.2, ?_⟩
  rcases hkind : t.kind? p with _ | kind
  · simp [hkind] at hholds
  · exact ⟨kind, rfl, by simpa [hkind] using hholds.1⟩

/-- A control is the one that the record at an index becomes. -/
def IsControl (t : Nesting) (i : Nat) (c : Control) : Prop :=
  i < t.records.length ∧ ∃ kind, t.kind? i = some kind ∧
    c = t.control (t.claimNames (NameRegistry.reserve {} t.window.name)) i kind

/-- The controls of the document are those read from records. -/
theorem mem_controls_iff {c : Control} : c ∈ t.document.controls ↔ ∃ i, t.IsControl i c := by
  unfold document IsControl
  rw [List.mem_filterMap]
  refine exists_congr fun i => ?_
  rw [indices, List.mem_range, Option.map_eq_some_iff]
  refine and_congr_right fun _ => exists_congr fun kind => and_congr_right fun _ => ?_
  exact eq_comm

/-- A control has the identity of its record. -/
theorem IsControl.id_eq {i : Nat} {c : Control} (h : t.IsControl i c) :
    c.id = (t.record i).id := by
  obtain ⟨-, kind, -, rfl⟩ := h
  rfl

/-- The parent of a control is the record to which it is placed. -/
theorem IsControl.exists_parent {i : Nat} {c : Control} {id : ControlId} (h : t.IsControl i c)
    (hid : c.parent = some id) : ∃ p, t.relativeParent? i = some p ∧ (t.record p).id = id := by
  obtain ⟨-, kind, -, rfl⟩ := h
  exact Option.map_eq_some_iff.mp hid

/-- The identities of the controls are among those of the records, which makes them different where
these are. -/
theorem map_id_controls_sublist :
    (t.document.controls.map Control.id).Sublist (t.indices.map fun i => (t.record i).id) := by
  have hfilter : ∀ (l : List Nat) (names : List (Option String)),
      ((l.filterMap fun i => (t.kind? i).map (t.control names i)).map Control.id).Sublist
        (l.map fun i => (t.record i).id) := by
    intro l names
    induction l with
    | nil => exact List.Sublist.refl _
    | cons i l ih =>
      rcases hkind : t.kind? i with _ | kind
      · rw [List.filterMap_cons_none (by rw [hkind]; rfl)]
        exact ih.cons _
      · rw [List.filterMap_cons_some (by rw [hkind]; rfl)]
        exact ih.cons_cons _
  exact hfilter t.indices _

theorem map_indices {α : Type} (f : Record → α) :
    (t.indices.map fun i => f (t.record i)) = t.records.map f := by
  refine List.ext_getElem ?_ ?_
  · simp [indices]
  · intro i hi hj
    rw [List.length_map] at hj
    simp [indices, record, hj]

theorem record_mem {i : Nat} (hi : i < t.records.length) : t.record i ∈ t.records := by
  rw [record, List.getElem?_eq_getElem hi]
  exact List.getElem_mem hi

/-- What tells the records apart tells their indices apart. -/
theorem index_eq_of_nodup {α : Type} {f : Record → α} (h : (t.records.map f).Nodup) {i j : Nat}
    (hi : i < t.records.length) (hj : j < t.records.length)
    (heq : f (t.record i) = f (t.record j)) : i = j := by
  have hlength : i < (t.records.map f).length := by rwa [List.length_map]
  refine (List.getElem?_inj hlength h).mp ?_
  simpa [record, hi, hj] using heq

section distinctIds

variable (hlinked : t.WellLinked) (hids : (t.records.map Record.id).Nodup)
include hlinked hids

/-- The parent of a control is the container of its record, which is on no circle. -/
theorem IsControl.of_hasParent {i : Nat} {c d : Control} (hi : t.IsControl i c)
    (h : t.document.HasParent c d) :
    ∃ p, t.IsControl p d ∧ t.container? i = some p ∧ t.inCycle i = false := by
  obtain ⟨-, hd, hparent⟩ := h
  obtain ⟨p, hp, hid⟩ := hi.exists_parent hparent
  obtain ⟨hcontainer, hfree, -⟩ := relativeParent?_eq_some hp
  obtain ⟨j, hj⟩ := mem_controls_iff.mp hd
  obtain rfl : p = j := index_eq_of_nodup hids (hlinked.lt_of_container? hcontainer).2 hj.1
    (hid.trans hj.id_eq)
  exact ⟨p, hj, hcontainer, hfree⟩

/-- A chain of parents is a chain of containers. A circle of parents would therefore be one of
containers, in which no record has a parent. -/
theorem IsControl.of_transGen {i : Nat} {c d : Control} (hi : t.IsControl i c)
    (h : Relation.TransGen t.document.HasParent c d) :
    ∃ j, t.IsControl j d ∧ Above t.container? i j ∧ t.inCycle i = false := by
  induction h with
  | single h =>
    obtain ⟨p, hp, hcontainer, hfree⟩ := hi.of_hasParent hlinked hids h
    exact ⟨p, hp, .single hcontainer, hfree⟩
  | tail _ h ih =>
    obtain ⟨j, hj, habove, hfree⟩ := ih
    obtain ⟨p, hp, hcontainer, -⟩ := hj.of_hasParent hlinked hids h
    exact ⟨p, hp, .tail habove hcontainer, hfree⟩

/-- Where the ids of its records are distinct, a screen placed in pixels has a sound document. -/
theorem sound_document : t.document.Sound := by
  refine ⟨(map_indices Record.id ▸ hids).sublist map_id_controls_sublist, ?_, ?_⟩
  · intro c hc id hid
    obtain ⟨i, hi⟩ := mem_controls_iff.mp hc
    obtain ⟨p, hp, rfl⟩ := hi.exists_parent hid
    obtain ⟨hcontainer, -, kind, hkind, hholds⟩ := relativeParent?_eq_some hp
    exact ⟨_, mem_controls_iff.mpr ⟨p, (hlinked.lt_of_container? hcontainer).2, kind, hkind, rfl⟩,
      rfl, (Document.holdsControls_iff kind).mp hholds⟩
  · intro c hcycle
    obtain ⟨d, hcd, -⟩ := Relation.TransGen.head'_iff.mp hcycle
    obtain ⟨i, hi⟩ := mem_controls_iff.mp hcd.1
    obtain ⟨j, hj, habove, hfree⟩ := hi.of_transGen hlinked hids hcycle
    obtain rfl : i = j := index_eq_of_nodup hids hi.1 hj.1 (hi.id_eq.symm.trans hj.id_eq)
    rw [(hlinked.inCycle_iff i).mpr habove] at hfree
    cases hfree

end distinctIds

end Nesting

theorem sound_build {records : List Record} (hids : (records.map Record.id).Nodup) :
    (build records).document.Sound :=
  Nesting.sound_document (Nesting.wellLinked_ofRecords records) hids

end ScreenForms.PixelScreen
