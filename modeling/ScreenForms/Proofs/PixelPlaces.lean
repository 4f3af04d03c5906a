import Mathlib
import ScreenForms.Proofs.Holders
import ScreenForms.Proofs.PixelNesting

/-!
# Places on a screen in pixels

The place of a record on the form is the sum, with 32 bits, of its own offset and of those of the
containers around it. The way up through the containers ends at a record without one, or right behind the
first record that lies on a circle (`IsWay`). Every record has exactly one such way, so its place
can be worked out by recursion, with or without a table of the places that are known already
(`lookUp_eq`). In the document it is the position of the control, whether that stands on the form
or in a parent (`absolutePosition_build`). Sums that do not fit wrap at every step, which comes to
the same as wrapping the whole sum once.
-/

namespace ScreenForms.PixelScreen

namespace Nesting

open Decimal

variable {t : Nesting}

/-! ## Ways up through the containers -/

/-- The way from a record up through its containers. -/
inductive IsWay (t : Nesting) : Nat → List Nat → Prop where
  /-- a record on a circle is not left -/
  | circle {i : Nat} (hcircle : Above t.container? i i) : t.IsWay i [i]
  | outermost {i : Nat} (hend : t.container? i = none) : t.IsWay i [i]
  | inside {i p : Nat} {way : List Nat} (hfree : ¬ Above t.container? i i)
    (hup : t.container? i = some p) (rest : t.IsWay p way) : t.IsWay i (i :: way)

/-- The sum of the offsets along a way. -/
def total (t : Nesting) (way : List Nat) : Int × Int :=
  ((way.map fun i => (t.ownOffset i).1).sum, (way.map fun i => (t.ownOffset i).2).sum)

theorem total_singleton (i : Nat) : t.total [i] = t.ownOffset i := by
  simp [total]

theorem total_cons (i : Nat) (way : List Nat) :
    t.total (i :: way) =
      ((t.ownOffset i).1 + (t.total way).1, (t.ownOffset i).2 + (t.total way).2) := by
  simp [total]

/-- The offset that a record gives has 32 bits, as it was rounded. -/
theorem wrapPlace_ownOffset (t : Nesting) (i : Nat) :
    wrapPlace (t.ownOffset i) = t.ownOffset i := by
  have hcoordinate : ∀ x, Is32 (coordinate x 0) := by
    intro x
    cases x with
    | none => exact ⟨by decide, by decide⟩
    | some x => exact is32_nearest x
  exact wrapPlace_of_is32 (hcoordinate _) (hcoordinate _)

/-- A step up adds the offset of the record to the place of what it is in. -/
theorem wrapPlace_total_cons (i : Nat) (way : List Nat) :
    wrapPlace (t.total (i :: way)) = wrapPlace ((wrapPlace (t.total way)).1 + (t.ownOffset i).1,
      (wrapPlace (t.total way)).2 + (t.ownOffset i).2) := by
  rw [total_cons, ← wrapPlace_add (t.ownOffset i), Int.add_comm, Int.add_comm (t.ownOffset i).2]

theorem not_above_of_container?_eq_none {i : Nat} (h : t.container? i = none) :
    ¬ Above t.container? i i := by
  intro hcircle
  obtain ⟨p, hp, -⟩ := Relation.TransGen.head'_iff.mp hcircle
  rw [h] at hp
  cases hp

/-- There is at most one way from a record. -/
theorem IsWay.unique {i : Nat} {way way' : List Nat} (h : t.IsWay i way) (h' : t.IsWay i way') :
    way = way' := by
  induction h generalizing way' with
  | circle hcircle =>
    cases h' with
    | circle _ => rfl
    | outermost _ => rfl
    | inside hfree _ _ => exact absurd hcircle hfree
  | outermost hend =>
    cases h' with
    | circle _ => rfl
    | outermost _ => rfl
    | inside _ hup _ => cases hend.symm.trans hup
  | inside hfree hup _ ih =>
    cases h' with
    | circle hcircle => exact absurd hcircle hfree
    | outermost hend => cases hend.symm.trans hup
    | inside _ hup' rest =>
      obtain rfl := Option.some.inj (hup.symm.trans hup')
      rw [ih rest]

/-- From a record there is a way of at most `n` records, or as many containers above it without a
circle among them. -/
theorem exists_isWay_or_climb (n i : Nat) :
    (∃ way, t.IsWay i way ∧ way.length ≤ n) ∨
      ∀ k < n, ∃ p, climb t.container? k i = some p ∧ ¬ Above t.container? p p := by
  induction n generalizing i with
  | zero => exact .inr fun _ hk => absurd hk (Nat.not_lt_zero _)
  | succ n ih =>
    by_cases hcircle : Above t.container? i i
    · exact .inl ⟨[i], .circle hcircle, Nat.succ_le_succ (Nat.zero_le n)⟩
    · rcases hup : t.container? i with _ | p
      · exact .inl ⟨[i], .outermost hup, Nat.succ_le_succ (Nat.zero_le n)⟩
      · rcases ih p with ⟨way, hway, hlength⟩ | hclimb
        · exact .inl ⟨i :: way, .inside hcircle hup hway, Nat.succ_le_succ hlength⟩
        · refine .inr fun k hk => ?_
          cases k with
          | zero => exact ⟨i, rfl, hcircle⟩
          | succ k =>
            rw [climb_succ, hup]
            exact hclimb k (Nat.lt_of_succ_lt_succ hk)

/-- From every record there is a way, and the recursion on places is deep enough for it. -/
theorem WellLinked.exists_isWay (h : t.WellLinked) (i : Nat) :
    ∃ way, t.IsWay i way ∧ way.length ≤ t.records.length + 1 := by
  rcases hup : t.container? i with _ | p
  · exact ⟨[i], .outermost hup, Nat.succ_le_succ (Nat.zero_le _)⟩
  · rcases exists_isWay_or_climb (t.records.length + 1) i with hway | hclimb
    · exact hway
    · have hmem : ∀ k < t.records.length + 1, ∃ q ∈ t.indices, climb t.container? k i = some q := by
        intro k hk
        obtain ⟨q, hq, -⟩ := hclimb k hk
        refine ⟨q, mem_of_climb (fun b c hbc => ?_) ?_ hq, hq⟩
        · exact List.mem_range.mpr (h.lt_of_container? hbc).2
        · exact List.mem_range.mpr (h.lt_of_container? hup).1
      -- more records on the walk than there are: one comes twice, and so lies on a circle
      obtain ⟨k, l, q, hkl, hl, hk, hql⟩ := exists_repeat hmem (by simp [indices])
      obtain ⟨q', hq', hfree⟩ := hclimb k (Nat.lt_trans hkl hl)
      obtain rfl := Option.some.inj (hk.symm.trans hq')
      refine absurd (transGen_iff.mpr ⟨l - k - 1, ?_⟩) hfree
      rw [Nat.sub_add_cancel (by omega)]
      exact climb_sub_of_eq (Nat.le_of_lt hkl) hk hql

theorem exists_succ_of_length_le {i n : Nat} {way : List Nat} (hn : (i :: way).length ≤ n) :
    ∃ m, n = m + 1 :=
  Nat.exists_eq_succ_of_ne_zero (Nat.ne_of_gt (Nat.lt_of_lt_of_le (Nat.succ_pos _) hn))

/-- The bounded recursion adds up the offsets along the whole way. -/
theorem WellLinked.place_eq (h : t.WellLinked) {i : Nat} {way : List Nat} (hway : t.IsWay i way)
    {n : Nat} (hn : way.length ≤ n) : (t.place n i).1 = wrapPlace (t.total way) := by
  induction hway generalizing n with
  | circle hcircle =>
    obtain ⟨n, rfl⟩ := exists_succ_of_length_le hn
    rw [place, if_pos ((h.inCycle_iff _).mpr hcircle), total_singleton, wrapPlace_ownOffset]
  | outermost hend =>
    obtain ⟨n, rfl⟩ := exists_succ_of_length_le hn
    rw [place, if_neg (mt (h.inCycle_iff _).mp (not_above_of_container?_eq_none hend)), hend,
      total_singleton, wrapPlace_ownOffset]
  | @inside i p way hfree hup _ ih =>
    obtain ⟨n, rfl⟩ := exists_succ_of_length_le hn
    rw [place, if_neg (mt (h.inCycle_iff i).mp hfree), hup, wrapPlace_total_cons,
      ← ih (Nat.le_of_succ_le_succ hn)]

theorem WellLinked.absolute_eq (h : t.WellLinked) {i : Nat} {way : List Nat}
    (hway : t.IsWay i way) : (t.absolute i).1 = wrapPlace (t.total way) := by
  obtain ⟨way', hway', hlength⟩ := h.exists_isWay i
  obtain rfl := hway.unique hway'
  exact h.place_eq hway hlength

/-! ## Places in a table -/

/-- The places that are known, by the indices of their records. -/
abbrev PlaceTable := Nat → Option (Int × Int)

/-- The place of a record from a table of places, or else worked out from the place of its
container and put into the table; none when that takes more than `fuel` records. The form stands
at the origin. -/
def lookUp (t : Nesting) : Nat → PlaceTable → Nat → Option ((Int × Int) × PlaceTable)
  | 0, _, _ => none
  | fuel + 1, table, i =>
    if some i = t.form then some ((0, 0), table)
    else
      match table i with
      | some place => some (place, table)
      | none =>
        let own := t.ownOffset i
        if t.inCycle i then some (own, Function.update table i (some own))
        else
          match t.container? i with
          | none => some (own, Function.update table i (some own))
          | some p =>
            (t.lookUp fuel table p).map fun (base, table) =>
              let place := wrapPlace (base.1 + own.1, base.2 + own.2)
              (place, Function.update table i (some place))

/-- The table after the places of some records have been looked up one after another. -/
def fill (t : Nesting) (table : PlaceTable) (order : List Nat) : Option PlaceTable :=
  order.foldlM (fun table i => (t.lookUp (t.records.length + 1) table i).map Prod.snd) table

/-- The places in a table are the sums along the ways, with 32 bits. -/
def IsAccurate (t : Nesting) (table : PlaceTable) : Prop :=
  ∀ i place way, table i = some place → t.IsWay i way → place = wrapPlace (t.total way)

theorem IsAccurate.update {table : PlaceTable} (h : t.IsAccurate table) {i : Nat}
    {way : List Nat} (hway : t.IsWay i way) :
    t.IsAccurate (Function.update table i (some (wrapPlace (t.total way)))) := by
  intro j place way' hplace hway'
  by_cases hij : j = i
  · subst hij
    rw [Function.update_self] at hplace
    rw [← hway.unique hway']
    exact (Option.some.inj hplace).symm
  · rw [Function.update_of_ne hij] at hplace
    exact h j place way' hplace hway'

theorem container?_ne_form {i p : Nat} (h : t.container? i = some p) : some p ≠ t.form := by
  simpa using (Option.filter_eq_some_iff.mp h).2

/-- What is looked up is the sum along the way, and the table stays accurate. -/
theorem WellLinked.lookUp_eq (h : t.WellLinked) {i : Nat} {way : List Nat}
    (hway : t.IsWay i way) (hform : some i ≠ t.form) {table : PlaceTable}
    (htable : t.IsAccurate table) {n : Nat} (hn : way.length ≤ n) :
    ∃ table', t.lookUp n table i = some (wrapPlace (t.total way), table') ∧
      t.IsAccurate table' := by
  induction hway generalizing n with
  | @circle i hcircle =>
    obtain ⟨n, rfl⟩ := exists_succ_of_length_le hn
    rw [lookUp, if_neg hform]
    rcases hplace : table i with _ | place
    · rw [if_pos ((h.inCycle_iff i).mpr hcircle), ← wrapPlace_ownOffset, ← total_singleton]
      exact ⟨_, rfl, htable.update (.circle hcircle)⟩
    · rw [← htable i place _ hplace (.circle hcircle)]
      exact ⟨table, rfl, htable⟩
  | @outermost i hend =>
    obtain ⟨n, rfl⟩ := exists_succ_of_length_le hn
    rw [lookUp, if_neg hform]
    rcases hplace : table i with _ | place
    · rw [if_neg (mt (h.inCycle_iff i).mp (not_above_of_container?_eq_none hend)), hend,
        ← wrapPlace_ownOffset, ← total_singleton]
      exact ⟨_, rfl, htable.update (.outermost hend)⟩
    · rw [← htable i place _ hplace (.outermost hend)]
      exact ⟨table, rfl, htable⟩
  | @inside i p way hfree hup rest ih =>
    have hway : t.IsWay i (i :: way) := .inside hfree hup rest
    obtain ⟨n, rfl⟩ := exists_succ_of_length_le hn
    rw [lookUp, if_neg hform]
    rcases hplace : table i with _ | place
    · obtain ⟨table', hbase, htable'⟩ := ih (container?_ne_form hup) (Nat.le_of_succ_le_succ hn)
      rw [if_neg (mt (h.inCycle_iff i).mp hfree), hup]
      dsimp only
      rw [hbase, Option.map_some, ← wrapPlace_total_cons]
      exact ⟨_, rfl, htable'.update hway⟩
    · rw [← htable i place _ hplace hway]
      exact ⟨table, rfl, htable⟩

/-- In whichever order places are looked up, all of them are found and the table is accurate. Every
look-up ends, as the way up from a record passes no container twice. -/
theorem WellLinked.fill_isSome (h : t.WellLinked) (order : List Nat) {table : PlaceTable}
    (htable : t.IsAccurate table) : ∃ table', t.fill table order = some table' ∧
      t.IsAccurate table' := by
  induction order generalizing table with
  | nil => exact ⟨table, rfl, htable⟩
  | cons i order ih =>
    obtain ⟨table', hlook, htable'⟩ : ∃ table', (t.lookUp (t.records.length + 1) table i).map
        Prod.snd = some table' ∧ t.IsAccurate table' := by
      by_cases hform : some i = t.form
      · exact ⟨table, by rw [lookUp, if_pos hform]; rfl, htable⟩
      · obtain ⟨way, hway, hlength⟩ := h.exists_isWay i
        obtain ⟨table', hlook, htable'⟩ := h.lookUp_eq hway hform htable hlength
        exact ⟨table', by rw [hlook]; rfl, htable'⟩
    obtain ⟨table'', hfill, htable''⟩ := ih htable'
    refine ⟨table'', ?_, htable''⟩
    rw [fill, List.foldlM_cons, hlook]
    exact hfill

/-! ## Positions of controls -/

/-- A control that gets no parent stands where its record stands on the form. -/
theorem IsControl.of_relativeParent?_eq_none {i : Nat} {c : Control} (hi : t.IsControl i c)
    (hroot : t.relativeParent? i = none) : c.parent = none ∧ (c.x, c.y) = (t.absolute i).1 := by
  obtain ⟨-, kind, -, rfl⟩ := hi
  simp only [control, hroot]
  exact ⟨rfl, rfl⟩

/-- A control that gets a parent keeps its own offset. -/
theorem IsControl.of_relativeParent? {i p : Nat} {c : Control} (hi : t.IsControl i c)
    (hparent : t.relativeParent? i = some p) :
    c.parent = some (t.record p).id ∧ (c.x, c.y) = t.ownOffset i := by
  obtain ⟨-, kind, -, rfl⟩ := hi
  simp only [control, hparent]
  exact ⟨rfl, rfl⟩

section distinctIds

variable (h : t.WellLinked) (hids : (t.records.map Record.id).Nodup)
include h hids

/-- The parent that a control gets is the control of its container. -/
theorem IsControl.parentOf?_eq {i p : Nat} {c : Control} (hi : t.IsControl i c)
    (hparent : t.relativeParent? i = some p) :
    ∃ d, t.IsControl p d ∧ t.document.parentOf? c = some d := by
  obtain ⟨hcontainer, -, kind, hkind, -⟩ := relativeParent?_eq_some hparent
  refine ⟨_, ⟨(h.lt_of_container? hcontainer).2, kind, hkind, rfl⟩, ?_⟩
  rw [Document.parentOf?, (hi.of_relativeParent? hparent).1]
  exact Document.control?_of_mem (sound_document h hids).ids_nodup
    (mem_controls_iff.mpr ⟨p, (h.lt_of_container? hcontainer).2, kind, hkind, rfl⟩)

/-- Where the ids of the records are distinct, every control stands at the sum of the offsets along
the way from its record, whether its own position is relative to a parent or on the form. -/
theorem IsControl.formPlace_eq {i : Nat} {way : List Nat} {c : Control} (hi : t.IsControl i c)
    (hway : t.IsWay i way) : t.document.formPlace c = wrapPlace (t.total way) := by
  have hs : t.document.Sound := sound_document h hids
  -- on the form the place was worked out as a whole, in a parent it is added up by the induction
  have hroot : ∀ {i way c}, t.IsControl i c → t.IsWay i way → t.relativeParent? i = none →
      t.document.formPlace c = wrapPlace (t.total way) := by
    intro i way c hi hway hnone
    obtain ⟨hparent, hplace⟩ := hi.of_relativeParent?_eq_none hnone
    rw [hs.formPlace_of_root (mem_controls_iff.mpr ⟨i, hi⟩) hparent, hplace, h.absolute_eq hway,
      wrapPlace_wrapPlace]
  induction hway generalizing c with
  | @circle i hcircle =>
    refine hroot hi (.circle hcircle) (Option.eq_none_iff_forall_ne_some.mpr fun p hp => ?_)
    obtain ⟨-, hfree, -⟩ := relativeParent?_eq_some hp
    rw [(h.inCycle_iff i).mpr hcircle] at hfree
    cases hfree
  | @outermost i hend =>
    refine hroot hi (.outermost hend) (Option.eq_none_iff_forall_ne_some.mpr fun p hp => ?_)
    cases hend.symm.trans (relativeParent?_eq_some hp).1
  | @inside i p way hfree hup rest ih =>
    rcases hrelative : t.relativeParent? i with _ | q
    · exact hroot hi (.inside hfree hup rest) hrelative
    · obtain rfl := Option.some.inj (hup.symm.trans (relativeParent?_eq_some hrelative).1)
      obtain ⟨d, hd, hparent⟩ := hi.parentOf?_eq h hids hrelative
      obtain ⟨hx, hy⟩ := Prod.mk.inj (hi.of_relativeParent? hrelative).2
      rw [hs.formPlace_of_parent (mem_controls_iff.mpr ⟨i, hi⟩) hparent, ih hd, total_cons, hx, hy]
      exact wrapPlace_add (t.ownOffset i) (t.total way)

end distinctIds

end Nesting

/-! ## Whole screens -/

open Decimal

/-- Positions are right whichever way they are stored. From every record there is exactly one way
up through its containers. In whichever order the places of records are looked up in a table, each
lookup ends and gives the sum of the offsets along the way. And where the ids of the records are
distinct, every record that becomes a control has that sum as the position of its control. Sums are
those of 32 bits, so they are exact where they fit. -/
theorem absolutePosition_build (records : List Record) :
    (∀ i, ∃! way, (Nesting.ofRecords records).IsWay i way) ∧
    (∀ order i way, (Nesting.ofRecords records).IsWay i way →
      some i ≠ (Nesting.ofRecords records).form →
      ∃ table table', (Nesting.ofRecords records).fill (fun _ => none) order = some table ∧
        (Nesting.ofRecords records).lookUp (records.length + 1) table i =
          some (wrapPlace ((Nesting.ofRecords records).total way), table')) ∧
    ((records.map Record.id).Nodup → ∀ i r kind way, records[i]? = some r →
      (Nesting.ofRecords records).kind? i = some kind →
      (Nesting.ofRecords records).IsWay i way →
      (∃ c ∈ (build records).document.controls, c.id = r.id) ∧
        (build records).document.absolutePosition r.id =
          .ok (wrapPlace ((Nesting.ofRecords records).total way))) ∧
    ∀ way, Is32 ((Nesting.ofRecords records).total way).1 →
      Is32 ((Nesting.ofRecords records).total way).2 →
      wrapPlace ((Nesting.ofRecords records).total way) =
        (Nesting.ofRecords records).total way := by
  have h := Nesting.wellLinked_ofRecords records
  refine ⟨fun i => ?_, fun order i way hway hform => ?_, fun hids i r kind way hr hkind hway => ?_,
    fun _ => wrapPlace_of_is32⟩
  · obtain ⟨way, hway, -⟩ := h.exists_isWay i
    exact ⟨way, hway, fun _ hother => hother.unique hway⟩
  · have hempty : (Nesting.ofRecords records).IsAccurate fun _ => none := nofun
    obtain ⟨table, hfill, htable⟩ := h.fill_isSome order hempty
    obtain ⟨way', hway', hlength⟩ := h.exists_isWay i
    obtain rfl := hway.unique hway'
    obtain ⟨table', hlook, -⟩ := h.lookUp_eq hway hform htable hlength
    exact ⟨table, table', hfill, hlook⟩
  · have hi : (Nesting.ofRecords records).IsControl i _ :=
      ⟨(List.getElem?_eq_some_iff.mp hr).1, kind, hkind, rfl⟩
    have hmem := Nesting.mem_controls_iff.mpr ⟨i, hi⟩
    have hid : (Nesting.ofRecords records).record i = r := by
      rw [Nesting.record, Nesting.ofRecords_records, hr]
      rfl
    have hs := sound_build hids
    rw [← hid, ← hi.id_eq]
    refine ⟨⟨_, hmem, rfl⟩, ?_⟩
    rw [← hi.formPlace_eq h hids hway]
    exact hs.absolutePosition_eq hmem

/-- A label in a grid in a container, and a label in one of two shapes that are in each other. -/
def tangledRecords : List Record :=
  let place (left top : String) := [("Left", Value.text left), ("Top", Value.text top)]
  [{ id := "f", baseClass := "form", objName := "frm" },
    { id := "a", baseClass := "container", objName := "box", parent := "frm"
      properties := place "10" "20" },
    { id := "b", baseClass := "grid", objName := "lines", parent := "frm.box"
      properties := place "3" "4" },
    { id := "c", baseClass := "label", objName := "item", parent := "frm.box.lines"
      properties := place "-1" "2" },
    { id := "d", baseClass := "shape", objName := "left", parent := "right"
      properties := place "5" "6" },
    { id := "e", baseClass := "shape", objName := "right", parent := "left"
      properties := place "7" "8" },
    { id := "g", baseClass := "label", objName := "knot", parent := "left"
      properties := place "100" "100" }]

theorem absolutePosition_build_tangledRecords :
    (build tangledRecords).document.absolutePosition "c" = .ok (12, 26) ∧
      (build tangledRecords).document.absolutePosition "g" = .ok (105, 106) ∧
      ∃ table table',
        (Nesting.ofRecords tangledRecords).fill (fun _ => none) [6, 0, 3] = some table ∧
        (Nesting.ofRecords tangledRecords).lookUp 8 table 4 = some ((5, 6), table') := by
  have h := Nesting.wellLinked_ofRecords tangledRecords
  have hfree : ∀ i, (Nesting.ofRecords tangledRecords).inCycle i = false →
      ¬ Above (Nesting.ofRecords tangledRecords).container? i i := by
    intro i hi hcircle
    rw [(h.inCycle_iff i).mpr hcircle] at hi
    cases hi
  have hcircle : Above (Nesting.ofRecords tangledRecords).container? 4 4 :=
    (h.inCycle_iff 4).mp (by decide +kernel)
  have hlabel : (Nesting.ofRecords tangledRecords).IsWay 3 [3, 2, 1] :=
    .inside (hfree 3 (by decide +kernel)) (by decide +kernel)
      (.inside (hfree 2 (by decide +kernel)) (by decide +kernel)
        (.outermost (by decide +kernel)))
  have hknot : (Nesting.ofRecords tangledRecords).IsWay 6 [6, 4] :=
    .inside (hfree 6 (by decide +kernel)) (by decide +kernel) (.circle hcircle)
  obtain ⟨-, hlook, hplaces, -⟩ := absolutePosition_build tangledRecords
  obtain ⟨table, table', hfill, hshape⟩ := hlook [6, 0, 3] 4 [4] (.circle hcircle) (by decide +kernel)
  have hids : (tangledRecords.map Record.id).Nodup := by decide +kernel
  have hc := (hplaces hids 3 _ .label _ rfl (by decide +kernel) hlabel).2
  have hg := (hplaces hids 6 _ .label _ rfl (by decide +kernel) hknot).2
  have hsums : wrapPlace ((Nesting.ofRecords tangledRecords).total [3, 2, 1]) = (12, 26) ∧
      wrapPlace ((Nesting.ofRecords tangledRecords).total [6, 4]) = (105, 106) ∧
      wrapPlace ((Nesting.ofRecords tangledRecords).total [4]) = (5, 6) := by decide +kernel
  rw [hsums.1] at hc
  rw [hsums.2.1] at hg
  rw [hsums.2.2] at hshape
  exact ⟨hc, hg, table, table', hfill, hshape⟩

end ScreenForms.PixelScreen
