import ScreenForms.Proofs.ReadBack

/-!
# Positions that are read back

The position of a page is written relative to its frame, and the importer adds up the positions
along the chain of containers. As that chain is the chain of holders, which ends, every control
comes back where it stands on the form (`ReadBack.absolute_eq`).
-/

namespace ScreenForms.Document

open Decimal PixelScreen RecordWriter

variable {doc : Document}

/-! ## Written positions -/

theorem Sound.writtenPlace_eq (hs : doc.Sound) (c : Control) :
    doc.writtenPlace c = match doc.pageFrameOf? c with
      | none => (c.x, c.y)
      | some frame =>
        wrapPlace (c.x - (doc.formPlace frame).1, c.y - (doc.formPlace frame).2) := by
  rw [writtenPlace, writtenPosition]
  rcases hframe : doc.pageFrameOf? c with _ | frame
  · rfl
  · dsimp only
    rw [hs.absolutePosition_eq (mem_of_pageFrameOf? hframe).1]

/-- What is written of a position has 32 bits: it is the position of the control itself, or a
difference that wraps. -/
theorem Sound.is32_writtenPlace (hs : doc.Sound) {c : Control} (hx : Is32 c.x) (hy : Is32 c.y) :
    Is32 (doc.writtenPlace c).1 ∧ Is32 (doc.writtenPlace c).2 := by
  rw [hs.writtenPlace_eq]
  split
  · exact ⟨hx, hy⟩
  · exact ⟨is32_wrap32 _, is32_wrap32 _⟩

theorem Sound.root_of_holder?_eq_none (hs : doc.Sound) {c : Control} (hc : c ∈ doc.controls)
    (hholder : doc.holder? c = none) :
    c.parent = none ∧ doc.pageFrameOf? c = none := by
  unfold holder? at hholder
  rcases hparent : c.parent with _ | id
  · exact ⟨rfl, by rwa [hparent] at hholder⟩
  · obtain ⟨p, hp, hpid⟩ := hs.parentOf?_isSome hc hparent
    rw [parentOf?, hparent] at hp
    rw [hparent] at hholder
    cases hp.symm.trans hholder

namespace ReadBack

variable {t : Nesting} (h : doc.ReadBack t)
include h

/-! ## Chains of containers end -/

theorem wellLinked : t.WellLinked := by
  rw [h.nested]
  exact Nesting.wellLinked_ofRecords t.records

/-- The length of the path of the item at an index. -/
def pathLength (doc : Document) (i : Nat) : Nat :=
  ((doc.items[i]?).map fun a => (doc.itemPath a).toList.length).getD 0

theorem pathLength_lt {i p : Nat} (hp : t.container? i = some p) :
    pathLength doc p < pathLength doc i := by
  obtain ⟨hparent, -⟩ := Option.filter_eq_some_iff.mp hp
  have hlt := (h.wellLinked.lt_of_container? hp).1
  rw [h.length_eq] at hlt
  have hi := List.getElem?_eq_getElem hlt
  rcases hholder : doc.holderItem? doc.items[i] with _ | b
  · rcases hitem : doc.items[i] with _ | _ | _ | _
    · rw [hitem] at hi
      rw [h.parent?_form hi] at hparent
      cases hparent
    all_goals
      rw [hitem] at hholder
      cases hholder
  · obtain ⟨q, hq⟩ := exists_index (holderItem?_mem_items (List.getElem_mem hlt) hholder)
    obtain rfl : q = p := Option.some.inj ((h.parent?_eq hi hq hholder).symm.trans hparent)
    have hlength := congrArg (fun s : String => s.toList.length) (h.holdersEnd.itemPath_eq hholder)
    simp only [String.toList_append, List.length_append] at hlength
    rw [pathLength, pathLength, hi, hq, Option.map_some, Option.map_some, Option.getD_some,
      Option.getD_some, hlength]
    have : ".".toList.length = 1 := rfl
    omega

theorem inCycle_eq_false (i : Nat) : t.inCycle i = false := by
  have hshorter : ∀ {j p}, Above t.container? j p → pathLength doc p < pathLength doc j := by
    intro j p habove
    induction habove with
    | single hp => exact h.pathLength_lt hp
    | tail _ hp ih => exact (h.pathLength_lt hp).trans ih
  rw [Bool.eq_false_iff]
  intro hcycle
  exact lt_irrefl _ (hshorter ((h.wellLinked.inCycle_iff i).mp hcycle))

/-! ## Positions -/

omit h in
theorem control_properties (c : Control) :
    (doc.recordOf (.control c)).properties =
      geometry (doc.writtenPlace c) c.width c.height ++ ownProperties c := rfl

/-- The position and the size of a control are read as they are written. -/
theorem geometry_eq {i : Nat} {c : Control} (hi : doc.items[i]? = some (.control c))
    (default : Int) :
    Nesting.coordinate ((t.record i).number? ["Left"]) default = (doc.writtenPlace c).1 ∧
      Nesting.coordinate ((t.record i).number? ["Top"]) default = (doc.writtenPlace c).2 ∧
      Nesting.coordinate ((t.record i).number? ["Width"]) default = c.width ∧
      Nesting.coordinate ((t.record i).number? ["Height"]) default = c.height := by
  have hc := control_mem_items.mp (List.mem_of_getElem? hi)
  obtain ⟨hx, hy⟩ := h.sound.is32_writtenPlace (h.fits.places c hc).1 (h.fits.places c hc).2
  obtain ⟨hwidth, hheight⟩ := h.fits.sizes c hc
  simp only [(h.record_eq hi).number?_eq]
  exact WrittenRecord.geometry_asRead (fun _ _ => WrittenRecord.skips_nil) (control_properties c)
    hx hy hwidth hheight default

theorem ownOffset_eq {i : Nat} {c : Control} (hi : doc.items[i]? = some (.control c)) :
    t.ownOffset i = doc.writtenPlace c := by
  obtain ⟨hx, hy, -, -⟩ := h.geometry_eq hi 0
  exact Prod.ext hx hy

/-- A control without a parent stands on the form where its own position says. -/
theorem formPlace_of_root {c : Control} (hc : c ∈ doc.controls) (hparent : c.parent = none) :
    doc.formPlace c = (c.x, c.y) := by
  obtain ⟨hx, hy⟩ := h.fits.places c hc
  rw [h.sound.formPlace_of_root hc hparent, wrapPlace_of_is32 hx hy]

/-- The position of a control on the form is the sum along its chain of containers. The position of
a page was written relative to its frame, and adding that of the frame gives it back, even where the
difference wraps. -/
theorem place_eq {n i : Nat} {c : Control} (hi : doc.items[i]? = some (.control c))
    (hend : climb t.container? n i = none) : (t.place n i).1 = doc.formPlace c := by
  induction n generalizing i c with
  | zero => cases hend
  | succ n ih =>
    have hc := control_mem_items.mp (List.mem_of_getElem? hi)
    rw [Nesting.place]
    simp only [h.inCycle_eq_false i, h.ownOffset_eq hi, h.sound.writtenPlace_eq]
    rcases hholder : doc.holder? c with _ | d
    · obtain ⟨hparent, hframe⟩ := h.sound.root_of_holder?_eq_none hc hholder
      simp only [h.container?_of_holder?_eq_none hi hholder, hframe]
      exact (h.formPlace_of_root hc hparent).symm
    · obtain ⟨p, hp⟩ := exists_index (control_mem_items.mpr (mem_of_holder? hholder))
      have hcontainer := h.container?_of_holder? hi hholder hp
      rw [climb_succ, hcontainer, Option.bind_some] at hend
      have hupper := ih hp hend
      simp only [hcontainer]
      rw [hupper]
      rcases parentOf?_or_pageFrameOf? hholder with ⟨hparent, hframe⟩ | ⟨hroot, hframe⟩
      · rw [hframe, h.sound.formPlace_of_parent hc hparent]
        exact congrArg wrapPlace (Prod.ext (Int.add_comm _ _) (Int.add_comm _ _))
      · rw [hframe, h.sound.formPlace_of_root hc hroot]
        exact wrapPlace_add_sub (doc.formPlace d) (c.x, c.y)

/-- Every control comes back at its position on the form. -/
theorem absolute_eq {i : Nat} {c : Control} (hi : doc.items[i]? = some (.control c)) :
    (t.absolute i).1 = doc.formPlace c := by
  refine h.place_eq hi (climb_eq_none_of_le (Nat.le_succ _) ?_)
  have hend : climb t.container? t.indices.length i = none := by
    refine climb_length_eq_none (List.mem_range.mpr (h.lt_length hi))
      (fun _ _ hp => List.mem_range.mpr (h.wellLinked.lt_of_container? hp).2) fun j _ habove => ?_
    have hcycle := (h.wellLinked.inCycle_iff j).mpr habove
    rw [h.inCycle_eq_false j] at hcycle
    cases hcycle
  rwa [Nesting.indices, List.length_range] at hend

end ReadBack

end ScreenForms.Document
