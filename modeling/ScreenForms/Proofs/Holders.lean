import ScreenForms.Proofs.Soundness
import ScreenForms.Record.Writer

/-!
# Chains of holders

A control of a sound document has a position, since chains of parents end. Its path follows the
chain of holders, which runs through page frames as well and which the checks of a document do not
look at: a document can be written as records exactly when it is sound and no control holds itself
(`toLegacy_isOk_iff`).
-/

namespace ScreenForms.Document

open Decimal

variable {doc : Document} {c : Control}

/-! ## Holders are controls -/

theorem mem_of_parentOf? {p : Control} (h : doc.parentOf? c = some p) : p ∈ doc.controls := by
  obtain ⟨id, -, hid⟩ := Option.bind_eq_some_iff.mp h
  exact (mem_of_control? hid).1

/-- The frame of a page is a page frame of the document. -/
theorem mem_of_pageFrameOf? {frame : Control} (h : doc.pageFrameOf? c = some frame) :
    frame ∈ doc.controls ∧ frame.kind = .pageframe := by
  unfold pageFrameOf? at h
  split at h
  · obtain ⟨hbind, hkind⟩ := Option.filter_eq_some_iff.mp h
    obtain ⟨name, -, hname⟩ := Option.bind_eq_some_iff.mp hbind
    exact ⟨List.mem_of_find?_eq_some hname, by simpa using hkind⟩
  · cases h

/-- What holds a control is itself a control, so that the walk never leaves the document. -/
theorem mem_of_holder? {holder : Control} (h : doc.holder? c = some holder) :
    holder ∈ doc.controls := by
  unfold holder? at h
  split at h
  · exact (mem_of_control? h).1
  · exact (mem_of_pageFrameOf? h).1

/-! ## Positions -/

/-- A parent that is found is a parent by identity. -/
theorem hasParent_of_parentOf? (hc : c ∈ doc.controls) {p : Control}
    (h : doc.parentOf? c = some p) : doc.HasParent c p := by
  obtain ⟨id, hid, hcontrol⟩ := Option.bind_eq_some_iff.mp h
  obtain ⟨hp, rfl⟩ := mem_of_control? hcontrol
  exact ⟨hc, hp, hid⟩

/-- Climbing through parents stays inside the document. -/
theorem transGen_of_above_parentOf? (hc : c ∈ doc.controls) {d : Control}
    (h : Above doc.parentOf? c d) : Relation.TransGen doc.HasParent c d ∧ d ∈ doc.controls := by
  induction h with
  | single h => exact ⟨.single (hasParent_of_parentOf? hc h), mem_of_parentOf? h⟩
  | tail _ h ih => exact ⟨.tail ih.1 (hasParent_of_parentOf? ih.2 h), mem_of_parentOf? h⟩

/-- In a sound document chains of parents end. -/
theorem Sound.climb_parentOf?_eq_none (hs : doc.Sound) (hc : c ∈ doc.controls) :
    climb doc.parentOf? doc.controls.length c = none := by
  refine climb_length_eq_none hc (fun _ _ => mem_of_parentOf?) fun b hb h => ?_
  exact hs.no_cycle b (transGen_of_above_parentOf? hb h).1

/-- In a sound document every parent that is named exists. -/
theorem Sound.parentOf?_isSome (hs : doc.Sound) (hc : c ∈ doc.controls) {id : ControlId}
    (hid : c.parent = some id) : ∃ p, doc.parentOf? c = some p ∧ p.id = id := by
  obtain ⟨p, hp, rfl, -⟩ := hs.parent_holds c hc id hid
  refine ⟨p, ?_, rfl⟩
  rw [parentOf?, hid]
  exact control?_of_mem hs.ids_nodup hp

/-- A sum of places is found if climbing ends within the fuel. -/
theorem Sound.sumPositions_isOk (hs : doc.Sound) (n : Nat) (hc : c ∈ doc.controls)
    (hend : climb doc.parentOf? n c = none) : ∃ p, doc.sumPositions n c.id = .ok p := by
  induction n generalizing c with
  | zero => cases hend
  | succ n ih =>
    rw [sumPositions, control?_of_mem hs.ids_nodup hc]
    rcases hparent : c.parent with _ | id
    · exact ⟨wrapPlace (c.x, c.y), by simp only [hparent]⟩
    · obtain ⟨p, hp, rfl⟩ := hs.parentOf?_isSome hc hparent
      rw [climb_succ, hp] at hend
      obtain ⟨q, hq⟩ := ih (mem_of_parentOf? hp) hend
      exact ⟨wrapPlace (c.x + q.1, c.y + q.2), by simp only [hparent, hq]⟩

/-- In a sound document every control has a position on the form. -/
theorem Sound.absolutePosition_isOk (hs : doc.Sound) (hc : c ∈ doc.controls) :
    ∃ p, doc.absolutePosition c.id = .ok p := by
  obtain ⟨p, hp⟩ := hs.sumPositions_isOk (doc.controls.length + 1) hc
    (climb_eq_none_of_le (Nat.le_succ _) (hs.climb_parentOf?_eq_none hc))
  exact ⟨p, by rw [absolutePosition, hp]⟩

/-! ## Positions on the form -/

/-- The position of a control on the form. -/
def formPlace (doc : Document) (c : Control) : Int × Int :=
  match doc.absolutePosition c.id with
  | .ok place => place
  | .error _ => (0, 0)

/-- More fuel does not change a sum that was found. -/
theorem sumPositions_succ {n : Nat} {id : ControlId} {place : Int × Int}
    (h : doc.sumPositions n id = .ok place) : doc.sumPositions (n + 1) id = .ok place := by
  induction n generalizing id place with
  | zero => cases h
  | succ n ih =>
    rw [sumPositions] at h
    rw [sumPositions]
    rcases hcontrol : doc.control? id with _ | c
    · simp [hcontrol] at h
    · rcases hparent : c.parent with _ | parent
      · simpa [hcontrol, hparent] using h
      · rcases hupper : doc.sumPositions n parent with e | upper
        · simp [hcontrol, hparent, hupper] at h
        · simp only [hcontrol, hparent, hupper] at h
          simp only [hparent, ih hupper]
          exact h

/-- One unit of fuel for each control and one for the end is enough, since no chain of parents is
longer. -/
theorem absolutePosition_eq_ok_iff {id : ControlId} {place : Int × Int} :
    doc.absolutePosition id = .ok place ↔
      doc.sumPositions (doc.controls.length + 1) id = .ok place := by
  unfold absolutePosition
  rcases doc.sumPositions (doc.controls.length + 1) id with (_ | _) | _ <;> simp

section sound

variable (hs : doc.Sound) (hc : c ∈ doc.controls)
include hs hc

/-- In a sound document every control has a place on the form. -/
theorem Sound.absolutePosition_eq : doc.absolutePosition c.id = .ok (doc.formPlace c) := by
  obtain ⟨place, hplace⟩ := hs.absolutePosition_isOk hc
  rw [formPlace, hplace]

/-- A control without a parent stands on the form at its own position. -/
theorem Sound.formPlace_of_root (hparent : c.parent = none) :
    doc.formPlace c = wrapPlace (c.x, c.y) := by
  have hplace := absolutePosition_eq_ok_iff.mp (hs.absolutePosition_eq hc)
  rw [sumPositions, control?_of_mem hs.ids_nodup hc] at hplace
  simp only [hparent] at hplace
  exact (Except.ok.inj hplace).symm

/-- A control stands on the form where its parent stands, moved by its own position. -/
theorem Sound.formPlace_of_parent {p : Control} (hparent : doc.parentOf? c = some p) :
    doc.formPlace c = wrapPlace (c.x + (doc.formPlace p).1, c.y + (doc.formPlace p).2) := by
  obtain ⟨id, hid, hp⟩ := Option.bind_eq_some_iff.mp hparent
  obtain ⟨hmem, rfl⟩ := mem_of_control? hp
  have hplace := absolutePosition_eq_ok_iff.mp (hs.absolutePosition_eq hc)
  rw [sumPositions, control?_of_mem hs.ids_nodup hc] at hplace
  rcases hupper : doc.sumPositions doc.controls.length p.id with e | upper
  · simp [hid, hupper] at hplace
  · simp only [hid, hupper] at hplace
    have hsame : doc.formPlace p = upper := by
      have hsum := sumPositions_succ hupper
      rw [absolutePosition_eq_ok_iff.mp (hs.absolutePosition_eq hmem)] at hsum
      exact Except.ok.inj hsum
    rw [hsame]
    exact (Except.ok.inj hplace).symm

end sound

/-! ## Paths -/

/-- A path exists exactly when the chain of holders ends within the bound. -/
theorem pathFrom_isOk_iff (n : Nat) (c : Control) :
    (∃ path, doc.pathFrom n c = .ok path) ↔ climb doc.holder? n c = none := by
  induction n generalizing c with
  | zero => simp [pathFrom]
  | succ n ih =>
    rw [pathFrom, climb_succ]
    rcases doc.holder? c with _ | holder
    · simp
    · rw [Option.bind_some, ← ih holder]
      rcases h : doc.pathFrom n holder with e | path <;> simp [h]

/-- Nothing holds itself, directly or through what holds it. -/
def HoldersEnd (doc : Document) : Prop := ∀ c ∈ doc.controls, ¬ Above doc.holder? c c

/-- Where climbing ends at all, it ends within as many steps as there are controls. -/
theorem HoldersEnd.climb_holder?_eq_none (h : doc.HoldersEnd) (hc : c ∈ doc.controls) :
    climb doc.holder? doc.controls.length c = none :=
  climb_length_eq_none hc (fun _ _ => mem_of_holder?) h

/-- The writer finds the path of a control exactly if climbing from it ends. -/
theorem holderPath_isOk_iff (doc : Document) (c : Control) :
    (∃ path, doc.holderPath c = .ok path) ↔
      climb doc.holder? (doc.controls.length + 2) c = none := by
  rw [holderPath, climb_succ]
  rcases doc.holder? c with _ | holder
  · simp
  · exact pathFrom_isOk_iff _ holder

/-- All paths are found exactly if there is no circle of holders. -/
theorem forall_holderPath_isOk_iff (doc : Document) :
    (∀ c ∈ doc.controls, ∃ path, doc.holderPath c = .ok path) ↔ doc.HoldersEnd := by
  simp only [holderPath_isOk_iff]
  constructor
  · intro h c hc hcycle
    obtain ⟨b, hb, -⟩ := exists_climb_of_above hcycle (doc.controls.length + 2)
    rw [h c hc] at hb
    cases hb
  · intro h c hc
    exact climb_eq_none_of_le (Nat.le_add_right _ 2) (h.climb_holder?_eq_none hc)

/-! ## Records -/

/-- Places never fail in a sound document, whatever the page frames are. -/
theorem Sound.writtenPosition_isOk (hs : doc.Sound) (c : Control) :
    ∃ p, RecordWriter.writtenPosition doc c = .ok p := by
  unfold RecordWriter.writtenPosition
  rcases h : doc.pageFrameOf? c with _ | frame
  · exact ⟨_, rfl⟩
  · obtain ⟨p, hp⟩ := hs.absolutePosition_isOk (mem_of_pageFrameOf? h).1
    simp [hp]

/-- So the records of a control are written exactly if its path is found. -/
theorem Sound.controlRecords_isOk_iff (hs : doc.Sound) (c : Control) :
    (∃ records, RecordWriter.controlRecords doc c = .ok records) ↔
      ∃ path, doc.holderPath c = .ok path := by
  obtain ⟨p, hp⟩ := hs.writtenPosition_isOk c
  unfold RecordWriter.controlRecords
  rw [hp]
  rcases doc.holderPath c with e | path <;> simp [bind, Except.bind, pure, Except.pure]

/-- A document can be written as records exactly when it is sound and nothing holds itself. -/
theorem toLegacy_isOk_iff (doc : Document) :
    (∃ text, doc.toLegacy = .ok text) ↔ doc.Sound ∧ doc.HoldersEnd := by
  have hrecords : (∃ text, doc.toLegacy = .ok text) ↔ doc.validate = .ok () ∧
      ∃ records, doc.controls.mapM (RecordWriter.controlRecords doc) = .ok records := by
    unfold toLegacy toRecords
    rcases doc.validate with e | u
    · simp [bind, Except.bind]
    · rcases doc.controls.mapM (RecordWriter.controlRecords doc) with e | records <;>
        simp [bind, Except.bind, pure, Except.pure]
  rw [hrecords, validate_eq_ok_iff, valid_iff_sound]
  refine and_congr_right fun hs => ?_
  rw [exists_mapM_eq_ok_iff, ← forall_holderPath_isOk_iff]
  exact forall₂_congr fun c _ => hs.controlRecords_isOk_iff c

end ScreenForms.Document
