import ScreenForms.Program.Handler
import ScreenForms.Proofs.Placing

/-!
# What follows the checks

The record writer, the layout and the handlers of a program all run on documents that passed the
checks. Each of them needs more than was checked: that nothing holds itself, page frames included,
and that no control with the id of the form takes over the code of the form.
`validate_suffices_iff` says that this is all they need.
-/

namespace ScreenForms.Document

variable {doc : Document}

/-! ## Live bindings -/

/-- Whether a binding has code and an owner in the document. -/
def isLive (doc : Document) (b : EventBinding) : Bool :=
  !(Text.trim b.code.toList).isEmpty &&
    (b.owner == formOwner || b.owner ∈ doc.controls.map Control.id)

/-- The bindings that have code and an owner in the document. -/
def liveBindings (doc : Document) : List EventBinding := doc.events.values.filter doc.isLive

/-- The handler that a binding asks for. -/
def handlerFor (doc : Document) (b : EventBinding) : Handler :=
  { owner := if b.owner = formOwner then none else doc.control? b.owner
    event := b.event
    name := Code.handlerName ((doc.ownerName? b.owner).getD "") b.event
    body := b.code }

/-- The bindings with code, whoever owns them. -/
def codedBindings (doc : Document) : List EventBinding :=
  doc.events.values.filter fun b => !(Text.trim b.code.toList).isEmpty

theorem liveBindings_eq (doc : Document) :
    doc.liveBindings = doc.codedBindings.filter fun b =>
      b.owner == formOwner || b.owner ∈ doc.controls.map Control.id := by
  rw [liveBindings, codedBindings, List.filter_filter]
  exact List.filter_congr fun b _ => Bool.and_comm _ _

theorem handlersOf_eq (doc : Document) (owner : Option Control) :
    doc.handlersOf owner =
      (doc.codedBindings.filter fun b => b.owner == (owner.map Control.id).getD formOwner).map
        fun b =>
          { owner
            event := b.event
            name := Code.handlerName ((owner.map Control.name).getD doc.window.name) b.event
            body := b.code } := by
  rw [handlersOf, EventMap.ofOwner, codedBindings, List.filter_filter, List.filter_filter]
  exact congrArg _ (List.filter_congr fun b _ => Bool.and_comm _ _)

theorem handlersOf_none (doc : Document) :
    doc.handlersOf none =
      (doc.codedBindings.filter fun b => b.owner == formOwner).map doc.handlerFor := by
  rw [handlersOf_eq]
  refine List.map_congr_left fun b hb => ?_
  have howner : b.owner = formOwner := by simpa using (List.mem_filter.mp hb).2
  simp [handlerFor, ownerName?, howner]

theorem length_handlersOf_some (doc : Document) (c : Control) :
    (doc.handlersOf (some c)).length =
      (doc.codedBindings.filter fun b => b.owner == c.id).length := by
  rw [handlersOf_eq, List.length_map]
  rfl

section distinctIds

variable (hids : (doc.controls.map Control.id).Nodup)
include hids

theorem handlersOf_some {c : Control} (hc : c ∈ doc.controls)
    (hform : ∀ b ∈ doc.codedBindings, b.owner = c.id → b.owner ≠ formOwner) :
    doc.handlersOf (some c) =
      (doc.codedBindings.filter fun b => b.owner == c.id).map doc.handlerFor := by
  rw [handlersOf_eq]
  refine List.map_congr_left fun b hb => ?_
  obtain ⟨hb, hown⟩ := List.mem_filter.mp hb
  have howner : b.owner = c.id := by simpa using hown
  have hne : c.id ≠ formOwner := howner ▸ hform b hb howner
  simp [handlerFor, ownerName?, howner, hne, control?_of_mem hids hc]

/-- The bindings of the controls, sorted by their owners. -/
theorem flatMap_ownedBindings_perm :
    (doc.controls.flatMap fun c => doc.codedBindings.filter fun b => b.owner == c.id).Perm
      (doc.codedBindings.filter fun b => b.owner ∈ doc.controls.map Control.id) := by
  have h := flatMap_filter_perm EventBinding.owner hids doc.codedBindings
  rwa [List.flatMap_map] at h

/-- The handlers of a program are those of the form and those of every control. -/
theorem HoldersEnd.handlers_perm (hend : doc.HoldersEnd) :
    doc.handlers.Perm
      (doc.handlersOf none ++ doc.controls.flatMap fun c => doc.handlersOf (some c)) := by
  have hplaced : (doc.layout.flatMap fun p => doc.handlersOf (some p.control)) =
      (doc.layout.map Placed.control).flatMap fun c => doc.handlersOf (some c) := by
    rw [List.flatMap_map]
  rw [handlers, hplaced]
  exact (List.Perm.flatMap_right _ (hend.layout_perm hids)).append_left _

end distinctIds

/-- No binding with code belongs both to the form and to a control. -/
def FormOwnsAlone (doc : Document) : Prop :=
  (∀ c ∈ doc.controls, c.id ≠ formOwner) ∨ ∀ b ∈ doc.liveBindings, b.owner ≠ formOwner

/-! ## Handlers, one for each live binding -/

section distinctIds

variable (hids : (doc.controls.map Control.id).Nodup)
include hids

theorem HoldersEnd.handlers_perm_live (hend : doc.HoldersEnd) (halone : doc.FormOwnsAlone) :
    doc.handlers.Perm (doc.liveBindings.map doc.handlerFor) := by
  have hform : ∀ c ∈ doc.controls, ∀ b ∈ doc.codedBindings, b.owner = c.id →
      b.owner ≠ formOwner := by
    intro c hc b hb howner
    rcases halone with hno | hlive
    · exact howner ▸ hno c hc
    · refine hlive b (liveBindings_eq doc ▸ List.mem_filter.mpr ⟨hb, ?_⟩)
      simpa using Or.inr ⟨c, hc, howner.symm⟩
  have hcontrols : (doc.controls.flatMap fun c => doc.handlersOf (some c)) =
      (doc.controls.flatMap fun c => doc.codedBindings.filter fun b => b.owner == c.id).map
        doc.handlerFor := by
    rw [List.map_flatMap]
    exact List.flatMap_congr fun c hc => handlersOf_some hids hc (hform c hc)
  -- the bindings of the form and those of the controls are two parts of the live ones
  have hparts : ((doc.codedBindings.filter fun b => b.owner == formOwner) ++
      doc.codedBindings.filter fun b => b.owner ∈ doc.controls.map Control.id).Perm
        doc.liveBindings := by
    rw [liveBindings_eq]
    refine filter_append_perm_or fun b hb howner => ?_
    rw [beq_iff_eq] at howner
    rw [decide_eq_false_iff_not, List.mem_map]
    rintro ⟨c, hc, hcb⟩
    exact hform c hc b hb hcb.symm howner
  refine (hend.handlers_perm hids).trans ?_
  rw [handlersOf_none, hcontrols, ← List.map_append]
  exact (((flatMap_ownedBindings_perm hids).append_left _).trans hparts).map _

theorem HoldersEnd.formOwnsAlone_of_perm (hend : doc.HoldersEnd)
    (h : doc.handlers.Perm (doc.liveBindings.map doc.handlerFor)) : doc.FormOwnsAlone := by
  by_contra hshared
  obtain ⟨hcontrol, hbinding⟩ := not_or.mp hshared
  push Not at hcontrol hbinding
  obtain ⟨c, hc, hid⟩ := hcontrol
  obtain ⟨b, hb, howner⟩ := hbinding
  have hmem : formOwner ∈ doc.controls.map Control.id := hid ▸ List.mem_map_of_mem hc
  -- every live binding is the binding of a control, and those of the form are counted twice
  have hlive : doc.liveBindings =
      doc.codedBindings.filter fun b => b.owner ∈ doc.controls.map Control.id := by
    rw [liveBindings_eq]
    refine List.filter_congr fun b _ => ?_
    by_cases h : b.owner = formOwner
    · simp only [h, beq_self_eq_true, Bool.true_or, hmem, decide_true]
    · simp [h]
  have hlength := ((hend.handlers_perm hids).symm.trans h).length_eq
  have hcount := (flatMap_ownedBindings_perm hids).length_eq
  rw [List.length_append, handlersOf_none, List.length_map, List.length_map, hlive, ← hcount,
    List.length_flatMap, List.length_flatMap] at hlength
  simp only [length_handlersOf_some] at hlength
  have hpos : 0 < (doc.codedBindings.filter fun b => b.owner == formOwner).length := by
    rw [liveBindings_eq] at hb
    refine List.length_pos_of_mem (List.mem_filter.mpr ⟨(List.mem_filter.mp hb).1, ?_⟩)
    simpa using howner
  omega

end distinctIds

/-- The checks of a document suffice for what runs after them exactly when, besides, nothing holds
itself and no binding with code belongs both to the form and to a control: then the document can
be written as records, its layout has every control, and every live binding has one handler. -/
theorem validate_suffices_iff (doc : Document) (hvalid : doc.validate = .ok ()) :
    ((∃ text, doc.toLegacy = .ok text) ∧
        (∀ c ∈ doc.controls, ∃ p ∈ doc.layout, p.control = c) ∧
        doc.handlers.Perm (doc.liveBindings.map doc.handlerFor)) ↔
      (∀ c ∈ doc.controls, ¬ Above doc.holder? c c) ∧
        ((∀ c ∈ doc.controls, c.id ≠ formOwner) ∨
          ∀ b ∈ doc.liveBindings, b.owner ≠ formOwner) := by
  have hs : doc.Sound := (valid_iff_sound doc).mp ((validate_eq_ok_iff doc).mp hvalid)
  constructor
  · rintro ⟨hwritten, -, hhandlers⟩
    have hend : doc.HoldersEnd := ((toLegacy_isOk_iff doc).mp hwritten).2
    exact ⟨hend, hend.formOwnsAlone_of_perm hs.ids_nodup hhandlers⟩
  · rintro ⟨hend, halone⟩
    have hend : doc.HoldersEnd := hend
    refine ⟨(toLegacy_isOk_iff doc).mpr ⟨hs, hend⟩, ?_,
      hend.handlers_perm_live hs.ids_nodup halone⟩
    intro c hc
    exact List.mem_map.mp ((hend.layout_perm hs.ids_nodup).mem_iff.mpr hc)

/-- A button on a page of a page frame, with code for the form and for the button. -/
def pagedButton : Document :=
  { window := { name := "F" }
    controls :=
      [{ id := "p", kind := .page, name := "P",
         props := Properties.withExtra {} ExtraKey.pageFrame (.text "Q") },
       { id := "b", kind := .button, name := "B", parent := some "p" },
       { id := "q", kind := .pageframe, name := "Q" }]
    events := EventMap.bind (EventMap.bind SortedMap.empty ⟨"b", "Click", "QUIT"⟩)
      ⟨formOwner, "Init", "RETURN"⟩ }

theorem validate_suffices_pagedButton :
    pagedButton.validate = .ok () ∧
      ∀ c ∈ pagedButton.controls, ¬ Above pagedButton.holder? c c := by
  have hvalid : pagedButton.validate = .ok () := by decide +kernel
  have hwritten : pagedButton.toLegacy.toBool := by decide +kernel
  refine ⟨hvalid, ((validate_suffices_iff pagedButton hvalid).mp ⟨?_, ?_, ?_⟩).1⟩
  · rcases h : pagedButton.toLegacy with e | text
    · rw [h] at hwritten
      cases hwritten
    · exact ⟨text, rfl⟩
  · decide +kernel
  · decide +kernel

/-- A page and the page frame inside it, which the page names as its own page frame. -/
def frameInItsPage : Document :=
  { window := { name := "F" }
    controls :=
      [{ id := "p", kind := .page, name := "P",
         props := Properties.withExtra {} ExtraKey.pageFrame (.text "Q") },
       { id := "q", kind := .pageframe, name := "Q", parent := some "p" }] }

/-- A document that passes the checks, cannot be written as records, and has an empty layout. -/
theorem validate_not_suffices :
    frameInItsPage.validate = .ok () ∧
      frameInItsPage.toLegacy = .error (.parentCycle "p") ∧ frameInItsPage.layout = [] := by
  decide +kernel

end ScreenForms.Document
