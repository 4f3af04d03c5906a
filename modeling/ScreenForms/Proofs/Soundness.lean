import ScreenForms.Form.Document
import ScreenForms.Proofs.Lists
import ScreenForms.Proofs.Walk

/-!
# What the checks of a document mean

`Document.problems` walks chains of parent ids with a bound on their length. `Document.Sound` says
the same without any walk: ids are distinct, every parent is a control of the document that may
hold others, and no control is its own ancestor. A document passes its checks exactly when it is
sound (`valid_iff_sound`), and in a sound document every control has a position on the form.
-/

namespace ScreenForms.Document

/-- A control names another one as its parent. -/
def HasParent (doc : Document) (c p : Control) : Prop :=
  c ∈ doc.controls ∧ p ∈ doc.controls ∧ c.parent = some p.id

/-- What is asked of a document. -/
structure Sound (doc : Document) : Prop where
  /-- ids are distinct -/
  ids_nodup : (doc.controls.map Control.id).Nodup
  /-- parents are controls of the document that may hold others -/
  parent_holds : ∀ c ∈ doc.controls, ∀ id, c.parent = some id →
    ∃ p ∈ doc.controls, p.id = id ∧ (p.kind = .container ∨ p.kind = .page)
  /-- no control is its own ancestor -/
  no_cycle : ∀ c, ¬ Relation.TransGen doc.HasParent c c

/-- Whether a document is sound is a matter of its controls. -/
theorem Sound.of_controls_eq {doc doc' : Document} (h : doc.Sound)
    (heq : doc'.controls = doc.controls) : doc'.Sound := by
  have hparent : doc'.HasParent = doc.HasParent := by
    funext c p
    rw [HasParent, HasParent, heq]
  refine ⟨heq ▸ h.ids_nodup, heq ▸ h.parent_holds, ?_⟩
  rw [hparent]
  exact h.no_cycle

/-! ## Looking up ids -/

/-- A control that is found under an identity is in the document and has it. -/
theorem mem_of_control? {doc : Document} {id : ControlId} {c : Control}
    (h : doc.control? id = some c) : c ∈ doc.controls ∧ c.id = id :=
  ⟨List.mem_of_find?_eq_some h, by simpa using List.find?_some h⟩

theorem mem_of_indexed? {doc : Document} {id : ControlId} {c : Control}
    (h : doc.indexed? id = some c) : c ∈ doc.controls ∧ c.id = id :=
  ⟨List.mem_reverse.mp (List.mem_of_find?_eq_some h), by simpa using List.find?_some h⟩

section distinctIds

variable {doc : Document} (hids : (doc.controls.map Control.id).Nodup)
include hids

/-- Where identities are different, every control is found under its own. -/
theorem control?_of_mem {c : Control} (hc : c ∈ doc.controls) : doc.control? c.id = some c :=
  find?_key Control.id hids hc

theorem indexed?_of_mem {c : Control} (hc : c ∈ doc.controls) : doc.indexed? c.id = some c := by
  refine find?_key Control.id ?_ (List.mem_reverse.mpr hc)
  rw [List.map_reverse]
  exact List.nodup_reverse.mpr hids

/-- A control is known by its identity. -/
theorem eq_of_id_eq {c d : Control} (hc : c ∈ doc.controls) (hd : d ∈ doc.controls)
    (h : c.id = d.id) : c = d := by
  have hcd := control?_of_mem hids hd
  rw [← h, control?_of_mem hids hc] at hcd
  exact Option.some.inj hcd

theorem controls_nodup : doc.controls.Nodup := List.Nodup.of_map _ hids

end distinctIds

/-! ## The three passes -/

/-- The first pass reports nothing if no identity occurs twice. -/
theorem duplicateIds_eq_nil_iff (seen : List ControlId) (cs : List Control) :
    duplicateIds seen cs = [] ↔ (cs.map Control.id).Nodup ∧ ∀ c ∈ cs, c.id ∉ seen := by
  induction cs generalizing seen with
  | nil => simp [duplicateIds]
  | cons c cs ih =>
    rw [duplicateIds, List.append_eq_nil_iff, ih, List.map_cons, List.nodup_cons]
    constructor
    · rintro ⟨hc, hcs, hseen⟩
      have hc : c.id ∉ seen := by simpa using hc
      refine ⟨⟨?_, hcs⟩, ?_⟩
      · intro hmem
        obtain ⟨d, hd, hdc⟩ := List.mem_map.mp hmem
        exact hseen d hd (hdc ▸ List.mem_cons_self)
      · intro d hd
        rcases List.mem_cons.mp hd with rfl | hd
        · exact hc
        · exact fun h => hseen d hd (List.mem_cons_of_mem _ h)
    · rintro ⟨⟨hc, hcs⟩, hseen⟩
      refine ⟨by simpa using hseen c List.mem_cons_self, hcs, ?_⟩
      intro d hd hmem
      rcases List.mem_cons.mp hmem with h | h
      · exact hc (h ▸ List.mem_map_of_mem hd)
      · exact hseen d (List.mem_cons_of_mem _ hd) h

/-- Controls are held by containers and pages. -/
theorem holdsControls_iff (k : ControlKind) : k.holdsControls ↔ k = .container ∨ k = .page := by
  cases k <;> simp [ControlKind.holdsControls]

/-- The second pass reports nothing if every parent exists and can hold controls. -/
theorem parentProblem_eq_nil_iff (doc : Document) (c : Control) :
    doc.parentProblem c = [] ↔ ∀ id, c.parent = some id →
      ∃ p, doc.indexed? id = some p ∧ p.kind.holdsControls := by
  unfold parentProblem
  rcases c.parent with _ | id
  · simp
  · rcases h : doc.indexed? id with _ | p
    · simp [h]
    · simp [h]

/-- The id that the control with an id has as its parent. -/
def parentId? (doc : Document) (id : ControlId) : Option ControlId :=
  (doc.indexed? id).bind Control.parent

/-- The lineage of a control is what climbing through the parents meets. -/
theorem mem_lineage (doc : Document) (n : Nat) (start : Option ControlId) (id : ControlId) :
    id ∈ doc.lineage n start ↔ ∃ k < n, start.bind (climb doc.parentId? k) = some id := by
  induction n generalizing start with
  | zero => cases start <;> simp [lineage]
  | succ n ih =>
    cases start with
    | none => simp [lineage]
    | some first =>
      rw [lineage, List.mem_cons, ih]
      constructor
      · rintro (rfl | ⟨k, hk, h⟩)
        · exact ⟨0, Nat.succ_pos n, rfl⟩
        · exact ⟨k + 1, Nat.succ_lt_succ hk, h⟩
      · rintro ⟨_ | k, hk, h⟩
        · exact .inl (Option.some.inj h).symm
        · exact .inr ⟨k, Nat.lt_of_succ_lt_succ hk, h⟩

section distinctIds

variable {doc : Document} (hids : (doc.controls.map Control.id).Nodup)
include hids

theorem parentId?_of_mem {c : Control} (hc : c ∈ doc.controls) :
    doc.parentId? c.id = c.parent := by
  rw [parentId?, indexed?_of_mem hids hc]
  rfl

/-- Ancestors of controls are ancestors of ids. -/
theorem above_of_transGen {c d : Control} (h : Relation.TransGen doc.HasParent c d) :
    Above doc.parentId? c.id d.id := by
  induction h with
  | single h => exact .single (by rw [parentId?_of_mem hids h.1]; exact h.2.2)
  | tail _ h ih => exact .tail ih (by rw [parentId?_of_mem hids h.1]; exact h.2.2)

/-- Climbing by identity is climbing by control, as both lead from child to parent. -/
theorem transGen_of_above {c : Control} {id : ControlId} (hc : c ∈ doc.controls)
    (h : Above doc.parentId? c.id id) {d : Control} (hd : d ∈ doc.controls) (hid : d.id = id) :
    Relation.TransGen doc.HasParent c d := by
  induction h generalizing d with
  | single h =>
    rw [parentId?_of_mem hids hc] at h
    exact .single ⟨hc, hd, hid ▸ h⟩
  | @tail middle id _ h ih =>
    -- an id with a parent is the id of a control, and the walk reaches that control
    obtain ⟨e, he, hparent⟩ := Option.bind_eq_some_iff.mp h
    obtain ⟨he, heid⟩ := mem_of_indexed? he
    exact .tail (ih he heid) ⟨he, hd, hid ▸ hparent⟩

/-- The third pass reports the controls that are above themselves. It climbs as many steps as there
are controls, and a circle is never longer than that. -/
theorem isOwnAncestor_iff {c : Control} (hc : c ∈ doc.controls) :
    doc.isOwnAncestor c ↔ Relation.TransGen doc.HasParent c c := by
  have hclimb : ∀ k, c.parent.bind (climb doc.parentId? k) = climb doc.parentId? (k + 1) c.id := by
    intro k
    rw [climb_succ, parentId?_of_mem hids hc]
  unfold isOwnAncestor
  rw [decide_eq_true_iff, mem_lineage]
  simp only [hclimb]
  constructor
  · rintro ⟨k, -, hk⟩
    exact transGen_of_above hids hc (transGen_iff.mpr ⟨k, hk⟩) hc rfl
  · intro h
    have hsource : ∀ b p, doc.parentId? b = some p → b ∈ doc.controls.map Control.id := by
      intro b p hb
      obtain ⟨e, he, -⟩ := Option.bind_eq_some_iff.mp hb
      obtain ⟨hmem, rfl⟩ := mem_of_indexed? he
      exact List.mem_map_of_mem hmem
    obtain ⟨k, hk, hcycle⟩ := exists_climb_lt_length hsource (above_of_transGen hids h)
    rw [List.length_map] at hk
    exact ⟨k, hk, hcycle⟩

end distinctIds

/-- A document passes its checks exactly when it is sound. -/
theorem valid_iff_sound (doc : Document) : doc.Valid ↔ doc.Sound := by
  unfold Valid problems
  rw [List.append_eq_nil_iff, List.append_eq_nil_iff, duplicateIds_eq_nil_iff,
    List.flatMap_eq_nil_iff, List.map_eq_nil_iff, List.filter_eq_nil_iff]
  constructor
  · rintro ⟨⟨⟨hids, -⟩, hparents⟩, hcycles⟩
    refine ⟨hids, ?_, ?_⟩
    · intro c hc id hid
      obtain ⟨p, hp, hholds⟩ := (parentProblem_eq_nil_iff doc c).mp (hparents c hc) id hid
      obtain ⟨hmem, hpid⟩ := mem_of_indexed? hp
      exact ⟨p, hmem, hpid, (holdsControls_iff p.kind).mp hholds⟩
    · intro c h
      obtain ⟨d, ⟨hc, -⟩, -⟩ := Relation.TransGen.head'_iff.mp h
      exact hcycles c hc ((isOwnAncestor_iff hids hc).mpr h)
  · intro h
    refine ⟨⟨⟨h.ids_nodup, by simp⟩, ?_⟩, ?_⟩
    · intro c hc
      refine (parentProblem_eq_nil_iff doc c).mpr fun id hid => ?_
      obtain ⟨p, hp, rfl, hkind⟩ := h.parent_holds c hc id hid
      exact ⟨p, indexed?_of_mem h.ids_nodup hp, (holdsControls_iff p.kind).mpr hkind⟩
    · intro c hc hown
      exact h.no_cycle c ((isOwnAncestor_iff h.ids_nodup hc).mp hown)

end ScreenForms.Document
