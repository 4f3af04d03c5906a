import ScreenForms.Proofs.Soundness

/-!
# Changing a document

Controls are added behind the others, and a control may be given another parent. Neither is checked
when it is done, so a document that was valid may not be afterwards. Here is exactly when it still
is: a new control needs an id of its own and a parent that may hold it (`Valid.addControl_iff`), and
a control may be moved into whatever may hold it and is neither the control itself nor below it
(`Valid.reparent?_iff`). Both follow from what a single changed link means for circles
(`forall_not_above_iff`).
-/

namespace ScreenForms

open Relation (ReflTransGen TransGen)

/-! ## One changed link -/

section walk

variable {α : Type} {up up' : α → Option α} {a c : α}

/-- A place that leads to `c` does so over links that do not begin at `c`, so they are the same
when only the link of `c` is changed. -/
theorem reflTransGen_of_links (hother : ∀ a, a ≠ c → up' a = up a)
    (h : ReflTransGen (fun a b => up a = some b) a c) :
    ReflTransGen (fun a b => up' a = some b) a c := by
  induction h using ReflTransGen.head_induction_on with
  | refl => exact .refl
  | @head a b hab _ ih =>
    by_cases ha : a = c
    · exact ha ▸ .refl
    · exact .head ((hother a ha).trans hab) ih

/-- A walk with the changed link is a walk without it, or it goes through its beginning. -/
theorem above_or_through (hother : ∀ a, a ≠ c → up' a = up a) {b : α} (h : Above up' a b) :
    Above up a b ∨ ReflTransGen (fun a b => up' a = some b) a c ∧ Above up' c b := by
  induction h using TransGen.head_induction_on with
  | @single a hab =>
    by_cases ha : a = c
    · exact .inr ⟨ha ▸ .refl, .single (ha ▸ hab)⟩
    · exact .inl (.single ((hother a ha).symm.trans hab))
  | @head a d had hdb ih =>
    by_cases ha : a = c
    · exact .inr ⟨ha ▸ .refl, .head (ha ▸ had) hdb⟩
    · rcases ih with h | ⟨hreach, hcb⟩
      · exact .inl (.head ((hother a ha).symm.trans had) h)
      · exact .inr ⟨.head had hreach, hcb⟩

/-- Where there were no circles, a changed link makes one exactly when it leads to a place from
which its beginning was reached. -/
theorem forall_not_above_iff (hother : ∀ a, a ≠ c → up' a = up a) (hfree : ∀ a, ¬ Above up a a) :
    (∀ a, ¬ Above up' a a) ↔
      ∀ p, up' c = some p → ¬ ReflTransGen (fun a b => up a = some b) p c := by
  constructor
  · intro h p hp hreach
    exact h c (.head' hp (reflTransGen_of_links hother hreach))
  · intro h a hcircle
    rcases above_or_through hother hcircle with hold | ⟨hreach, hback⟩
    · exact hfree a hold
    · obtain ⟨p, hp, hpc⟩ := TransGen.head'_iff.mp (hback.trans_left hreach)
      exact h p hp (reflTransGen_of_links (fun a ha => (hother a ha).symm) hpc)

end walk

namespace Document

variable {doc : Document} {c : Control}

/-! ## Circles of ids -/

/-- Circles of controls are circles of ids. -/
theorem forall_not_transGen_iff (hids : (doc.controls.map Control.id).Nodup) :
    (∀ c, ¬ TransGen doc.HasParent c c) ↔ ∀ id, ¬ Above doc.parentId? id id := by
  constructor
  · intro h id hcircle
    obtain ⟨_, hup, -⟩ := TransGen.head'_iff.mp hcircle
    obtain ⟨c, hc, -⟩ := Option.bind_eq_some_iff.mp hup
    obtain ⟨hmem, rfl⟩ := mem_of_indexed? hc
    exact h c (transGen_of_above hids hmem hcircle hmem rfl)
  · exact fun h c hcircle => h c.id (above_of_transGen hids hcircle)

/-- A control is at or below another when its id is. -/
theorem reflTransGen_hasParent_iff (hids : (doc.controls.map Control.id).Nodup) {p : Control}
    (hp : p ∈ doc.controls) (hc : c ∈ doc.controls) :
    ReflTransGen doc.HasParent p c ↔
      ReflTransGen (fun a b => doc.parentId? a = some b) p.id c.id := by
  rw [Relation.reflTransGen_iff_eq_or_transGen, Relation.reflTransGen_iff_eq_or_transGen]
  refine or_congr ⟨fun h => h ▸ rfl, fun h => eq_of_id_eq hids hc hp h⟩
    ⟨above_of_transGen hids, fun h => transGen_of_above hids hp h hc rfl⟩

/-! ## Adding a control -/

theorem parentId?_addControl_of_ne {id : ControlId} (h : id ≠ c.id) :
    (doc.addControl c).parentId? id = doc.parentId? id := by
  simp [parentId?, indexed?, addControl, h.symm]

theorem parentId?_addControl_self : (doc.addControl c).parentId? c.id = c.parent := by
  simp [parentId?, indexed?, addControl]

/-- A valid document stays so with one more control if and only if the id is new and the parent is
a container or page that was there before. -/
theorem Valid.addControl_iff (h : doc.Valid) (c : Control) : (doc.addControl c).Valid ↔
    (∀ d ∈ doc.controls, d.id ≠ c.id) ∧ ∀ id, c.parent = some id →
      ∃ p ∈ doc.controls, p.id = id ∧ (p.kind = .container ∨ p.kind = .page) := by
  rw [valid_iff_sound] at h ⊢
  have hcontrols : (doc.addControl c).controls = doc.controls ++ [c] := rfl
  constructor
  · intro h'
    refine ⟨fun d hd hid => ?_, fun id hid => ?_⟩
    · have hids := h'.ids_nodup
      rw [hcontrols, List.map_append, List.nodup_append] at hids
      exact hids.2.2 _ (List.mem_map_of_mem hd) c.id (by simp) hid
    · have hc : c ∈ (doc.addControl c).controls := by simp [hcontrols]
      obtain ⟨p, hp, hpid, hkind⟩ := h'.parent_holds c hc id hid
      rcases List.mem_append.mp hp with hold | hself
      · exact ⟨p, hold, hpid, hkind⟩
      · obtain rfl := List.mem_singleton.mp hself
        exact absurd (.single ⟨hc, hc, hpid.symm ▸ hid⟩) (h'.no_cycle p)
  · rintro ⟨hnew, hparent⟩
    have hids : ((doc.addControl c).controls.map Control.id).Nodup := by
      rw [hcontrols, List.map_append, List.nodup_append]
      refine ⟨h.ids_nodup, List.nodup_singleton _, fun a ha b hb => ?_⟩
      obtain ⟨d, hd, rfl⟩ := List.mem_map.mp ha
      exact List.mem_singleton.mp hb ▸ hnew d hd
    refine ⟨hids, fun d hd id hid => ?_, ?_⟩
    · obtain ⟨p, hp, hpid, hkind⟩ : ∃ p ∈ doc.controls, p.id = id ∧
          (p.kind = .container ∨ p.kind = .page) := by
        rcases List.mem_append.mp hd with hold | hself
        · exact h.parent_holds d hold id hid
        · exact hparent id (List.mem_singleton.mp hself ▸ hid)
      exact ⟨p, List.mem_append_left _ hp, hpid, hkind⟩
    · rw [forall_not_transGen_iff hids, forall_not_above_iff
        (fun id hid => parentId?_addControl_of_ne hid)
        ((forall_not_transGen_iff h.ids_nodup).mp h.no_cycle)]
      -- nothing leads to the new control
      intro id hid hreach
      rw [parentId?_addControl_self] at hid
      obtain ⟨p, hp, hpid, -⟩ := hparent id hid
      rcases ReflTransGen.cases_tail hreach with heq | ⟨b, -, hb⟩
      · exact hnew p hp (hpid.trans heq.symm)
      · obtain ⟨d, hd, hdparent⟩ := Option.bind_eq_some_iff.mp hb
        obtain ⟨q, hq, hqid, -⟩ := h.parent_holds d (mem_of_indexed? hd).1 _ hdparent
        exact hnew q hq hqid

/-! ## Moving a control -/

/-- What becomes of a control when the one with an id is moved. -/
def moved (id : ControlId) (parent : Option ControlId) (d : Control) : Control :=
  if d.id = id then { d with parent } else d

/-- With distinct ids the control that is moved is the one with the id. -/
theorem reparent?_eq_some (hids : (doc.controls.map Control.id).Nodup) (hc : c ∈ doc.controls)
    (parent : Option ControlId) : doc.reparent? c.id parent =
      some { doc with controls := doc.controls.map (moved c.id parent) } := by
  have hgo : ∀ cs : List Control, (cs.map Control.id).Nodup → c ∈ cs →
      reparent?.go c.id parent cs = some (cs.map (moved c.id parent)) := by
    intro cs hids hc
    induction cs with
    | nil => cases hc
    | cons d cs ih =>
      obtain ⟨hd, hcs⟩ := List.nodup_cons.mp hids
      rw [reparent?.go, List.map_cons, moved]
      by_cases hid : d.id = c.id
      · rw [if_pos hid, if_pos hid]
        have hrest : cs.map (moved c.id parent) = cs := by
          refine (List.map_congr_left fun e he => if_neg fun heq => hd ?_).trans (List.map_id cs)
          exact List.mem_map.mpr ⟨e, he, heq.trans hid.symm⟩
        rw [hrest]
      · have hmem : c ∈ cs := List.mem_of_ne_of_mem (fun heq => hid (heq ▸ rfl)) hc
        rw [if_neg hid, if_neg hid, ih hcs hmem]
        rfl
  rw [reparent?, hgo doc.controls hids hc]
  rfl

/-- Without a control of that id nothing is moved. -/
theorem reparent?_eq_none_iff {id : ControlId} {parent : Option ControlId} :
    doc.reparent? id parent = none ↔ ∀ c ∈ doc.controls, c.id ≠ id := by
  have hgo : ∀ cs : List Control, reparent?.go id parent cs = none ↔ ∀ c ∈ cs, c.id ≠ id := by
    intro cs
    induction cs with
    | nil => simp [reparent?.go]
    | cons c cs ih =>
      rw [reparent?.go, List.forall_mem_cons, ← ih]
      by_cases hid : c.id = id <;> simp [hid]
  rw [reparent?, Option.map_eq_none_iff, hgo]

@[simp] theorem id_moved (id : ControlId) (parent : Option ControlId) (d : Control) :
    (moved id parent d).id = d.id := by
  unfold moved
  split <;> rfl

@[simp] theorem kind_moved (id : ControlId) (parent : Option ControlId) (d : Control) :
    (moved id parent d).kind = d.kind := by
  unfold moved
  split <;> rfl

/-- The ids lead where they led before, but for the one that is moved. -/
theorem parentId?_moved (id : ControlId) (parent : Option ControlId) (doc : Document)
    (i : ControlId) :
    parentId? { doc with controls := doc.controls.map (moved id parent) } i =
      (doc.indexed? i).bind fun d => (moved id parent d).parent := by
  have hfind : ∀ cs : List Control, (cs.map (moved id parent)).find? (fun d => d.id == i) =
      (cs.find? fun d => d.id == i).map (moved id parent) := by
    intro cs
    rw [List.find?_map, Function.comp_def]
    simp only [id_moved]
  rw [parentId?, indexed?, ← List.map_reverse, hfind, Option.bind_map]
  rfl

/-- A valid document stays so when a control is moved if and only if the new parent, where there is
one, is a container or page of the document and neither the control itself nor below it. -/
theorem Valid.reparent?_iff (h : doc.Valid) (hc : c ∈ doc.controls) {parent : Option ControlId}
    {doc' : Document} (hmove : doc.reparent? c.id parent = some doc') :
    doc'.Valid ↔ ∀ id, parent = some id → ∃ p ∈ doc.controls, p.id = id ∧
      (p.kind = .container ∨ p.kind = .page) ∧ ¬ ReflTransGen doc.HasParent p c := by
  rw [valid_iff_sound] at h ⊢
  have hids := h.ids_nodup
  obtain rfl := Option.some.inj ((reparent?_eq_some hids hc parent).symm.trans hmove)
  have hids' : ((doc.controls.map (moved c.id parent)).map Control.id).Nodup := by
    rw [List.map_map]
    simpa [Function.comp_def] using hids
  have hother : ∀ i, i ≠ c.id → parentId? { doc with
      controls := doc.controls.map (moved c.id parent) } i = doc.parentId? i := by
    intro i hi
    rw [parentId?_moved]
    refine Option.bind_congr fun d hd => ?_
    obtain ⟨-, rfl⟩ := mem_of_indexed? hd
    rw [moved, if_neg hi]
  have hself : parentId? { doc with
      controls := doc.controls.map (moved c.id parent) } c.id = parent := by
    rw [parentId?_moved, indexed?_of_mem hids hc]
    simp [moved]
  have hcircles := forall_not_above_iff hother ((forall_not_transGen_iff hids).mp h.no_cycle)
  rw [hself] at hcircles
  constructor
  · intro h' id hid
    obtain ⟨_, hmem, hpid, hkind⟩ := h'.parent_holds (moved c.id parent c)
      (List.mem_map_of_mem hc) id (by simp [moved, hid])
    obtain ⟨p, hp, rfl⟩ := List.mem_map.mp hmem
    rw [id_moved] at hpid
    rw [kind_moved] at hkind
    refine ⟨p, hp, hpid, hkind, ?_⟩
    rw [reflTransGen_hasParent_iff hids hp hc, hpid]
    exact hcircles.mp ((forall_not_transGen_iff hids').mp h'.no_cycle) id hid
  · intro hfits
    refine ⟨hids', ?_, ?_⟩
    · intro _ hmem id hid
      obtain ⟨d, hd, rfl⟩ := List.mem_map.mp hmem
      obtain ⟨p, hp, hpid, hkind⟩ : ∃ p ∈ doc.controls, p.id = id ∧
          (p.kind = .container ∨ p.kind = .page) := by
        unfold moved at hid
        split at hid
        · obtain ⟨p, hp, hpid, hkind, -⟩ := hfits id hid
          exact ⟨p, hp, hpid, hkind⟩
        · exact h.parent_holds d hd id hid
      exact ⟨moved c.id parent p, List.mem_map_of_mem hp, by simp [hpid], by simpa using hkind⟩
    · rw [forall_not_transGen_iff hids', hcircles]
      intro id hid
      obtain ⟨p, hp, rfl, -, hfree⟩ := hfits id hid
      rwa [reflTransGen_hasParent_iff hids hp hc] at hfree

end Document

end ScreenForms
