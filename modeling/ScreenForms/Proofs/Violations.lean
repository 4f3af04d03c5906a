import Mathlib
import ScreenForms.Proofs.Holders

/-!
# Every violation once

The checks of a document look ids up in an index and follow chains of parents for a bounded number
of steps. `Document.Violates` says without any walk what there is to report when ids are distinct:
a parent that no control is, a parent of the wrong kind, and a control among its own ancestors.
The checks list exactly these, each once (`mem_problems_iff`, `problems_nodup`), so a control whose
chain only leads into a circle or to a missing id is not reported for a cycle. Where nothing is
reported, the position of a control is the sum over the control and all its ancestors
(`Sound.exists_isLineageOf`), with 32 bits: a sum that fits is exact, and one that does not wraps
(`absolutePosition_wraps`).
-/

namespace ScreenForms.Document

open Decimal

variable {doc : Document} {c : Control}

/-! ## What there is to report -/

/-- The violations of a document, apart from repeated ids. -/
inductive Violates (doc : Document) : DocumentError → Prop where
  /-- a parent that is no control of the document -/
  | danglingParent {c : Control} {id : ControlId} (hc : c ∈ doc.controls)
      (hid : c.parent = some id) (hmissing : ∀ p ∈ doc.controls, p.id ≠ id) :
      doc.Violates (.danglingParent c.id id)
  /-- a parent that is neither a container nor a page -/
  | parentNotContainer {c p : Control} (hparent : doc.HasParent c p)
      (hkind : ¬ (p.kind = .container ∨ p.kind = .page)) :
      doc.Violates (.parentNotContainer c.id p.id p.kind)
  /-- a control that is an ancestor of itself -/
  | parentCycle {c : Control} (hcycle : Relation.TransGen doc.HasParent c c) :
      doc.Violates (.parentCycle c.id)

/-- The control that a violation is about. -/
def subject : DocumentError → ControlId
  | .danglingParent control _ => control
  | .parentNotContainer control _ _ => control
  | .parentCycle control => control
  | .duplicateId control => control

theorem indexed?_eq_none_iff {id : ControlId} :
    doc.indexed? id = none ↔ ∀ p ∈ doc.controls, p.id ≠ id := by
  rw [indexed?, List.find?_eq_none]
  simp

theorem mem_controls_of_transGen (h : Relation.TransGen doc.HasParent c c) : c ∈ doc.controls := by
  obtain ⟨p, hparent, -⟩ := Relation.TransGen.head'_iff.mp h
  exact hparent.1

section distinctIds

variable (hids : (doc.controls.map Control.id).Nodup)
include hids

/-- The parent of a control is missing, or is of the wrong kind, or there is nothing to report. No
more than one of these is reported for a control. -/
theorem mem_parentProblem_iff (hc : c ∈ doc.controls) {e : DocumentError} :
    e ∈ doc.parentProblem c ↔
      (∃ id, c.parent = some id ∧ (∀ p ∈ doc.controls, p.id ≠ id) ∧
        e = .danglingParent c.id id) ∨
      ∃ p, doc.HasParent c p ∧ ¬ (p.kind = .container ∨ p.kind = .page) ∧
        e = .parentNotContainer c.id p.id p.kind := by
  unfold parentProblem HasParent
  rcases hid : c.parent with _ | id
  · simp
  · rcases hindexed : doc.indexed? id with _ | p
    · have hmissing := indexed?_eq_none_iff.mp hindexed
      simp only [hindexed, List.mem_singleton, Option.some.injEq, exists_eq_left']
      constructor
      · exact fun he => .inl ⟨hmissing, he⟩
      · rintro (⟨-, he⟩ | ⟨p, ⟨-, hp, rfl⟩, -⟩)
        · exact he
        · exact absurd rfl (hmissing p hp)
    · obtain ⟨hp, rfl⟩ := mem_of_indexed? hindexed
      simp only [hindexed, ← holdsControls_iff, Option.some.injEq, exists_eq_left']
      constructor
      · intro he
        split at he
        · cases he
        · next hkind => exact .inr ⟨p, ⟨hc, hp, rfl⟩, hkind, List.mem_singleton.mp he⟩
      · rintro (⟨hmissing, -⟩ | ⟨q, ⟨-, hq, hpq⟩, hkind, rfl⟩)
        · exact absurd rfl (hmissing p hp)
        · obtain rfl := eq_of_id_eq hids hp hq hpq
          rw [if_neg hkind]
          exact List.mem_singleton_self _

theorem problems_eq : doc.problems = doc.controls.flatMap doc.parentProblem ++
    (doc.controls.filter doc.isOwnAncestor).map fun c => .parentCycle c.id := by
  have hrepeated : duplicateIds [] doc.controls = [] :=
    (duplicateIds_eq_nil_iff [] doc.controls).mpr ⟨hids, by simp⟩
  rw [problems, hrepeated, List.nil_append]

/-- With distinct ids the checks list exactly the violations. Each constructor of a violation has
its pass, and no pass reports anything else. -/
theorem mem_problems_iff {e : DocumentError} : e ∈ doc.problems ↔ doc.Violates e := by
  rw [problems_eq hids, List.mem_append, List.mem_flatMap, List.mem_map]
  constructor
  · rintro (⟨c, hc, he⟩ | ⟨c, hc, rfl⟩)
    · rcases (mem_parentProblem_iff hids hc).mp he with ⟨id, hid, hmissing, rfl⟩ |
        ⟨p, hparent, hkind, rfl⟩
      · exact .danglingParent hc hid hmissing
      · exact .parentNotContainer hparent hkind
    · obtain ⟨hc, hown⟩ := List.mem_filter.mp hc
      exact .parentCycle ((isOwnAncestor_iff hids hc).mp hown)
  · intro he
    cases he with
    | danglingParent hc hid hmissing =>
      exact .inl ⟨_, hc, (mem_parentProblem_iff hids hc).mpr (.inl ⟨_, hid, hmissing, rfl⟩)⟩
    | parentNotContainer hparent hkind =>
      exact .inl ⟨_, hparent.1,
        (mem_parentProblem_iff hids hparent.1).mpr (.inr ⟨_, hparent, hkind, rfl⟩)⟩
    | parentCycle hcycle =>
      have hc := mem_controls_of_transGen hcycle
      exact .inr ⟨_, List.mem_filter.mpr ⟨hc, (isOwnAncestor_iff hids hc).mpr hcycle⟩, rfl⟩

/-- There is at most one report about a parent, and reports about different controls differ. -/
theorem nodup_flatMap_parentProblem : (doc.controls.flatMap doc.parentProblem).Nodup := by
  refine List.nodup_flatMap.mpr ⟨fun c _ => ?_, ?_⟩
  · unfold parentProblem
    split
    · exact List.nodup_nil
    · split
      · exact List.nodup_singleton _
      · split
        · exact List.nodup_nil
        · exact List.nodup_singleton _
  · have hsubject : ∀ c ∈ doc.controls, ∀ e ∈ doc.parentProblem c, subject e = c.id := by
      intro c hc e he
      rcases (mem_parentProblem_iff hids hc).mp he with ⟨id, -, -, rfl⟩ | ⟨p, -, -, rfl⟩ <;> rfl
    refine (List.pairwise_map.mp hids).imp_of_mem fun {c d} hc hd hne e hec hed => ?_
    exact hne ((hsubject c hc e hec).symm.trans (hsubject d hd e hed))

/-- With distinct ids nothing is reported twice. -/
theorem problems_nodup : doc.problems.Nodup := by
  rw [problems_eq hids]
  refine List.Nodup.append (nodup_flatMap_parentProblem hids) ?_ ?_
  · have hsublist : ((doc.controls.filter doc.isOwnAncestor).map Control.id).Nodup :=
      hids.sublist (List.filter_sublist.map Control.id)
    rw [← List.nodup_map_iff (f := DocumentError.parentCycle) fun _ _ => DocumentError.parentCycle.inj,
      List.map_map] at hsublist
    exact hsublist
  · intro e hparent hcycle
    obtain ⟨c, hc, he⟩ := List.mem_flatMap.mp hparent
    obtain ⟨d, -, rfl⟩ := List.mem_map.mp hcycle
    rcases (mem_parentProblem_iff hids hc).mp he with ⟨id, -, -, heq⟩ | ⟨p, -, -, heq⟩ <;>
      cases heq

end distinctIds

/-! ## Sums over ancestors -/

/-- The sum of the positions of some controls. -/
def placesSum (chain : List Control) : Int × Int :=
  ((chain.map Control.x).sum, (chain.map Control.y).sum)

theorem placesSum_perm {chain chain' : List Control} (h : chain.Perm chain') :
    placesSum chain = placesSum chain' :=
  Prod.ext (h.map Control.x).sum_eq (h.map Control.y).sum_eq

/-- A list holds a control and all its ancestors, each once. -/
def IsLineageOf (doc : Document) (c : Control) (chain : List Control) : Prop :=
  chain.Nodup ∧ ∀ d, d ∈ chain ↔ Relation.ReflTransGen doc.HasParent c d

/-- A control has one lineage, up to the order in which it is listed. -/
theorem IsLineageOf.perm {chain chain' : List Control} (h : doc.IsLineageOf c chain)
    (h' : doc.IsLineageOf c chain') : chain.Perm chain' :=
  (List.perm_ext_iff_of_nodup h.1 h'.1).mpr fun d => (h.2 d).trans (h'.2 d).symm

/-- A control without a parent is its own lineage. -/
theorem IsLineageOf.root (hroot : ∀ p, ¬ doc.HasParent c p) : doc.IsLineageOf c [c] := by
  refine ⟨List.nodup_singleton c, fun d => ?_⟩
  rw [List.mem_singleton, Relation.ReflTransGen.cases_head_iff]
  constructor
  · exact fun h => .inl h.symm
  · rintro (rfl | ⟨p, hp, -⟩)
    · rfl
    · exact absurd hp (hroot p)

namespace Sound

variable (hs : doc.Sound)
include hs

/-- A control has at most one parent, as ids are distinct. -/
theorem eq_of_hasParent {p q : Control} (hp : doc.HasParent c p) (hq : doc.HasParent c q) :
    p = q :=
  eq_of_id_eq hs.ids_nodup hp.2.1 hq.2.1 (Option.some.inj (hp.2.2.symm.trans hq.2.2))

theorem isLineageOf_cons {p : Control} {chain : List Control} (hp : doc.HasParent c p)
    (h : doc.IsLineageOf p chain) : doc.IsLineageOf c (c :: chain) := by
  refine ⟨List.nodup_cons.mpr ⟨fun hmem => ?_, h.1⟩, fun d => ?_⟩
  · -- an ancestor of the parent that is the control itself closes a circle
    exact hs.no_cycle c (Relation.TransGen.head' hp ((h.2 c).mp hmem))
  · rw [List.mem_cons, h.2, Relation.ReflTransGen.cases_head_iff (a := c)]
    constructor
    · rintro (rfl | hd)
      · exact .inl rfl
      · exact .inr ⟨p, hp, hd⟩
    · rintro (rfl | ⟨q, hq, hd⟩)
      · exact .inl rfl
      · exact .inr (hs.eq_of_hasParent hp hq ▸ hd)

/-- A control and its ancestors can be listed, and their positions sum up to where the control
stands on the form, as far as 32 bits hold the sum. -/
theorem exists_isLineageOf (n : Nat) (hc : c ∈ doc.controls)
    (hend : climb doc.parentOf? n c = none) :
    ∃ chain, doc.IsLineageOf c chain ∧
      doc.formPlace c = wrapPlace (placesSum chain) := by
  induction n generalizing c with
  | zero => cases hend
  | succ n ih =>
    rcases hparent : doc.parentOf? c with _ | p
    · have hroot : c.parent = none := by
        rcases hid : c.parent with _ | id
        · rfl
        · obtain ⟨p, hp, -⟩ := hs.parentOf?_isSome hc hid
          cases hparent.symm.trans hp
      refine ⟨[c], .root fun p hp => ?_, ?_⟩
      · cases hroot.symm.trans hp.2.2
      · rw [hs.formPlace_of_root hc hroot]
        simp [placesSum]
    · rw [climb_succ, hparent] at hend
      obtain ⟨chain, hchain, hplace⟩ := ih (mem_of_parentOf? hparent) hend
      refine ⟨c :: chain, hs.isLineageOf_cons (hasParent_of_parentOf? hc hparent) hchain, ?_⟩
      rw [hs.formPlace_of_parent hc hparent, hplace, wrapPlace_add (c.x, c.y)]
      simp [placesSum]

end Sound

/-! ## The checks -/

/-- The checks of a document are sound and complete. They report nothing exactly when ids are
distinct, every parent is a container or a page of the document, and no control is its own
ancestor. Where ids are distinct they report each violation once and nothing else. And where they
report nothing, every control has a position on the form: the sum of its own position and of those
of all its ancestors with 32 bits, so the exact sum where that fits. -/
theorem problems_exact (doc : Document) :
    (doc.problems = [] ↔
      (doc.controls.map Control.id).Nodup ∧
        (∀ c ∈ doc.controls, ∀ id, c.parent = some id →
          ∃ p ∈ doc.controls, p.id = id ∧ (p.kind = .container ∨ p.kind = .page)) ∧
        ∀ c, ¬ Relation.TransGen doc.HasParent c c) ∧
    ((doc.controls.map Control.id).Nodup →
      doc.problems.Nodup ∧ ∀ e, e ∈ doc.problems ↔ doc.Violates e) ∧
    (doc.problems = [] → ∀ c ∈ doc.controls, ∃ chain, doc.IsLineageOf c chain ∧
      doc.absolutePosition c.id = .ok (wrapPlace (placesSum chain)) ∧
      (Is32 (placesSum chain).1 → Is32 (placesSum chain).2 →
        doc.absolutePosition c.id = .ok (placesSum chain))) := by
  have hsound : doc.problems = [] ↔ doc.Sound := valid_iff_sound doc
  refine ⟨?_, fun hids => ⟨problems_nodup hids, fun e => mem_problems_iff hids⟩, ?_⟩
  · rw [hsound]
    exact ⟨fun hs => ⟨hs.ids_nodup, hs.parent_holds, hs.no_cycle⟩,
      fun ⟨hids, hparents, hcycles⟩ => ⟨hids, hparents, hcycles⟩⟩
  · intro hnone c hc
    have hs := hsound.mp hnone
    obtain ⟨chain, hchain, hplace⟩ :=
      hs.exists_isLineageOf doc.controls.length hc (hs.climb_parentOf?_eq_none hc)
    have hposition : doc.absolutePosition c.id = .ok (wrapPlace (placesSum chain)) :=
      hplace ▸ hs.absolutePosition_eq hc
    refine ⟨chain, hchain, hposition, fun hx hy => ?_⟩
    rw [hposition, wrapPlace_of_is32 hx hy]

/-- Two containers in each other and one in itself, a label in the first of them, a label in a
control that does not exist, and a label in that label. -/
def tangledControls : Document :=
  { controls :=
      [{ id := "a", kind := .container, name := "A", parent := some "b" },
        { id := "c", kind := .label, name := "C", parent := some "a" },
        { id := "b", kind := .page, name := "B", parent := some "a" },
        { id := "d", kind := .label, name := "D", parent := some "x" },
        { id := "e", kind := .label, name := "E", parent := some "d" },
        { id := "f", kind := .container, name := "F", parent := some "f" }] }

/-- A label on a page. -/
def nestedLabel : Control :=
  { id := "a", kind := .label, name := "A", x := 1, y := 2, parent := some "b" }

/-- The label on its page, which is in a container. -/
def nestedControls : Document :=
  { controls :=
      [nestedLabel,
        { id := "b", kind := .page, name := "B", x := 10, y := 20, parent := some "c" },
        { id := "c", kind := .container, name := "C", x := 100, y := 200 }] }

theorem problems_exact_tangledControls :
    (tangledControls.controls.map Control.id).Nodup ∧
      tangledControls.Violates (.parentCycle "f") ∧
      ¬ tangledControls.Violates (.parentCycle "c") ∧
      nestedControls.problems = [] ∧ nestedLabel ∈ nestedControls.controls ∧
      ∃ chain, nestedControls.IsLineageOf nestedLabel chain ∧
        wrapPlace (placesSum chain) = (111, 222) := by
  have hids : (tangledControls.controls.map Control.id).Nodup := by decide +kernel
  have hnone : nestedControls.problems = [] := by decide +kernel
  have hmem : nestedLabel ∈ nestedControls.controls := List.mem_cons_self
  obtain ⟨-, hexact⟩ := (problems_exact tangledControls).2.1 hids
  obtain ⟨chain, hchain, hplace, -⟩ := (problems_exact nestedControls).2.2 hnone nestedLabel hmem
  have hsum : nestedControls.absolutePosition nestedLabel.id = .ok (111, 222) := by decide +kernel
  exact ⟨hids, (hexact _).mp (by decide +kernel), (hexact _).not.mp (by decide +kernel), hnone,
    hmem, chain, hchain, Except.ok.inj (hplace.symm.trans hsum)⟩

/-- A container at the right end of what 32 bits can hold. -/
def farBox : Control :=
  { id := "b", kind := .container, name := "B", x := 2147483647 }

/-- A label in that container, one pixel further. -/
def farLabel : Control :=
  { id := "a", kind := .label, name := "A", x := 1, parent := some "b" }

/-- The label in its container. -/
def farControls : Document := { controls := [farLabel, farBox] }

/-- There is nothing to report, and yet the position of the label is not the sum over the label and
its container: that sum does not fit, and wraps to the left end. -/
theorem absolutePosition_wraps :
    farControls.problems = [] ∧ farLabel ∈ farControls.controls ∧
      farControls.absolutePosition farLabel.id = .ok (-2147483648, 0) ∧
      ∀ chain, farControls.IsLineageOf farLabel chain →
        farControls.absolutePosition farLabel.id ≠ .ok (placesSum chain) := by
  have hnone : farControls.problems = [] := by decide +kernel
  have hs : farControls.Sound := (valid_iff_sound farControls).mp hnone
  have hposition : farControls.absolutePosition farLabel.id = .ok (-2147483648, 0) := by
    decide +kernel
  have hbox : farControls.IsLineageOf farBox [farBox] := by
    refine .root fun p hp => ?_
    cases hp.2.2
  have hlabel : farControls.IsLineageOf farLabel [farLabel, farBox] :=
    hs.isLineageOf_cons ⟨by decide +kernel, by decide +kernel, rfl⟩ hbox
  refine ⟨hnone, List.mem_cons_self, hposition, fun chain hchain hsum => ?_⟩
  rw [hposition, placesSum_perm (hchain.perm hlabel)] at hsum
  exact absurd (Except.ok.inj hsum) (by decide +kernel)

end ScreenForms.Document
