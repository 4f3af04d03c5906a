import ScreenForms.Program.Layout
import ScreenForms.Proofs.Holders

/-!
# What the layout places

The walk of the layout goes down from the controls that nothing holds, and a control is met exactly
when the way up from it ends at one of these. So where nothing holds itself, every control has
exactly one place (`HoldersEnd.layout_perm`), and a control that holds itself has none.
-/

namespace ScreenForms.Document

variable {doc : Document} {c : Control}

/-- A control and everything inside it, at most `fuel` levels deep, in the order of the walk. -/
def inside (doc : Document) : Nat → Control → List Control
  | 0, _ => []
  | fuel + 1, c => c :: (doc.heldBy c).flatMap (doc.inside fuel)

theorem filterMap_entered?_visitFrom (n depth : Nat) (holder : Option Control) (c : Control) :
    ((doc.visitFrom n depth holder c).filterMap Visit.entered?).map Placed.control =
      doc.inside n c := by
  induction n generalizing depth holder c with
  | zero => rfl
  | succ n ih =>
    have hleave : ∀ p : Placed,
        (if c.kind.opensScope then [Visit.leave p] else []).filterMap Visit.entered? = [] := by
      intro p
      split <;> rfl
    have hheld : (((doc.heldBy c).flatMap (doc.visitFrom n (depth + 1) (some c))).filterMap
        Visit.entered?).map Placed.control = (doc.heldBy c).flatMap (doc.inside n) := by
      rw [List.filterMap_flatMap, List.map_flatMap]
      exact List.flatMap_congr fun d _ => ih (depth + 1) (some c) d
    rw [visitFrom, inside, List.filterMap_append, hleave, List.append_nil, ← hheld]
    rfl

theorem map_control_layout (doc : Document) :
    doc.layout.map Placed.control = doc.roots.flatMap (doc.inside doc.controls.length) := by
  rw [layout, visits, List.filterMap_flatMap, List.map_flatMap]
  exact List.flatMap_congr fun c _ => filterMap_entered?_visitFrom _ 0 none c

theorem mem_roots : c ∈ doc.roots ↔ c ∈ doc.controls ∧ doc.holder? c = none := by
  rw [roots, List.mem_filter, Option.isNone_iff_eq_none]

section distinctIds

variable (hids : (doc.controls.map Control.id).Nodup)
include hids

theorem mem_heldBy (hc : c ∈ doc.controls) {d : Control} :
    d ∈ doc.heldBy c ↔ d ∈ doc.controls ∧ doc.holder? d = some c := by
  rw [heldBy, List.mem_filter]
  refine and_congr_right fun _ => ?_
  rcases h : doc.holder? d with _ | holder
  · simp
  · rw [Option.any_some, beq_iff_eq, Option.some.injEq]
    exact ⟨eq_of_id_eq hids (mem_of_holder? h) hc, fun h => h ▸ rfl⟩

/-- What is inside a control is what climbs to it. With less fuel than steps the deeper controls are
left out on both sides. -/
theorem mem_inside (n : Nat) (hc : c ∈ doc.controls) {d : Control} :
    d ∈ doc.inside n c ↔ d ∈ doc.controls ∧ ∃ k < n, climb doc.holder? k d = some c := by
  induction n generalizing c with
  | zero => simp [inside]
  | succ n ih =>
    rw [inside, List.mem_cons, List.mem_flatMap]
    constructor
    · rintro (rfl | ⟨e, he, hd⟩)
      · exact ⟨hc, 0, Nat.succ_pos n, rfl⟩
      · obtain ⟨he, hholder⟩ := (mem_heldBy hids hc).mp he
        obtain ⟨hd, k, hk, hclimb⟩ := (ih he).mp hd
        exact ⟨hd, k + 1, Nat.succ_lt_succ hk, by rw [climb_succ', hclimb]; exact hholder⟩
    · rintro ⟨hd, _ | k, hk, hclimb⟩
      · exact .inl (Option.some.inj hclimb)
      · rw [climb_succ'] at hclimb
        obtain ⟨e, hde, hec⟩ := Option.bind_eq_some_iff.mp hclimb
        have he : e ∈ doc.controls := mem_of_climb (fun _ _ => mem_of_holder?) hd hde
        exact .inr ⟨e, (mem_heldBy hids hc).mpr ⟨he, hec⟩,
          (ih he).mpr ⟨hd, k, Nat.lt_of_succ_lt_succ hk, hde⟩⟩

/-- The controls inside several ones with a common holder, or with none, are distinct. -/
theorem nodup_flatMap_inside (n : Nat) {l : List Control} {holder : Option Control} (hl : l.Nodup)
    (hmem : ∀ c ∈ l, c ∈ doc.controls) (hholder : ∀ c ∈ l, doc.holder? c = holder)
    (hend : ∀ c ∈ l, ¬ Above doc.holder? c c) (hinside : ∀ c ∈ l, (doc.inside n c).Nodup) :
    (l.flatMap (doc.inside n)).Nodup := by
  refine List.nodup_flatMap.mpr ⟨hinside, hl.imp_of_mem fun {a b} ha hb hab => ?_⟩
  intro d hda hdb
  obtain ⟨-, k, -, hk⟩ := (mem_inside hids n (hmem a ha)).mp hda
  obtain ⟨-, l, -, hl⟩ := (mem_inside hids n (hmem b hb)).mp hdb
  exact hab (eq_of_climb_eq ((hholder a ha).trans (hholder b hb).symm) (hend a ha) (hend b hb)
    hk hl)

theorem nodup_inside (n : Nat) (hc : c ∈ doc.controls) (hend : ¬ Above doc.holder? c c) :
    (doc.inside n c).Nodup := by
  induction n generalizing c with
  | zero => exact List.nodup_nil
  | succ n ih =>
    rw [inside, List.nodup_cons]
    have hheld : ∀ d ∈ doc.heldBy c, d ∈ doc.controls ∧ doc.holder? d = some c :=
      fun d => (mem_heldBy hids hc).mp
    have hends : ∀ d ∈ doc.heldBy c, ¬ Above doc.holder? d d :=
      fun d hd => not_above_of_up (hheld d hd).2 hend
    refine ⟨?_, nodup_flatMap_inside hids n ?_ (fun d hd => (hheld d hd).1)
      (fun d hd => (hheld d hd).2) hends (fun d hd => ih (hheld d hd).1 (hends d hd))⟩
    · intro hmem
      obtain ⟨d, hd, hcd⟩ := List.mem_flatMap.mp hmem
      obtain ⟨-, k, -, hk⟩ := (mem_inside hids n (hheld d hd).1).mp hcd
      refine hend (transGen_iff.mpr ⟨k, ?_⟩)
      rw [climb_succ', hk]
      exact (hheld d hd).2
    · exact (controls_nodup hids).filter _

/-- No control has two places. -/
theorem nodup_placed : (doc.layout.map Placed.control).Nodup := by
  have hroots : ∀ c ∈ doc.roots, c ∈ doc.controls ∧ doc.holder? c = none := fun c => mem_roots.mp
  have hends : ∀ c ∈ doc.roots, ¬ Above doc.holder? c c :=
    fun c hc => not_above_of_up_eq_none (hroots c hc).2
  rw [map_control_layout]
  exact nodup_flatMap_inside hids _ ((controls_nodup hids).filter _)
    (fun c hc => (hroots c hc).1) (fun c hc => (hroots c hc).2) hends
    fun c hc => nodup_inside hids _ (hroots c hc).1 (hends c hc)

/-- Where nothing holds itself, the layout places every control exactly once. -/
theorem HoldersEnd.layout_perm (hend : doc.HoldersEnd) :
    (doc.layout.map Placed.control).Perm doc.controls := by
  rw [List.perm_ext_iff_of_nodup (nodup_placed hids) (controls_nodup hids)]
  intro d
  rw [map_control_layout, List.mem_flatMap]
  constructor
  · rintro ⟨c, hc, hd⟩
    exact ((mem_inside hids _ (mem_roots.mp hc).1).mp hd).1
  · intro hd
    -- the last control on the way up has no holder
    obtain ⟨k, c, hk, hclimb, hlast⟩ := exists_last_climb (hend.climb_holder?_eq_none hd)
    have hc : c ∈ doc.controls := mem_of_climb (fun _ _ => mem_of_holder?) hd hclimb
    exact ⟨c, mem_roots.mpr ⟨hc, hlast⟩, (mem_inside hids _ hc).mpr ⟨hd, k, hk, hclimb⟩⟩

/-- A control that holds itself is left out of the layout. -/
theorem holdersEnd_of_forall_mem_layout
    (h : ∀ c ∈ doc.controls, ∃ p ∈ doc.layout, p.control = c) : doc.HoldersEnd := by
  intro c hc hcycle
  obtain ⟨p, hp, rfl⟩ := h c hc
  have hmem : p.control ∈ doc.layout.map Placed.control := List.mem_map_of_mem hp
  rw [map_control_layout, List.mem_flatMap] at hmem
  obtain ⟨root, hroot, hinside⟩ := hmem
  obtain ⟨hroot, hnone⟩ := mem_roots.mp hroot
  obtain ⟨-, k, -, hk⟩ := (mem_inside hids _ hroot).mp hinside
  obtain ⟨b, hb, -⟩ := exists_climb_of_above hcycle (k + 1)
  rw [climb_succ', hk, Option.bind_some, hnone] at hb
  cases hb

end distinctIds

end ScreenForms.Document
