import ScreenForms.Proofs.Placing

/-!
# The order of the layout

Where nothing holds itself, the layout is a walk through the forest of holders that takes a control
before what is inside it (`layout_preorder`). What carries the proof is a block: the places of a
control and of everything inside it stand next to each other in the layout, and how deep the walk
may still go below the control is known from its depth (`exists_block`). The same places come out
when the controls that are still to be placed wait on a stack (`unstack`).
-/

namespace ScreenForms.Document

variable {doc : Document} {c : Control} {p q : Placed}

/-! ## Places -/

/-- The places of a control and of what is inside it, at most `fuel` levels deep. -/
def placesFrom (doc : Document) (fuel depth : Nat) (holder : Option Control) (c : Control) :
    List Placed :=
  (doc.visitFrom fuel depth holder c).filterMap Visit.entered?

/-- The places below a control are itself, and behind it the places of the controls it holds. -/
theorem placesFrom_succ (n depth : Nat) (holder : Option Control) (c : Control) :
    doc.placesFrom (n + 1) depth holder c =
      { control := c, depth, holder } ::
        (doc.heldBy c).flatMap (doc.placesFrom n (depth + 1) (some c)) := by
  have hleave : ∀ p : Placed,
      (if c.kind.opensScope then [Visit.leave p] else []).filterMap Visit.entered? = [] := by
    intro p
    split <;> rfl
  rw [placesFrom, visitFrom, List.filterMap_append, hleave, List.append_nil]
  exact congrArg (List.cons _) List.filterMap_flatMap

/-- The layout is made of the places below the roots, one root after another. -/
theorem layout_eq_flatMap (doc : Document) :
    doc.layout = doc.roots.flatMap (doc.placesFrom doc.controls.length 0 none) :=
  List.filterMap_flatMap

/-- Leaving out the depths, the places are the controls inside of a control. -/
theorem map_control_placesFrom (n depth : Nat) (holder : Option Control) (c : Control) :
    (doc.placesFrom n depth holder c).map Placed.control = doc.inside n c :=
  filterMap_entered?_visitFrom n depth holder c

theorem map_control_flatMap_placesFrom (n depth : Nat) (holder : Option Control)
    (l : List Control) :
    (l.flatMap (doc.placesFrom n depth holder)).map Placed.control =
      l.flatMap (doc.inside n) := by
  rw [List.map_flatMap]
  exact List.flatMap_congr fun c _ => map_control_placesFrom n depth holder c

/-! ## Blocks -/

/-- Where a walk enters a control, it goes on with the walk of this control alone, and with as much
fuel as is left at that depth. -/
theorem exists_block_visitFrom {n depth : Nat} {holder : Option Control}
    (h : .enter p ∈ doc.visitFrom n depth holder c) :
    ∃ m, depth + n = p.depth + m + 1 ∧
      doc.visitFrom (m + 1) p.depth p.holder p.control <:+: doc.visitFrom n depth holder c := by
  induction n generalizing depth holder c with
  | zero => cases h
  | succ n ih =>
    rw [visitFrom] at h
    simp only [List.mem_append, List.mem_cons, List.mem_flatMap] at h
    rcases h with (hself | ⟨d, hd, hin⟩) | hleave
    · obtain rfl := Visit.enter.inj hself
      exact ⟨n, (Nat.add_assoc depth n 1).symm, List.infix_rfl⟩
    · obtain ⟨m, hm, hblock⟩ := ih hin
      have hheld := infix_flatMap hd (doc.visitFrom n (depth + 1) (some c))
      refine ⟨m, by omega, (hblock.trans hheld).trans ?_⟩
      rw [visitFrom]
      exact ⟨[_], _, rfl⟩
    · split at hleave
      · simp at hleave
      · cases hleave

/-- The steps of the walk for a control stand next to each other. -/
theorem exists_block_visits (h : p ∈ doc.layout) :
    ∃ m, doc.controls.length = p.depth + m + 1 ∧
      doc.visitFrom (m + 1) p.depth p.holder p.control <:+: doc.visits := by
  obtain ⟨v, hv, hentered⟩ := List.mem_filterMap.mp h
  obtain ⟨c, hc, hin⟩ := List.mem_flatMap.mp hv
  cases v with
  | leave q => cases hentered
  | enter q =>
    obtain rfl := Option.some.inj hentered
    obtain ⟨m, hm, hblock⟩ := exists_block_visitFrom hin
    have hroot := infix_flatMap hc (doc.visitFrom doc.controls.length 0 none)
    exact ⟨m, by omega, hblock.trans hroot⟩

/-- The places of what is inside a control, by the depth that is left below it. -/
def innerPlaces (doc : Document) (m : Nat) (p : Placed) : List Placed :=
  (doc.heldBy p.control).flatMap (doc.placesFrom m (p.depth + 1) (some p.control))

/-- A block of visits is a block of places, since both walks take the same way. -/
theorem block_of_visits {m : Nat}
    (h : doc.visitFrom (m + 1) p.depth p.holder p.control <:+: doc.visits) :
    p :: doc.innerPlaces m p <:+: doc.layout := by
  have hblock := h.filterMap Visit.entered?
  rwa [← placesFrom, placesFrom_succ] at hblock

/-- The place of a control and those of what is inside it stand next to each other. -/
theorem exists_block (h : p ∈ doc.layout) :
    ∃ m, doc.controls.length = p.depth + m + 1 ∧ p :: doc.innerPlaces m p <:+: doc.layout := by
  obtain ⟨m, hm, hvisits⟩ := exists_block_visits h
  exact ⟨m, hm, block_of_visits hvisits⟩

/-! ## Depths -/

section distinctIds

variable (hids : (doc.controls.map Control.id).Nodup)
include hids

/-- A walk records what holds a control, and its depth is the number of steps up to where the walk
began. -/
theorem climb_of_mem_placesFrom {n depth : Nat} (hc : c ∈ doc.controls)
    (h : p ∈ doc.placesFrom n depth (doc.holder? c) c) :
    p.control ∈ doc.controls ∧ p.holder = doc.holder? p.control ∧
      ∃ k, p.depth = depth + k ∧ climb doc.holder? k p.control = some c := by
  induction n generalizing depth c with
  | zero => cases h
  | succ n ih =>
    rw [placesFrom_succ, List.mem_cons, List.mem_flatMap] at h
    rcases h with rfl | ⟨d, hd, hin⟩
    · exact ⟨hc, rfl, 0, rfl, rfl⟩
    · obtain ⟨hdmem, hholder⟩ := (mem_heldBy hids hc).mp hd
      rw [← hholder] at hin
      obtain ⟨hmem, hrecord, k, hk, hclimb⟩ := ih hdmem hin
      refine ⟨hmem, hrecord, k + 1, by omega, ?_⟩
      rw [climb_succ', hclimb]
      exact hholder

/-- As many steps up as a place has depth lead to a root. This is what connects the depths with the
holders. -/
theorem climb_of_mem_layout (h : p ∈ doc.layout) :
    p.control ∈ doc.controls ∧ p.holder = doc.holder? p.control ∧
      ∃ root, climb doc.holder? p.depth p.control = some root ∧ doc.holder? root = none := by
  rw [layout_eq_flatMap, List.mem_flatMap] at h
  obtain ⟨root, hroot, hin⟩ := h
  obtain ⟨hmem, hnone⟩ := mem_roots.mp hroot
  rw [← hnone] at hin
  obtain ⟨hcontrol, hholder, k, hk, hclimb⟩ := climb_of_mem_placesFrom hids hmem hin
  rw [Nat.zero_add] at hk
  exact ⟨hcontrol, hholder, root, hk ▸ hclimb, hnone⟩

/-- A root has no depth. -/
theorem depth_of_root (h : p ∈ doc.layout) (hroot : p.holder = none) : p.depth = 0 := by
  obtain ⟨-, hholder, root, hclimb, hend⟩ := climb_of_mem_layout hids h
  exact climb_end_unique hclimb hend (climb_zero p.control) (hholder ▸ hroot)

/-- A control is one level deeper than the control that holds it. -/
theorem depth_of_holder (hp : p ∈ doc.layout) (hq : q ∈ doc.layout)
    (hholder : p.holder = some q.control) : p.depth = q.depth + 1 := by
  obtain ⟨-, hrecord, root, hclimb, hend⟩ := climb_of_mem_layout hids hp
  obtain ⟨-, -, root', hclimb', hend'⟩ := climb_of_mem_layout hids hq
  refine climb_end_unique hclimb hend ?_ hend'
  rw [climb_succ, ← hrecord, hholder]
  exact hclimb'

/-- A control with a place does not hold itself. -/
theorem not_above_of_mem_layout (hp : p ∈ doc.layout) :
    ¬ Above doc.holder? p.control p.control := by
  obtain ⟨-, -, root, hclimb, hroot⟩ := climb_of_mem_layout hids hp
  have hend : climb doc.holder? (p.depth + 1) p.control = none := by
    rw [climb_succ', hclimb]
    exact hroot
  exact not_above_of_climb_eq_none hend (climb_zero p.control)

/-- A control that climbs `k` steps to a control with a place has room for these steps below it. -/
theorem lt_of_climb {m k : Nat} (hp : p ∈ doc.layout)
    (hm : doc.controls.length = p.depth + m + 1) (hc : c ∈ doc.controls)
    (hclimb : climb doc.holder? k c = some p.control) : k < m + 1 := by
  obtain ⟨-, -, root, hroot, hlast⟩ := climb_of_mem_layout hids hp
  have hlong : climb doc.holder? (k + p.depth) c = some root := by
    rw [climb_add, hclimb]
    exact hroot
  have hend : climb doc.holder? (k + p.depth + 1) c = none := by
    rw [climb_succ', hlong]
    exact hlast
  by_contra hlt
  rw [climb_eq_none_of_le (by omega)
    (climb_length_eq_none_of_ends hc (fun _ _ => mem_of_holder?) hend)] at hlong
  cases hlong

section acyclic

variable (hend : doc.HoldersEnd)
include hend

/-- No control has two places. -/
theorem HoldersEnd.nodup_layout : (doc.layout.map Placed.control).Nodup :=
  (hend.layout_perm hids).nodup_iff.mpr (controls_nodup hids)

/-- So a place is known by its control. -/
theorem HoldersEnd.eq_of_control_eq (hp : p ∈ doc.layout) (hq : q ∈ doc.layout)
    (h : p.control = q.control) : p = q :=
  List.inj_on_of_nodup_map (hend.nodup_layout hids) hp hq h

/-- Every control has a place: climbing from it ends in a root, and the walk goes the same way
down. -/
theorem HoldersEnd.exists_place (hc : c ∈ doc.controls) : ∃ p ∈ doc.layout, p.control = c :=
  List.mem_map.mp ((hend.layout_perm hids).mem_iff.mpr hc)

/-- The block behind a control has the places of its descendants and no others. As no control has
two places, a place that climbs to the control cannot stand elsewhere. -/
theorem HoldersEnd.mem_innerPlaces {m : Nat} (hp : p ∈ doc.layout)
    (hm : doc.controls.length = p.depth + m + 1) (hblock : p :: doc.innerPlaces m p <:+: doc.layout) :
    q ∈ doc.innerPlaces m p ↔ q ∈ doc.layout ∧ Above doc.holder? q.control p.control := by
  have hmem := (climb_of_mem_layout hids hp).1
  constructor
  · intro hq
    refine ⟨hblock.subset (List.mem_cons_of_mem _ hq), ?_⟩
    obtain ⟨d, hd, hin⟩ := List.mem_flatMap.mp hq
    obtain ⟨hdmem, hholder⟩ := (mem_heldBy hids hmem).mp hd
    rw [← hholder] at hin
    obtain ⟨-, -, k, -, hclimb⟩ := climb_of_mem_placesFrom hids hdmem hin
    refine transGen_iff.mpr ⟨k, ?_⟩
    rw [climb_succ', hclimb]
    exact hholder
  · rintro ⟨hq, habove⟩
    have hqmem := (climb_of_mem_layout hids hq).1
    obtain ⟨k, hclimb⟩ := transGen_iff.mp habove
    have hk := lt_of_climb hids hp hm hqmem hclimb
    rw [climb_succ'] at hclimb
    obtain ⟨d, hd, hholder⟩ := Option.bind_eq_some_iff.mp hclimb
    have hdmem : d ∈ doc.controls := mem_of_climb (fun _ _ => mem_of_holder?) hqmem hd
    have hinside : q.control ∈ (doc.innerPlaces m p).map Placed.control := by
      rw [innerPlaces, map_control_flatMap_placesFrom]
      exact List.mem_flatMap.mpr ⟨d, (mem_heldBy hids hmem).mpr ⟨hdmem, hholder⟩,
        (mem_inside hids m hdmem).mpr ⟨hqmem, k, by omega, hd⟩⟩
    obtain ⟨q', hq', hsame⟩ := List.mem_map.mp hinside
    have hlayout : q' ∈ doc.layout := hblock.subset (List.mem_cons_of_mem _ hq')
    exact hend.eq_of_control_eq hids hlayout hq hsame ▸ hq'

end acyclic

/-! ## Siblings -/

/-- In the places of some siblings, those with the holder of the siblings are their own. Whatever is
placed below a sibling has a holder inside of it, and none of these is above itself. -/
theorem filter_flatMap_placesFrom {n depth : Nat} {holder : Option Control} {l : List Control}
    (hl : ∀ c ∈ l, c ∈ doc.controls ∧ doc.holder? c = holder)
    (hend : ∀ h, holder = some h → ¬ Above doc.holder? h h) :
    ((l.flatMap (doc.placesFrom (n + 1) depth holder)).filter fun p => p.holder = holder).map
      Placed.control = l := by
  have hends : ∀ c, doc.holder? c = holder → ¬ Above doc.holder? c c := by
    intro c hc
    rcases holder with _ | h
    · exact not_above_of_up_eq_none hc
    · exact not_above_of_up hc (hend h rfl)
  have hown : ∀ c ∈ l, ((doc.placesFrom (n + 1) depth holder c).filter fun p =>
      p.holder = holder).map Placed.control = [c] := by
    intro c hc
    obtain ⟨hmem, hholder⟩ := hl c hc
    have hinner : ((doc.heldBy c).flatMap (doc.placesFrom n (depth + 1) (some c))).filter
        (fun p => p.holder = holder) = [] := by
      refine List.filter_eq_nil_iff.mpr fun p hp hsame => ?_
      obtain ⟨d, hd, hin⟩ := List.mem_flatMap.mp hp
      obtain ⟨hdmem, hdholder⟩ := (mem_heldBy hids hmem).mp hd
      rw [← hdholder] at hin
      obtain ⟨hpmem, hrecord, k, -, hclimb⟩ := climb_of_mem_placesFrom hids hdmem hin
      have hpholder : doc.holder? p.control = holder := hrecord ▸ of_decide_eq_true hsame
      have habove : climb doc.holder? (k + 1) p.control = some c := by
        rw [climb_succ', hclimb]
        exact hdholder
      -- a control inside another that has the same holder would be that other
      have heq : p.control = c := eq_of_climb_eq (hpholder.trans hholder.symm) (hends _ hpholder)
        (hends c hholder) (climb_zero _) habove
      exact hends c hholder (heq ▸ transGen_iff.mpr ⟨k, heq ▸ habove⟩)
    rw [placesFrom_succ, List.filter_cons_of_pos (by simp), hinner]
    rfl
  rw [List.filter_flatMap, List.map_flatMap, List.flatMap_congr hown, List.flatMap_singleton']

/-- What a control with a place holds is placed in the order of the document. All of it stands in
the block behind the control, and there only the siblings have this holder. -/
theorem siblings_of_mem_layout (hp : p ∈ doc.layout) :
    (doc.layout.filter fun q => q.holder = some p.control).map Placed.control =
      doc.controls.filter fun c => doc.holder? c = some p.control := by
  have hmem := (climb_of_mem_layout hids hp).1
  obtain ⟨m, hm, hblock⟩ := exists_block hp
  have hheld : ∀ d ∈ doc.heldBy p.control,
      d ∈ doc.controls ∧ doc.holder? d = some p.control := fun d => (mem_heldBy hids hmem).mp
  have hin : ∀ q ∈ doc.layout, decide (q.holder = some p.control) = true →
      q ∈ doc.innerPlaces m p := by
    intro q hq hholder
    obtain ⟨hqmem, hrecord, -⟩ := climb_of_mem_layout hids hq
    have hqholder : doc.holder? q.control = some p.control := hrecord ▸ of_decide_eq_true hholder
    have hroom := lt_of_climb hids hp hm hqmem ((climb_one q.control).trans hqholder)
    obtain ⟨n, rfl⟩ : ∃ n, m = n + 1 := ⟨m - 1, by omega⟩
    have hplace : ⟨q.control, p.depth + 1, some p.control⟩ ∈ doc.innerPlaces (n + 1) p := by
      refine List.mem_flatMap.mpr ⟨q.control, (mem_heldBy hids hmem).mpr ⟨hqmem, hqholder⟩, ?_⟩
      rw [placesFrom_succ]
      exact List.mem_cons_self
    -- the control has no other place
    have hlayout := hblock.subset (List.mem_cons_of_mem _ hplace)
    exact List.inj_on_of_nodup_map (nodup_placed hids) hlayout hq rfl ▸ hplace
  have hsuffix : doc.innerPlaces m p <:+: doc.layout :=
    (List.suffix_cons p _).isInfix.trans hblock
  have hlist : doc.heldBy p.control =
      doc.controls.filter fun c => doc.holder? c = some p.control := by
    refine List.filter_congr fun d hd => ?_
    have := mem_heldBy hids hmem (d := d)
    rw [heldBy, List.mem_filter, and_congr_right_iff] at this
    exact Bool.eq_iff_iff.mpr ((this hd).trans (by simp))
  rw [filter_eq_of_isInfix (nodup_placed hids).of_map hsuffix hin, innerPlaces, ← hlist]
  rcases m with _ | m
  · -- no depth is left, so nothing is held here
    have hnone : doc.heldBy p.control = [] := by
      refine List.eq_nil_iff_forall_not_mem.mpr fun d hd => ?_
      obtain ⟨hdmem, hholder⟩ := hheld d hd
      have := lt_of_climb hids (m := 0) hp hm hdmem ((climb_one d).trans hholder)
      omega
    rw [hnone]
    rfl
  · refine filter_flatMap_placesFrom hids hheld ?_
    rintro h ⟨⟩
    exact not_above_of_mem_layout hids hp

/-- The controls with one holder, or with none, are placed in the order of the document. -/
theorem HoldersEnd.siblings_in_order (hend : doc.HoldersEnd) (holder : Option Control) :
    (doc.layout.filter fun p => p.holder = holder).map Placed.control =
      doc.controls.filter fun c => doc.holder? c = holder := by
  rcases holder with _ | h
  · have hroots : doc.roots = doc.controls.filter fun c => doc.holder? c = none :=
      List.filter_congr fun c _ => by cases doc.holder? c <;> simp
    rw [layout_eq_flatMap, ← hroots]
    rcases hlength : doc.controls.length with _ | n
    · rw [roots, List.length_eq_zero_iff.mp hlength]
      rfl
    · refine filter_flatMap_placesFrom hids (fun c hc => mem_roots.mp hc) ?_
      rintro h ⟨⟩
  · by_cases hmem : h ∈ doc.controls
    · obtain ⟨p, hp, rfl⟩ := hend.exists_place hids hmem
      exact siblings_of_mem_layout hids hp
    · have hplaced : (doc.layout.filter fun p => p.holder = some h) = [] := by
        refine List.filter_eq_nil_iff.mpr fun p hp hholder => hmem ?_
        refine mem_of_holder? (c := p.control) ?_
        rw [← (climb_of_mem_layout hids hp).2.1]
        simpa using hholder
      have hcontrols : (doc.controls.filter fun c => doc.holder? c = some h) = [] :=
        List.filter_eq_nil_iff.mpr fun c _ hholder => hmem (mem_of_holder? (by simpa using hholder))
      rw [hplaced, hcontrols]
      rfl

end distinctIds

/-! ## A stack of controls -/

/-- Takes controls with their depths from a stack and puts those that each of them holds on top of
it. A control that was taken before is passed over. -/
def unstack (doc : Document) : Nat → List ControlId → List (Control × Nat) → List Placed
  | 0, _, _ => []
  | _ + 1, _, [] => []
  | fuel + 1, seen, (c, depth) :: stack =>
    if c.id ∈ seen then doc.unstack fuel seen stack
    else
      { control := c, depth, holder := doc.holder? c } ::
        doc.unstack fuel (c.id :: seen)
          ((doc.heldBy c).map (fun d => (d, depth + 1)) ++ stack)

/-- The places of the controls on a stack and of everything inside them. -/
def stackPlaces (doc : Document) (stack : List (Control × Nat)) : List Placed :=
  stack.flatMap fun e =>
    doc.placesFrom (doc.controls.length - e.2) e.2 (doc.holder? e.1) e.1

/-- A control stands on a stack with the number of controls above it. -/
def StandsAt (doc : Document) (e : Control × Nat) : Prop :=
  e.1 ∈ doc.controls ∧
    ∃ root, climb doc.holder? e.2 e.1 = some root ∧ doc.holder? root = none

section acyclic

variable (hids : (doc.controls.map Control.id).Nodup) (hend : doc.HoldersEnd)
include hids hend

/-- What is on top of the stack is placed first, and what it holds goes on top of the rest. -/
theorem HoldersEnd.stackPlaces_cons {depth : Nat} {stack : List (Control × Nat)}
    (h : doc.StandsAt (c, depth)) :
    doc.stackPlaces ((c, depth) :: stack) =
      { control := c, depth, holder := doc.holder? c } ::
        doc.stackPlaces ((doc.heldBy c).map (fun d => (d, depth + 1)) ++ stack) := by
  obtain ⟨hc, root, hclimb, -⟩ := h
  have hlt : depth < doc.controls.length := by
    by_contra hge
    rw [climb_eq_none_of_le (by omega) (hend.climb_holder?_eq_none hc)] at hclimb
    cases hclimb
  have hdepth : doc.controls.length - depth = doc.controls.length - (depth + 1) + 1 := by omega
  have hheld : ((doc.heldBy c).map fun d => (d, depth + 1)).flatMap (fun e =>
      doc.placesFrom (doc.controls.length - e.2) e.2 (doc.holder? e.1) e.1) =
        (doc.heldBy c).flatMap
          (doc.placesFrom (doc.controls.length - (depth + 1)) (depth + 1) (some c)) := by
    rw [List.flatMap_map]
    refine List.flatMap_congr fun d hd => ?_
    rw [((mem_heldBy hids hc).mp hd).2]
  rw [stackPlaces, List.flatMap_cons, hdepth, placesFrom_succ, stackPlaces, List.flatMap_append,
    hheld]
  rfl

/-- The loop with a stack places exactly what the stack stands for. The induction is over the fuel,
and one unit of it is used up for each place. -/
theorem HoldersEnd.unstack_eq {fuel : Nat} {seen : List ControlId} {stack : List (Control × Nat)}
    (hstack : ∀ e ∈ stack, doc.StandsAt e)
    (hnew : (seen ++ (doc.stackPlaces stack).map fun p => p.control.id).Nodup)
    (hfuel : (doc.stackPlaces stack).length ≤ fuel) :
    doc.unstack fuel seen stack = doc.stackPlaces stack := by
  induction fuel generalizing seen stack with
  | zero => exact (List.length_eq_zero_iff.mp (Nat.le_zero.mp hfuel)).symm
  | succ fuel ih =>
    rcases stack with _ | ⟨⟨c, depth⟩, stack⟩
    · rfl
    obtain ⟨hc, hstack⟩ := List.forall_mem_cons.mp hstack
    rw [hend.stackPlaces_cons hids hc] at hnew hfuel ⊢
    rw [List.map_cons, List.perm_middle.nodup_iff, List.nodup_cons, List.mem_append,
      not_or] at hnew
    obtain ⟨⟨hseen, hlater⟩, hrest⟩ := hnew
    rw [unstack, if_neg hseen, ih ?_ ?_ (Nat.le_of_succ_le_succ hfuel)]
    · intro e he
      rcases List.mem_append.mp he with he | he
      · obtain ⟨d, hd, rfl⟩ := List.mem_map.mp he
        obtain ⟨hdmem, hholder⟩ := (mem_heldBy hids hc.1).mp hd
        obtain ⟨-, root, hclimb, hroot⟩ := hc
        refine ⟨hdmem, root, ?_, hroot⟩
        rw [climb_succ, hholder]
        exact hclimb
      · exact hstack e he
    · rw [List.cons_append, List.nodup_cons, List.mem_append, not_or]
      exact ⟨⟨hseen, hlater⟩, hrest⟩

/-- Taking the controls from a stack gives the layout. -/
theorem HoldersEnd.layout_eq_unstack :
    doc.layout = doc.unstack doc.controls.length [] (doc.roots.map fun c => (c, 0)) := by
  have hplaces : doc.stackPlaces (doc.roots.map fun c => (c, 0)) = doc.layout := by
    rw [stackPlaces, List.flatMap_map, layout_eq_flatMap]
    refine List.flatMap_congr fun c hc => ?_
    rw [(mem_roots.mp hc).2]
    rfl
  have hperm := hend.layout_perm hids
  rw [hend.unstack_eq hids, hplaces]
  · intro e he
    obtain ⟨c, hc, rfl⟩ := List.mem_map.mp he
    obtain ⟨hmem, hroot⟩ := mem_roots.mp hc
    exact ⟨hmem, c, rfl, hroot⟩
  · have hmap : (doc.layout.map fun p => p.control.id).Perm (doc.controls.map Control.id) := by
      have h := hperm.map Control.id
      rwa [List.map_map] at h
    rw [hplaces]
    exact hmap.nodup_iff.mpr hids
  · rw [hplaces, ← hperm.length_eq, List.length_map]

end acyclic

/-! ## The walk in order -/

/-- Where nothing holds itself the layout is a walk through the forest of holders that takes each
control before those inside it: every control has one place, records what holds it, stands at
depth zero if nothing does and one deeper than its holder otherwise, has its descendants directly
behind it, and controls with the same holder follow the order of the document. A stack of the
controls that are still to be placed gives the same order. -/
theorem layout_preorder (doc : Document) (hvalid : doc.validate = .ok ())
    (hend : ∀ c ∈ doc.controls, ¬ Above doc.holder? c c) :
    (doc.layout.map Placed.control).Perm doc.controls ∧
    (∀ p ∈ doc.layout, p.holder = doc.holder? p.control) ∧
    (∀ p ∈ doc.layout, p.holder = none → p.depth = 0) ∧
    (∀ p ∈ doc.layout, ∀ holder, p.holder = some holder →
      ∃ q ∈ doc.layout, q.control = holder ∧ p.depth = q.depth + 1) ∧
    (∀ before p behind, doc.layout = before ++ p :: behind →
      ∃ inner rest, behind = inner ++ rest ∧
        ∀ q ∈ doc.layout, q ∈ inner ↔ Above doc.holder? q.control p.control) ∧
    (∀ holder, (doc.layout.filter fun p => p.holder = holder).map Placed.control =
      doc.controls.filter fun c => doc.holder? c = holder) ∧
    doc.layout = doc.unstack doc.controls.length [] (doc.roots.map fun c => (c, 0)) := by
  have hids := ((valid_iff_sound doc).mp ((validate_eq_ok_iff doc).mp hvalid)).ids_nodup
  have hend : doc.HoldersEnd := hend
  refine ⟨hend.layout_perm hids, fun p hp => (climb_of_mem_layout hids hp).2.1,
    fun p hp => depth_of_root hids hp, ?_, ?_, hend.siblings_in_order hids,
    hend.layout_eq_unstack hids⟩
  · intro p hp holder hholder
    have hmem : holder ∈ doc.controls := by
      refine mem_of_holder? (c := p.control) ?_
      rw [← (climb_of_mem_layout hids hp).2.1, hholder]
    obtain ⟨q, hq, rfl⟩ := hend.exists_place hids hmem
    exact ⟨q, hq, rfl, depth_of_holder hids hp hq hholder⟩
  · intro before p behind hsplit
    have hp : p ∈ doc.layout := hsplit ▸ List.mem_append_right _ List.mem_cons_self
    obtain ⟨m, hm, hblock⟩ := exists_block hp
    obtain ⟨before', behind', hplaces⟩ := hblock
    -- the place occurs once, so both cuts are the same
    have hcut : before' ++ p :: (doc.innerPlaces m p ++ behind') = before ++ p :: behind := by
      rw [← hsplit, ← hplaces, List.append_assoc, List.cons_append]
    have hnodup := (hend.nodup_layout hids).of_map
    obtain ⟨-, hbehind⟩ := eq_of_append_nodup (hsplit ▸ hnodup) hcut.symm
    refine ⟨doc.innerPlaces m p, behind', hbehind, fun q hq => ?_⟩
    rw [hend.mem_innerPlaces hids hp hm ⟨before', behind', hplaces⟩, and_iff_right hq]

/-- Two pages that name a page frame behind them in another case, with controls on the second page
that stand before it. -/
def framedPages : Document :=
  { controls :=
      [{ id := "b", kind := .button, name := "B", parent := some "p2" },
        { id := "l", kind := .label, name := "L" },
        { id := "p1", kind := .page, name := "P1",
          props := Properties.withExtra {} ExtraKey.pageFrame (.text "tabs") },
        { id := "p2", kind := .page, name := "P2",
          props := Properties.withExtra {} ExtraKey.pageFrame (.text "TABS") },
        { id := "q", kind := .pageframe, name := "Tabs" },
        { id := "t", kind := .textbox, name := "T", parent := some "p2" }] }

theorem layout_preorder_framedPages :
    framedPages.validate = .ok () ∧
      (∀ c ∈ framedPages.controls, ¬ Above framedPages.holder? c c) ∧
      framedPages.layout.map (fun p => (p.control.id, p.depth)) =
        [("l", 0), ("q", 0), ("p1", 1), ("p2", 1), ("b", 2), ("t", 2)] ∧
      framedPages.unstack 6 [] (framedPages.roots.map fun c => (c, 0)) = framedPages.layout := by
  have hvalid : framedPages.validate = .ok () := by decide +kernel
  have hids : (framedPages.controls.map Control.id).Nodup := by decide +kernel
  have hend : framedPages.HoldersEnd :=
    holdersEnd_of_forall_mem_layout hids (by decide +kernel)
  exact ⟨hvalid, hend, by decide +kernel,
    (layout_preorder framedPages hvalid hend).2.2.2.2.2.2.symm⟩

end ScreenForms.Document
