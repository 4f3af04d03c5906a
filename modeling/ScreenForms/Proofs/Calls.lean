import ScreenForms.Proofs.Downstream
import ScreenForms.Proofs.LayoutOrder

/-!
# The calls of the generator

A program is written by a series of calls: one for each control, one for the end of each control
that has others inside, one for each handler and one for each free method. Where a control ends is
read off the depths in the layout, with the controls that are still open on a stack
(`closingWalk`), and comes out as in the walk through the form (`closingWalk_layout`). So opening
and closing calls nest like brackets and everything inside a control stands between its two calls
(`calls_balanced`).
-/

namespace ScreenForms

/-- What is asked of the writer of a program. -/
inductive Call where
  | widget (placed : Placed)
  | close (placed : Placed)
  | handler (handler : Handler)
  | method (method : FormMethod)
  deriving DecidableEq, Repr

/-- The call for a step of the walk through a form. -/
def Visit.call : Visit → Call
  | .enter placed => .widget placed
  | .leave placed => .close placed

/-- The control that a step leaves. -/
def Visit.left? : Visit → Option Placed
  | .enter _ => none
  | .leave placed => some placed

namespace Document

/-- The steps for some places, given the controls that are still open. A control closes those that
stand as deep as itself or deeper, the innermost first. -/
def closingWalk : List Placed → List Placed → List Visit
  | scopes, [] => scopes.map .leave
  | scopes, p :: rest =>
    (scopes.takeWhile fun s => p.depth ≤ s.depth).map .leave ++
      .enter p ::
        closingWalk
          ((if p.kind.opensScope then [p] else []) ++ scopes.dropWhile fun s => p.depth ≤ s.depth)
          rest

/-- The calls for a form: for its controls, its handlers and its methods. -/
def calls (doc : Document) : List Call :=
  (closingWalk [] doc.layout).map Visit.call ++ doc.handlers.map .handler ++
    doc.methods.map .method

/-- The controls that are open behind some steps, the innermost first. A control that is left has
to be the innermost open one. -/
def openScopes : List Placed → List Visit → Option (List Placed)
  | scopes, [] => some scopes
  | scopes, .enter p :: rest => openScopes (if p.kind.opensScope then p :: scopes else scopes) rest
  | [], .leave _ :: _ => none
  | s :: scopes, .leave p :: rest => if p = s then openScopes scopes rest else none

variable {doc : Document} {c : Control} {p q : Placed} {scopes rest : List Placed}

/-! ## Ends read off the depths -/

/-- No place at the front is deeper than a given depth. -/
def EndsAt (depth : Nat) (rest : List Placed) : Prop := ∀ q ∈ rest.head?, q.depth ≤ depth

theorem EndsAt.mono {depth depth' : Nat} (h : EndsAt depth rest) (hle : depth ≤ depth') :
    EndsAt depth' rest :=
  fun q hq => Nat.le_trans (h q hq) hle

theorem EndsAt.flatMap_placesFrom {depth : Nat} (h : EndsAt depth rest) (n : Nat)
    (holder : Option Control) (l : List Control) :
    EndsAt depth (l.flatMap (doc.placesFrom n depth holder) ++ rest) := by
  rcases n with _ | n
  · have hnone : l.flatMap (doc.placesFrom 0 depth holder) = [] :=
      List.flatMap_eq_nil_iff.mpr fun _ _ => rfl
    rwa [hnone]
  · rcases l with _ | ⟨c, l⟩
    · exact h
    · rw [List.flatMap_cons, placesFrom_succ]
      rintro q ⟨⟩
      exact Nat.le_refl depth

/-- A control is closed by the next one that is not deeper, or by the end. -/
theorem closingWalk_cons_of_endsAt (h : EndsAt p.depth rest) :
    closingWalk (p :: scopes) rest = .leave p :: closingWalk scopes rest := by
  rcases rest with _ | ⟨q, rest⟩
  · rfl
  · have hle : q.depth ≤ p.depth := h q rfl
    rw [closingWalk, closingWalk, List.takeWhile_cons_of_pos (by simpa using hle),
      List.dropWhile_cons_of_pos (by simpa using hle)]
    rfl

theorem closingWalk_enter (h : ∀ s ∈ scopes, s.depth < p.depth) :
    closingWalk scopes (p :: rest) =
      .enter p :: closingWalk ((if p.kind.opensScope then [p] else []) ++ scopes) rest := by
  have hkept : ∀ s ∈ scopes.head?, ¬ (decide (p.depth ≤ s.depth)) = true := by
    intro s hs
    simpa using h s (List.mem_of_mem_head? hs)
  have htake : (scopes.takeWhile fun s => p.depth ≤ s.depth) = [] := by
    cases scopes with
    | nil => rfl
    | cons s scopes => exact List.takeWhile_cons_of_neg (hkept s rfl)
  have hdrop : (scopes.dropWhile fun s => p.depth ≤ s.depth) = scopes := by
    cases scopes with
    | nil => rfl
    | cons s scopes => exact List.dropWhile_cons_of_neg (hkept s rfl)
  rw [closingWalk, htake, hdrop]
  rfl

/-- Siblings are walked one after the other if each of them is walked from its places. -/
theorem closingWalk_flatMap {n depth : Nat} {holder : Option Control} {l : List Control}
    (hwalk : ∀ c rest, EndsAt depth rest →
      closingWalk scopes (doc.placesFrom n depth holder c ++ rest) =
        doc.visitFrom n depth holder c ++ closingWalk scopes rest)
    (hrest : EndsAt depth rest) :
    closingWalk scopes (l.flatMap (doc.placesFrom n depth holder) ++ rest) =
      l.flatMap (doc.visitFrom n depth holder) ++ closingWalk scopes rest := by
  induction l with
  | nil => rfl
  | cons c l ih =>
    rw [List.flatMap_cons, List.flatMap_cons, List.append_assoc, List.append_assoc,
      hwalk c _ (hrest.flatMap_placesFrom n holder l), ih]

theorem closingWalk_placesFrom (n : Nat) {depth : Nat} (holder : Option Control) (c : Control)
    (hscopes : ∀ s ∈ scopes, s.depth < depth) (hrest : EndsAt depth rest) :
    closingWalk scopes (doc.placesFrom n depth holder c ++ rest) =
      doc.visitFrom n depth holder c ++ closingWalk scopes rest := by
  induction n generalizing depth holder c scopes rest with
  | zero => rfl
  | succ n ih =>
    rw [placesFrom_succ, List.cons_append, closingWalk_enter hscopes, visitFrom]
    have hlt : ∀ s ∈ (if c.kind.opensScope then
        [({ control := c, depth, holder } : Placed)] else []) ++ scopes, s.depth < depth + 1 := by
      intro s hs
      rcases List.mem_append.mp hs with hs | hs
      · split at hs
        · obtain rfl := List.mem_singleton.mp hs
          exact Nat.lt_succ_self depth
        · cases hs
      · exact Nat.lt_succ_of_lt (hscopes s hs)
    rw [closingWalk_flatMap (fun d rest hrest => ih (some c) d hlt hrest)
      (hrest.mono (Nat.le_succ depth))]
    by_cases hopens : c.kind.opensScope
    · simp only [hopens, if_true, List.cons_append, List.nil_append]
      rw [closingWalk_cons_of_endsAt hrest, List.append_assoc]
      rfl
    · simp only [hopens, Bool.false_eq_true, if_false, List.nil_append, List.append_nil]
      rfl

/-- Reading the ends off the depths gives the walk through the form. -/
theorem closingWalk_layout (doc : Document) : closingWalk [] doc.layout = doc.visits := by
  have hwalk : ∀ c rest, EndsAt 0 rest →
      closingWalk [] (doc.placesFrom doc.controls.length 0 none c ++ rest) =
        doc.visitFrom doc.controls.length 0 none c ++ closingWalk [] rest :=
    fun c _ hrest => closingWalk_placesFrom _ none c (List.forall_mem_nil _) hrest
  have hend : EndsAt 0 [] := by
    rintro q ⟨⟩
  have h := closingWalk_flatMap (l := doc.roots) hwalk hend
  rw [List.append_nil, ← layout_eq_flatMap, closingWalk, List.map_nil, List.append_nil] at h
  rw [h, visits]

/-! ## Brackets -/

theorem openScopes_append (xs ys : List Visit) :
    openScopes scopes (xs ++ ys) = (openScopes scopes xs).bind fun s => openScopes s ys := by
  fun_induction openScopes scopes xs with
  | case1 => rfl
  | case2 scopes p rest ih => exact ih
  | case3 => rfl
  | case4 p scopes rest ih =>
    rw [List.cons_append, openScopes, if_pos rfl]
    exact ih
  | case5 s scopes p rest hne =>
    rw [List.cons_append, openScopes, if_neg hne]
    rfl

theorem openScopes_flatMap {α : Type} {l : List α} {f : α → List Visit}
    (h : ∀ a ∈ l, openScopes scopes (f a) = some scopes) :
    openScopes scopes (l.flatMap f) = some scopes := by
  induction l with
  | nil => rfl
  | cons a l ih =>
    obtain ⟨ha, hl⟩ := List.forall_mem_cons.mp h
    rw [List.flatMap_cons, openScopes_append, ha]
    exact ih hl

/-- The walk of a control leaves the open controls as they were. -/
theorem openScopes_visitFrom (n depth : Nat) (holder : Option Control) (c : Control) :
    openScopes scopes (doc.visitFrom n depth holder c) = some scopes := by
  induction n generalizing depth holder c scopes with
  | zero => rfl
  | succ n ih =>
    rw [visitFrom, openScopes_append, openScopes,
      openScopes_flatMap fun d _ => ih (depth + 1) (some c) d]
    by_cases hopens : c.kind.opensScope <;> simp [Placed.kind, hopens, openScopes]

/-- What is left in a walk is what is entered and has others inside. -/
theorem filterMap_left?_visitFrom (n depth : Nat) (holder : Option Control) (c : Control) :
    ((doc.visitFrom n depth holder c).filterMap Visit.left?).Perm
      ((doc.placesFrom n depth holder c).filter fun p => p.kind.opensScope) := by
  induction n generalizing depth holder c with
  | zero => exact .nil
  | succ n ih =>
    rw [visitFrom, placesFrom_succ, List.filterMap_append, List.filterMap_cons, List.filter_cons,
      List.filterMap_flatMap, List.filter_flatMap]
    have hinner := List.Perm.flatMap_left (doc.heldBy c) fun d _ => ih (depth + 1) (some c) d
    by_cases hopens : c.kind.opensScope
    · simp only [Visit.left?, Placed.kind, hopens, if_true, List.filterMap_cons,
        List.filterMap_nil]
      exact List.perm_append_singleton _ _ |>.trans (hinner.cons _)
    · simpa [Visit.left?, Placed.kind, hopens] using hinner

theorem filterMap_left?_visits (doc : Document) :
    (doc.visits.filterMap Visit.left?).Perm (doc.layout.filter fun p => p.kind.opensScope) := by
  rw [visits, layout_eq_flatMap, List.filterMap_flatMap, List.filter_flatMap]
  exact List.Perm.flatMap_left _ fun c _ => filterMap_left?_visitFrom _ 0 none c

theorem mem_entered_iff {walk : List Visit} : .enter q ∈ walk ↔ q ∈ walk.filterMap Visit.entered? := by
  rw [List.mem_filterMap]
  constructor
  · exact fun h => ⟨_, h, rfl⟩
  · rintro ⟨_ | _, hmem, h⟩
    · exact Option.some.inj h ▸ hmem
    · cases h

theorem mem_left_iff {walk : List Visit} : .leave q ∈ walk ↔ q ∈ walk.filterMap Visit.left? := by
  rw [List.mem_filterMap]
  constructor
  · exact fun h => ⟨_, h, rfl⟩
  · rintro ⟨_ | _, hmem, h⟩
    · cases h
    · exact Option.some.inj h ▸ hmem

theorem opensScope_eq (kind : ControlKind) :
    kind.opensScope = decide (kind ∈ [ControlKind.container, .page, .pageframe]) := by
  cases kind <;> rfl

section acyclic

variable (hids : (doc.controls.map Control.id).Nodup) (hend : doc.HoldersEnd)
include hids hend

theorem HoldersEnd.left_perm :
    ((doc.visits.filterMap Visit.left?).map Placed.control).Perm
      (doc.controls.filter fun c => c.kind ∈ [ControlKind.container, .page, .pageframe]) := by
  have hkinds : (doc.layout.filter fun p => p.kind.opensScope).map Placed.control =
      (doc.layout.map Placed.control).filter
        fun c => c.kind ∈ [ControlKind.container, .page, .pageframe] := by
    rw [List.filter_map]
    exact congrArg _ (List.filter_congr fun p _ => opensScope_eq p.kind)
  refine ((filterMap_left?_visits doc).map Placed.control).trans ?_
  rw [hkinds]
  exact (hend.layout_perm hids).filter _

/-- Between the two steps for a control stand those for its descendants and no others. The walk of
the control alone is a part of the whole walk, and its inner places are known from the layout. -/
theorem HoldersEnd.exists_scope (h : .leave p ∈ doc.visits) :
    ∃ before inner behind : List Visit,
      doc.visits = before ++ .enter p :: inner ++ .leave p :: behind ∧
      ∀ q, .enter q ∈ doc.visits → (.enter q ∈ inner ↔ Above doc.holder? q.control p.control) := by
  obtain ⟨hp, hopens⟩ := List.mem_filter.mp
    ((filterMap_left?_visits doc).mem_iff.mp (mem_left_iff.mp h))
  obtain ⟨m, hm, hpart⟩ := exists_block_visits hp
  have hblock := block_of_visits hpart
  obtain ⟨before, behind, hvisits⟩ := hpart
  have hopens : p.control.kind.opensScope = true := hopens
  rw [visitFrom, if_pos hopens] at hvisits
  refine ⟨before, (doc.heldBy p.control).flatMap
    (doc.visitFrom m (p.depth + 1) (some p.control)), behind, ?_, fun q hq => ?_⟩
  · rw [← hvisits]
    simp
  · have hinner : ((doc.heldBy p.control).flatMap
        (doc.visitFrom m (p.depth + 1) (some p.control))).filterMap Visit.entered? =
          doc.innerPlaces m p := List.filterMap_flatMap
    rw [mem_entered_iff, hinner, hend.mem_innerPlaces hids hp hm hblock]
    exact and_iff_right (mem_entered_iff.mp hq)

end acyclic

/-- The handlers of the form come first, then those of the controls in the order of the layout. -/
theorem handlers_eq_owned (hids : (doc.controls.map Control.id).Nodup)
    (hform : ∀ c ∈ doc.controls, c.id ≠ formOwner) :
    doc.handlers =
      (doc.codedBindings.filter fun b => b.owner == formOwner).map doc.handlerFor ++
        doc.layout.flatMap fun p =>
          (doc.codedBindings.filter fun b => b.owner == p.control.id).map doc.handlerFor := by
  rw [handlers, handlersOf_none]
  refine congrArg _ (List.flatMap_congr fun p hp => ?_)
  have hc := (climb_of_mem_layout hids hp).1
  exact handlersOf_some hids hc fun b _ howner => howner ▸ hform p.control hc

/-! ## The calls in order -/

/-- Where nothing holds itself and no control has the id of the form, the calls for a form are
those of the walk through its controls, then one for each binding with code that the form or a
control owns, those of the form first and the others in the order of the layout, then one for each
method. In the walk every control is entered once, and left once if it is of a kind that has
others inside; the steps between are those of its descendants, and entering and leaving nest like
brackets. -/
theorem calls_balanced (doc : Document) (hvalid : doc.validate = .ok ())
    (hend : ∀ c ∈ doc.controls, ¬ Above doc.holder? c c)
    (hform : ∀ c ∈ doc.controls, c.id ≠ formOwner) :
    doc.calls = doc.visits.map Visit.call ++ doc.handlers.map .handler ++
      doc.methods.map .method ∧
    ((doc.visits.filterMap Visit.entered?).map Placed.control).Perm doc.controls ∧
    ((doc.visits.filterMap Visit.left?).map Placed.control).Perm
      (doc.controls.filter fun c => c.kind ∈ [ControlKind.container, .page, .pageframe]) ∧
    (∀ p, .leave p ∈ doc.visits →
      ∃ before inner behind, doc.visits = before ++ .enter p :: inner ++ .leave p :: behind ∧
        ∀ q, .enter q ∈ doc.visits →
          (.enter q ∈ inner ↔ Above doc.holder? q.control p.control)) ∧
    openScopes [] doc.visits = some [] ∧
    doc.handlers.Perm (doc.liveBindings.map doc.handlerFor) ∧
    doc.handlers =
      (doc.codedBindings.filter fun b => b.owner == formOwner).map doc.handlerFor ++
        doc.layout.flatMap fun p =>
          (doc.codedBindings.filter fun b => b.owner == p.control.id).map doc.handlerFor := by
  have hids := ((valid_iff_sound doc).mp ((validate_eq_ok_iff doc).mp hvalid)).ids_nodup
  have hend : doc.HoldersEnd := hend
  refine ⟨?_, hend.layout_perm hids, hend.left_perm hids, fun p => hend.exists_scope hids,
    openScopes_flatMap fun c _ => openScopes_visitFrom _ 0 none c,
    hend.handlers_perm_live hids (.inl hform), handlers_eq_owned hids hform⟩
  rw [calls, closingWalk_layout]

theorem calls_balanced_pagedButton :
    pagedButton.validate = .ok () ∧
      (∀ c ∈ pagedButton.controls, ¬ Above pagedButton.holder? c c) ∧
      (∀ c ∈ pagedButton.controls, c.id ≠ formOwner) ∧
      openScopes [] pagedButton.visits = some [] ∧ pagedButton.calls.length = 7 := by
  have hvalid : pagedButton.validate = .ok () := by decide +kernel
  have hids : (pagedButton.controls.map Control.id).Nodup := by decide +kernel
  have hend : pagedButton.HoldersEnd :=
    holdersEnd_of_forall_mem_layout hids (by decide +kernel)
  have hform : ∀ c ∈ pagedButton.controls, c.id ≠ formOwner := by decide +kernel
  exact ⟨hvalid, hend, hform, (calls_balanced pagedButton hvalid hend hform).2.2.2.2.1,
    by decide +kernel⟩

end Document

end ScreenForms
