import Mathlib.Data.List.Perm.Basic
import Mathlib.Logic.Function.Basic
import ScreenForms.Export
import ScreenForms.Proofs.SortedMaps
import ScreenForms.Proofs.Soundness

/-!
# Renaming ids

Ids tell the controls of a document apart and nothing more. A document and the same document under
other ids are related by `Document.IsRenamed`; whatever is looked up by an id in one of them is
found in the other under the new id, so the walk through the controls, the code of the events and
the handlers are the same up to the ids in them. The order of the bindings does change with the
ids, as their keys begin with them, but not among the bindings of one owner.
-/

namespace ScreenForms

/-- A control under another id and in a parent under another id. -/
def Control.renameIds (f : ControlId → ControlId) (c : Control) : Control :=
  { c with id := f c.id, parent := c.parent.map f }

/-- A binding of an owner under another id. -/
def EventBinding.renameIds (f : ControlId → ControlId) (b : EventBinding) : EventBinding :=
  { b with owner := f b.owner }

/-- A document with other ids. The bindings are stored anew, under their new keys. -/
def Document.renameIds (f : ControlId → ControlId) (doc : Document) : Document :=
  { doc with
    controls := doc.controls.map (Control.renameIds f)
    events := (doc.events.values.map (EventBinding.renameIds f)).foldl EventMap.bind
      SortedMap.empty }

/-- Controls that are renamed alike were alike, since all other fields are kept. -/
theorem Control.renameIds_injective {f : ControlId → ControlId} (hf : Function.Injective f) :
    Function.Injective (Control.renameIds f) := by
  rintro ⟨⟩ ⟨⟩ h
  simp only [renameIds, Control.mk.injEq] at h ⊢
  obtain ⟨hid, hkind, hname, hx, hy, hwidth, hheight, hparent, hprops⟩ := h
  exact ⟨hf hid, hkind, hname, hx, hy, hwidth, hheight, Option.map_injective hf hparent, hprops⟩

/-! ## The order of bindings -/

/-- Names with the same beginning are in the order of what follows it. -/
theorem append_lt_append_iff {s t u : String} : s ++ t < s ++ u ↔ t < u := by
  have happend : ∀ {t u : String}, t < u → s ++ t < s ++ u := by
    intro t u h
    rw [String.lt_iff] at h ⊢
    rw [String.toList_append, String.toList_append]
    exact List.append_left_lt h
  refine ⟨fun h => ?_, happend⟩
  by_contra hle
  by_cases heq : u = t
  · exact String.lt_irrefl _ (heq ▸ h)
  · exact String.lt_irrefl _
      (String.lt_trans h (happend (Std.lt_of_le_of_ne (String.not_lt.mp hle) heq)))

namespace EventMap

/-- Every binding is stored under its own key. -/
def IsKeyed (m : EventMap) : Prop := ∀ e ∈ m.entries, e.1 = e.2.key

/-- Where every entry stands under the key of its binding, the keys are a function of the
bindings. -/
theorem IsKeyed.keys_eq {m : EventMap} (h : m.IsKeyed) :
    m.entries.map Prod.fst = m.values.map EventBinding.key := by
  rw [SortedMap.values, List.map_map]
  exact List.map_congr_left fun e he => h e he

/-- Binding keeps this, so that every map made of bindings has it. -/
theorem IsKeyed.bind {m : EventMap} (h : m.IsKeyed) (b : EventBinding) : (m.bind b).IsKeyed := by
  intro e he
  rcases mem_insertEntry he with rfl | he
  · rfl
  · exact h e he

/-- A binding with a new key is added to the others and replaces none. -/
theorem values_bind_perm {m : EventMap} (h : m.IsKeyed) {b : EventBinding}
    (hb : b.key ∉ m.values.map EventBinding.key) : (m.bind b).values.Perm (b :: m.values) := by
  rw [← h.keys_eq] at hb
  exact (insertEntry_perm b hb).map Prod.snd

/-- Bindings with distinct keys are all stored, each under its own key. The order in which they are
stored is that of the keys, so that only the set of them can be told. -/
theorem foldl_bind_perm {bs : List EventBinding} {m : EventMap} (h : m.IsKeyed)
    (hkeys : ((m.values ++ bs).map EventBinding.key).Nodup) :
    (bs.foldl EventMap.bind m).IsKeyed ∧
      (bs.foldl EventMap.bind m).values.Perm (m.values ++ bs) := by
  induction bs generalizing m with
  | nil => exact ⟨h, by simp⟩
  | cons b bs ih =>
    have hmiddle : (m.values ++ b :: bs).Perm (b :: m.values ++ bs) := List.perm_middle
    have hkeys' := (hmiddle.map EventBinding.key).nodup_iff.mp hkeys
    have hfresh : b.key ∉ m.values.map EventBinding.key := by
      rw [List.cons_append, List.map_cons, List.nodup_cons] at hkeys'
      exact fun hmem => hkeys'.1 (List.map_subset _ (List.subset_append_left _ _) hmem)
    have hbound : ((m.bind b).values ++ bs).Perm (b :: m.values ++ bs) :=
      (values_bind_perm h hfresh).append_right bs
    obtain ⟨hkeyed, hperm⟩ := ih (h.bind b) ((hbound.map EventBinding.key).nodup_iff.mpr hkeys')
    exact ⟨hkeyed, hperm.trans (hbound.trans hmiddle.symm)⟩

/-- The bindings of one owner are in the order of their events. -/
theorem IsKeyed.pairwise_ofOwner {m : EventMap} (h : m.IsKeyed) (owner : ControlId) :
    (m.ofOwner owner).Pairwise fun a b => a.event < b.event := by
  have hkeys : m.values.Pairwise fun a b => a.key < b.key := by
    rw [SortedMap.values, List.pairwise_map]
    refine m.sorted.imp_of_mem fun {a b} ha hb hab => ?_
    rwa [← h a ha, ← h b hb]
  refine (hkeys.sublist List.filter_sublist).imp_of_mem fun {a b} ha hb hab => ?_
  have howner : ∀ {c : EventBinding}, c ∈ m.ofOwner owner → c.owner = owner :=
    fun hc => by simpa using (List.mem_filter.mp hc).2
  -- the keys begin alike, so the events behind the owner decide
  rw [EventBinding.key, EventBinding.key, eventKey, eventKey, howner ha, howner hb] at hab
  exact append_lt_append_iff.mp hab

end EventMap

/-! ## Renamed documents -/

/-- A document is another one under other ids. -/
structure Document.IsRenamed (f : ControlId → ControlId) (doc doc' : Document) : Prop where
  window : doc'.window = doc.window
  methods : doc'.methods = doc.methods
  controls : doc'.controls = doc.controls.map (Control.renameIds f)
  keyed : doc.events.IsKeyed
  keyed' : doc'.events.IsKeyed
  events : doc'.events.values.Perm (doc.events.values.map (EventBinding.renameIds f))

/-- The renamed document is related to its original field by field. Everything below is shown of
related documents, so that it also holds of parts that were localized. -/
theorem Document.isRenamed_renameIds {f : ControlId → ControlId} {doc : Document}
    (hkeyed : doc.events.IsKeyed)
    (hkeys : (doc.events.values.map fun b => (b.renameIds f).key).Nodup) :
    doc.IsRenamed f (doc.renameIds f) := by
  have hempty : EventMap.IsKeyed SortedMap.empty := nofun
  have hnodup : ((SortedMap.empty.values ++ doc.events.values.map (EventBinding.renameIds f)).map
      EventBinding.key).Nodup := by
    rwa [SortedMap.values, SortedMap.empty, List.map_nil, List.nil_append, List.map_map]
  obtain ⟨hkeyed', hperm⟩ := EventMap.foldl_bind_perm hempty hnodup
  exact ⟨rfl, rfl, rfl, hkeyed, hkeyed', hperm⟩

namespace Document.IsRenamed

variable {f : ControlId → ControlId} {doc doc' : Document} (h : doc.IsRenamed f doc')
  (hf : Function.Injective f)
include h

/-! ### Looking controls up -/

/-- Names are not touched, so that a name leads to the renamed control. -/
theorem controlNamed?_eq (name : String) :
    doc'.controlNamed? name = (doc.controlNamed? name).map (Control.renameIds f) := by
  rw [controlNamed?, h.controls, List.find?_map]
  rfl

section lookup

include hf

/-- By its new identity the renamed control is found: no other control got the same one. -/
theorem control?_eq (id : ControlId) :
    doc'.control? (f id) = (doc.control? id).map (Control.renameIds f) := by
  rw [control?, h.controls, List.find?_map]
  congr 2
  funext c
  exact decide_eq_decide.mpr hf.eq_iff

omit hf in
theorem pageFrameOf?_eq (c : Control) :
    doc'.pageFrameOf? (c.renameIds f) = (doc.pageFrameOf? c).map (Control.renameIds f) := by
  have hroot : (c.renameIds f).parent = none ↔ c.parent = none := Option.map_eq_none_iff
  unfold pageFrameOf?
  simp only [hroot]
  show (if c.kind = .page ∧ c.parent = none then _ else _) = _
  split
  · show Option.filter _ ((c.props.extraText? ExtraKey.pageFrame).bind doc'.controlNamed?) = _
    rcases c.props.extraText? ExtraKey.pageFrame with _ | name
    · rfl
    · rw [Option.bind_some, Option.bind_some, h.controlNamed?_eq]
      rcases doc.controlNamed? name with _ | frame
      · rfl
      · rw [Option.map_some, Option.filter_some, Option.filter_some]
        show (if frame.kind == .pageframe then _ else _) = _
        split <;> rfl
  · rfl

/-- The holder of a renamed control is its renamed holder. -/
theorem holder?_eq (c : Control) :
    doc'.holder? (c.renameIds f) = (doc.holder? c).map (Control.renameIds f) := by
  rcases hparent : c.parent with _ | id
  · have hroot : (c.renameIds f).parent = none := by rw [Control.renameIds, hparent]; rfl
    rw [holder?, holder?, hroot, hparent]
    exact h.pageFrameOf?_eq c
  · have hheld : (c.renameIds f).parent = some (f id) := by rw [Control.renameIds, hparent]; rfl
    rw [holder?, holder?, hheld, hparent]
    exact h.control?_eq hf id

theorem roots_eq : doc'.roots = doc.roots.map (Control.renameIds f) := by
  rw [roots, roots, h.controls, List.filter_map]
  congr 1
  refine List.filter_congr fun c _ => ?_
  rw [Function.comp_apply, h.holder?_eq hf, Option.isNone_map]

/-- What a control holds keeps its order. -/
theorem heldBy_eq (c : Control) :
    doc'.heldBy (c.renameIds f) = (doc.heldBy c).map (Control.renameIds f) := by
  rw [heldBy, heldBy, h.controls, List.filter_map]
  congr 1
  refine List.filter_congr fun d _ => ?_
  rw [Function.comp_apply, h.holder?_eq hf, Option.any_map]
  congr 1
  funext e
  exact decide_eq_decide.mpr hf.eq_iff

end lookup

end Document.IsRenamed

/-! ## The walk through the controls -/

/-- A control at its place under other ids. -/
def Placed.renameIds (f : ControlId → ControlId) (p : Placed) : Placed :=
  { p with control := p.control.renameIds f, holder := p.holder.map (Control.renameIds f) }

/-- A step of the walk under other ids. -/
def Visit.renameIds (f : ControlId → ControlId) : Visit → Visit
  | .enter p => .enter (p.renameIds f)
  | .leave p => .leave (p.renameIds f)

section placed

variable {f : ControlId → ControlId}

theorem Visit.entered?_renameIds (v : Visit) :
    (v.renameIds f).entered? = v.entered?.map (Placed.renameIds f) := by
  cases v <;> rfl

@[simp] theorem Placed.isFramedPage_renameIds (p : Placed) :
    (p.renameIds f).isFramedPage = p.isFramedPage := by
  obtain ⟨c, depth, _ | holder⟩ := p <;> rfl

@[simp] theorem Placed.radioGroup_renameIds (p : Placed) :
    (p.renameIds f).radioGroup = p.radioGroup := by
  obtain ⟨c, depth, _ | holder⟩ := p <;> rfl

/-- Series go by names, not by ids. -/
theorem Placed.series?_renameIds (p : Placed) : (p.renameIds f).series? = p.series? := by
  unfold series?
  rw [radioGroup_renameIds, isFramedPage_renameIds]
  obtain ⟨c, depth, _ | holder⟩ := p <;> rfl

/-- Ranks count controls of one kind and name, which renaming leaves alone. -/
theorem rankedFrom_map_renameIds (seen : List (ControlKind × String)) (visits : List Visit) :
    rankedFrom seen (visits.map (Visit.renameIds f)) =
      (rankedFrom seen visits).map fun v => (v.1.renameIds f, v.2) := by
  induction visits generalizing seen with
  | nil => rfl
  | cons visit visits ih =>
    have hseries : (visit.renameIds f).entered?.bind Placed.series? =
        visit.entered?.bind Placed.series? := by
      rw [Visit.entered?_renameIds]
      rcases visit.entered? with _ | p
      · rfl
      · exact p.series?_renameIds
    rw [List.map_cons, rankedFrom, rankedFrom, hseries]
    split
    · rw [ih, List.map_cons]
    · rw [ih, List.map_cons]

end placed

namespace Document.IsRenamed

variable {f : ControlId → ControlId} {doc doc' : Document} (h : doc.IsRenamed f doc')
  (hf : Function.Injective f)
include h hf

/-- The walk takes the same way through the renamed document, with the same fuel. -/
theorem visitFrom_eq (n depth : Nat) (holder : Option Control) (c : Control) :
    doc'.visitFrom n depth (holder.map (Control.renameIds f)) (c.renameIds f) =
      (doc.visitFrom n depth holder c).map (Visit.renameIds f) := by
  induction n generalizing depth holder c with
  | zero => rfl
  | succ n ih =>
    have hheld : (doc'.heldBy (c.renameIds f)).flatMap
          (doc'.visitFrom n (depth + 1) (some (c.renameIds f))) =
        ((doc.heldBy c).flatMap (doc.visitFrom n (depth + 1) (some c))).map (Visit.renameIds f) := by
      rw [h.heldBy_eq hf, List.flatMap_map, List.map_flatMap]
      exact List.flatMap_congr fun d _ => ih (depth + 1) (some c) d
    rw [visitFrom, visitFrom, hheld, List.map_append, List.map_cons]
    congr 1
    show (if c.kind.opensScope then _ else _) = _
    split <;> rfl

theorem visits_eq : doc'.visits = doc.visits.map (Visit.renameIds f) := by
  rw [visits, visits, h.roots_eq hf, h.controls, List.length_map, List.flatMap_map, List.map_flatMap]
  exact List.flatMap_congr fun c _ => h.visitFrom_eq hf _ 0 none c

/-- Hence the places are the renamed places, in the same order. -/
theorem layout_eq : doc'.layout = doc.layout.map (Placed.renameIds f) := by
  rw [layout, layout, h.visits_eq hf, List.filterMap_map, List.map_filterMap]
  exact List.filterMap_congr fun v _ => v.entered?_renameIds

theorem rankedVisits_eq :
    doc'.rankedVisits = doc.rankedVisits.map fun v => (v.1.renameIds f, v.2) := by
  rw [rankedVisits, h.visits_eq hf, rankedFrom_map_renameIds]
  rfl

theorem rankedLayout_eq :
    doc'.rankedLayout = doc.rankedLayout.map fun p => (p.1.renameIds f, p.2) := by
  rw [rankedLayout, rankedLayout, h.rankedVisits_eq hf, List.filterMap_map, List.map_filterMap]
  refine List.filterMap_congr fun v _ => ?_
  rw [Function.comp_apply, Visit.entered?_renameIds]
  cases v.1.entered? <;> rfl

end Document.IsRenamed

/-! ## Checks -/

/-- Other ids break no rule for documents. A chain of parents in the renamed document comes from one
in the original, as renaming is injective. -/
theorem Document.IsRenamed.sound {f : ControlId → ControlId} {doc doc' : Document}
    (h : doc.IsRenamed f doc') (hf : Function.Injective f) (hs : doc.Sound) : doc'.Sound := by
  have hmem : ∀ {c' : Control}, c' ∈ doc'.controls →
      ∃ c ∈ doc.controls, c.renameIds f = c' := fun hc' => List.mem_map.mp (h.controls ▸ hc')
  have hparent : ∀ {c d : Control}, doc'.HasParent (c.renameIds f) (d.renameIds f) →
      doc.HasParent c d := by
    rintro c d ⟨hc, hd, hlink⟩
    have hinjective := Control.renameIds_injective hf
    rw [h.controls, List.mem_map_of_injective hinjective] at hc hd
    obtain ⟨id, hid, heq⟩ := Option.map_eq_some_iff.mp hlink
    exact ⟨hc, hd, hf heq ▸ hid⟩
  have hancestor : ∀ {c d' : Control}, Relation.TransGen doc'.HasParent (c.renameIds f) d' →
      ∃ d, d.renameIds f = d' ∧ Relation.TransGen doc.HasParent c d := by
    intro c d' hcd
    induction hcd with
    | single hlink =>
      obtain ⟨d, -, rfl⟩ := hmem hlink.2.1
      exact ⟨d, rfl, .single (hparent hlink)⟩
    | tail _ hlink ih =>
      obtain ⟨e, rfl, hce⟩ := ih
      obtain ⟨d, -, rfl⟩ := hmem hlink.2.1
      exact ⟨d, rfl, .tail hce (hparent hlink)⟩
  refine ⟨?_, ?_, ?_⟩
  · have hmap : doc'.controls.map Control.id = (doc.controls.map Control.id).map f := by
      rw [h.controls, List.map_map, List.map_map]
      rfl
    rw [hmap]
    exact hs.ids_nodup.map hf
  · intro c' hc' id' hid'
    obtain ⟨c, hc, rfl⟩ := hmem hc'
    obtain ⟨id, hid, rfl⟩ := Option.map_eq_some_iff.mp hid'
    obtain ⟨p, hp, rfl, hkind⟩ := hs.parent_holds c hc id hid
    exact ⟨p.renameIds f, h.controls ▸ List.mem_map_of_mem hp, rfl, hkind⟩
  · intro c' hcycle
    -- all controls on the cycle are renamed ones, and the old ones lie on a cycle too
    obtain ⟨d', hlink, -⟩ := Relation.TransGen.head'_iff.mp hcycle
    obtain ⟨c, -, rfl⟩ := hmem hlink.1
    obtain ⟨d, heq, hcd⟩ := hancestor hcycle
    obtain rfl := Control.renameIds_injective hf heq
    exact hs.no_cycle d hcd

/-! ## Code -/

/-- A handler of a control under another id. -/
def Handler.renameIds (f : ControlId → ControlId) (h : Handler) : Handler :=
  { h with owner := h.owner.map (Control.renameIds f) }

namespace Document.IsRenamed

variable {f : ControlId → ControlId} {doc doc' : Document} (h : doc.IsRenamed f doc')
  (hf : Function.Injective f) (hform : f formOwner = formOwner)
include h

/-- Changing all code in the same way keeps documents the same up to their ids. What is done to the
code may depend on the event, but not on the id of its owner. -/
theorem mapBodies {onEvent onEvent' : EventBinding → String} (onMethod : FormMethod → String)
    (hsame : ∀ b, onEvent' (b.renameIds f) = onEvent b) :
    (doc.mapBodies onEvent onMethod).IsRenamed f (doc'.mapBodies onEvent' onMethod) := by
  have hkeyed : ∀ {m : EventMap} {g : EventBinding → String}, m.IsKeyed →
      EventMap.IsKeyed (m.mapValues fun b => { b with code := g b }) := by
    intro m g hm e he
    obtain ⟨entry, hentry, rfl⟩ := List.mem_map.mp he
    exact hm entry hentry
  have hvalues : ∀ (m : EventMap) (g : EventBinding → String),
      (m.mapValues fun b => { b with code := g b }).values =
        m.values.map fun b => { b with code := g b } := by
    intro m g
    rw [SortedMap.values, SortedMap.values, SortedMap.mapValues, List.map_map, List.map_map]
    rfl
  refine ⟨h.window, ?_, h.controls, hkeyed h.keyed, hkeyed h.keyed', ?_⟩
  · exact congrArg (List.map fun m => { m with body := onMethod m }) h.methods
  · simp only [Document.mapBodies, hvalues, List.map_map]
    refine (h.events.map _).trans (.of_eq ?_)
    rw [List.map_map]
    refine List.map_congr_left fun b _ => ?_
    show { b.renameIds f with code := onEvent' (b.renameIds f) } = _
    rw [hsame]
    rfl

include hf

/-- The bindings of one owner are the same, in the same order. -/
theorem ofOwner_eq (id : ControlId) :
    EventMap.ofOwner doc'.events (f id) =
      (EventMap.ofOwner doc.events id).map (EventBinding.renameIds f) := by
  have hperm : (EventMap.ofOwner doc'.events (f id)).Perm
      ((EventMap.ofOwner doc.events id).map (EventBinding.renameIds f)) := by
    refine (h.events.filter _).trans (.of_eq ?_)
    rw [List.filter_map]
    congr 1
    exact List.filter_congr fun b _ => decide_eq_decide.mpr hf.eq_iff
  -- both lists are sorted by event, so they do not only have the same bindings
  have hasymm : ∀ a b : EventBinding, a.event < b.event → b.event < a.event → a = b :=
    fun _ _ hab hba => absurd (String.lt_trans hab hba) (String.lt_irrefl _)
  exact hperm.eq_of_pairwise (fun a b _ _ => hasymm a b) (h.keyed'.pairwise_ofOwner _)
    (List.pairwise_map.mpr (h.keyed.pairwise_ofOwner id))

include hform

/-- Code is translated for the name of its owner, whatever the id of that is. -/
theorem owningControl?_eq (b : EventBinding) :
    doc'.owningControl? (b.renameIds f) = doc.owningControl? b := by
  have hown : f b.owner = formOwner ↔ b.owner = formOwner :=
    ⟨fun heq => hf (heq.trans hform.symm), fun heq => heq ▸ hform⟩
  unfold owningControl? ownerName?
  simp only [EventBinding.renameIds, beq_iff_eq, hown, h.control?_eq hf, h.window]
  split
  · rfl
  · rw [Option.map_map]
    rfl

/-- Localizing a document replaces bodies only, so that renamed documents stay related. -/
theorem localize (options : ExportOptions) (target : Target) :
    (doc.localize options target).IsRenamed f (doc'.localize options target) := by
  refine h.mapBodies _ fun b => ?_
  unfold translateEvent
  rw [h.owningControl?_eq hf hform]
  rfl

/-- The handlers of a control are those of its renamed image, and keep their order: they are sorted
by event, not by owner. -/
theorem handlersOf_eq (owner : Option Control) :
    doc'.handlersOf (owner.map (Control.renameIds f)) =
      (doc.handlersOf owner).map (Handler.renameIds f) := by
  have hid : ((owner.map (Control.renameIds f)).map Control.id).getD formOwner =
      f ((owner.map Control.id).getD formOwner) := by
    cases owner with
    | none => exact hform.symm
    | some c => rfl
  have hname : ((owner.map (Control.renameIds f)).map Control.name).getD doc'.window.name =
      (owner.map Control.name).getD doc.window.name := by
    cases owner with
    | none => exact congrArg Window.name h.window
    | some c => rfl
  unfold handlersOf
  simp only [hid, hname, h.ofOwner_eq hf, List.filter_map, List.map_map]
  rfl

/-- The handlers of a form are the same up to the ids of their owners. -/
theorem handlers_eq : doc'.handlers = doc.handlers.map (Handler.renameIds f) := by
  rw [handlers, handlers, h.layout_eq hf, List.flatMap_map, List.map_append, List.map_flatMap]
  congr 1
  · exact h.handlersOf_eq hf hform none
  · exact List.flatMap_congr fun p _ => h.handlersOf_eq hf hform (some p.control)

end Document.IsRenamed

end ScreenForms
