import ScreenForms.Proofs.Ids
import ScreenForms.Proofs.Soundness
import ScreenForms.Screen.Build

/-!
# What every canvas keeps

Between two commands the controls of a canvas carry the ids that were issued, in their order, each
control is in a container that stands before it or in none, and windows that are open, latest or
targeted are containers on the canvas (`Canvas.Orderly`). A command makes new controls first
(`Canvas.Makes`) and adds them when they are finished.
-/

namespace ScreenForms.Screen

/-! ## Containers first -/

/-- An id is that of a container among some controls. -/
def HasContainer (cs : List Control) (id : ControlId) : Prop :=
  ∃ p ∈ cs, p.id = id ∧ p.kind = .container

theorem HasContainer.mono {cs ds : List Control} {id : ControlId} (hsub : cs ⊆ ds)
    (h : HasContainer cs id) : HasContainer ds id := by
  obtain ⟨p, hp, hpid, hkind⟩ := h
  exact ⟨p, hsub hp, hpid, hkind⟩

/-- Every control that has a parent stands behind it, and the parent is a container. -/
def ContainersFirst (cs : List Control) : Prop :=
  ∀ i d id, cs[i]? = some d → d.parent = some id → HasContainer (cs.take i) id

theorem ContainersFirst.append {cs ds : List Control} (h : ContainersFirst cs)
    (hds : ∀ d ∈ ds, ∀ id, d.parent = some id → HasContainer cs id) :
    ContainersFirst (cs ++ ds) := by
  intro i d id hi hid
  rcases Nat.lt_or_ge i cs.length with hlt | hge
  · rw [List.getElem?_append_left hlt] at hi
    rw [List.take_append_of_le_length (Nat.le_of_lt hlt)]
    exact h i d id hi hid
  · rw [List.getElem?_append_right hge] at hi
    refine (hds d (List.mem_of_getElem? hi) id hid).mono ?_
    rw [List.take_append, List.take_of_length_le hge]
    exact List.subset_append_left _ _

/-- A document whose containers come first is sound when its ids are distinct. Each step to a parent
leads to an earlier place in the list, so that no control is above itself. -/
theorem ContainersFirst.sound {doc : Document} (h : ContainersFirst doc.controls)
    (hids : (doc.controls.map Control.id).Nodup) : doc.Sound := by
  have hearlier : ∀ {c d}, Relation.TransGen doc.HasParent c d →
      ∀ {i : Nat}, doc.controls[i]? = some c → ∃ j < i, doc.controls[j]? = some d := by
    have hstep : ∀ {c d}, doc.HasParent c d →
        ∀ {i : Nat}, doc.controls[i]? = some c → ∃ j < i, doc.controls[j]? = some d := by
      rintro c d ⟨-, hd, hparent⟩ i hi
      obtain ⟨p, hp, hpid, -⟩ := h i c d.id hi hparent
      obtain rfl := Document.eq_of_id_eq hids (List.mem_of_mem_take hp) hd hpid
      obtain ⟨j, hj⟩ := List.getElem?_of_mem hp
      rw [List.getElem?_take] at hj
      split at hj
      · exact ⟨j, ‹_›, hj⟩
      · cases hj
    intro c d hcd
    induction hcd with
    | single hparent => exact hstep hparent
    | tail _ hparent ih =>
      intro i hi
      obtain ⟨j, hj, hd⟩ := ih hi
      obtain ⟨k, hk, he⟩ := hstep hparent hd
      exact ⟨k, Nat.lt_trans hk hj, he⟩
  refine ⟨hids, ?_, ?_⟩
  · intro c hc id hid
    obtain ⟨i, hi⟩ := List.getElem?_of_mem hc
    obtain ⟨p, hp, hpid, hkind⟩ := h i c id hi hid
    exact ⟨p, List.mem_of_mem_take hp, hpid, .inl hkind⟩
  · intro c hcycle
    obtain ⟨d, hcd, -⟩ := Relation.TransGen.head'_iff.mp hcycle
    obtain ⟨i, hi⟩ := List.getElem?_of_mem hcd.1
    obtain ⟨j, hj, hjc⟩ := hearlier hcycle hi
    have hlt : i < doc.controls.length := (List.getElem?_eq_some_iff.mp hi).1
    have heq : i = j :=
      (List.getElem?_inj hlt (Document.controls_nodup hids)).mp (hi.trans hjc.symm)
    omega

/-! ## Canvases between commands -/

/-- What holds of a canvas before and after every command. -/
structure Canvas.Orderly (c : Canvas) : Prop where
  /-- the controls carry the ids that were issued, in their order -/
  ids : c.controls.map Control.id = c.ids.issued.reverse.map contentId
  numbered : c.ids.Numbered
  containersFirst : ContainersFirst c.controls
  windows : ∀ w ∈ c.windows, HasContainer c.controls w.2
  lastWindow : ∀ id, c.lastWindow = some id → HasContainer c.controls id
  target : ∀ id, c.target = some id → HasContainer c.controls id

namespace Canvas

/-- What commands look up on a canvas to place controls. -/
def hosts (c : Canvas) : List (String × ControlId) × Option ControlId × Option ControlId :=
  (c.windows, c.lastWindow, c.target)

/-- A change that concerns neither controls nor windows nor ids. -/
structure Keeps (c c' : Canvas) : Prop where
  controls : c'.controls = c.controls
  hosts : c'.hosts = c.hosts
  ids : c'.ids = c.ids

theorem Keeps.refl (c : Canvas) : c.Keeps c := ⟨rfl, rfl, rfl⟩

/-- From a canvas some controls were made under its target, but not added yet. -/
structure Makes (c : Canvas) (made : List Control) (c' : Canvas) : Prop where
  controls : c'.controls = c.controls
  hosts : c'.hosts = c.hosts
  parents : ∀ d ∈ made, d.parent = c.target
  ids : ∃ contents : List (List UInt8), made.map Control.id = contents.map contentId ∧
    c'.ids.issued = contents.reverse ++ c.ids.issued
  numbered : c.ids.Numbered → c'.ids.Numbered

variable {c c' : Canvas}

theorem target_eq_of_hosts_eq (h : c'.hosts = c.hosts) : c'.target = c.target :=
  congrArg (fun p => p.2.2) h

theorem Orderly.of_keeps (h : c.Orderly) (hk : c.Keeps c') : c'.Orderly := by
  obtain ⟨hcontrols, hhosts, hids⟩ := hk
  have hwindows : c'.windows = c.windows := congrArg Prod.fst hhosts
  have hlast : c'.lastWindow = c.lastWindow := congrArg (fun p => p.2.1) hhosts
  refine ⟨?_, ?_, ?_, ?_, ?_, ?_⟩
  · rw [hcontrols, hids]
    exact h.ids
  · rw [hids]
    exact h.numbered
  · rw [hcontrols]
    exact h.containersFirst
  · rw [hcontrols, hwindows]
    exact h.windows
  · rw [hcontrols, hlast]
    exact h.lastWindow
  · rw [hcontrols, target_eq_of_hosts_eq hhosts]
    exact h.target

/-- Controls with new ids join an orderly canvas when containers on it hold them. -/
theorem Orderly.grow (h : c.Orderly) (made : List Control) (contents : List (List UInt8))
    (hcontrols : c'.controls = c.controls ++ made)
    (hids : made.map Control.id = contents.map contentId)
    (hissued : c'.ids.issued = contents.reverse ++ c.ids.issued) (hnumbered : c'.ids.Numbered)
    (hparents : ∀ d ∈ made, ∀ id, d.parent = some id → HasContainer c.controls id)
    (hwindows : ∀ w ∈ c'.windows, HasContainer c'.controls w.2)
    (hlast : ∀ id, c'.lastWindow = some id → HasContainer c'.controls id)
    (htarget : ∀ id, c'.target = some id → HasContainer c'.controls id) : c'.Orderly := by
  refine ⟨?_, hnumbered, ?_, hwindows, hlast, htarget⟩
  · rw [hcontrols, List.map_append, hids, h.ids, hissued, List.reverse_append,
      List.reverse_reverse, List.map_append]
  · rw [hcontrols]
    exact h.containersFirst.append hparents

/-- Controls that were made can be added. Their parents are what was the target before, and the
identities are new because they were issued one after another. -/
theorem Orderly.extend (h : c.Orderly) {made : List Control} (hmakes : c.Makes made c') :
    (c'.add made).Orderly := by
  obtain ⟨contents, hids, hissued⟩ := hmakes.ids
  have hwindows : c'.windows = c.windows := congrArg Prod.fst hmakes.hosts
  have hlast : c'.lastWindow = c.lastWindow := congrArg (fun p => p.2.1) hmakes.hosts
  have htarget : c'.target = c.target := target_eq_of_hosts_eq hmakes.hosts
  have hcontrols : (c'.add made).controls = c.controls ++ made :=
    congrArg (· ++ made) hmakes.controls
  have hsub : c.controls ⊆ (c'.add made).controls := hcontrols ▸ List.subset_append_left _ _
  refine h.grow made contents hcontrols hids hissued (hmakes.numbered h.numbered) ?_ ?_ ?_ ?_
  · intro d hd id hid
    exact h.target id (hmakes.parents d hd ▸ hid)
  · intro w hw
    exact (h.windows w (hwindows ▸ hw)).mono hsub
  · intro id hid
    exact (h.lastWindow id (hlast ▸ hid)).mono hsub
  · intro id hid
    exact (h.target id (htarget ▸ hid)).mono hsub

theorem Makes.nil (c : Canvas) : c.Makes [] c :=
  ⟨rfl, rfl, fun _ h => absurd h List.not_mem_nil, ⟨[], rfl, rfl⟩, id⟩

theorem Makes.append {c₁ c₂ c₃ : Canvas} {ds es : List Control} (h₁ : c₁.Makes ds c₂)
    (h₂ : c₂.Makes es c₃) : c₁.Makes (ds ++ es) c₃ := by
  obtain ⟨contents₁, hids₁, hissued₁⟩ := h₁.ids
  obtain ⟨contents₂, hids₂, hissued₂⟩ := h₂.ids
  refine ⟨h₂.controls.trans h₁.controls, h₂.hosts.trans h₁.hosts, ?_,
    ⟨contents₁ ++ contents₂, ?_, ?_⟩, fun h => h₂.numbered (h₁.numbered h)⟩
  · intro d hd
    rcases List.mem_append.mp hd with hd | hd
    · exact h₁.parents d hd
    · exact (h₂.parents d hd).trans (target_eq_of_hosts_eq h₁.hosts)
  · rw [List.map_append, List.map_append, hids₁, hids₂]
  · rw [hissued₂, hissued₁, List.reverse_append, List.append_assoc]

theorem Makes.cons {c₁ c₂ c₃ : Canvas} {d : Control} {es : List Control}
    (h₁ : c₁.Makes [d] c₂) (h₂ : c₂.Makes es c₃) : c₁.Makes (d :: es) c₃ :=
  h₁.append h₂

theorem Makes.of_keeps {c₀ : Canvas} {made : List Control} (h : c.Makes made c')
    (hk : c₀.Keeps c) {c₁ : Canvas} (hk' : c'.Keeps c₁) : c₀.Makes made c₁ := by
  obtain ⟨contents, hids, hissued⟩ := h.ids
  refine ⟨hk'.controls.trans (h.controls.trans hk.controls),
    hk'.hosts.trans (h.hosts.trans hk.hosts), ?_, ⟨contents, hids, ?_⟩, ?_⟩
  · intro d hd
    exact (h.parents d hd).trans (target_eq_of_hosts_eq hk.hosts)
  · rw [hk'.ids, hissued, hk.ids]
  · rw [hk'.ids, ← hk.ids]
    exact h.numbered

theorem makes_newControl (c : Canvas) (cells : CellMetrics) (kind : ControlKind)
    (row column : Float) :
    c.Makes [(c.newControl cells kind row column).1] (c.newControl cells kind row column).2 := by
  refine ⟨rfl, rfl, ?_, ⟨[c.ids.content kind.name], rfl, rfl⟩, fun h => h.next _⟩
  intro d hd
  obtain rfl := List.mem_singleton.mp hd
  rfl

/-- A new control stays one while it is finished. -/
theorem Makes.finish {d e : Control} (h : c.Makes [d] c') (hid : e.id = d.id)
    (hparent : e.parent = d.parent) : c.Makes [e] c' := by
  obtain ⟨contents, hids, hissued⟩ := h.ids
  refine ⟨h.controls, h.hosts, ?_, ⟨contents, ?_, hissued⟩, h.numbered⟩
  · intro f hf
    obtain rfl := List.mem_singleton.mp hf
    exact hparent.trans (h.parents d List.mem_cons_self)
  · rw [← hids, List.map_singleton, List.map_singleton, hid]

end Canvas

end ScreenForms.Screen
