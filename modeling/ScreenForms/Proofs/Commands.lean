import ScreenForms.Proofs.Canvas
import ScreenForms.Proofs.Drawing

/-!
# Commands keep canvases orderly

One case for each kind of step of a command, and from them the run of a whole program: its canvas
is orderly at the end, whatever the program does.
-/

namespace ScreenForms.Screen

open Canvas

variable {env : Surroundings} {clauses : Clauses} {c c' : Canvas}

/-! ## Drawing -/

theorem Canvas.Quiet.keeps (h : c.Quiet c') : c.Keeps c' := by
  rw [h]
  exact ⟨rfl, rfl, rfl⟩

/-- Controls that were drawn were made under the target of the canvas. -/
theorem Canvas.Drawn.makes {made : List Control} (h : c.Drawn made c') : c.Makes made c' := by
  induction h with
  | nil c => exact Makes.nil c
  | quiet hquiet _ ih => exact ih.of_keeps hquiet.keeps (Keeps.refl _)
  | @cons c _ _ _ cells kind row column hfinishes _ ih =>
    have hmade := makes_newControl c cells kind row column
    exact (hmade.finish hfinishes.id hfinishes.parent).cons ih

/-! ## Windows and grids -/

theorem hasContainer_of_window? (h : c.Orderly) {name : String} {id : ControlId}
    (hid : c.window? name = some id) : HasContainer c.controls id := by
  obtain ⟨w, hw, rfl⟩ := Option.map_eq_some_iff.mp hid
  exact h.windows w (List.mem_of_find?_eq_some hw)

theorem hasContainer_of_hostedPlace (h : c.Orderly) (box : CellBox) {id : ControlId}
    (hid : (hostedPlace env clauses box c).1 = some id) : HasContainer c.controls id := by
  unfold hostedPlace at hid
  dsimp only at hid
  split at hid
  · cases hid
  · split at hid
    · obtain rfl := Option.some.inj hid
      exact hasContainer_of_window? h ‹_›
    · split at hid <;> cases hid

theorem orderly_defineContainer (name : List Char) (box : Option CellBox) (h : c.Orderly) :
    (defineContainer env name clauses box c).Orderly := by
  have hown : HasContainer (defineContainer env name clauses box c).controls
      (c.ids.next (String.ofList name)).1 :=
    ⟨_, List.mem_append_right _ List.mem_cons_self, rfl, rfl⟩
  have hsub : c.controls ⊆ (defineContainer env name clauses box c).controls :=
    List.subset_append_left _ _
  refine h.grow [_] [_] rfl rfl rfl (h.numbered.next _) ?_ ?_ ?_ ?_
  · intro d hd id hid
    obtain rfl := List.mem_singleton.mp hd
    exact hasContainer_of_hostedPlace h _ hid
  · intro w hw
    rcases List.mem_cons.mp hw with rfl | hw
    · exact hown
    · exact (h.windows w hw).mono hsub
  · intro id hid
    exact Option.some.inj hid ▸ hown
  · intro id hid
    exact (h.target id hid).mono hsub

/-- The window that a browse command names, or else the latest one. -/
theorem hasContainer_of_browseHost (h : c.Orderly) {named : Option ControlId}
    (hnamed : ∀ id, named = some id → HasContainer c.controls id) {id : ControlId}
    (hid : (named.orElse fun _ => c.lastWindow) = some id) : HasContainer c.controls id := by
  cases named with
  | none => exact h.lastWindow id hid
  | some other => exact hnamed id hid

theorem orderly_browse (rest : List Char) (h : c.Orderly) : (browse env rest c).Orderly := by
  have hnamed : ∀ (clause : Option (List Char)) (id : ControlId),
      (clause.bind fun argument => c.window? (hostName argument)) = some id →
        HasContainer c.controls id := by
    intro clause id hid
    obtain ⟨argument, -, hwindow⟩ := Option.bind_eq_some_iff.mp hid
    exact hasContainer_of_window? h hwindow
  have hsub : c.controls ⊆ (browse env rest c).controls := List.subset_append_left _ _
  refine h.grow [_] [c.ids.content "grid"] rfl ?_ rfl (h.numbered.next _)
    ?_ ?_ ?_ ?_
  · split <;> rfl
  · intro d hd id hid
    obtain rfl := List.mem_singleton.mp hd
    split at hid
    · exact hasContainer_of_browseHost h (hnamed _) hid
    · cases hid
  · intro w hw
    exact (h.windows w hw).mono hsub
  · intro id hid
    exact (h.lastWindow id hid).mono hsub
  · intro id hid
    exact (h.target id hid).mono hsub

theorem orderly_aim (h : c.Orderly) {target : Option ControlId}
    (htarget : target = none ∨ ∃ w ∈ c.windows, target = some w.2) :
    { c with target }.Orderly := by
  refine ⟨h.ids, h.numbered, h.containersFirst, h.windows, h.lastWindow, fun id hid => ?_⟩
  rcases htarget with rfl | ⟨w, hw, rfl⟩
  · cases hid
  · exact Option.some.inj hid ▸ h.windows w hw

/-! ## Whole programs -/

theorem Canvas.Orderly.step (h : c.Orderly) (hstep : Step env c c') : c'.Orderly := by
  cases hstep with
  | quiet hquiet => exact h.of_keeps hquiet.keeps
  | aim target htarget => exact orderly_aim h htarget
  | draw hdrawn => exact h.extend hdrawn.makes
  | form name clauses box _ => exact h.of_keeps ⟨rfl, rfl, rfl⟩
  | container name clauses box _ => exact orderly_defineContainer name box h
  | browse rest => exact orderly_browse rest h

theorem Canvas.Orderly.steps (h : c.Orderly) (hsteps : Steps env c c') : c'.Orderly := by
  induction hsteps with
  | refl => exact h
  | tail _ hstep ih => exact ih.step hstep

theorem orderly_emptyCanvas (cells : CellMetrics) (source : String) :
    (emptyCanvas cells source).Orderly := by
  have hcontrols : (emptyCanvas cells source).controls = [] := rfl
  refine ⟨rfl, IdSequence.Numbered.empty _, ?_, ?_, ?_, ?_⟩
  · intro i d id hi
    rw [hcontrols] at hi
    cases hi
  · exact fun _ hw => absurd hw List.not_mem_nil
  · exact nofun
  · exact nofun

/-- The canvas of every program is orderly. -/
theorem orderly_painted (config : Config) (source : String) : (painted config source).Orderly :=
  (orderly_emptyCanvas _ source).steps (steps_painted config source)

/-- The controls of a program have distinct ids when the hash tells their contents apart. -/
theorem nodup_ids_painted (config : Config) (source : String)
    (h : CollisionFree (painted config source).ids.issued) :
    ((painted config source).controls.map Control.id).Nodup := by
  have horderly := orderly_painted config source
  rw [horderly.ids, List.map_reverse, List.nodup_reverse]
  exact h.nodup_map horderly.numbered.nodup

/-- The document of a program is sound when the hash tells its ids apart. -/
theorem sound_build (config : Config) (source : String)
    (h : CollisionFree (painted config source).ids.issued) :
    (build config source).document.Sound := by
  have hcontrols := controls_build config source
  refine ContainersFirst.sound ?_ ?_
  · rw [hcontrols]
    exact (orderly_painted config source).containersFirst
  · rw [hcontrols]
    exact nodup_ids_painted config source h

end ScreenForms.Screen
