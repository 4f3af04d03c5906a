import ScreenForms.Proofs.Drawing
import ScreenForms.Proofs.Names

/-!
# Names on a canvas

Whatever a command does, the names of the controls on the canvas are in use, and a control gets a
name that was in use only as a fallback name. The name of the form is in use once it is defined; what
was painted before has default names only (`Canvas.Named`).
-/

namespace ScreenForms.Screen

open NameRegistry

namespace Canvas

/-- What holds of the names on a canvas before and after every step. -/
structure Named (c : Canvas) : Prop where
  used : ∀ d ∈ c.controls, fold d.name ∈ c.names.used
  later : c.controls.Pairwise fun d e => fold d.name = fold e.name → e.HasFallbackName
  form : ∀ d ∈ c.controls, fold d.name = fold c.window.name → d.HasFallbackName ∨ d.HasDefaultName
  early : c.formWindow = none → ∀ d ∈ c.controls, d.HasDefaultName
  reserved : c.formWindow ≠ none → fold c.window.name ∈ c.names.used

/-- Between two canvases some controls got their names, one after another. -/
structure Names (c : Canvas) (made : List Control) (c' : Canvas) : Prop where
  window : c'.window = c.window
  formWindow : c'.formWindow = c.formWindow
  grows : c.names.used ⊆ c'.names.used
  used : ∀ d ∈ made, fold d.name ∈ c'.names.used
  taken : ∀ d ∈ made, fold d.name ∈ c.names.used → d.HasFallbackName
  later : made.Pairwise fun d e => fold d.name = fold e.name → e.HasFallbackName
  early : c.formWindow = none → ∀ d ∈ made, d.HasDefaultName

variable {c c' : Canvas} {made : List Control}

/-- Controls that got their names can be added. The name of the form is in use, unless there is no
form yet, and then all names are default names. -/
theorem Named.grow (h : c.Named) (hnames : c.Names made c')
    (hcontrols : c'.controls = c.controls ++ made) : c'.Named := by
  obtain ⟨hwindow, hformWindow, hgrows, hused, htaken, hlater, hearly⟩ := hnames
  refine ⟨?_, ?_, ?_, ?_, ?_⟩
  · intro d hd
    rcases List.mem_append.mp (hcontrols ▸ hd) with hd | hd
    · exact hgrows (h.used d hd)
    · exact hused d hd
  · rw [hcontrols, List.pairwise_append]
    refine ⟨h.later, hlater, fun d hd e he heq => htaken e he ?_⟩
    exact heq ▸ h.used d hd
  · rw [hcontrols, hwindow]
    intro d hd heq
    rcases List.mem_append.mp hd with hd | hd
    · exact h.form d hd heq
    · -- the form's name is in use, unless there is no form yet, and then names are default names
      by_cases hnone : c.formWindow = none
      · exact .inr (hearly hnone d hd)
      · exact .inl (htaken d hd (heq ▸ h.reserved hnone))
  · intro hnone d hd
    have hnone : c.formWindow = none := hformWindow ▸ hnone
    rcases List.mem_append.mp (hcontrols ▸ hd) with hd | hd
    · exact h.early hnone d hd
    · exact hearly hnone d hd
  · intro hsome
    rw [hwindow]
    exact hgrows (h.reserved (hformWindow ▸ hsome))

/-- One control takes a name and puts it to use. -/
theorem Names.one {d : Control} (hwindow : c'.window = c.window)
    (hformWindow : c'.formWindow = c.formWindow)
    (hused : c'.names.used = fold d.name :: c.names.used)
    (htaken : fold d.name ∈ c.names.used → d.HasFallbackName)
    (hearly : c.formWindow = none → d.HasDefaultName) : c.Names [d] c' := by
  refine ⟨hwindow, hformWindow, ?_, ?_, ?_, List.pairwise_singleton _ _, fun hnone => ?_⟩
  · rw [hused]
    exact List.subset_cons_self _ _
  · rw [hused]
    exact List.forall_mem_singleton.mpr List.mem_cons_self
  · exact List.forall_mem_singleton.mpr htaken
  · exact List.forall_mem_singleton.mpr (hearly hnone)

theorem Named.of_quiet (h : c.Named) (hq : c.Quiet c') : c'.Named := by
  rw [hq]
  exact ⟨h.used, h.later, h.form, h.early, h.reserved⟩

/-! ## Default names -/

theorem newControl_name (c : Canvas) (cells : CellMetrics) (kind : ControlKind)
    (row column : Float) : (c.newControl cells kind row column).1.name =
      NameCounter.nameAt kind
        (NameCounter.firstFree kind c.names c.names.used.length (c.counter.last kind)) := rfl

theorem used_newControl (c : Canvas) (cells : CellMetrics) (kind : ControlKind)
    (row column : Float) : (c.newControl cells kind row column).2.names.used =
      fold (c.newControl cells kind row column).1.name :: c.names.used := rfl

theorem Drawn.controls_eq (h : c.Drawn made c') : c'.controls = c.controls := by
  induction h with
  | nil c => rfl
  | quiet h _ ih =>
    rw [ih, h]
  | cons _ _ _ _ _ _ ih => exact ih

/-- Controls that were drawn have default names that were free. The induction is on the drawing, and
each control takes its name out of those the later ones can get. -/
theorem Drawn.names (h : c.Drawn made c') : c.Names made c' := by
  induction h with
  | nil c =>
    exact ⟨rfl, rfl, fun _ h => h, fun _ h => absurd h List.not_mem_nil,
      fun _ h => absurd h List.not_mem_nil, .nil, fun _ _ h => absurd h List.not_mem_nil⟩
  | quiet h _ ih =>
    rw [h] at ih
    exact ⟨ih.window, ih.formWindow, ih.grows, ih.used, ih.taken, ih.later, ih.early⟩
  | @cons c c' d made cells kind row column h _ ih =>
    -- the search for a default name always ends at a free one
    have hfresh : fold d.name ∉ c.names.used := by
      rw [h.name, newControl_name]
      exact NameCounter.not_mem_used_firstFree kind c.names _
    have hdefault : d.HasDefaultName := ⟨_, by rw [h.name, h.kind, newControl_name]; rfl⟩
    obtain ⟨hwindow, hformWindow, hgrows, hused, htaken, hlater, hearly⟩ := ih
    rw [used_newControl, ← h.name] at hgrows htaken
    refine ⟨hwindow, hformWindow, ?_, ?_, ?_, ?_, ?_⟩
    · exact fun name hname => hgrows (List.mem_cons_of_mem _ hname)
    · exact List.forall_mem_cons.mpr ⟨hgrows List.mem_cons_self, hused⟩
    · refine List.forall_mem_cons.mpr ⟨fun hmem => absurd hmem hfresh, fun e he hmem => ?_⟩
      exact htaken e he (List.mem_cons_of_mem _ hmem)
    · refine List.pairwise_cons.mpr ⟨fun e he heq => htaken e he ?_, hlater⟩
      exact heq ▸ List.mem_cons_self
    · exact fun hnone => List.forall_mem_cons.mpr ⟨hdefault, hearly hnone⟩

/-! ## Steps -/

theorem Named.draw (h : c.Named) (hdrawn : c.Drawn made c') : (c'.add made).Named := by
  obtain ⟨hwindow, hformWindow, hgrows, hused, htaken, hlater, hearly⟩ := hdrawn.names
  exact h.grow ⟨hwindow, hformWindow, hgrows, hused, htaken, hlater, hearly⟩
    (congrArg (· ++ made) hdrawn.controls_eq)

theorem Named.defineForm (h : c.Named) (env : Surroundings) (name : List Char) (clauses : Clauses)
    (box : Option CellBox) (hfirst : c.formWindow = none) :
    (defineForm env name clauses box c).Named := by
  refine ⟨fun d hd => List.mem_cons_of_mem _ (h.used d hd), h.later, fun d hd _ => ?_, nofun,
    fun _ => List.mem_cons_self⟩
  exact .inr (h.early hfirst d hd)

/-- A later window claims its name. -/
theorem Named.defineContainer (h : c.Named) (env : Surroundings) (name : List Char)
    (clauses : Clauses) (box : Option CellBox) (hlater : c.formWindow ≠ none) :
    (defineContainer env name clauses box c).Named := by
  refine h.grow (?_ : c.Names [_] _) rfl
  refine .one rfl rfl rfl (fun hused => ⟨String.ofList name, ?_⟩) fun hnone => absurd hnone hlater
  exact choose_of_mem_used hused

/-- A grid takes the next default name. -/
theorem Named.browse (h : c.Named) (env : Surroundings) (rest : List Char) :
    (browse env rest c).Named := by
  refine h.grow (?_ : c.Names [_] _) rfl
  refine .one rfl rfl ?_ (fun hused => ?_) fun _ => ?_
  · split
    · rfl
    · rfl
  · split at hused
    · exact absurd hused (NameCounter.not_mem_used_firstFree .grid c.names _)
    · exact absurd hused (NameCounter.not_mem_used_firstFree .grid c.names _)
  · split
    · exact ⟨_, rfl⟩
    · exact ⟨_, rfl⟩

theorem Named.step {env : Surroundings} (h : c.Named) (hstep : Step env c c') : c'.Named := by
  cases hstep with
  | quiet hq => exact h.of_quiet hq
  | aim target _ => exact ⟨h.used, h.later, h.form, h.early, h.reserved⟩
  | draw hdrawn => exact h.draw hdrawn
  | form name clauses box hfirst => exact h.defineForm env name clauses box hfirst
  | container name clauses box hlater => exact h.defineContainer env name clauses box hlater
  | browse rest => exact h.browse env rest

theorem Named.steps {env : Surroundings} (h : c.Named) (hsteps : Steps env c c') : c'.Named := by
  induction hsteps with
  | refl => exact h
  | tail _ hstep ih => exact ih.step hstep

theorem named_emptyCanvas (cells : CellMetrics) (source : String) :
    (emptyCanvas cells source).Named :=
  ⟨fun _ h => absurd h List.not_mem_nil, .nil, fun _ h => absurd h List.not_mem_nil,
    fun _ _ h => absurd h List.not_mem_nil, fun h => absurd rfl h⟩

end Canvas

/-- The names on the canvas of a program. -/
theorem named_painted (config : Config) (source : String) : (painted config source).Named :=
  (Canvas.named_emptyCanvas _ source).steps (steps_painted config source)

theorem namedApart_build (config : Config) (source : String) :
    (build config source).document.NamedApart := by
  have hnamed := named_painted config source
  refine ⟨?_, ?_⟩
  · rw [controls_build]
    exact hnamed.later
  · rw [controls_build, window_build]
    exact hnamed.form

end ScreenForms.Screen
