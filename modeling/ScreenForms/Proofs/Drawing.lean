import Mathlib.Logic.Relation
import ScreenForms.Screen.Build

/-!
# Commands in small steps

Every command of a screen program changes the canvas in a few steps of few kinds (`Canvas.Step`):
it stores code or a remark, aims at a window, adds controls that it has drawn one after another,
makes a window the form or a container, or lays a grid over a window. So what each of these steps
keeps is kept by a whole program (`steps_painted`).
-/

namespace ScreenForms.Screen

open Relation (ReflTransGen)

/-- A control is another one with its picture finished: they agree on id, kind, name and parent. -/
structure Finishes (d e : Control) : Prop where
  id : e.id = d.id
  kind : e.kind = d.kind
  name : e.name = d.name
  parent : e.parent = d.parent

theorem Finishes.refl (d : Control) : Finishes d d := ⟨rfl, rfl, rfl, rfl⟩

/-- A control may be finished in several steps, each of which keeps what makes it this control. -/
theorem Finishes.trans {d e f : Control} (h : Finishes d e) (h' : Finishes e f) : Finishes d f :=
  ⟨h'.id.trans h.id, h'.kind.trans h.kind, h'.name.trans h.name, h'.parent.trans h.parent⟩

namespace Canvas

/-- A change that concerns code and remarks only. -/
def Quiet (c c' : Canvas) : Prop :=
  c' = { c with events := c'.events, diagnostics := c'.diagnostics, bound := c'.bound }

/-- Controls are drawn one after another, each with the next id and default name; they are
finished, but not added yet. -/
inductive Drawn : Canvas → List Control → Canvas → Prop
  | nil (c : Canvas) : Drawn c [] c
  | quiet {c c₁ c' : Canvas} {made : List Control} (h : c.Quiet c₁) (rest : Drawn c₁ made c') :
      Drawn c made c'
  | cons {c c' : Canvas} {d : Control} {made : List Control} (cells : CellMetrics)
      (kind : ControlKind) (row column : Float)
      (h : Finishes (c.newControl cells kind row column).1 d)
      (rest : Drawn (c.newControl cells kind row column).2 made c') : Drawn c (d :: made) c'

/-- One step of a command. -/
inductive Step (env : Surroundings) : Canvas → Canvas → Prop
  | quiet {c c' : Canvas} (h : c.Quiet c') : Step env c c'
  | aim {c : Canvas} (target : Option ControlId)
      (h : target = none ∨ ∃ w ∈ c.windows, target = some w.2) : Step env c { c with target }
  | draw {c c' : Canvas} {made : List Control} (h : c.Drawn made c') : Step env c (c'.add made)
  | form {c : Canvas} (name : List Char) (clauses : Clauses) (box : Option CellBox)
      (h : c.formWindow = none) : Step env c (defineForm env name clauses box c)
  | container {c : Canvas} (name : List Char) (clauses : Clauses) (box : Option CellBox)
      (h : c.formWindow ≠ none) : Step env c (defineContainer env name clauses box c)
  | browse {c : Canvas} (rest : List Char) : Step env c (browse env rest c)

/-- Some steps, one after another. -/
abbrev Steps (env : Surroundings) : Canvas → Canvas → Prop := ReflTransGen (Step env)

variable {c c' : Canvas}

theorem Quiet.refl (c : Canvas) : c.Quiet c := rfl

theorem Quiet.trans {c₁ c₂ c₃ : Canvas} (h : c₁.Quiet c₂) (h' : c₂.Quiet c₃) : c₁.Quiet c₃ := by
  unfold Quiet at *
  rw [h', h]

/-- Quiet steps one after another are quiet. -/
theorem Quiet.foldl {α : Type} {step : Canvas → α → Canvas} (hstep : ∀ c a, Quiet c (step c a))
    (l : List α) (c : Canvas) : c.Quiet (l.foldl step c) := by
  induction l generalizing c with
  | nil => exact .refl c
  | cons a l ih => exact (hstep c a).trans (ih (step c a))

/-- Binding code changes events only. -/
theorem quiet_bind (c : Canvas) (b : EventBinding) : c.Quiet (c.bind b) := rfl

/-- Noting a bound procedure changes no control and no name. -/
theorem quiet_noteBound (c : Canvas) (env : Surroundings) (argument : List Char) :
    c.Quiet (c.noteBound env argument) := by
  unfold noteBound
  split <;> rfl

namespace Drawn

/-- A new control may be finished before it is added. -/
theorem one {d : Control} (cells : CellMetrics) (kind : ControlKind) (row column : Float)
    (h : Finishes (c.newControl cells kind row column).1 d) :
    c.Drawn [d] (c.newControl cells kind row column).2 :=
  .cons cells kind row column h (.nil _)

/-- Quiet steps may follow. -/
theorem behind {c'' : Canvas} {made : List Control} (h : c.Drawn made c') (hq : c'.Quiet c'') :
    c.Drawn made c'' := by
  induction h with
  | nil c => exact .quiet hq (.nil _)
  | quiet h _ ih => exact .quiet h (ih hq)
  | cons cells kind row column h _ ih => exact .cons cells kind row column h (ih hq)

/-- All drawn controls may be finished in the same way. -/
theorem map {made : List Control} (h : c.Drawn made c') {f : Control → Control}
    (hf : ∀ d, Finishes d (f d)) : c.Drawn (made.map f) c' := by
  induction h with
  | nil c => exact .nil c
  | quiet h _ ih => exact .quiet h ih
  | cons cells kind row column h _ ih => exact .cons cells kind row column (h.trans (hf _)) ih

end Drawn

/-- Steps are put together along a list, as the commands of a program are. -/
theorem Steps.foldl {env : Surroundings} {α : Type} {step : Canvas → α → Canvas}
    (hstep : ∀ c a, Steps env c (step c a)) (l : List α) (c : Canvas) :
    Steps env c (l.foldl step c) := by
  induction l generalizing c with
  | nil => exact .refl
  | cons a l ih => exact (hstep c a).trans (ih (step c a))

end Canvas

open Canvas

variable (env : Surroundings) (clauses : Clauses) (row column : Float) (c : Canvas)

/-! ## Finishing controls -/

/-- A caption changes text, hotkey and the two roles of a button, and leaves the control the one it
is. -/
theorem finishes_applyCaption (item : Caption) (d : Control) : Finishes d (applyCaption item d) := by
  unfold applyCaption
  rcases item.hotkey with _ | key <;> rcases item.isDefault with _ | _ <;>
    rcases item.isCancel with _ | _ <;> exact ⟨rfl, rfl, rfl, rfl⟩

/-- The bounds of a range are extra values. -/
theorem finishes_withBounds (d : Control) : Finishes d (withBounds env clauses d) := by
  unfold withBounds
  split
  · exact .refl d
  · next range _ =>
    generalize [ExtraKey.minimum, ExtraKey.maximum].zip (Text.splitTopLevel ',' range) = bounds
    induction bounds generalizing d with
    | nil => exact .refl d
    | cons bound bounds ih =>
      refine .trans ?_ (ih (withExtra bound.1 _ d))
      exact ⟨rfl, rfl, rfl, rfl⟩

/-- The name of the field and its default are properties as well. -/
theorem finishes_finishField (field : List Char) (d : Control) :
    Finishes d (finishField env clauses field d) := by
  unfold finishField
  rcases field.isEmpty with _ | _ <;> rcases clauses.get? "DEFAULT" with _ | value <;>
    exact ⟨rfl, rfl, rfl, rfl⟩

/-! ## Painting -/

theorem steps_paintSay : Steps env c (paintSay env clauses row column c) := by
  unfold paintSay
  dsimp only
  split
  · exact .single (.draw (.one env.cells .image row column ⟨rfl, rfl, rfl, rfl⟩))
  · exact .single (.draw (.one env.cells .label row column ⟨rfl, rfl, rfl, rfl⟩))

/-- The controls of a group are drawn one after the other, by induction on their captions. -/
theorem drawn_paintGroup (kind : ControlKind) (horizontal : Bool) (size : Option (Float × Float))
    (field : List Char) (step : Int) (captions : List (List Char)) :
    c.Drawn (paintGroup env kind horizontal size row column field step captions c).1
      (paintGroup env kind horizontal size row column field step captions c).2 := by
  induction captions generalizing step c with
  | nil => exact .nil c
  | cons raw captions ih =>
    refine .cons env.cells kind row column ?_ (ih _ (step + 1))
    refine .trans ?_ (finishes_applyCaption (Caption.read raw) _)
    cases horizontal <;> cases field <;> exact ⟨rfl, rfl, rfl, rfl⟩

/-- A field is drawn as one control or as a group, depending on its picture. -/
theorem drawn_paintField (picture : Picture) (kind : FieldKind) (field : List Char) :
    c.Drawn (paintField env clauses picture kind field row column c).1
      (paintField env clauses picture kind field row column c).2 := by
  cases kind with
  | buttons => exact drawn_paintGroup env row column c _ _ _ _ _ _
  | radios => exact drawn_paintGroup env row column c _ _ _ _ _ _
  | checkbox =>
    refine .one env.cells .checkbox row column ?_
    refine .trans ?_ (finishes_applyCaption (Caption.read picture.payload) _)
    exact ⟨rfl, rfl, rfl, rfl⟩
  | combobox =>
    refine .one env.cells .combobox row column ?_
    unfold sized
    dsimp only
    split <;> exact ⟨rfl, rfl, rfl, rfl⟩
  | spinner =>
    refine .one env.cells .spinner row column ?_
    exact (finishes_withBounds env clauses _).trans ⟨rfl, rfl, rfl, rfl⟩
  | textbox =>
    unfold paintField
    dsimp only
    split
    · exact .one env.cells .textbox row column ⟨rfl, rfl, rfl, rfl⟩
    · exact .one env.cells .textbox row column ⟨rfl, rfl, rfl, rfl⟩

/-- A field is drawn, finished and added, and then its clauses are bound. -/
theorem steps_paintGet : Steps env c (paintGet env clauses row column c) := by
  have hdrawn := drawn_paintField env clauses row column
  have hbound : ∀ (c : Canvas) (bs : List EventBinding), c.Quiet (bs.foldl Canvas.bind c) :=
    fun c bs => Quiet.foldl quiet_bind bs c
  refine .single (.draw (.quiet (Quiet.foldl (fun c keyword => ?_) _ c)
    (((hdrawn _ _ _ _).map (finishes_finishField env clauses _)).behind (hbound _ _))))
  -- a clause of the field only notes the procedure that it names
  split
  · exact quiet_noteBound c env _
  · exact .refl c

theorem steps_paintEdit : Steps env c (paintEdit env clauses row column c) := by
  unfold paintEdit
  dsimp only
  split
  · exact .single (.draw (.one env.cells .editbox row column ⟨rfl, rfl, rfl, rfl⟩))
  · exact .single (.draw (.one env.cells .editbox row column ⟨rfl, rfl, rfl, rfl⟩))

theorem steps_paintBox (line : Nat) : Steps env c (paintBox env line clauses row column c) := by
  unfold paintBox
  split
  · exact .single (.quiet rfl)
  · exact .single (.draw (.one env.cells .shape row column ⟨rfl, rfl, rfl, rfl⟩))

/-- Whatever is painted, it is done in steps. Each command for painting is one case. -/
theorem steps_paint (line : Nat) (rest : List Char) : Steps env c (paint env line rest c) := by
  unfold paint
  dsimp only
  split
  · exact .single (.quiet rfl)
  · next row column _ =>
    split
    · exact steps_paintSay env _ row column c
    · exact steps_paintGet env _ row column c
    · exact steps_paintEdit env _ row column c
    · exact steps_paintBox env _ row column c line
    · exact .refl

/-! ## Windows -/

/-- The first window becomes the form and every later one a container. -/
theorem steps_openWindow (name : List Char) (box : Option CellBox) :
    Steps env c (if c.formWindow.isNone then defineForm env name clauses box c
      else defineContainer env name clauses box c) := by
  split
  · next h => exact .single (.form name clauses box (Option.isNone_iff_eq_none.mp h))
  · next h => exact .single (.container name clauses box (mt Option.isNone_iff_eq_none.mpr h))

theorem steps_defineWindow (line : Nat) (rest : List Char) :
    Steps env c (defineWindow env line rest c) := by
  unfold defineWindow
  dsimp only
  split
  · exact .single (.quiet rfl)
  · split
    · exact steps_openWindow env _ c _ _
    · exact (ReflTransGen.single (.quiet rfl)).trans (steps_openWindow env _ _ _ _)

theorem steps_activateWindow (argument : List Char) : Steps env c (activateWindow argument c) := by
  unfold activateWindow
  dsimp only
  split
  · next id hid =>
    obtain ⟨w, hw, rfl⟩ := Option.map_eq_some_iff.mp hid
    exact .single (.aim (some w.2) (.inr ⟨w, List.mem_of_find?_eq_some hw, rfl⟩))
  · split
    · exact .single (.aim none (.inl rfl))
    · exact .refl

/-! ## Whole programs -/

/-- A command that binds no code is carried out in steps. -/
theorem steps_carryOutNested (s : Statement) : Steps env c (carryOutNested env c s) := by
  unfold carryOutNested
  split
  · exact steps_defineWindow env c s.line _
  · exact steps_activateWindow env c _
  · exact .single (.aim none (.inl rfl))
  · exact .single (.browse _)
  · exact .refl

/-- An event of the form is bound in one quiet step. Where its clause calls a procedure, the
commands in this procedure are carried out behind it. -/
theorem steps_bindFormEvent (entry : String × List String) :
    Steps env c (bindFormEvent env clauses c entry) := by
  unfold bindFormEvent
  split
  · exact .refl
  · next keyword argument _ =>
    split
    · exact .refl
    · have hbound : c.Quiet ((c.noteBound env argument).bind
          ⟨formOwner, entry.1, env.boundCode keyword argument⟩) :=
        (quiet_noteBound c env argument).trans rfl
      dsimp only
      split
      · exact .single (.quiet hbound)
      · exact (ReflTransGen.single (.quiet hbound)).trans
          (Steps.foldl (fun c s => steps_carryOutNested env c s) _ _)

/-- A statement is carried out in steps, whichever command it is. -/
theorem steps_carryOut (s : Statement) : Steps env c (carryOut env c s) := by
  unfold carryOut
  split
  · exact steps_paint env c s.line _
  · exact Steps.foldl (fun c entry => steps_bindFormEvent env _ c entry) readEvents c
  · exact steps_carryOutNested env c s

/-- A program is carried out in steps from the empty canvas. -/
theorem steps_painted (config : Config) (source : String) :
    Steps (surroundings config source) (emptyCanvas config.cells source) (painted config source) :=
  Steps.foldl (fun c s => steps_carryOut _ c s) _ _

/-- The document of a program has what is on the canvas in the end. -/
theorem controls_build (config : Config) (source : String) :
    (build config source).document.controls = (painted config source).controls := by
  rw [build]

theorem window_build (config : Config) (source : String) :
    (build config source).document.window = (painted config source).window := by
  rw [build]

end ScreenForms.Screen
