import Mathlib.Logic.Equiv.Basic
import ScreenForms.Proofs.Renaming

/-!
# Programs do not depend on ids

The generators write names, kinds, places and properties of controls, and never an id. So each of
their parts is the same for a control under another id, and so is the program of a whole form
(`Document.exportTo_renameIds`).
-/

namespace ScreenForms

variable {f : ControlId → ControlId}

/-! ## Handlers -/

namespace Handler

/-- The name of a handler is a text that has been made before, and no id is put into it again. -/
@[simp] theorem name_renameIds (h : Handler) : (h.renameIds f).name = h.name := rfl

@[simp] theorem body_renameIds (h : Handler) : (h.renameIds f).body = h.body := rfl

/-- A handler is bound if a control owns it, whatever the id of this control is, or if its event is
none that the program calls itself. -/
@[simp] theorem isBound_renameIds (h : Handler) : (h.renameIds f).isBound = h.isBound := by
  rw [isBound, isBound, renameIds, Option.isSome_map]

end Handler

/-- The calls in a phase are those of the handlers of the form, and the id of the form stays. -/
theorem lifecycleCalls_renameIds (phase : Lifecycle) (handlers : List Handler) :
    lifecycleCalls phase (handlers.map (Handler.renameIds f)) = lifecycleCalls phase handlers := by
  refine List.flatMap_congr fun event _ => ?_
  rw [List.filter_map, List.map_map]
  refine congrArg _ (List.filter_congr fun h _ => ?_)
  rw [Function.comp_apply, Handler.renameIds, Option.isNone_map]

/-- The bound handlers stay the same and in their order. -/
theorem filter_isBound_renameIds (handlers : List Handler) :
    (handlers.map (Handler.renameIds f)).filter Handler.isBound =
      (handlers.filter Handler.isBound).map (Handler.renameIds f) := by
  rw [List.filter_map]
  congr 1
  exact List.filter_congr fun h _ => h.isBound_renameIds

/-! ## Parts of programs -/

/-- A widget is built from the name of the control, its properties and those of its parent. Ids do
not occur in it. -/
theorem Tkinter.widget_renameIds (p : Placed) (rank : Nat) :
    widget (p.renameIds f) rank = widget p rank := by
  obtain ⟨c, depth, _ | holder⟩ := p <;> rfl

theorem Tkinter.binding_renameIds (h : Handler) : binding (h.renameIds f) = binding h := by
  obtain ⟨_ | c, event, name, body⟩ := h <;> rfl

theorem Qt.widget_renameIds (p : Placed) (rank : Nat) :
    widget (p.renameIds f) rank = widget p rank := by
  obtain ⟨c, depth, _ | holder⟩ := p <;> rfl

theorem Qt.binding_renameIds (h : Handler) : binding (h.renameIds f) = binding h := by
  obtain ⟨_ | c, event, name, body⟩ := h <;> rfl

theorem Winforms.widget_renameIds (p : Placed) : widget (p.renameIds f) = widget p := by
  obtain ⟨c, depth, _ | holder⟩ := p <;> rfl

/-- Declarations have names and classes only. -/
theorem Winforms.declaration_renameIds (p : Placed) :
    declaration (p.renameIds f) = declaration p := by
  obtain ⟨c, depth, _ | holder⟩ := p <;> rfl

theorem Winforms.binding_renameIds (h : Handler) : binding (h.renameIds f) = binding h := by
  obtain ⟨_ | c, event, name, body⟩ := h <;> rfl

theorem Html.binding_renameIds (h : Handler) : binding (h.renameIds f) = binding h := by
  obtain ⟨_ | c, event, name, body⟩ := h <;> rfl

/-! ## Whole programs -/

namespace Document.IsRenamed

variable {doc doc' : Document} (h : doc.IsRenamed f doc') (hf : Function.Injective f)
  (hform : f formOwner = formOwner)
include h

/-- The tabs of a page frame are those of the pages that name it. -/
theorem tabLines_eq (depth : Nat) (frame : Control) :
    (Html.tabsOf doc' (frame.renameIds f)).map (Html.tabLine depth) =
      (Html.tabsOf doc frame).map (Html.tabLine depth) := by
  rw [Html.tabsOf, Html.tabsOf, h.controls, List.filter_map, List.map_map]
  refine congrArg _ (List.filter_congr fun page _ => ?_)
  rw [Function.comp_apply, Control.renameIds, Control.renameIds, Option.isNone_map]

/-- The tab buttons of a page frame come from the layout, which is the renamed one. -/
theorem htmlWidget_eq (p : Placed) (rank : Nat) :
    Html.widget doc' (p.renameIds f) rank = Html.widget doc p rank := by
  have htabs := h.tabLines_eq (p.depth + 2) p.control
  obtain ⟨⟨id, kind, name, x, y, width, height, parent, props⟩, depth, _ | holder⟩ := p <;>
    cases kind
  -- only page frames look at other controls of the document
  case none.pageframe | some.pageframe => exact congrArg (fun tabs => _ ++ tabs ++ _) htabs
  all_goals rfl

/-- Entering and leaving a control write the same lines. -/
theorem htmlVisitLines_eq (step : Visit × Nat) :
    Html.visitLines doc' (step.1.renameIds f, step.2) = Html.visitLines doc step := by
  obtain ⟨_ | _, rank⟩ := step
  · exact h.htmlWidget_eq _ rank
  · rfl

include hf

/-- The object with the controls as members has their names in the order of the layout. -/
theorem memberObject_eq : Html.memberObject doc' = Html.memberObject doc := by
  rw [Html.memberObject, Html.memberObject, h.window, h.layout_eq hf, List.map_map]
  rfl

/-- The lines of the form are made from its window and from what was shown to be the same before. -/
theorem formLines_eq : Html.formLines doc' = Html.formLines doc := by
  rw [Html.formLines, Html.formLines, h.window, h.rankedVisits_eq hf, List.flatMap_map]
  simp only [h.htmlVisitLines_eq]

include hform

/-- The handlers of both documents correspond, so the calls of each phase are the same. -/
theorem lifecycleCalls_eq (phase : Lifecycle) :
    lifecycleCalls phase doc'.handlers = lifecycleCalls phase doc.handlers := by
  rw [h.handlers_eq hf hform, lifecycleCalls_renameIds]

/-- The same bindings are written, whatever their form is, as long as ids are not in it. -/
theorem bindings_eq {binding : Handler → String}
    (hbinding : ∀ a, binding (a.renameIds f) = binding a) :
    (doc'.handlers.filter Handler.isBound).map binding =
      (doc.handlers.filter Handler.isBound).map binding := by
  rw [h.handlers_eq hf hform, filter_isBound_renameIds, List.map_map]
  exact List.map_congr_left fun a _ => hbinding a

/-- The same functions are written for all handlers. -/
theorem functions_eq {α : Type} (function : String → String → α) :
    (doc'.handlers.map fun a => function a.name a.body) =
      doc.handlers.map fun a => function a.name a.body := by
  rw [h.handlers_eq hf hform, List.map_map]
  rfl

omit hform in
/-- The same widgets are written in the order of the layout, as long as ids are not in them. -/
theorem widgets_eq {α : Type} {widget : Placed → Nat → List α}
    (hwidget : ∀ p rank, widget (p.renameIds f) rank = widget p rank) :
    (doc'.rankedLayout.flatMap fun p => widget p.1 p.2) =
      doc.rankedLayout.flatMap fun p => widget p.1 p.2 := by
  rw [h.rankedLayout_eq hf, List.flatMap_map]
  exact List.flatMap_congr fun p _ => hwidget p.1 p.2

/-- All parts of the program are the same. -/
theorem tkinter_program_eq : Tkinter.program doc' = Tkinter.program doc := by
  simp only [Tkinter.program, h.window, h.methods, h.lifecycleCalls_eq hf hform,
    h.bindings_eq hf hform Tkinter.binding_renameIds, h.widgets_eq hf Tkinter.widget_renameIds,
    h.functions_eq hf hform fun name body => Python.method name [] body]

theorem qt_program_eq : Qt.program doc' = Qt.program doc := by
  simp only [Qt.program, h.window, h.methods, h.lifecycleCalls_eq hf hform,
    h.bindings_eq hf hform Qt.binding_renameIds, h.widgets_eq hf Qt.widget_renameIds,
    h.functions_eq hf hform fun name body => Python.method name [] body]

theorem winforms_program_eq : Winforms.program doc' = Winforms.program doc := by
  have hplaced : ∀ {α : Type} {part : Placed → α}, (∀ p, part (p.renameIds f) = part p) →
      doc'.layout.map part = doc.layout.map part := by
    intro α part hpart
    rw [h.layout_eq hf, List.map_map]
    exact List.map_congr_left fun p _ => hpart p
  have hconstructor : ∀ className, Winforms.constructorLines className doc'.handlers =
      Winforms.constructorLines className doc.handlers := by
    intro className
    simp only [Winforms.constructorLines, h.lifecycleCalls_eq hf hform]
  have hwidgets : (doc'.layout.map fun p => Text.join "\n" (Winforms.widget p)) =
      doc.layout.map fun p => Text.join "\n" (Winforms.widget p) :=
    hplaced fun p => congrArg _ (Winforms.widget_renameIds p)
  have hfields : (doc'.layout.map fun p => "        " ++ Winforms.declaration p) =
      doc.layout.map fun p => "        " ++ Winforms.declaration p :=
    hplaced fun p => congrArg _ (Winforms.declaration_renameIds p)
  have hinitialization : Winforms.initialization doc' = Winforms.initialization doc := by
    simp only [Winforms.initialization, h.window, hwidgets,
      h.bindings_eq hf hform Winforms.binding_renameIds]
  simp only [Winforms.program, h.window, h.methods, hconstructor, hinitialization, hfields,
    h.functions_eq hf hform fun name body => Winforms.method ("private void " ++ name ++ "()") body]

theorem html_program_eq : Html.program doc' = Html.program doc := by
  have hscript : Html.script doc' = Html.script doc := by
    simp only [Html.script, h.memberObject_eq hf, h.methods, h.lifecycleCalls_eq hf hform,
      h.bindings_eq hf hform Html.binding_renameIds,
      h.functions_eq hf hform fun name body => Html.function name [] body]
  rw [Html.program, Html.program, h.window, h.formLines_eq hf, hscript]

/-- A document and the same document under other ids have the same program. -/
theorem programLines_eq (target : Target) : programLines target doc' = programLines target doc := by
  cases target with
  | tkinter => exact h.tkinter_program_eq hf hform
  | qt => exact h.qt_program_eq hf hform
  | winforms => exact h.winforms_program_eq hf hform
  | html => exact h.html_program_eq hf hform

end Document.IsRenamed

/-- Programs do not depend on ids. A document that passes its checks and stores its bindings under
their own keys is exported as the same program, with the same file name and the same content, under
any other ids that are distinct where the old ones are, leave the owner of the form as it is and
give no two bindings the same key. -/
theorem Document.exportTo_renameIds (options : ExportOptions) (target : Target) {doc : Document}
    (hvalid : doc.validate = .ok ()) (hkeyed : doc.events.IsKeyed)
    (hf : Function.Injective f) (hform : f formOwner = formOwner)
    (hkeys : (doc.events.values.map fun b => (b.renameIds f).key).Nodup) :
    ∃ program, doc.exportTo options target = .ok program ∧
      (doc.renameIds f).exportTo options target = .ok program := by
  have hrenamed := Document.isRenamed_renameIds hkeyed hkeys
  have hlocal := hrenamed.localize hf hform options target
  have hsound : doc.Sound := (valid_iff_sound doc).mp ((validate_eq_ok_iff doc).mp hvalid)
  have hprogram : ∀ {doc : Document}, doc.Sound → doc.exportTo options target = .ok
      { target
        fileName := target.fileName doc.window.name
        content := Text.unlines (programLines target (doc.localize options target)) } := by
    intro doc hs
    have hlocalValid : (doc.localize options target).validate = .ok () :=
      (validate_eq_ok_iff _).mpr ((valid_iff_sound _).mpr (hs.of_controls_eq rfl))
    rw [exportTo, generate, hlocalValid]
    rfl
  refine ⟨_, hprogram hsound, ?_⟩
  rw [hprogram (hrenamed.sound hf hsound), hrenamed.window, hlocal.programLines_eq hf hform]

/-- A button in a container. With the ids `a` and `z` exchanged, the binding of the button is stored
before that of the container. -/
def boxedButton : Document where
  controls := [
    { id := "m", kind := .button, name := "cmdSave", parent := some "a" },
    { id := "a", kind := .container, name := "box", width := 100, height := 50 }]
  events := EventMap.bind (EventMap.bind (EventMap.bind SortedMap.empty
    ⟨"a", "Click", "? 'box'"⟩) ⟨"m", "Click", "this.Enabled = .F."⟩) ⟨formOwner, "Load", "? 'form'"⟩

theorem Document.exportTo_renameIds_boxedButton :
    boxedButton.events.keys = ["a_Click", "form_Load", "m_Click"] ∧
      (boxedButton.renameIds (Equiv.swap "a" "z")).events.keys =
        ["form_Load", "m_Click", "z_Click"] ∧
      ∃ program, boxedButton.exportTo {} .qt = .ok program ∧
        (boxedButton.renameIds (Equiv.swap "a" "z")).exportTo {} .qt = .ok program := by
  have hkeyed : boxedButton.events.IsKeyed := by
    unfold EventMap.IsKeyed
    decide +kernel
  exact ⟨by decide +kernel, by decide +kernel,
    Document.exportTo_renameIds {} .qt (by decide +kernel) hkeyed (Equiv.swap "a" "z").injective
      (by decide +kernel) (by decide +kernel)⟩

end ScreenForms
