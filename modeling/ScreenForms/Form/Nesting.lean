import ScreenForms.Form.Document

/-!
# Nesting

A control is held by its parent. A page without a parent is held by the page frame that it names,
so what holds a control is found partly by id and partly by name. The chain of holders may come
back to where it began even when the chain of parents does not.
-/

namespace ScreenForms.Document

/-- The page frame that a page without a parent names. -/
def pageFrameOf? (doc : Document) (c : Control) : Option Control :=
  if c.kind = .page ∧ c.parent = none then
    ((c.props.extraText? ExtraKey.pageFrame).bind doc.controlNamed?).filter
      fun frame => frame.kind == .pageframe
  else none

/-- The control that holds a control. -/
def holder? (doc : Document) (c : Control) : Option Control :=
  match c.parent with
  | some id => doc.control? id
  | none => doc.pageFrameOf? c

/-- The path of a control: the name of the form, of everything that holds the control, and its
own, with dots between them. A chain of holders longer than `fuel` is endless. -/
def pathFrom (doc : Document) : Nat → Control → Except DocumentError String
  | 0, c => .error (.parentCycle c.id)
  | fuel + 1, c =>
    match doc.holder? c with
    | none => .ok (doc.window.name ++ "." ++ c.name)
    | some holder =>
      match doc.pathFrom fuel holder with
      | .ok path => .ok (path ++ "." ++ c.name)
      | .error e => .error e

/-- The path of whatever holds a control: the form, or another control. A chain of holders that
ends has at most as many members as there are controls. -/
def holderPath (doc : Document) (c : Control) : Except DocumentError String :=
  match doc.holder? c with
  | none => .ok doc.window.name
  | some holder => doc.pathFrom (doc.controls.length + 1) holder

end ScreenForms.Document
