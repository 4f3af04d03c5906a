import ScreenForms.Form.Nesting
import ScreenForms.Target

/-!
# Layout

The order in which the controls of a form are built: every control after the one that holds it,
and siblings in the order of the document. The layout is a walk through the tree of holders that
enters a control before those inside it and leaves a control that holds others behind the last of
them, so that entering and leaving nest like brackets.
-/

namespace ScreenForms

/-- A control at its place in the layout. -/
structure Placed where
  control : Control
  /-- how many controls hold it, directly or not -/
  depth : Nat
  holder : Option Control
  deriving DecidableEq, Repr, Inhabited

/-- A step of the walk. -/
inductive Visit where
  | enter (placed : Placed)
  | leave (placed : Placed)
  deriving DecidableEq, Repr

/-- The control that a step enters. -/
def Visit.entered? : Visit → Option Placed
  | .enter placed => some placed
  | .leave _ => none

/-- Whether controls of this kind have others inside them and so are left again. -/
def ControlKind.opensScope (kind : ControlKind) : Bool :=
  kind.holdsControls || kind == .pageframe

namespace Document

/-- The controls that nothing holds. -/
def roots (doc : Document) : List Control :=
  doc.controls.filter fun c => (doc.holder? c).isNone

/-- The controls that a control holds. -/
def heldBy (doc : Document) (holder : Control) : List Control :=
  doc.controls.filter fun c => (doc.holder? c).any fun h => h.id == holder.id

/-- Walks a control and everything inside it, at most `fuel` levels deep. -/
def visitFrom (doc : Document) : Nat → Nat → Option Control → Control → List Visit
  | 0, _, _, _ => []
  | fuel + 1, depth, holder, c =>
    let placed : Placed := { control := c, depth, holder }
    .enter placed :: (doc.heldBy c).flatMap (doc.visitFrom fuel (depth + 1) (some c)) ++
      if c.kind.opensScope then [.leave placed] else []

/-- Walks the whole form. No control is nested deeper than there are controls. -/
def visits (doc : Document) : List Visit :=
  doc.roots.flatMap (doc.visitFrom doc.controls.length 0 none)

/-- The controls in the order in which they are built. -/
def layout (doc : Document) : List Placed := doc.visits.filterMap Visit.entered?

end Document

/-! ## Series -/

namespace Placed

/-- The kind of the control. -/
abbrev kind (p : Placed) : ControlKind := p.control.kind

/-- Whether the control is a page of a page frame. -/
def isFramedPage (p : Placed) : Bool :=
  p.kind == .page && p.holder.any fun h => h.kind == .pageframe

/-- The group of a radio button: the one that it names, else whatever holds it. -/
def radioGroup (p : Placed) : String :=
  match p.control.props.extraText? ExtraKey.group with
  | some group => identifier group
  | none =>
    match p.holder with
    | some holder => identifier holder.name
    | none => "form"

/-- The series a control is numbered in: radio buttons within their group, the pages of a frame
within the frame. -/
def series? (p : Placed) : Option (ControlKind × String) :=
  if p.kind = .radio then some (.radio, p.radioGroup)
  else if p.isFramedPage then p.holder.map fun h => (.page, h.name)
  else none

end Placed

/-- The steps of a walk, each with the number of earlier controls in the series of its own. -/
def rankedFrom (seen : List (ControlKind × String)) : List Visit → List (Visit × Nat)
  | [] => []
  | visit :: rest =>
    match visit.entered?.bind Placed.series? with
    | none => (visit, 0) :: rankedFrom seen rest
    | some series => (visit, seen.count series) :: rankedFrom (series :: seen) rest

/-- The steps of the walk through a form with the ranks of its controls. -/
def Document.rankedVisits (doc : Document) : List (Visit × Nat) := rankedFrom [] doc.visits

/-- The controls of a form in the order in which they are built, with their ranks. -/
def Document.rankedLayout (doc : Document) : List (Placed × Nat) :=
  doc.rankedVisits.filterMap fun v => v.1.entered?.map fun placed => (placed, v.2)

end ScreenForms
