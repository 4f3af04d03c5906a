import ScreenForms.Text.Blank
import ScreenForms.Text.Lines
import ScreenForms.Text.Search

/-!
# Declarations of parameters

The body of a method may declare its parameters on its first line that is not blank. Reading such
a body takes the declaration out of it.
-/

namespace ScreenForms.Parameters

/-- The words that declare parameters, each with the blank that follows it. -/
def declarationWords : List String := ["lparameters ", "parameters "]

/-- What stands behind a word that declares parameters. -/
def declared? (line : List Char) : Option (List Char) :=
  declarationWords.findSome? fun word => Text.dropLeadNoCase? word.toList line

/-- The names between commas. -/
def namesOf (cs : List Char) : List String :=
  (((Text.splitOn ',' cs).map Text.trim).filter fun name => !name.isEmpty).map String.ofList

/-- The parameters that a body declares and the body without the declaration. A body without a
declaration is left exactly as it is. -/
def split (body : String) : List String × String :=
  let lines := Text.lines body.toList
  match lines.find? fun l => !(Text.trim l).isEmpty with
  | none => ([], body)
  | some first =>
    match declared? (Text.trim first) with
    | none => ([], body)
    | some names =>
      let rest := lines.eraseP fun l => Text.trim l == Text.trim first
      (namesOf names, String.ofList (Text.joinWith ['\n'] rest))

end ScreenForms.Parameters
