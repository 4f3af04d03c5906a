import ScreenForms.Code.Bodies
import ScreenForms.Config
import ScreenForms.Import
import ScreenForms.Program

/-!
# Exporting documents

A document is exported in two steps: its code is brought into the language of the target, and a
program is generated from the result. Code that is not to be translated is put into comments, so
it never runs.
-/

namespace ScreenForms

namespace Document

/-- Brings the code of a document into the language of a target, as the options ask. Methods are
translated only together with the events. -/
def localize (options : ExportOptions) (target : Target) (doc : Document) : Document :=
  let comment := Code.commentOut target
  doc.mapBodies
    (fun b => if options.translateEvents then doc.translateEvent target b else comment b.code)
    (fun m =>
      if options.translateEvents && options.translateMethods then translateMethod target m
      else comment m.body)

/-- Exports a document as a program. -/
def exportTo (options : ExportOptions) (target : Target) (doc : Document) :
    Except DocumentError Program :=
  (doc.localize options target).generate target

end Document

/-- Imports a source and exports its document as a program. -/
def convert (config : Config) (target : Target) (source : String) :
    ImportOutcome × Except DocumentError Program :=
  let outcome := importSource config source
  (outcome, outcome.document.exportTo config.output target)

end ScreenForms
