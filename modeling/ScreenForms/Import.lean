import ScreenForms.Import.CellScreen
import ScreenForms.Import.PixelScreen
import ScreenForms.Screen.Build

/-!
# Importing legacy sources

The records of a source decide its dialect, and the dialect decides how the document is built. A
source without records is read as a program.
-/

namespace ScreenForms

/-- Imports a legacy source. The remarks on lines that hold no record come first; for a program
they would only list its lines and are left out. -/
def importSource (config : Config) (source : String) : ImportOutcome :=
  let listing := Record.readAll source
  match Dialect.ofRecords listing.records with
  | .vfp9 =>
    let outcome := PixelScreen.build listing.records
    { outcome with diagnostics := listing.diagnostics ++ outcome.diagnostics }
  | .fox26dos =>
    let outcome := CellScreen.build config.cells listing.records
    { outcome with diagnostics := listing.diagnostics ++ outcome.diagnostics }
  | .spr => Screen.build config source

end ScreenForms
