import ScreenForms.Record.Basic

/-!
# Dialects

Legacy screens come in three dialects: records with positions in pixels, records with positions
in character cells, and programs. Which one a source is follows from its records alone.
-/

namespace ScreenForms

/-- The dialect of a legacy source. -/
inductive Dialect where
  /-- records placed in pixels, with nesting -/
  | vfp9
  /-- records placed in character cells, flat -/
  | fox26dos
  /-- a program that paints the screen -/
  | spr
  deriving DecidableEq, Repr, Inhabited

namespace Dialect

/-- The name of a dialect. -/
def name : Dialect → String
  | .vfp9 => "vfp9"
  | .fox26dos => "fox26dos"
  | .spr => "spr"

/-- The name of a dialect in a serialized import. -/
def serializedName : Dialect → String
  | .fox26dos => "fox26_dos"
  | d => d.name

/-- A platform whose screens are made of character cells. -/
def isCharacterPlatform (platform : String) : Bool :=
  let name := String.ofList (Text.upper (Text.trim platform.toList))
  name = "DOS" || name = "UNIX"

/-- A record with a position in cells and none in pixels. -/
def usesCells (r : Record) : Bool :=
  (r.hasProperty "Row" && r.hasProperty "Column" || r.hasProperty "VPos" && r.hasProperty "HPos")
    && !(r.hasProperty "Left" || r.hasProperty "Top")

/-- The dialect of a source with these records. A source without records is a program; one
record of a character platform, or cell positions in more than half of the records, decide for
character cells. -/
def ofRecords (records : List Record) : Dialect :=
  if records.isEmpty then .spr
  else if records.any fun r => isCharacterPlatform r.platform then .fox26dos
  else if records.length < 2 * records.countP usesCells then .fox26dos
  else .vfp9

end Dialect

end ScreenForms
