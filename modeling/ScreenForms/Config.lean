import ScreenForms.Decimal.Shortest
import ScreenForms.Decimal.Wrapping
import ScreenForms.Target

/-!
# Configuration

The sizes that turn character cells into pixels, the screen that programs are read for, and what
is done on export. Every setting has a default. A configuration is usable when its sizes are
positive and its paddings are not negative. Pixels are numbers with 32 bits, and sums of them wrap.
-/

namespace ScreenForms

/-- How character cells become pixels. -/
structure CellMetrics where
  columnWidth : Int := 8
  rowHeight : Int := 16
  paddingLeft : Int := 10
  paddingTop : Int := 10
  /-- the size of a screen in cells -/
  screenColumns : Int := 80
  screenRows : Int := 25
  deriving DecidableEq, Repr, Inhabited

namespace CellMetrics

/-- Cells as pixels, for cells of the given size. -/
def pixels (cells : Float) (size : Int) : Int := Decimal.nearest (cells * Float.ofInt size)

/-- The width of a number of columns. -/
def width (m : CellMetrics) (columns : Float) : Int := pixels columns m.columnWidth

/-- The height of a number of rows. -/
def height (m : CellMetrics) (rows : Float) : Int := pixels rows m.rowHeight

/-- The left edge of a column. -/
def x (m : CellMetrics) (column : Float) : Int :=
  Decimal.wrap32 (m.width column + m.paddingLeft)

/-- The upper edge of a row. -/
def y (m : CellMetrics) (row : Float) : Int :=
  Decimal.wrap32 (m.height row + m.paddingTop)

/-- The size of a form of so many cells with padding on all sides. -/
def formSize (m : CellMetrics) (columns rows : Float) : Int × Int :=
  Decimal.wrapPlace (m.width columns + 2 * m.paddingLeft, m.height rows + 2 * m.paddingTop)

end CellMetrics

/-- The screen that programs are read for. -/
structure ScreenMetrics where
  rows : Float := 25.0
  columns : Float := 80.0
  /-- the distance in pixels of buttons side by side -/
  groupStrideX : Int := 96
  /-- the distance in pixels of buttons one above the other -/
  groupStrideY : Int := 28
  deriving DecidableEq, Repr, Inhabited

/-- What is done on export. -/
structure ExportOptions where
  /-- the target when none is asked for -/
  defaultTarget : Target := .tkinter
  translateEvents : Bool := true
  translateMethods : Bool := true
  deriving DecidableEq, Repr, Inhabited

/-- All settings. -/
structure Config where
  cells : CellMetrics := {}
  screen : ScreenMetrics := {}
  output : ExportOptions := {}
  deriving DecidableEq, Repr, Inhabited

namespace Config

/-- What makes a configuration unusable, in a fixed order. -/
def complaints (c : Config) : List String :=
  let complain (wrong : Bool) (text : String) : List String := if wrong then [text] else []
  complain (c.cells.columnWidth ≤ 0)
    ("cells.col_width must be > 0, got " ++ Decimal.intText c.cells.columnWidth) ++
  complain (c.cells.rowHeight ≤ 0)
    ("cells.row_height must be > 0, got " ++ Decimal.intText c.cells.rowHeight) ++
  complain (c.cells.paddingLeft < 0 || c.cells.paddingTop < 0) "cells padding must be >= 0" ++
  complain (c.cells.screenColumns ≤ 0 || c.cells.screenRows ≤ 0)
    "cells.screen_cols and cells.screen_rows must be > 0" ++
  complain (c.screen.rows ≤ 0.0 || c.screen.columns ≤ 0.0)
    ("screen.srows/scols must be > 0, got " ++ Decimal.text c.screen.rows ++ "/" ++
      Decimal.text c.screen.columns) ++
  complain (c.screen.groupStrideX ≤ 0 || c.screen.groupStrideY ≤ 0)
    "screen group strides must be > 0"

end Config

end ScreenForms
