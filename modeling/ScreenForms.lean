import ScreenForms.Code.Bodies
import ScreenForms.Code.Expression
import ScreenForms.Code.Idiom
import ScreenForms.Code.Line
import ScreenForms.Code.Naming
import ScreenForms.Code.Quoted
import ScreenForms.Code.Token
import ScreenForms.Code.Translate
import ScreenForms.Command.Arguments
import ScreenForms.Command.Run
import ScreenForms.Config
import ScreenForms.ConfigReader
import ScreenForms.Decimal.Binary
import ScreenForms.Decimal.Read
import ScreenForms.Decimal.Shortest
import ScreenForms.Decimal.Wrapping
import ScreenForms.Diagnostic
import ScreenForms.Digest.Sha256
import ScreenForms.Export
import ScreenForms.Form.Color
import ScreenForms.Form.Control
import ScreenForms.Form.ControlKind
import ScreenForms.Form.Document
import ScreenForms.Form.Event
import ScreenForms.Form.Nesting
import ScreenForms.Form.Serial
import ScreenForms.Form.Value
import ScreenForms.Import
import ScreenForms.Import.CellScreen
import ScreenForms.Import.EventName
import ScreenForms.Import.Naming
import ScreenForms.Import.Outcome
import ScreenForms.Import.Parameters
import ScreenForms.Import.PixelScreen
import ScreenForms.Import.PropertyTable
import ScreenForms.Json.Basic
import ScreenForms.Json.Printer
import ScreenForms.Json.Reader
import ScreenForms.Main
import ScreenForms.Program
import ScreenForms.Program.Caption
import ScreenForms.Program.Handler
import ScreenForms.Program.Html
import ScreenForms.Program.Layout
import ScreenForms.Program.Python
import ScreenForms.Program.Qt
import ScreenForms.Program.Tkinter
import ScreenForms.Program.Winforms
import ScreenForms.Proofs.Blanks
import ScreenForms.Proofs.BlockLines
import ScreenForms.Proofs.BlockRows
import ScreenForms.Proofs.BoundCode
import ScreenForms.Proofs.BrokenLines
import ScreenForms.Proofs.Calls
import ScreenForms.Proofs.Canvas
import ScreenForms.Proofs.CanvasNames
import ScreenForms.Proofs.CaptionMarks
import ScreenForms.Proofs.CodeLines
import ScreenForms.Proofs.Commands
import ScreenForms.Proofs.Commented
import ScreenForms.Proofs.CountedLoops
import ScreenForms.Proofs.DefaultNames
import ScreenForms.Proofs.Digits
import ScreenForms.Proofs.DottedOperators
import ScreenForms.Proofs.Downstream
import ScreenForms.Proofs.Drafts
import ScreenForms.Proofs.Drawing
import ScreenForms.Proofs.Edits
import ScreenForms.Proofs.EqualitySigns
import ScreenForms.Proofs.EventRuns
import ScreenForms.Proofs.ExprDerives
import ScreenForms.Proofs.ExprGrammar
import ScreenForms.Proofs.ExprParses
import ScreenForms.Proofs.ExpressionParts
import ScreenForms.Proofs.FieldLists
import ScreenForms.Proofs.FilledBlocks
import ScreenForms.Proofs.Folding
import ScreenForms.Proofs.Holders
import ScreenForms.Proofs.Ids
import ScreenForms.Proofs.ImportNames
import ScreenForms.Proofs.ImportSound
import ScreenForms.Proofs.Items
import ScreenForms.Proofs.KeptCode
import ScreenForms.Proofs.KeptLiterals
import ScreenForms.Proofs.KeptProcedures
import ScreenForms.Proofs.LayoutOrder
import ScreenForms.Proofs.Lexing
import ScreenForms.Proofs.LineBreaks
import ScreenForms.Proofs.LineLiterals
import ScreenForms.Proofs.LineOwners
import ScreenForms.Proofs.Lists
import ScreenForms.Proofs.LiteralTexts
import ScreenForms.Proofs.Literals
import ScreenForms.Proofs.MemberReferences
import ScreenForms.Proofs.Mnemonics
import ScreenForms.Proofs.Names
import ScreenForms.Proofs.OpenBrackets
import ScreenForms.Proofs.OpenedWindows
import ScreenForms.Proofs.Output
import ScreenForms.Proofs.PaintedFields
import ScreenForms.Proofs.Parentheses
import ScreenForms.Proofs.Paths
import ScreenForms.Proofs.PixelNesting
import ScreenForms.Proofs.PixelPlaces
import ScreenForms.Proofs.Placing
import ScreenForms.Proofs.ProgramNames
import ScreenForms.Proofs.PropertyBags
import ScreenForms.Proofs.ReadBack
import ScreenForms.Proofs.ReadControls
import ScreenForms.Proofs.ReadExtras
import ScreenForms.Proofs.ReadLayout
import ScreenForms.Proofs.ReadMethods
import ScreenForms.Proofs.ReadPlaces
import ScreenForms.Proofs.ReadProperties
import ScreenForms.Proofs.ReadTokens
import ScreenForms.Proofs.RecordAccount
import ScreenForms.Proofs.RecordLines
import ScreenForms.Proofs.RecordParts
import ScreenForms.Proofs.RecordTexts
import ScreenForms.Proofs.Reimport
import ScreenForms.Proofs.RenamedPrograms
import ScreenForms.Proofs.Renaming
import ScreenForms.Proofs.ReorderedEvents
import ScreenForms.Proofs.ReorderedScreens
import ScreenForms.Proofs.Reordering
import ScreenForms.Proofs.Resplitting
import ScreenForms.Proofs.Rows
import ScreenForms.Proofs.ScreenWords
import ScreenForms.Proofs.Scripts
import ScreenForms.Proofs.Serialized
import ScreenForms.Proofs.SettledTexts
import ScreenForms.Proofs.SimpleLines
import ScreenForms.Proofs.SniffedValues
import ScreenForms.Proofs.SortedMaps
import ScreenForms.Proofs.Soundness
import ScreenForms.Proofs.Splitting
import ScreenForms.Proofs.Structured
import ScreenForms.Proofs.TabBars
import ScreenForms.Proofs.TestLines
import ScreenForms.Proofs.TextHeads
import ScreenForms.Proofs.TokenLiterals
import ScreenForms.Proofs.TokenPieces
import ScreenForms.Proofs.UnbrokenLines
import ScreenForms.Proofs.Violations
import ScreenForms.Proofs.Walk
import ScreenForms.Proofs.WholeFloats
import ScreenForms.Proofs.Writable
import ScreenForms.Proofs.WrittenLiterals
import ScreenForms.Proofs.WrittenNames
import ScreenForms.Proofs.WrittenNumbers
import ScreenForms.Proofs.WrittenValues
import ScreenForms.Record.Basic
import ScreenForms.Record.Dialect
import ScreenForms.Record.Reader
import ScreenForms.Record.Writer
import ScreenForms.Screen.Build
import ScreenForms.Screen.Canvas
import ScreenForms.Screen.Caption
import ScreenForms.Screen.Clause
import ScreenForms.Screen.Expr
import ScreenForms.Screen.Painting
import ScreenForms.Screen.Program
import ScreenForms.Screen.Window
import ScreenForms.SortedMap
import ScreenForms.Target
import ScreenForms.Text.Blank
import ScreenForms.Text.Delimited
import ScreenForms.Text.Indent
import ScreenForms.Text.Letter
import ScreenForms.Text.Lines
import ScreenForms.Text.Search
import ScreenForms.Text.Uppercase
import ScreenForms.Text.Utf8
import ScreenForms.Toml.Basic
import ScreenForms.Toml.Document
import ScreenForms.Toml.Table
import ScreenForms.Toml.Value
