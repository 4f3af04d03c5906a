import ScreenForms.Decimal.Shortest

/-!
# Diagnostics

Nothing in a legacy source is fatal. What cannot be used is left out, and a diagnostic says so.
-/

namespace ScreenForms

/-- How much a diagnostic matters. -/
inductive Severity where
  | info
  | warning
  deriving DecidableEq, Repr, Inhabited

/-- The name of a severity. -/
def Severity.name : Severity → String
  | .info => "info"
  | .warning => "warning"

/-- A remark on a source. -/
structure Diagnostic where
  severity : Severity
  /-- a stable code such as `record.malformed_property` -/
  code : String
  message : String
  /-- the line it is about, counted from one -/
  line : Option Nat
  deriving DecidableEq, Repr, Inhabited

namespace Diagnostic

/-- The diagnostic on one line of text. -/
def display (d : Diagnostic) : String :=
  match d.line with
  | some n =>
    d.severity.name ++ "[" ++ d.code ++ "] line " ++ Decimal.intText n ++ ": " ++ d.message
  | none => d.severity.name ++ "[" ++ d.code ++ "]: " ++ d.message

end Diagnostic

end ScreenForms
