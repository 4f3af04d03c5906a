import ScreenForms.Screen.Clause

/-!
# Captions and picture clauses

A caption of a button may begin with marks: two backslashes for a disabled button, `\!` for the
default button and `\?` for the cancel button. Inside it `\<` marks the character behind it as the
hotkey; the first such mark counts. A picture clause is an input mask, or a function code behind
`@` and the captions behind that.
-/

namespace ScreenForms.Screen

/-- A caption with its marks decoded. -/
structure Caption where
  text : List Char := []
  hotkey : Option Char := none
  disabled : Bool := false
  isDefault : Bool := false
  isCancel : Bool := false
  deriving DecidableEq, Repr

namespace Caption

/-- Takes the marks off the front of a caption. -/
def readMarks : List Char → Caption → Caption × List Char
  | '\\' :: '\\' :: cs, item => readMarks cs { item with disabled := true }
  | '\\' :: '!' :: cs, item => readMarks cs { item with isDefault := true }
  | '\\' :: '?' :: cs, item => readMarks cs { item with isCancel := true }
  | cs, item => (item, cs)

/-- The text without hotkey marks, and the character behind the first of them. -/
def readHotkey : List Char → List Char × Option Char
  | '\\' :: '<' :: cs =>
    let (text, later) := readHotkey cs
    (text, cs.head?.orElse fun _ => later)
  | c :: cs =>
    let (text, hotkey) := readHotkey cs
    (c :: text, hotkey)
  | [] => ([], none)

/-- Decodes a caption. -/
def read (raw : List Char) : Caption :=
  let (item, rest) := readMarks (Text.trim raw) {}
  let (text, hotkey) := readHotkey rest
  { item with text, hotkey }

end Caption

/-- A picture clause and a function clause taken together. -/
structure Picture where
  /-- the function code in upper case -/
  code : List Char := []
  /-- what stands behind the function code -/
  payload : List Char := []
  /-- the input mask, when there is no function code -/
  mask : Option (List Char) := none
  deriving DecidableEq, Repr

namespace Picture

/-- Reads the arguments of the two clauses. A function clause gives the code by itself. -/
def read (picture function : Option (List Char)) : Picture :=
  match function.map literal, picture.map literal with
  | some code, payload =>
    { code := Text.upper (Text.trim (code.dropWhile (· == '@'))), payload := payload.getD [] }
  | none, some ('@' :: rest) =>
    { code := Text.upper (rest.takeWhile (· != ' ')), payload := (rest.dropWhile (· != ' ')).drop 1 }
  | none, some mask => { mask := some mask }
  | none, none => {}

end Picture

end ScreenForms.Screen
