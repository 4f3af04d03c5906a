import ScreenForms.Form.Value
import ScreenForms.Text.Lines

/-!
# Colors

A color has three parts of eight bits. Legacy sources spell it as one packed number, as three
numbers with commas, or as a call `RGB(r,g,b)`.
-/

namespace ScreenForms

/-- A color with eight bits each of red, green and blue. -/
structure Color where
  red : UInt8
  green : UInt8
  blue : UInt8
  deriving DecidableEq, Repr, Inhabited

namespace Color

/-- Unpacks `red + 256 · green + 65536 · blue`; higher bits are ignored. -/
def ofPacked (n : Nat) : Color :=
  ⟨UInt8.ofNat n, UInt8.ofNat (n / 256), UInt8.ofNat (n / 65536)⟩

/-- The packed number of a color. -/
def packed (c : Color) : Nat :=
  c.red.toNat + 256 * c.green.toNat + 65536 * c.blue.toNat

/-- The arguments of an `RGB` call, written in upper or in lower case. -/
def callArguments? (cs : List Char) : Option (List Char) :=
  ((Text.dropLead? "RGB(".toList cs).orElse fun _ => Text.dropLead? "rgb(".toList cs).bind
    (Text.dropTail? [')'])

/-- Three numbers up to 255 with commas between them, else one packed number. -/
def readText? (cs : List Char) : Option Color :=
  let inner := (callArguments? cs).getD cs
  match (Text.splitOn ',' inner).map fun part => Decimal.readBounded? 255 (Text.trim part) with
  | [some r, some g, some b] => some ⟨UInt8.ofNat r, UInt8.ofNat g, UInt8.ofNat b⟩
  | _ => (Decimal.readBounded? 4294967295 cs).map ofPacked

/-- Reads a color from any of its spellings. -/
def ofValue? : Value → Option Color
  | .number n =>
    if 0.0 ≤ n ∧ n ≤ 16777215.0 then some (ofPacked (Decimal.truncate n).toNat) else none
  | .expr raw => readText? (Text.trim raw.toList)
  | .text raw => readText? (Text.trim raw.toList)
  | .flag _ => none

/-- Two hexadecimal digits. -/
def hexByte (b : UInt8) : List Char :=
  [Nat.digitChar (b.toNat / 16), Nat.digitChar (b.toNat % 16)]

/-- The spelling `#rrggbb`. -/
def hex (c : Color) : String :=
  String.ofList ('#' :: hexByte c.red ++ hexByte c.green ++ hexByte c.blue)

theorem ofPacked_packed (c : Color) : ofPacked c.packed = c := by
  have hr := c.red.toNat_lt
  have hg := c.green.toNat_lt
  have hb := c.blue.toNat_lt
  unfold ofPacked packed
  congr 1
  · apply UInt8.toNat.inj
    rw [UInt8.toNat_ofNat']
    omega
  · apply UInt8.toNat.inj
    rw [UInt8.toNat_ofNat']
    omega
  · apply UInt8.toNat.inj
    rw [UInt8.toNat_ofNat']
    omega

end Color

end ScreenForms
