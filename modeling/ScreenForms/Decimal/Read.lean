import ScreenForms.Decimal.Binary

/-!
# Reading numbers

The grammar of a float is an optional sign and then `inf`, `infinity` or `nan` in any case, or
digits with an optional point among or around them and an optional exponent. At least one digit
stands beside the point and in the exponent, and no blank is allowed anywhere.
-/

namespace ScreenForms.Decimal

/-- The value of a run of ASCII digits. -/
def digitsValue (cs : List Char) : Nat :=
  cs.foldl (fun n c => 10 * n + (c.toNat - '0'.toNat)) 0

/-- The leading digits and what follows them. -/
def spanDigits (cs : List Char) : List Char × List Char :=
  (cs.takeWhile Char.isDigit, cs.dropWhile Char.isDigit)

/-- A nonempty run of digits and nothing else. -/
def readNat? (cs : List Char) : Option Nat :=
  if cs.isEmpty || !cs.all Char.isDigit then none else some (digitsValue cs)

/-- Digits with an optional sign in front. -/
def readInt? : List Char → Option Int
  | '+' :: cs => (readNat? cs).map Int.ofNat
  | '-' :: cs => (readNat? cs).map fun n => -(n : Int)
  | cs => (readNat? cs).map Int.ofNat

/-- A natural number of at most `limit`, with an optional plus sign. -/
def readBounded? (limit : Nat) : List Char → Option Nat
  | '+' :: cs => (readNat? cs).filter (· ≤ limit)
  | cs => (readNat? cs).filter (· ≤ limit)

/-- The exponent part: nothing, or a letter `e` with digits and an optional sign. -/
def readExponent? : List Char → Option Int
  | [] => some 0
  | c :: cs => if c = 'e' ∨ c = 'E' then readInt? cs else none

/-- The float nearest to `digits · 10^exponent`. Numbers far outside the range of floats are
settled by their order of magnitude alone. -/
def nearestFloat (digits : Nat) (exponent : Int) : Float :=
  let order := exponent + (Nat.toDigits 10 digits).length
  if digits = 0 then 0.0
  else if 310 < order then infinity
  else if order < -330 then 0.0
  else
    match exponent with
    | .ofNat e => Float.ofScientific digits false e
    | .negSucc e => Float.ofScientific digits true (e + 1)

/-- Digits, an optional point with digits, and an optional exponent. -/
def readMagnitude? (cs : List Char) : Option Float :=
  let (whole, rest) := spanDigits cs
  let (fraction, rest) := match rest with
    | '.' :: rest => spanDigits rest
    | _ => ([], rest)
  if whole.isEmpty && fraction.isEmpty then none
  else (readExponent? rest).map fun e =>
    nearestFloat (digitsValue (whole ++ fraction)) (e - fraction.length)

/-- A magnitude or one of the words for the special values. -/
def readUnsigned? (cs : List Char) : Option Float :=
  let word := String.ofList (cs.map Char.toLower)
  if word = "inf" ∨ word = "infinity" then some infinity
  else if word = "nan" then some nan
  else readMagnitude? cs

/-- Reads a float. -/
def read? : List Char → Option Float
  | '+' :: cs => readUnsigned? cs
  | '-' :: cs => (readUnsigned? cs).map fun x => -x
  | cs => readUnsigned? cs

end ScreenForms.Decimal
