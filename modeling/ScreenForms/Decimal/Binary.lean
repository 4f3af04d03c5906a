/-!
# Finite doubles as exact numbers

A finite double is `±mantissa · 2^exponent`. Reading these three parts off its bits turns
truncation and rounding into arithmetic on natural numbers, with no floating-point step whose
result would have to be trusted.
-/

namespace ScreenForms.Decimal

/-- The exact value of a finite double: `±mantissa · 2^exponent`. -/
structure Binary where
  /-- whether the sign bit is set (also for a negative zero) -/
  negative : Bool
  mantissa : Nat
  exponent : Int
  deriving DecidableEq, Repr

namespace Binary

/-- The parts of a finite double; infinities and NaN have none. -/
def ofFloat? (x : Float) : Option Binary :=
  let bits := x.toBits.toNat
  let biased := bits / Nat.pow 2 52 % 2048
  let fraction := bits % Nat.pow 2 52
  if biased = 2047 then none
  else some
    { negative := bits / Nat.pow 2 63 == 1
      mantissa := if biased = 0 then fraction else fraction + Nat.pow 2 52
      exponent := (max biased 1 : Nat) - 1075 }

/-- Whether the value is a whole number. -/
def isWhole (b : Binary) : Bool :=
  match b.exponent with
  | .ofNat _ => true
  | .negSucc k => b.mantissa % Nat.pow 2 (k + 1) == 0

/-- The absolute value without its fraction. -/
def magnitude (b : Binary) : Nat :=
  match b.exponent with
  | .ofNat k => b.mantissa * Nat.pow 2 k
  | .negSucc k => b.mantissa / Nat.pow 2 (k + 1)

/-- The absolute value rounded to the nearest whole number, a half going up. -/
def nearestMagnitude (b : Binary) : Nat :=
  match b.exponent with
  | .ofNat k => b.mantissa * Nat.pow 2 k
  | .negSucc k => (2 * b.mantissa + Nat.pow 2 (k + 1)) / Nat.pow 2 (k + 2)

/-- Puts the sign in front of a magnitude. -/
def signed (b : Binary) (n : Nat) : Int := if b.negative then -(n : Int) else n

end Binary

/-- The number of a range that is nearest to the given one. -/
def clamp (low high n : Int) : Int := max low (min high n)

/-- A float brought to a whole number by `whole`, kept inside a range: an infinity goes to the end
of the range on its side and NaN to zero. -/
def toRange (low high : Int) (whole : Binary → Nat) (x : Float) : Int :=
  match Binary.ofFloat? x with
  | some b => clamp low high (b.signed (whole b))
  | none => if x > 0 then high else if x < 0 then low else 0

/-- The whole part of a float as a signed 32-bit number. -/
def truncate (x : Float) : Int := toRange (-2147483648) 2147483647 Binary.magnitude x

/-- The nearest signed 32-bit number, halves going away from zero. -/
def nearest (x : Float) : Int := toRange (-2147483648) 2147483647 Binary.nearestMagnitude x

/-- The nearest signed 64-bit number, halves going away from zero. -/
def nearest64 (x : Float) : Int :=
  toRange (-9223372036854775808) 9223372036854775807 Binary.nearestMagnitude x

/-- The infinity above all finite floats. -/
def infinity : Float := 1.0 / 0.0

/-- The float that is no number. -/
def nan : Float := 0.0 / 0.0

/-- The larger of two floats, the second when they are equal; a NaN gives way to the other. -/
def floatMax (x y : Float) : Float :=
  if x.isNaN then y else if y.isNaN then x else if y < x then x else y

/-- The smaller of two floats, the second when they are equal; a NaN gives way to the other. -/
def floatMin (x y : Float) : Float :=
  if x.isNaN then y else if y.isNaN then x else if x < y then x else y

theorem clamp_of_mem {low high n : Int} (lo : low ≤ n) (hi : n ≤ high) :
    clamp low high n = n := by
  unfold clamp
  omega

example : nearest 2.5 = 3 ∧ nearest (-2.5) = -3 ∧ truncate (-2.5) = -2 ∧ nearest 0.49 = 0 := by
  decide +kernel

end ScreenForms.Decimal
