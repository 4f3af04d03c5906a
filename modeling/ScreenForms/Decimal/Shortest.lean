import ScreenForms.Decimal.Binary

/-!
# The shortest decimal of a float

A decimal reads back as a given float exactly when it lies in the interval of reals that round
to that float. The interval is computed exactly over a common denominator. Grids with 1, 2, …
17 significant digits are tried in turn: the first grid with a point in the interval gives the
digits, of two such points the nearer one. Of two equally near ones `Tie` says which.
-/

namespace ScreenForms.Decimal

/-- Which of two equally near decimals is taken. -/
inductive Tie where
  /-- the larger one -/
  | up
  /-- the one whose last digit is even -/
  | even
  deriving DecidableEq, Repr

/-- A decimal number `digits · 10^exponent`. -/
structure Digits where
  digits : Nat
  exponent : Int
  deriving DecidableEq, Repr

/-- The reals that round to a positive float, as numerators over one denominator. -/
structure Interval where
  low : Nat
  value : Nat
  high : Nat
  denominator : Nat
  /-- whether the two ends belong to the interval -/
  closed : Bool

/-- Scales a numerator and a denominator by a power of two. -/
def scaleBinary (exponent : Int) (n : Nat) : Nat × Nat :=
  match exponent with
  | .ofNat k => (n * Nat.pow 2 k, 1)
  | .negSucc k => (n, Nat.pow 2 (k + 1))

/-- The interval of a positive float. The neighbour below a power of two is half as far away as
the one above, unless the float is at the least exponent. -/
def Interval.ofBinary (b : Binary) : Interval :=
  let unit := scaleBinary b.exponent 1
  let below := if b.mantissa = Nat.pow 2 52 ∧ -1074 < b.exponent then 1 else 2
  { low := (4 * b.mantissa - below) * unit.1
    value := 4 * b.mantissa * unit.1
    high := (4 * b.mantissa + 2) * unit.1
    denominator := 4 * unit.2
    closed := b.mantissa % 2 == 0 }

/-- Whether `numerator / scale` lies in the interval, with everything over one denominator. -/
def Interval.holds (i : Interval) (numerator scale : Nat) : Bool :=
  let p := numerator * i.denominator
  if i.closed then i.low * scale ≤ p && p ≤ i.high * scale
  else i.low * scale < p && p < i.high * scale

/-- The least `k` with `value < 10^k`, searched upward from `k` for at most `fuel` steps. -/
def decimalOrder (num den : Nat) : Nat → Int → Int
  | 0, k => k
  | fuel + 1, k =>
    let inside : Bool := match k with
      | .ofNat e => num < den * Nat.pow 10 e
      | .negSucc e => num * Nat.pow 10 (e + 1) < den
    if inside then k else decimalOrder num den fuel (k + 1)

/-- The point of the grid of step `10^exponent` that lies in the interval, if there is one: the
nearer neighbour of the value, or as `tie` says when both are equally near. -/
def Interval.onGrid? (i : Interval) (tie : Tie) (exponent : Int) : Option Digits :=
  let step := match exponent with
    | .ofNat e => (Nat.pow 10 e, 1)
    | .negSucc e => (1, Nat.pow 10 (e + 1))
  -- the value in grid steps is `num / den`
  let num := i.value * step.2
  let den := i.denominator * step.1
  let lower := num / den
  let upper := lower + 1
  let lowerIn := i.holds (lower * step.1) step.2
  let upperIn := i.holds (upper * step.1) step.2
  let twice := 2 * (num - lower * den)
  let lowerFirst := twice < den || twice == den && tie == .even && lower % 2 == 0
  if lowerIn && (lowerFirst || !upperIn) then some ⟨lower, exponent⟩
  else if upperIn then some ⟨upper, exponent⟩
  else none

/-- The first grid that holds a point, from `count` significant digits on. -/
def Interval.search (i : Interval) (tie : Tie) (order : Int) : Nat → Nat → Digits
  | 0, _ => ⟨i.value / i.denominator, 0⟩
  | fuel + 1, count =>
    match i.onGrid? tie (order - count) with
    | some d => d
    | none => i.search tie order fuel (count + 1)

/-- The same number without trailing zeros among its digits. -/
def Digits.dropZeros : Nat → Digits → Digits
  | 0, d => d
  | fuel + 1, d =>
    if d.digits ≠ 0 ∧ d.digits % 10 = 0 then dropZeros fuel ⟨d.digits / 10, d.exponent + 1⟩ else d

/-- The shortest digits that read back as the float. -/
def shortest (tie : Tie) (b : Binary) : Digits :=
  if b.mantissa = 0 then ⟨0, 0⟩
  else
    let i := Interval.ofBinary b
    (i.search tie (decimalOrder i.value i.denominator 700 (-330)) 17 1).dropZeros 17

/-- The digits of a natural number in base ten. -/
def decimalText (n : Nat) : List Char := Nat.toDigits 10 n

/-- Positional text of `digits · 10^exponent`: zeros are filled in, no exponent is written and
a whole number has no point. -/
def Digits.positional (d : Digits) : List Char :=
  let text := decimalText d.digits
  match d.exponent with
  | .ofNat k => if d.digits = 0 then text else text ++ List.replicate k '0'
  | .negSucc k =>
    let places := k + 1
    let padded := List.replicate (places + 1 - text.length) '0' ++ text
    let whole := padded.length - places
    padded.take whole ++ '.' :: padded.drop whole

/-- The text of a float in positional notation: the fewest digits that read back. -/
def text (x : Float) : String :=
  match Binary.ofFloat? x with
  | some b => String.ofList ((if b.negative then ['-'] else []) ++ (shortest .up b).positional)
  | none => if x > 0 then "inf" else if x < 0 then "-inf" else "NaN"

/-- Text of a float as a JSON number: positional while the point stands within the first 16
digits or at most four places before them, scientific otherwise, with a sign in every exponent;
a whole number keeps `.0`. -/
def Digits.jsonText (d : Digits) : List Char :=
  let text := decimalText d.digits
  let point := d.exponent + text.length
  if 0 ≤ d.exponent ∧ point ≤ 16 then
    text ++ List.replicate d.exponent.toNat '0' ++ ['.', '0']
  else if 0 < point ∧ point ≤ 16 ∨ -5 < point ∧ point ≤ 0 then d.positional
  else
    let exponent := point - 1
    let scale := (if exponent < 0 then '-' else '+') :: decimalText exponent.natAbs
    match text with
    | first :: second :: more => first :: '.' :: second :: more ++ 'e' :: scale
    | _ => text ++ 'e' :: scale

/-- The JSON number of a finite float; an infinity or NaN has none and is written `null`. -/
def jsonText (x : Float) : String :=
  match Binary.ofFloat? x with
  | some b => String.ofList ((if b.negative then ['-'] else []) ++ (shortest .even b).jsonText)
  | none => "null"

/-- The text of a whole number. -/
def intText (n : Int) : String :=
  match n with
  | .ofNat k => String.ofList (decimalText k)
  | .negSucc k => String.ofList ('-' :: decimalText (k + 1))

/-- Like `text`, but a whole number below `10^15` has no sign of zero. -/
def plainText (x : Float) : String :=
  match Binary.ofFloat? x with
  | some b =>
    if b.isWhole ∧ b.magnitude < Nat.pow 10 15 then intText (b.signed b.magnitude) else text x
  | none => text x

end ScreenForms.Decimal
