import ScreenForms.Decimal.Read
import ScreenForms.Text.Blank

/-!
# Arithmetic in screen programs

Positions and sizes are written as sums of products of factors. A factor is a number, a signed
factor, an expression in parentheses or a call of one of eight functions. Sums and products
associate to the left, blanks may stand between any two parts, and factors may be nested 64 deep.
An expression that uses anything else, divides by zero or has no finite value has no value at all.
-/

namespace ScreenForms.Screen.Expr

/-- The size of the screen in cells, as the program sees it. -/
structure ScreenSize where
  rows : Float
  columns : Float
  deriving DecidableEq, Repr, Inhabited

/-- How deep factors may be nested. -/
def maxDepth : Nat := 64

/-! ## Functions -/

/-- The float with a whole magnitude, under the sign of another float. -/
def wholeFloat (negative : Bool) (magnitude : Nat) : Float :=
  if negative then -(Float.ofNat magnitude) else Float.ofNat magnitude

/-- Brings a float to a whole number by a function on its exact value. Floats without fraction
stay as they are. -/
def toWhole (magnitude : Decimal.Binary → Nat) (x : Float) : Float :=
  match Decimal.Binary.ofFloat? x with
  | none => x
  | some b => if b.isWhole then x else wholeFloat b.negative (magnitude b)

/-- The float without its fraction. -/
def truncateFloat : Float → Float := toWhole Decimal.Binary.magnitude

/-- The largest whole number that is not larger. -/
def floorFloat : Float → Float := toWhole fun b => if b.negative then b.magnitude + 1 else b.magnitude

/-- The smallest whole number that is not smaller. -/
def ceilingFloat : Float → Float :=
  toWhole fun b => if b.negative then b.magnitude else b.magnitude + 1

/-- The nearest whole number, halves going away from zero. -/
def roundFloat : Float → Float := toWhole Decimal.Binary.nearestMagnitude

/-- Repeated squaring: multiplies `acc` by `base` raised to `n`. -/
def powerFrom : Nat → Float → Float → Nat → Float
  | 0, acc, _, _ => acc
  | fuel + 1, acc, base, n =>
    let acc := if n % 2 = 1 then acc * base else acc
    if n / 2 = 0 then acc else powerFrom fuel acc (base * base) (n / 2)

/-- A power of ten. A negative one is the reciprocal of the positive one. -/
def powerOfTen (n : Int) : Float :=
  let p := powerFrom 33 1.0 10.0 n.natAbs
  if n < 0 then 1.0 / p else p

/-- The value of a call, when the function is known and takes so many arguments. -/
def applyFunction? (screen : ScreenSize) (name : String) (args : List Float) : Option Float :=
  match name, args with
  | "SROWS", [] => some screen.rows
  | "SCOLS", [] => some screen.columns
  | "INT", [x] => some (truncateFloat x)
  | "FLOOR", [x] => some (floorFloat x)
  | "CEILING", [x] => some (ceilingFloat x)
  | "ROUND", [x] => some (roundFloat x)
  | "ROUND", [x, places] =>
    let factor := powerOfTen (Decimal.truncate places)
    some (roundFloat (x * factor) / factor)
  | "MIN", [x, y] => some (Decimal.floatMin x y)
  | "MAX", [x, y] => some (Decimal.floatMax x y)
  | _, _ => none

/-! ## Parsing and evaluation -/

/-- What follows a character, with blanks allowed before it. -/
def eat? (c : Char) (cs : List Char) : Option (List Char) :=
  match Text.trimStart cs with
  | d :: rest => if d = c then some rest else none
  | [] => none

/-- A character of a number. -/
def isNumberChar (c : Char) : Bool := c.isDigit || c == '.'

/-- A character that may begin the name of a function. -/
def isNameStart (c : Char) : Bool := c.isAlpha || c == '_'

/-- A character of the name of a function. -/
def isNameChar (c : Char) : Bool := c.isAlphanum || c == '_'

mutual

/-- A sum of products, at most `depth` factors deep. -/
def sum? (screen : ScreenSize) : Nat → Nat → List Char → Option (Float × List Char)
  | 0, _, _ => none
  | fuel + 1, depth, cs =>
    match product? screen fuel depth cs with
    | none => none
    | some (value, rest) => sumFrom? screen fuel depth value rest

/-- The further products of a sum. -/
def sumFrom? (screen : ScreenSize) : Nat → Nat → Float → List Char → Option (Float × List Char)
  | 0, _, _, _ => none
  | fuel + 1, depth, value, cs =>
    match eat? '+' cs with
    | some rest =>
      match product? screen fuel depth rest with
      | none => none
      | some (next, rest) => sumFrom? screen fuel depth (value + next) rest
    | none =>
      match eat? '-' cs with
      | some rest =>
        match product? screen fuel depth rest with
        | none => none
        | some (next, rest) => sumFrom? screen fuel depth (value - next) rest
      | none => some (value, cs)

/-- A product of factors. -/
def product? (screen : ScreenSize) : Nat → Nat → List Char → Option (Float × List Char)
  | 0, _, _ => none
  | fuel + 1, depth, cs =>
    match factor? screen fuel depth cs with
    | none => none
    | some (value, rest) => productFrom? screen fuel depth value rest

/-- The further factors of a product. -/
def productFrom? (screen : ScreenSize) :
    Nat → Nat → Float → List Char → Option (Float × List Char)
  | 0, _, _, _ => none
  | fuel + 1, depth, value, cs =>
    match eat? '*' cs with
    | some rest =>
      match factor? screen fuel depth rest with
      | none => none
      | some (next, rest) => productFrom? screen fuel depth (value * next) rest
    | none =>
      match eat? '/' cs with
      | some rest =>
        match factor? screen fuel depth rest with
        | none => none
        | some (divisor, rest) =>
          if divisor == 0.0 then none
          else productFrom? screen fuel depth (value / divisor) rest
      | none => some (value, cs)

/-- One factor, with `depth` levels left for it and the factors in it. -/
def factor? (screen : ScreenSize) : Nat → Nat → List Char → Option (Float × List Char)
  | 0, _, _ => none
  | _ + 1, 0, _ => none
  | fuel + 1, depth + 1, cs =>
    match Text.trimStart cs with
    | [] => none
    | '-' :: rest => (factor? screen fuel depth rest).map fun r => (-r.1, r.2)
    | '+' :: rest => factor? screen fuel depth rest
    | '(' :: rest =>
      match sum? screen fuel depth rest with
      | none => none
      | some (value, rest) => (eat? ')' rest).map fun rest => (value, rest)
    | c :: rest =>
      if isNumberChar c then
        (Decimal.read? ((c :: rest).takeWhile isNumberChar)).map fun value =>
          (value, rest.dropWhile isNumberChar)
      else if isNameStart c then
        let name := String.ofList (((c :: rest).takeWhile isNameChar).map Char.toUpper)
        match eat? '(' (rest.dropWhile isNameChar) with
        | none => none
        | some rest =>
          match eat? ')' rest with
          | some rest => (applyFunction? screen name []).map fun value => (value, rest)
          | none =>
            match arguments? screen fuel depth rest with
            | none => none
            | some (args, rest) =>
              (applyFunction? screen name args).map fun value => (value, rest)
      else none

/-- The arguments of a call up to the closing parenthesis. -/
def arguments? (screen : ScreenSize) : Nat → Nat → List Char → Option (List Float × List Char)
  | 0, _, _ => none
  | fuel + 1, depth, cs =>
    match sum? screen fuel depth cs with
    | none => none
    | some (value, rest) =>
      match eat? ')' rest with
      | some rest => some ([value], rest)
      | none =>
        match eat? ',' rest with
        | none => none
        | some rest => (arguments? screen fuel depth rest).map fun r => (value :: r.1, r.2)

end

/-- The value of an expression. Each part takes a character or leads to a smaller kind of part, of
which there are four, so four times the length of the text bounds the number of steps. -/
def eval? (screen : ScreenSize) (cs : List Char) : Option Float :=
  match sum? screen (4 * cs.length + 5) maxDepth cs with
  | none => none
  | some (value, rest) =>
    if (Text.trimStart rest).isEmpty && value.isFinite then some value else none

end ScreenForms.Screen.Expr
