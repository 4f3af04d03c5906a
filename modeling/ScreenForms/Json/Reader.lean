import ScreenForms.Decimal.Read
import ScreenForms.Json.Basic

/-!
# Reading JSON

A reader for exactly one JSON value: blanks are the space, tab, line feed and carriage return,
numbers have no leading zeros, strings hold no raw control characters, and nothing follows the
value. Text that has this form is read as a whole, also where a number is too large for a float or
an escaped surrogate stands alone: such parts are `Json.unreadable`, which matters only to those
who ask for them.

Of two steps of the reader in a row at least one takes a character, so twice the length of the
text bounds the number of steps.
-/

namespace ScreenForms.Json

/-- The blanks that JSON allows between its parts. -/
def isJsonBlank (c : Char) : Bool := c == ' ' || c == '\n' || c == '\r' || c == '\t'

/-- Drops blanks at the front. -/
def skipBlanks (cs : List Char) : List Char := cs.dropWhile isJsonBlank

/-- The value of a hexadecimal digit. -/
def hexDigit? (c : Char) : Option Nat :=
  if c.isDigit then some (c.toNat - '0'.toNat)
  else if 'a' ≤ c ∧ c ≤ 'f' then some (c.toNat - 'a'.toNat + 10)
  else if 'A' ≤ c ∧ c ≤ 'F' then some (c.toNat - 'A'.toNat + 10)
  else none

/-- Four hexadecimal digits. -/
def hexUnit? : List Char → Option (Nat × List Char)
  | a :: b :: c :: d :: rest => do
    let a ← hexDigit? a
    let b ← hexDigit? b
    let c ← hexDigit? c
    let d ← hexDigit? d
    some (((a * 16 + b) * 16 + c) * 16 + d, rest)
  | _ => none

/-- Whether a code is the first half of a surrogate pair. -/
def isHighHalf (n : Nat) : Bool := 0xD800 ≤ n && n ≤ 0xDBFF

/-- Whether a code is the second half of a surrogate pair. -/
def isLowHalf (n : Nat) : Bool := 0xDC00 ≤ n && n ≤ 0xDFFF

/-- The text of a list of codes, when its surrogates come in pairs. `done` holds the characters
before them, last first. -/
def textFrom? : List Char → List Nat → Option String
  | done, [] => some (String.ofList done.reverse)
  | done, [n] =>
    if isHighHalf n || isLowHalf n then none
    else some (String.ofList (Char.ofNat n :: done).reverse)
  | done, n :: m :: rest =>
    if isLowHalf n then none
    else if isHighHalf n then
      if isLowHalf m then
        textFrom? (Char.ofNat (0x10000 + (n - 0xD800) * 0x400 + (m - 0xDC00)) :: done) rest
      else none
    else textFrom? (Char.ofNat n :: done) (m :: rest)

/-- The character that an escape letter stands for. -/
def simpleEscape? : Char → Option Char
  | '"' => some '"'
  | '\\' => some '\\'
  | '/' => some '/'
  | 'b' => some '\x08'
  | 'f' => some '\x0c'
  | 'n' => some '\n'
  | 'r' => some '\r'
  | 't' => some '\t'
  | _ => none

/-- The codes of a string behind its opening mark: those of its characters, and those that are
escaped. `done` holds what was read, last first. -/
def readString? : Nat → List Nat → List Char → Option (List Nat × List Char)
  | 0, _, _ => none
  | _ + 1, _, [] => none
  | fuel + 1, done, c :: cs =>
    if c = '"' then some (done.reverse, cs)
    else if c.toNat < 0x20 then none
    else if c = '\\' then
      match cs with
      | [] => none
      | 'u' :: cs =>
        match hexUnit? cs with
        | some (n, rest) => readString? fuel (n :: done) rest
        | none => none
      | e :: cs =>
        match simpleEscape? e with
        | some c => readString? fuel (c.toNat :: done) cs
        | none => none
    else readString? fuel (c.toNat :: done) cs

/-- The digits of a whole part: a single zero, or digits that start with another. -/
def wholeDigits? (cs : List Char) : Option (List Char × List Char) :=
  match Decimal.spanDigits cs with
  | (['0'], rest) => some (['0'], rest)
  | ('0' :: _, _) => none
  | ([], _) => none
  | (digits, rest) => some (digits, rest)

/-- A sign and digits behind the letter of an exponent. -/
def exponentPart? (cs : List Char) : Option (Int × List Char) :=
  let (negative, cs) := match cs with
    | '-' :: cs => (true, cs)
    | '+' :: cs => (false, cs)
    | cs => (false, cs)
  match Decimal.spanDigits cs with
  | ([], _) => none
  | (digits, rest) =>
    let n : Int := Decimal.digitsValue digits
    some (if negative then -n else n, rest)

/-- Appends digits to a number as long as it fits into 64 bits; also how many digits were left. -/
def appendDigits (n : Nat) : List Char → Nat × Nat
  | [] => (n, 0)
  | c :: cs =>
    let longer := 10 * n + (c.toNat - '0'.toNat)
    if longer < Nat.pow 2 64 then appendDigits longer cs else (n, cs.length + 1)

/-- The largest exponent of a power of ten that is a float. -/
def maxExponent : Nat := 308

/-- Divides a float by a power of ten, in several steps where the power itself is no float. -/
def scaleDown (x : Float) (n : Nat) : Float :=
  if n ≤ maxExponent then x / Decimal.nearestFloat 1 n
  else if x == 0.0 then x
  else scaleDown (x / Decimal.nearestFloat 1 maxExponent) (n - maxExponent)
termination_by n
decreasing_by simp only [maxExponent] at *; omega

/-- Scales a float by a power of ten; nothing when the result is no float. -/
def scale? (x : Float) : Int → Option Float
  | .negSucc n => some (scaleDown x (n + 1))
  | .ofNat n =>
    if n ≤ maxExponent then
      let y := x * Decimal.nearestFloat 1 n
      if y.isInf then none else some y
    else if x == 0.0 then some x
    else none

/-- A float is its first digits, as many as fit into 64 bits, scaled by a power of ten. The scaling
is done in floats, so that a number with many digits may come out next to the nearest float. -/
def readFloat? (whole fraction : List Char) (exponent : Int) : Option Float :=
  let (n, skipped) := appendDigits 0 whole
  let (n, unread) := appendDigits n fraction
  scale? (Decimal.nearestFloat n 0) (exponent + skipped - (fraction.length - unread : Nat))

/-- A float with its sign, when there is one. -/
def signedFloat (negative : Bool) : Option Float → Json
  | some x => float (if negative then -x else x)
  | none => unreadable

/-- A whole number that fits into 64 bits stays whole; negative zero and larger ones are floats. -/
def readWhole (negative : Bool) (digits : List Char) : Json :=
  let n := Decimal.digitsValue digits
  let whole : Option Int :=
    if negative then if 0 < n ∧ n ≤ Nat.pow 2 63 then some (-(n : Int)) else none
    else if n < Nat.pow 2 64 then some n else none
  match whole with
  | some n => int n
  | none => signedFloat negative (readFloat? digits [] 0)

/-- A number without its sign. -/
def readMagnitude? (negative : Bool) (cs : List Char) : Option (Json × List Char) := do
  let (whole, rest) ← wholeDigits? cs
  let (fraction, rest, isFloat) ← match rest with
    | '.' :: rest =>
      match Decimal.spanDigits rest with
      | ([], _) => none
      | (digits, rest) => some (digits, rest, true)
    | _ => some ([], rest, false)
  let (exponent, rest, isFloat) ← match rest with
    | c :: more =>
      if c = 'e' ∨ c = 'E' then (exponentPart? more).map fun (e, rest) => (e, rest, true)
      else some (0, rest, isFloat)
    | [] => some (0, rest, isFloat)
  if isFloat then some (signedFloat negative (readFloat? whole fraction exponent), rest)
  else some (readWhole negative whole, rest)

/-- A string of given codes. -/
def ofCodes (codes : List Nat) : Json := ((textFrom? [] codes).map str).getD unreadable

/-- An object with the given members, when all of their names can be read. -/
def ofMembers (members : List (List Nat × Json)) : Json :=
  ((members.mapM fun m => (textFrom? [] m.1).map fun name => (name, m.2)).map obj).getD unreadable

mutual

/-- A value, the blanks before it already dropped. -/
def readValue? : Nat → List Char → Option (Json × List Char)
  | 0, _ => none
  | fuel + 1, cs =>
    match cs with
    | 'n' :: 'u' :: 'l' :: 'l' :: rest => some (null, rest)
    | 't' :: 'r' :: 'u' :: 'e' :: rest => some (bool true, rest)
    | 'f' :: 'a' :: 'l' :: 's' :: 'e' :: rest => some (bool false, rest)
    | '"' :: rest => (readString? fuel [] rest).map fun (codes, rest) => (ofCodes codes, rest)
    | '[' :: rest =>
      match skipBlanks rest with
      | ']' :: rest => some (arr [], rest)
      | rest => (readItems? fuel [] rest).map fun (vs, rest) => (arr vs, rest)
    | '\x7b' :: rest =>
      match skipBlanks rest with
      | '\x7d' :: rest => some (obj [], rest)
      | rest => (readMembers? fuel [] rest).map fun (ms, rest) => (ofMembers ms, rest)
    | '-' :: rest => readMagnitude? true rest
    | rest => readMagnitude? false rest

/-- The items of an array up to its closing bracket; `done` holds those read, last first. -/
def readItems? : Nat → List Json → List Char → Option (List Json × List Char)
  | 0, _, _ => none
  | fuel + 1, done, cs =>
    match readValue? fuel (skipBlanks cs) with
    | none => none
    | some (v, rest) =>
      match skipBlanks rest with
      | ',' :: rest => readItems? fuel (v :: done) rest
      | ']' :: rest => some ((v :: done).reverse, rest)
      | _ => none

/-- The members of an object up to its closing brace; `done` holds those read, last first. -/
def readMembers? : Nat → List (List Nat × Json) → List Char →
    Option (List (List Nat × Json) × List Char)
  | 0, _, _ => none
  | fuel + 1, done, cs =>
    match skipBlanks cs with
    | '"' :: rest =>
      match readString? fuel [] rest with
      | none => none
      | some (name, rest) =>
        match skipBlanks rest with
        | ':' :: rest =>
          match readValue? fuel (skipBlanks rest) with
          | none => none
          | some (v, rest) =>
            match skipBlanks rest with
            | ',' :: rest => readMembers? fuel ((name, v) :: done) rest
            | '\x7d' :: rest => some (((name, v) :: done).reverse, rest)
            | _ => none
        | _ => none
    | _ => none

end

/-- Reads a text that holds one JSON value and nothing else. -/
def read? (text : String) : Option Json :=
  let cs := text.toList
  match readValue? (2 * cs.length + 2) (skipBlanks cs) with
  | some (v, rest) => if (skipBlanks rest).isEmpty then some v else none
  | none => none

end ScreenForms.Json
