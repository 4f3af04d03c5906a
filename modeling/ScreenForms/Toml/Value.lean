import ScreenForms.Decimal.Read
import ScreenForms.Json.Reader
import ScreenForms.Toml.Table

/-!
# Reading TOML values

Strings, numbers, truth values, dates, arrays and inline tables. Arrays and inline tables may be
nested 79 deep, and a key may have 79 parts.
-/

namespace ScreenForms.Toml

/-- A blank within a line. -/
def isLineBlank (c : Char) : Bool := c == ' ' || c == '\t'

/-- Drops blanks within a line. -/
def skipLineBlanks (cs : List Char) : List Char := cs.dropWhile isLineBlank

/-- A control character that may not occur, not even in comments and strings. -/
def isForbidden (c : Char) : Bool := (c.toNat < 0x20 && c != '\t') || c.toNat == 0x7F

/-- What follows a line end, when there is one at the front. -/
def lineEnd? : List Char → Option (List Char)
  | '\n' :: cs => some cs
  | '\r' :: '\n' :: cs => some cs
  | _ => none

/-- Drops a comment up to its line end. -/
def skipComment? : List Char → Option (List Char)
  | '#' :: cs =>
    let rest := cs.dropWhile fun c => !isForbidden c
    if rest.isEmpty || (lineEnd? rest).isSome then some rest else none
  | cs => some cs

/-- Drops blanks, comments and line ends. -/
def skipLines? : Nat → List Char → Option (List Char)
  | 0, cs => some cs
  | fuel + 1, cs =>
    match skipComment? (skipLineBlanks cs) with
    | none => none
    | some rest =>
      match lineEnd? rest with
      | some rest => skipLines? fuel rest
      | none => some rest

/-! ## Strings -/

/-- So many hexadecimal digits as a character. -/
def codePoint? (count : Nat) (cs : List Char) : Option (Char × List Char) := do
  if cs.length < count then none
  else
    let digits ← (cs.take count).mapM Json.hexDigit?
    let n := digits.foldl (fun n d => 16 * n + d) 0
    if n.isValidChar then some (Char.ofNat n, cs.drop count) else none

/-- The character of an escape, without its backslash. -/
def escape? : List Char → Option (Char × List Char)
  | 'u' :: cs => codePoint? 4 cs
  | 'U' :: cs => codePoint? 8 cs
  | '/' :: _ => none
  | c :: cs => (Json.simpleEscape? c).map fun e => (e, cs)
  | [] => none

/-- The rest of a string on one line. In a literal string the backslash means itself. -/
def lineString? (mark : Char) : Nat → List Char → List Char → Option (String × List Char)
  | 0, _, _ => none
  | _ + 1, _, [] => none
  | fuel + 1, done, c :: cs =>
    if c = mark then some (String.ofList done.reverse, cs)
    else if isForbidden c then none
    else if c = '\\' ∧ mark = '"' then
      match escape? cs with
      | some (e, rest) => lineString? mark fuel (e :: done) rest
      | none => none
    else lineString? mark fuel (c :: done) cs

/-- Drops blanks and line ends. -/
def skipBlankLines : List Char → List Char
  | '\n' :: cs => skipBlankLines cs
  | '\r' :: '\n' :: cs => skipBlankLines cs
  | c :: cs => if isLineBlank c then skipBlankLines cs else c :: cs
  | [] => []

/-- Drops the line end and all blanks behind a backslash at the end of a line. -/
def joinedLine? (cs : List Char) : Option (List Char) :=
  (lineEnd? (skipLineBlanks cs)).map skipBlankLines

/-- The rest of a string over several lines. One or two marks may stand within it or directly
before the three that close it. -/
def blockString? (mark : Char) : Nat → List Char → List Char → Option (String × List Char)
  | 0, _, _ => none
  | _ + 1, _, [] => none
  | fuel + 1, done, c :: cs =>
    if c = mark then
      let marks := (c :: cs).takeWhile (· == mark)
      if marks.length < 3 then blockString? mark fuel (c :: done) cs
      else if marks.length ≤ 5 then
        some (String.ofList (done.reverse ++ marks.drop 3), cs.drop (marks.length - 1))
      else none
    else if c = '\\' ∧ mark = '"' then
      match joinedLine? cs with
      | some rest => blockString? mark fuel done rest
      | none =>
        match escape? cs with
        | some (e, rest) => blockString? mark fuel (e :: done) rest
        | none => none
    else
      match lineEnd? (c :: cs) with
      | some rest => blockString? mark fuel ('\n' :: done) rest
      | none => if isForbidden c then none else blockString? mark fuel (c :: done) cs

/-- A string, its first mark still in place. -/
def string? (fuel : Nat) (cs : List Char) : Option (String × List Char) :=
  match cs with
  | '"' :: '"' :: '"' :: cs => blockString? '"' fuel [] ((lineEnd? cs).getD cs)
  | '\'' :: '\'' :: '\'' :: cs => blockString? '\'' fuel [] ((lineEnd? cs).getD cs)
  | '"' :: cs => lineString? '"' fuel [] cs
  | '\'' :: cs => lineString? '\'' fuel [] cs
  | _ => none

/-! ## Numbers, truth values and dates -/

/-- The digits of a text in which single underscores may stand between digits. -/
def digitsOf? (isDigit : Char → Bool) : List Char → Option (List Char)
  | [] => none
  | [c] => if isDigit c then some [c] else none
  | c :: '_' :: cs =>
    if isDigit c then (digitsOf? isDigit cs).map (c :: ·) else none
  | c :: cs => if isDigit c then (digitsOf? isDigit cs).map (c :: ·) else none

/-- Decimal digits without a leading zero. -/
def wholeDigits? (cs : List Char) : Option (List Char) :=
  (digitsOf? Char.isDigit cs).filter fun ds => ds.length = 1 || ds.head? != some '0'

/-- A sign and what follows it. -/
def sign : List Char → Bool × List Char
  | '+' :: cs => (false, cs)
  | '-' :: cs => (true, cs)
  | cs => (false, cs)

/-- A number in another base. -/
def basedNumber? (base : Nat) (cs : List Char) : Option Int :=
  let isDigit (c : Char) : Bool := ((Json.hexDigit? c).filter (· < base)).isSome
  (digitsOf? isDigit cs).map fun ds =>
    ((ds.filterMap Json.hexDigit?).foldl (fun n d => base * n + d) 0 : Nat)

/-- A whole number within 64 bits. -/
def integer? (cs : List Char) : Option Int :=
  let n := match cs with
    | '0' :: 'x' :: cs => basedNumber? 16 cs
    | '0' :: 'o' :: cs => basedNumber? 8 cs
    | '0' :: 'b' :: cs => basedNumber? 2 cs
    | cs =>
      let (negative, cs) := sign cs
      (wholeDigits? cs).map fun ds =>
        let n : Int := Decimal.digitsValue ds
        if negative then -n else n
  n.filter fun n => -9223372036854775808 ≤ n ∧ n ≤ 9223372036854775807

/-- Whether a character opens an exponent. -/
def isExponentMark (c : Char) : Bool := c == 'e' || c == 'E'

/-- A float: a fraction, an exponent or both, or one of the special values. A number that is too
large for a float is refused; one that is too small is negative infinity. -/
def float? (cs : List Char) : Option Float := do
  let (negative, body) := sign cs
  let signed (x : Float) : Float := if negative then -x else x
  if body = "inf".toList then some (signed Decimal.infinity)
  else if body = "nan".toList then some Decimal.nan
  else
    let mantissa := body.takeWhile fun c => !isExponentMark c
    let whole ← wholeDigits? (mantissa.takeWhile (· != '.'))
    let fraction ← match mantissa.dropWhile (· != '.') with
      | [] => some []
      | _ :: ds => digitsOf? Char.isDigit ds
    let exponent ← match body.dropWhile fun c => !isExponentMark c with
      | [] => if fraction.isEmpty then none else some 0
      | _ :: es =>
        let (below, ds) := sign es
        (digitsOf? Char.isDigit ds).map fun ds =>
          let n : Int := Decimal.digitsValue ds
          if below then -n else n
    let x := signed (Decimal.nearestFloat (Decimal.digitsValue (whole ++ fraction))
      (exponent - fraction.length))
    if x == Decimal.infinity then none else some x

/-- Exactly two digits with a value of at most `limit`, and what follows them. -/
def twoDigits? (limit : Nat) : List Char → Option (Nat × List Char)
  | a :: b :: rest =>
    if a.isDigit && b.isDigit && Decimal.digitsValue [a, b] ≤ limit then
      some (Decimal.digitsValue [a, b], rest)
    else none
  | _ => none

/-- What follows one of some characters. -/
def oneOf? (allowed : List Char) : List Char → Option (List Char)
  | c :: cs => if c ∈ allowed then some cs else none
  | [] => none

/-- The number of days of a month. -/
def daysOf (year month : Nat) : Nat :=
  match month with
  | 2 => if year % 4 = 0 ∧ (year % 100 ≠ 0 ∨ year % 400 = 0) then 29 else 28
  | 4 | 6 | 9 | 11 => 30
  | _ => 31

/-- What follows a date. -/
def date? (cs : List Char) : Option (List Char) := do
  let year := cs.take 4
  if year.length < 4 || !year.all Char.isDigit then none
  else
    let (month, rest) ← twoDigits? 12 (← oneOf? ['-'] (cs.drop 4))
    let (day, rest) ← twoDigits? (daysOf (Decimal.digitsValue year) month) (← oneOf? ['-'] rest)
    if month = 0 ∨ day = 0 then none else some rest

/-- What follows a time of day. -/
def time? (cs : List Char) : Option (List Char) := do
  let (_, rest) ← twoDigits? 23 cs
  let (_, rest) ← twoDigits? 59 (← oneOf? [':'] rest)
  let (_, rest) ← twoDigits? 60 (← oneOf? [':'] rest)
  match rest with
  | '.' :: fraction =>
    if (fraction.head?.map Char.isDigit).getD false then some (fraction.dropWhile Char.isDigit)
    else none
  | rest => some rest

/-- What follows an offset from universal time. -/
def offset? (cs : List Char) : Option (List Char) :=
  (oneOf? ['Z', 'z'] cs).orElse fun _ => do
    let (_, rest) ← twoDigits? 23 (← oneOf? ['+', '-'] cs)
    let (_, rest) ← twoDigits? 59 (← oneOf? [':'] rest)
    some rest

/-- Whether a text is a date, a time, or both with an optional offset. -/
def isDateTime (cs : List Char) : Bool :=
  match date? cs with
  | none => time? cs == some []
  | some [] => true
  | some rest =>
    match (oneOf? ['T', 't', ' '] rest).bind time? with
    | none => false
    | some [] => true
    | some rest => offset? rest == some []

/-- A character of a number, a date or a truth value. -/
def isPlainChar (c : Char) : Bool :=
  c.isAlphanum || c == '_' || c == '+' || c == '-' || c == '.' || c == ':'

/-- A value without marks around it. A blank may stand between a date and a time. -/
def plain? (cs : List Char) : Option (Toml × List Char) :=
  let word := cs.takeWhile isPlainChar
  let rest := cs.dropWhile isPlainChar
  let scalar? : Option Toml :=
    if word = "true".toList then some (.bool true)
    else if word = "false".toList then some (.bool false)
    else (integer? word).map Toml.int |>.orElse fun _ => (float? word).map Toml.float
  match scalar? with
  | some v => some (v, rest)
  | none =>
    let longer := word ++ rest.take 1 ++ (rest.drop 1).takeWhile isPlainChar
    if date? word = some [] ∧ rest.head? = some ' ' ∧ isDateTime longer then
      some (.moment, cs.drop longer.length)
    else if isDateTime word then some (.moment, rest)
    else none

/-! ## Keys -/

/-- A character of a key that is not quoted. -/
def isKeyChar (c : Char) : Bool := c.isAlphanum || c == '_' || c == '-'

/-- One part of a key. -/
def keyPart? (fuel : Nat) (cs : List Char) : Option (String × List Char) :=
  match cs with
  | '"' :: cs => lineString? '"' fuel [] cs
  | '\'' :: cs => lineString? '\'' fuel [] cs
  | cs =>
    let word := cs.takeWhile isKeyChar
    if word.isEmpty then none else some (String.ofList word, cs.dropWhile isKeyChar)

/-- The parts of a key, between dots, and what follows. -/
def keyParts? : Nat → List Char → Option (List String × List Char)
  | 0, _ => none
  | fuel + 1, cs =>
    match keyPart? fuel (skipLineBlanks cs) with
    | none => none
    | some (part, rest) =>
      match skipLineBlanks rest with
      | '.' :: rest => (keyParts? fuel rest).map fun r => (part :: r.1, r.2)
      | rest => some ([part], rest)

/-- How many levels of arrays and inline tables, and how many parts of a key there may be. -/
def maxDepth : Nat := 79

/-- A key that is not too long. -/
def key? (fuel : Nat) (cs : List Char) : Option (List String × List Char) :=
  (keyParts? fuel cs).filter fun r => r.1.length ≤ maxDepth

/-! ## Inline tables and arrays -/

mutual

/-- A value. `depth` counts the levels still allowed. -/
def value? : Nat → Nat → List Char → Option (Toml × List Char)
  | 0, _, _ => none
  | fuel + 1, depth, cs =>
    match cs, depth with
    | '"' :: _, _ => (string? fuel cs).map fun r => (.str r.1, r.2)
    | '\'' :: _, _ => (string? fuel cs).map fun r => (.str r.1, r.2)
    | '[' :: _, 0 => none
    | '[' :: rest, depth + 1 => (items? fuel depth rest).map fun r => (.arr r.1, r.2)
    | '\x7b' :: _, 0 => none
    | '\x7b' :: rest, depth + 1 =>
      match skipLineBlanks rest with
      | '\x7d' :: rest => some (.table [], rest)
      | rest => (members? fuel depth [] rest).map fun r => (.table (memberValues r.1), r.2)
    | cs, _ => plain? cs

/-- The items of an array up to its closing bracket. -/
def items? : Nat → Nat → List Char → Option (List Toml × List Char)
  | 0, _, _ => none
  | fuel + 1, depth, cs =>
    match skipLines? fuel cs with
    | none => none
    | some (']' :: rest) => some ([], rest)
    | some rest =>
      match value? fuel depth rest with
      | none => none
      | some (v, rest) =>
        match skipLines? fuel rest with
        | some (',' :: rest) => (items? fuel depth rest).map fun r => (v :: r.1, r.2)
        | some (']' :: rest) => some ([v], rest)
        | _ => none

/-- The members of an inline table up to its closing brace. -/
def members? : Nat → Nat → List (String × Node) → List Char →
    Option (List (String × Node) × List Char)
  | 0, _, _, _ => none
  | fuel + 1, depth, done, cs =>
    match key? fuel cs with
    | some (path, '=' :: rest) =>
      match value? fuel depth (skipLineBlanks rest) with
      | none => none
      | some (v, rest) =>
        match assign? v path done, skipLineBlanks rest with
        | some done, ',' :: rest => members? fuel depth done rest
        | some done, '\x7d' :: rest => some (done, rest)
        | _, _ => none
    | _ => none

end

end ScreenForms.Toml
