/-!
# Blanks

Two notions of white space occur in legacy sources. `isBlank` is the Unicode property
White_Space, by which values and lines are trimmed; `isAsciiBlank` is the six characters that
the line grammars allow between their parts. `trim` and its two halves only ever drop blanks,
and what they leave neither starts nor ends with one.
-/

namespace ScreenForms.Text

/-- The Unicode property White_Space. -/
def isBlank (c : Char) : Bool :=
  let n := c.toNat
  (9 ≤ n && n ≤ 13) || n == 0x20 || n == 0x85 || n == 0xA0 || n == 0x1680 ||
    (0x2000 ≤ n && n ≤ 0x200A) || n == 0x2028 || n == 0x2029 || n == 0x202F || n == 0x205F ||
    n == 0x3000

/-- Tab, line feed, vertical tab, form feed, carriage return and space. -/
def isAsciiBlank (c : Char) : Bool :=
  let n := c.toNat
  (9 ≤ n && n ≤ 13) || n == 0x20

/-- Drops the blanks at the front. -/
def trimStart (cs : List Char) : List Char := cs.dropWhile isBlank

/-- Drops the characters at the end for which `p` holds. -/
def dropEndWhile (p : Char → Bool) (cs : List Char) : List Char :=
  (cs.reverse.dropWhile p).reverse

/-- Drops the blanks at the end. -/
def trimEnd (cs : List Char) : List Char := dropEndWhile isBlank cs

/-- Drops the blanks at both ends. -/
def trim (cs : List Char) : List Char := trimEnd (trimStart cs)

/-- Applies a function on characters to a string. -/
def onChars (f : List Char → List Char) (s : String) : String := String.ofList (f s.toList)

/-- The string without blanks at its ends. -/
abbrev trimmed (s : String) : String := onChars trim s

@[simp] theorem toList_onChars (f : List Char → List Char) (s : String) :
    (onChars f s).toList = f s.toList := by
  simp [onChars]

/-- The maximal runs of characters that are not blank. -/
def blankWords (cs : List Char) : List (List Char) :=
  go cs []
where
  /-- Carries the word read so far, last character first. -/
  go : List Char → List Char → List (List Char)
    | [], word => if word.isEmpty then [] else [word.reverse]
    | c :: cs, word =>
      if isBlank c then
        if word.isEmpty then go cs [] else word.reverse :: go cs []
      else go cs (c :: word)

@[simp] theorem trim_nil : trim [] = [] := rfl

/-- An ASCII blank is a blank. -/
theorem isBlank_of_isAsciiBlank {c : Char} (h : isAsciiBlank c = true) : isBlank c = true := by
  unfold isAsciiBlank at h
  unfold isBlank
  simp only [Bool.or_eq_true] at h ⊢
  rcases h with h | h
  · simp [h]
  · simp [h]

end ScreenForms.Text
