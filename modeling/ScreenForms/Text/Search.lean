/-!
# Finding and replacing

Cuts a text at a fixed piece, compares without regard to ASCII case, and replaces every
occurrence of a piece from left to right.
-/

namespace ScreenForms.Text

/-- What follows `lead`, when the text starts with it. -/
def dropLead? : List Char → List Char → Option (List Char)
  | [], cs => some cs
  | _ :: _, [] => none
  | p :: ps, c :: cs => if p = c then dropLead? ps cs else none

/-- What stands before `tail`, when the text ends with it. -/
def dropTail? (tail cs : List Char) : Option (List Char) :=
  (dropLead? tail.reverse cs.reverse).map List.reverse

/-- The parts before and after the first occurrence of `piece`. -/
def breakOn? (piece : List Char) : List Char → Option (List Char × List Char)
  | [] => if piece.isEmpty then some ([], []) else none
  | c :: cs =>
    match dropLead? piece (c :: cs) with
    | some rest => some ([], rest)
    | none => (breakOn? piece cs).map fun r => (c :: r.1, r.2)

/-- Whether `piece` occurs in the text. -/
def occurs (piece cs : List Char) : Bool := (breakOn? piece cs).isSome

/-- ASCII letters in lower case, all else unchanged. -/
def lower (cs : List Char) : List Char := cs.map Char.toLower

/-- ASCII letters in upper case, all else unchanged. -/
def upper (cs : List Char) : List Char := cs.map Char.toUpper

/-- Equality of strings up to ASCII case. -/
def sameName (a b : String) : Bool := lower a.toList == lower b.toList

/-- What follows a lead that is matched without regard to ASCII case. -/
def dropLeadNoCase? : List Char → List Char → Option (List Char)
  | [], cs => some cs
  | _ :: _, [] => none
  | p :: ps, c :: cs => if p.toLower = c.toLower then dropLeadNoCase? ps cs else none

theorem eq_append_of_dropLead? {lead cs rest : List Char} (h : dropLead? lead cs = some rest) :
    cs = lead ++ rest := by
  induction lead generalizing cs with
  | nil => simpa [dropLead?] using h
  | cons p ps ih =>
    cases cs with
    | nil => simp [dropLead?] at h
    | cons c cs =>
      rw [dropLead?] at h
      split at h
      · next hpc => rw [ih h, hpc, List.cons_append]
      · simp at h

@[simp] theorem dropLead?_append (lead rest : List Char) :
    dropLead? lead (lead ++ rest) = some rest := by
  induction lead with
  | nil => simp [dropLead?]
  | cons p ps ih => simp [dropLead?, ih]

end ScreenForms.Text
