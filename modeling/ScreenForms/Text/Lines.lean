/-!
# Lines

A text is cut at its line feeds. A carriage return directly before the line feed belongs to the
line end, and a last piece counts as a line only when it holds a character. `splitOn` cuts at one
character and keeps every piece, so its result is never empty.
-/

namespace ScreenForms.Text

/-- The lines of a text, without their line ends. -/
def lines : List Char → List (List Char)
  | [] => []
  | '\n' :: cs => [] :: lines cs
  | '\r' :: '\n' :: cs => [] :: lines cs
  | c :: cs =>
    match lines cs with
    | [] => [[c]]
    | l :: ls => (c :: l) :: ls

/-- The pieces between the occurrences of `sep`, in order. -/
def splitOn (sep : Char) : List Char → List (List Char)
  | [] => [[]]
  | c :: cs =>
    if c = sep then [] :: splitOn sep cs
    else
      match splitOn sep cs with
      | [] => [[c]]
      | p :: ps => (c :: p) :: ps

/-- The texts one after another with `sep` between neighbours. -/
def joinWith (sep : List Char) : List (List Char) → List Char
  | [] => []
  | [l] => l
  | l :: ls => l ++ sep ++ joinWith sep ls

/-- Strings one after another with `sep` between neighbours. -/
def join (sep : String) : List String → String
  | [] => ""
  | [l] => l
  | l :: ls => l ++ sep ++ join sep ls

/-- Strings one after another with a line feed behind each. -/
def unlines (ls : List String) : String := String.join (ls.map fun l => l ++ "\n")

/-- The characters of a text that is put together from two. -/
theorem toList_append_of {s t : String} {cs ds : List Char} (hs : s.toList = cs)
    (ht : t.toList = ds) : (s ++ t).toList = cs ++ ds := by
  rw [String.toList_append, hs, ht]

theorem splitOn_ne_nil (sep : Char) (cs : List Char) : splitOn sep cs ≠ [] := by
  cases cs with
  | nil => simp [splitOn]
  | cons c cs =>
    rw [splitOn]
    split
    · simp
    · split <;> simp

theorem joinWith_cons (sep l : List Char) {ls : List (List Char)} (hne : ls ≠ []) :
    joinWith sep (l :: ls) = l ++ sep ++ joinWith sep ls := by
  rw [joinWith]
  exact hne

/-- Putting the separator back between the pieces gives the text back. -/
theorem joinWith_splitOn (sep : Char) (cs : List Char) :
    joinWith [sep] (splitOn sep cs) = cs := by
  induction cs with
  | nil => rfl
  | cons c cs ih =>
    rw [splitOn]
    split
    · next h =>
      obtain ⟨p, ps, hp⟩ := List.exists_cons_of_ne_nil (splitOn_ne_nil sep cs)
      rw [hp] at ih ⊢
      simp [joinWith, ih, h]
    · obtain ⟨p, ps, hp⟩ := List.exists_cons_of_ne_nil (splitOn_ne_nil sep cs)
      rw [hp] at ih ⊢
      cases ps with
      | nil => simpa [joinWith] using ih
      | cons q qs => simpa [joinWith] using ih

end ScreenForms.Text
