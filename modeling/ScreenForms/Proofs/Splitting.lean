import ScreenForms.Proofs.LineBreaks

/-!
# Splitting joined texts

Pieces without the separator are found again when the text they are joined to is split
(`splitOn_joinWith`), also when blanks follow the separator and the pieces are trimmed
(`trimmedPieces_joinWith`). The lines of a text with a line feed behind it are its pieces between
line feeds, up to carriage returns.
-/

namespace ScreenForms.Text

variable {sep : Char} {cs ds : List Char}

theorem splitOn_of_not_mem (h : sep ∉ cs) : splitOn sep cs = [cs] := by
  induction cs with
  | nil => rfl
  | cons c cs ih =>
    obtain ⟨hc, hcs⟩ := not_or.mp (List.mem_cons.not.mp h)
    rw [splitOn, if_neg (Ne.symm hc), ih hcs]

theorem splitOn_append_cons (h : sep ∉ cs) (ds : List Char) :
    splitOn sep (cs ++ sep :: ds) = cs :: splitOn sep ds := by
  induction cs with
  | nil => rw [List.nil_append, splitOn, if_pos rfl]
  | cons c cs ih =>
    obtain ⟨hc, hcs⟩ := not_or.mp (List.mem_cons.not.mp h)
    rw [List.cons_append, splitOn, if_neg (Ne.symm hc), ih hcs]

/-- What stands in front of the first separator belongs to the first piece. -/
theorem splitOn_append_front {gap : List Char} (hgap : sep ∉ gap) (cs : List Char) :
    splitOn sep (gap ++ cs) = (splitOn sep cs).modifyHead (gap ++ ·) := by
  obtain ⟨p, ps, hp⟩ := List.exists_cons_of_ne_nil (splitOn_ne_nil sep cs)
  rw [hp, List.modifyHead_cons]
  induction gap with
  | nil => exact hp
  | cons g gap ih =>
    obtain ⟨hg, hgap⟩ := not_or.mp (List.mem_cons.not.mp hgap)
    rw [List.cons_append, splitOn, if_neg (Ne.symm hg), ih hgap, List.cons_append]

/-- Pieces that are joined by a separator, and by more characters behind it, are the pieces of the
joined text; all but the first begin with these characters. -/
theorem splitOn_joinWith {gap l : List Char} {ls : List (List Char)} (hgap : sep ∉ gap)
    (hl : sep ∉ l) (hls : ∀ m ∈ ls, sep ∉ m) :
    splitOn sep (joinWith (sep :: gap) (l :: ls)) = l :: ls.map (gap ++ ·) := by
  induction ls generalizing l with
  | nil => exact splitOn_of_not_mem hl
  | cons m ls ih =>
    obtain ⟨hm, hrest⟩ := List.forall_mem_cons.mp hls
    have hjoin : joinWith (sep :: gap) (l :: m :: ls) =
        l ++ sep :: (gap ++ joinWith (sep :: gap) (m :: ls)) := by
      rw [joinWith_cons _ _ (List.cons_ne_nil m ls), List.append_assoc, List.cons_append]
    rw [hjoin, splitOn_append_cons hl, splitOn_append_front hgap, ih hm hrest]
    rfl

/-- The pieces between separators without blanks at their ends and without those that are blank. -/
def trimmedPieces (sep : Char) (cs : List Char) : List (List Char) :=
  ((splitOn sep cs).map trim).filter fun piece => !piece.isEmpty

/-- Trimmed pieces are found again in the text they are joined to. A piece must not hold the
separator outside of literals and brackets, and must close what it opens. -/
theorem trimmedPieces_joinWith {gap : List Char} {ls : List (List Char)} (hsep : sep ∉ gap)
    (hgap : ∀ c ∈ gap, isBlank c = true)
    (hls : ∀ l ∈ ls, l ≠ [] ∧ trim l = l ∧ sep ∉ l) :
    trimmedPieces sep (joinWith (sep :: gap) ls) = ls := by
  have htrim : ∀ l, trim (gap ++ l) = trim l := by
    intro l
    clear hsep hls
    induction gap with
    | nil => rfl
    | cons g gap ih =>
      obtain ⟨hg, hgap⟩ := List.forall_mem_cons.mp hgap
      rw [List.cons_append, trim_cons_of_pos hg, ih hgap]
  have hsame : ls.map trim = ls := by
    conv_rhs => rw [← List.map_id ls]
    exact List.map_congr_left fun l hl => (hls l hl).2.1
  have hkept : ls.filter (fun piece => !piece.isEmpty) = ls :=
    List.filter_eq_self.mpr fun l hl => by simpa using (hls l hl).1
  rcases ls with _ | ⟨l, ls⟩
  · rfl
  · obtain ⟨hl, hrest⟩ := List.forall_mem_cons.mp hls
    rw [trimmedPieces, splitOn_joinWith hsep hl.2.2 fun m hm => (hrest m hm).2.2,
      List.map_cons, List.map_map]
    have hmap : ls.map (trim ∘ (gap ++ ·)) = ls.map trim :=
      List.map_congr_left fun m _ => htrim m
    rw [hmap, ← List.map_cons, hsame, hkept]

/-- A joined text ends with its last piece. -/
theorem exists_joinWith_concat (gap : List Char) (ls : List (List Char)) (l : List Char) :
    ∃ front, joinWith gap (ls ++ [l]) = front ++ l := by
  induction ls with
  | nil => exact ⟨[], rfl⟩
  | cons m ls ih =>
    obtain ⟨front, hfront⟩ := ih
    refine ⟨m ++ gap ++ front, ?_⟩
    rw [List.cons_append, joinWith_cons _ _ (by simp), hfront, List.append_assoc (m ++ gap)]

/-! ## Lines -/

theorem chomp_of_getLast? (h : cs.getLast? ≠ some '\r') : chomp cs = cs := by
  induction cs with
  | nil => rfl
  | cons c cs ih =>
    rcases cs with _ | ⟨d, cs⟩
    · exact chomp_cons (.inl fun hc => h (by rw [hc]; rfl))
    · rw [chomp_cons (.inr (List.cons_ne_nil d cs)), ih]
      simpa [List.getLast?_cons_cons] using h

/-- The lines of a text with a line feed behind it. -/
theorem lines_append_singleton (cs : List Char) :
    lines (cs ++ ['\n']) = (splitOn '\n' cs).map chomp := by
  induction cs using line_induction with
  | single cs hcs =>
    rw [lines_append_newline hcs, splitOn_of_not_mem hcs]
    rfl
  | more first rest hfirst ih =>
    rw [List.append_assoc, List.cons_append, lines_append_newline hfirst, ih,
      splitOn_append_cons hfirst, List.map_cons]

/-- When no line ends in a carriage return and the last one is not empty, the lines of a text are
its pieces. -/
theorem lines_eq_splitOn (hlines : ∀ l ∈ splitOn '\n' cs, l.getLast? ≠ some '\r')
    (hlast : (splitOn '\n' cs).getLast? ≠ some []) : lines cs = splitOn '\n' cs := by
  induction cs using line_induction with
  | single cs hcs =>
    rw [splitOn_of_not_mem hcs] at hlast ⊢
    rw [lines_of_not_mem hcs, if_neg]
    rintro rfl
    exact hlast rfl
  | more first rest hfirst ih =>
    rw [splitOn_append_cons hfirst] at hlines hlast ⊢
    obtain ⟨hhead, hrest⟩ := List.forall_mem_cons.mp hlines
    obtain ⟨p, ps, hp⟩ := List.exists_cons_of_ne_nil (splitOn_ne_nil '\n' rest)
    rw [hp, List.getLast?_cons_cons, ← hp] at hlast
    rw [lines_append_newline hfirst, chomp_of_getLast? hhead, ih hrest hlast]

end ScreenForms.Text
