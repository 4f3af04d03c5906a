import ScreenForms.Proofs.Blanks
import ScreenForms.Text.Delimited
import ScreenForms.Text.Lines

/-!
# Cutting texts into lines

A text without a line feed is one line, or none when it is empty, and a line feed ends the line
before it together with a carriage return at its end. So texts joined by line feeds have the lines
that were joined, up to carriage returns. A line without its remark is the front of the line.
-/

namespace ScreenForms.Text

variable {cs ds : List Char}

/-- A line without a carriage return at its end. -/
def chomp : List Char → List Char
  | [] => []
  | ['\r'] => []
  | c :: cs => c :: chomp cs

theorem chomp_cons {c : Char} (h : c ≠ '\r' ∨ cs ≠ []) : chomp (c :: cs) = c :: chomp cs := by
  rw [chomp]
  rintro rfl rfl
  simp at h

/-- A text without a line feed is one line, and none if it is empty. -/
theorem lines_of_not_mem (h : '\n' ∉ cs) : lines cs = if cs = [] then [] else [cs] := by
  induction cs with
  | nil => rfl
  | cons c cs ih =>
    have hc : c ≠ '\n' := fun hc => h (hc ▸ List.mem_cons_self)
    have hcs : '\n' ∉ cs := fun hcs => h (List.mem_cons_of_mem _ hcs)
    rw [lines, ih hcs]
    · cases cs <;> rfl
    · exact hc
    · rintro rest rfl rfl
      exact hcs List.mem_cons_self

/-- Up to its first line feed a text is one line, without the carriage return at its end. -/
theorem lines_append_newline (h : '\n' ∉ cs) :
    lines (cs ++ '\n' :: ds) = chomp cs :: lines ds := by
  induction cs with
  | nil => rfl
  | cons c cs ih =>
    have hc : c ≠ '\n' := fun hc => h (hc ▸ List.mem_cons_self)
    have hcs : '\n' ∉ cs := fun hcs => h (List.mem_cons_of_mem _ hcs)
    by_cases hlast : c = '\r' ∧ cs = []
    · obtain ⟨rfl, rfl⟩ := hlast
      rfl
    · rw [List.cons_append, lines, ih hcs, chomp_cons (by tauto)]
      · exact hc
      · rintro rest rfl htail
        cases cs with
        | nil => exact hlast ⟨rfl, rfl⟩
        | cons d cs =>
          obtain ⟨rfl, -⟩ := List.cons.inj htail
          exact hcs List.mem_cons_self

theorem mem_of_mem_chomp {c : Char} (h : c ∈ chomp cs) : c ∈ cs := by
  induction cs with
  | nil => exact h
  | cons d cs ih =>
    by_cases hlast : d = '\r' ∧ cs = []
    · obtain ⟨rfl, rfl⟩ := hlast
      cases h
    · rw [chomp_cons (by tauto)] at h
      rcases List.mem_cons.mp h with rfl | h
      · exact List.mem_cons_self
      · exact List.mem_cons_of_mem _ (ih h)

/-- Where carriage returns are dropped anyway, it does not matter that one is gone already. -/
theorem dropEndWhile_chomp {p : Char → Bool} (hp : p '\r' = true) (cs : List Char) :
    dropEndWhile p (chomp cs) = dropEndWhile p cs := by
  induction cs with
  | nil => rfl
  | cons c cs ih =>
    by_cases hlast : c = '\r' ∧ cs = []
    · obtain ⟨rfl, rfl⟩ := hlast
      simp [chomp, dropEndWhile, hp]
    · rw [chomp_cons (by tauto), dropEndWhile_cons, dropEndWhile_cons, ih]

@[simp] theorem trimEnd_chomp (cs : List Char) : trimEnd (chomp cs) = trimEnd cs :=
  dropEndWhile_chomp rfl cs

@[simp] theorem trim_chomp (cs : List Char) : trim (chomp cs) = trim cs := by
  rw [← trim_trimEnd, trimEnd_chomp, trim_trimEnd]

/-- A text is one line, or a first line, a line feed and the rest. -/
theorem exists_first_line (cs : List Char) :
    '\n' ∉ cs ∨ ∃ first rest, cs = first ++ '\n' :: rest ∧ '\n' ∉ first := by
  by_cases h : '\n' ∈ cs
  · obtain ⟨first, rest, hcs, hfirst⟩ := List.eq_append_cons_of_mem h
    exact .inr ⟨first, rest, hcs, hfirst⟩
  · exact .inl h

/-- What holds of single lines, and of a line in front of a text of which it holds, holds of all
texts. -/
@[elab_as_elim]
theorem line_induction {motive : List Char → Prop} (single : ∀ cs, '\n' ∉ cs → motive cs)
    (more : ∀ first rest, '\n' ∉ first → motive rest → motive (first ++ '\n' :: rest))
    (cs : List Char) : motive cs := by
  induction hn : cs.length using Nat.strong_induction_on generalizing cs with
  | _ n ih =>
    rcases exists_first_line cs with hcs | ⟨first, rest, rfl, hfirst⟩
    · exact single cs hcs
    · refine more first rest hfirst (ih rest.length ?_ rest rfl)
      rw [← hn, List.length_append, List.length_cons]
      omega

/-- No line has a line feed. -/
theorem newline_not_mem_of_mem_lines {l : List Char} (h : l ∈ lines cs) : '\n' ∉ l := by
  induction cs using line_induction with
  | single cs hcs =>
    rw [lines_of_not_mem hcs] at h
    split at h
    · cases h
    · obtain rfl := List.mem_singleton.mp h
      exact hcs
  | more first rest hfirst ih =>
    rw [lines_append_newline hfirst] at h
    rcases List.mem_cons.mp h with rfl | h
    · exact fun hmem => hfirst (mem_of_mem_chomp hmem)
    · exact ih h

/-- A question about lines that is only about what is left of them when trimmed can be asked of
the parts of a text. -/
theorem any_lines_append_newline {p : List Char → Bool} (hp : ∀ l, p (chomp l) = p l)
    (hnil : p [] = false) (cs ds : List Char) :
    (lines (cs ++ '\n' :: ds)).any p = ((lines cs).any p || (lines ds).any p) := by
  induction cs using line_induction with
  | single cs hcs =>
    rw [lines_append_newline hcs, lines_of_not_mem hcs, List.any_cons, hp]
    split
    · next h => simp [h, hnil]
    · simp
  | more first rest hfirst ih =>
    rw [List.append_assoc, List.cons_append, lines_append_newline hfirst,
      lines_append_newline hfirst, List.any_cons, List.any_cons, ih, Bool.or_assoc]

/-- What stands before a line feed has no part in the lines behind it. -/
theorem lines_append_append (cs ds : List Char) :
    lines (cs ++ '\n' :: ds) = lines (cs ++ ['\n']) ++ lines ds := by
  induction cs using line_induction with
  | single cs hcs =>
    rw [lines_append_newline hcs, lines_append_newline hcs]
    rfl
  | more first rest hfirst ih =>
    rw [List.append_assoc, List.append_assoc, List.cons_append, List.cons_append,
      lines_append_newline hfirst, lines_append_newline hfirst, ih, List.cons_append]

/-- A line feed behind a text adds at most a blank line, and takes nothing but a carriage return
away. -/
theorem trim_eq_of_mem_lines {l : List Char} (h : l ∈ lines (cs ++ ['\n'])) :
    trim l = [] ∨ ∃ l' ∈ lines cs, trim l = trim l' := by
  induction cs using line_induction with
  | single cs hcs =>
    rw [lines_append_newline hcs] at h
    obtain rfl := List.mem_singleton.mp h
    rw [trim_chomp]
    by_cases hnil : cs = []
    · rw [hnil]
      exact .inl rfl
    · exact .inr ⟨cs, by simp [lines_of_not_mem hcs, hnil], rfl⟩
  | more first rest hfirst ih =>
    rw [List.append_assoc, List.cons_append, lines_append_newline hfirst] at h
    rw [lines_append_newline hfirst]
    rcases List.mem_cons.mp h with rfl | h
    · exact .inr ⟨_, List.mem_cons_self, rfl⟩
    · rcases ih h with hblank | ⟨l', hl', heq⟩
      · exact .inl hblank
      · exact .inr ⟨l', List.mem_cons_of_mem _ hl', heq⟩

/-! ## Remarks -/

/-- A remark stands at the end of a line, so that dropping it leaves the front. -/
theorem dropRemark_isPrefix (cs : List Char) : dropRemark cs <+: cs := by
  have hgo : ∀ (cs : List Char) (q : Option Char), dropRemark.go q cs <+: cs := by
    intro cs
    induction cs with
    | nil =>
      intro q
      cases q <;> exact List.prefix_refl _
    | cons d cs ih =>
      intro q
      cases q with
      | some q => exact List.prefix_cons_inj d |>.mpr (ih _)
      | none =>
        unfold dropRemark.go
        split
        · exact List.nil_prefix
        · contradiction
        · exact List.nil_prefix
        · next heq =>
          obtain ⟨rfl, rfl⟩ := List.cons.inj heq
          exact List.prefix_cons_inj d |>.mpr (ih _)
  exact hgo cs none

/-! ## Joined lines -/

theorem not_mem_joinWith {c : Char} {sep : List Char} {ls : List (List Char)} (hsep : c ∉ sep)
    (hls : ∀ l ∈ ls, c ∉ l) : c ∉ joinWith sep ls := by
  induction ls with
  | nil => exact List.not_mem_nil
  | cons l ls ih =>
    obtain ⟨hl, hrest⟩ := List.forall_mem_cons.mp hls
    cases ls with
    | nil => exact hl
    | cons m ls =>
      intro hmem
      rcases List.mem_append.mp hmem with hmem | hmem
      · rcases List.mem_append.mp hmem with hmem | hmem
        · exact hl hmem
        · exact hsep hmem
      · exact ih hrest hmem

theorem toList_join (sep : String) (ls : List String) :
    (join sep ls).toList = joinWith sep.toList (ls.map String.toList) := by
  induction ls with
  | nil => rfl
  | cons l ls ih =>
    cases ls with
    | nil => rfl
    | cons m ls =>
      rw [join, String.toList_append, String.toList_append, ih]
      · rfl
      · exact List.cons_ne_nil m ls

/-- The lines of joined lines that are not empty, all but the last without carriage returns. -/
theorem lines_joinWith_cons {l : List Char} {ls : List (List Char)} (hl : '\n' ∉ l)
    (hne : l ≠ []) :
    lines (joinWith ['\n'] (l :: ls)) =
      (if ls = [] then l else chomp l) :: lines (joinWith ['\n'] ls) := by
  cases ls with
  | nil =>
    rw [if_pos rfl]
    exact (lines_of_not_mem hl).trans (if_neg hne)
  | cons m ls =>
    rw [joinWith_cons _ _ (List.cons_ne_nil m ls), List.append_assoc,
      if_neg (List.cons_ne_nil m ls)]
    exact lines_append_newline hl

/-! ## Written lines -/

/-- The lines that texts become when each is written with a line feed behind it. -/
def writtenLines (texts : List String) : List (List Char) :=
  texts.flatMap fun s => lines (s.toList ++ ['\n'])

/-- The lines of a written text are the texts it was written from, each cut at its own line
feeds. -/
theorem lines_unlines (texts : List String) :
    lines (unlines texts).toList = writtenLines texts := by
  induction texts with
  | nil => rfl
  | cons s texts ih =>
    have hcons : (unlines (s :: texts)).toList = s.toList ++ '\n' :: (unlines texts).toList := by
      rw [unlines, List.map_cons, String.join_cons, String.toList_append, String.toList_append,
        List.append_assoc]
      rfl
    rw [hcons, lines_append_append, ih]
    rfl

@[simp] theorem writtenLines_append (texts texts' : List String) :
    writtenLines (texts ++ texts') = writtenLines texts ++ writtenLines texts' :=
  List.flatMap_append

/-- Texts without line feeds are one line each. -/
theorem writtenLines_of_forall {texts : List String} (h : ∀ s ∈ texts, '\n' ∉ s.toList) :
    writtenLines texts = texts.map fun s => chomp s.toList := by
  induction texts with
  | nil => rfl
  | cons s texts ih =>
    obtain ⟨hs, htexts⟩ := List.forall_mem_cons.mp h
    rw [List.map_cons, ← ih htexts, writtenLines, List.flatMap_cons, lines_append_newline hs]
    rfl

end ScreenForms.Text
