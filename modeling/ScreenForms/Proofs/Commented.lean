import ScreenForms.Export
import ScreenForms.Proofs.Structured

/-!
# Code that is kept as a comment

Code that is not translated is kept in comments, in the legacy language by asterisks and in a
target's language by its own mark. Both stay comments whatever the code was: a text of legacy
comments translates to comments (`IsCommented.hasCode_translate`), and what is put into comments
for a target holds no code for that target (`hasCode_commentOut`).
-/

namespace ScreenForms.Code

open Text

/-! ## Legacy comments -/

/-- Every line of a text begins with an asterisk. -/
def IsCommented (code : String) : Prop := ∀ l ∈ lines code.toList, l.head? = some '*'

/-- Joined lines begin with asterisks when each of them does. -/
theorem isCommented_joinWith {ls : List (List Char)} (hbreak : ∀ l ∈ ls, '\n' ∉ l)
    (hmark : ∀ l ∈ ls, l.head? = some '*') :
    IsCommented (String.ofList (joinWith ['\n'] ls)) := by
  rw [IsCommented, String.toList_ofList]
  induction ls with
  | nil => exact fun _ h => absurd h List.not_mem_nil
  | cons l ls ih =>
    obtain ⟨hl, hls⟩ := List.forall_mem_cons.mp hbreak
    obtain ⟨hmarkl, hmarkls⟩ := List.forall_mem_cons.mp hmark
    obtain ⟨cs, rfl⟩ : ∃ cs, l = '*' :: cs := List.head?_eq_some_iff.mp hmarkl
    rw [lines_joinWith_cons hl (List.cons_ne_nil _ _)]
    refine List.forall_mem_cons.mpr ⟨?_, ih hls hmarkls⟩
    split
    · rfl
    · rw [chomp_cons (.inl (by decide))]
      rfl

/-- A line that begins with an asterisk goes on nowhere else, whatever it ends with. -/
theorem lineContinuation_of_asterisk (cs : List Char) :
    lineContinuation ('*' :: cs) = (trimEnd ('*' :: cs), false) := by
  have hhead : (trimStart (trimEnd ('*' :: cs))).head? = some '*' := by
    rw [trimEnd_cons_of_neg rfl, trimStart, List.dropWhile_cons_of_neg (by decide)]
    rfl
  unfold lineContinuation
  dsimp only
  rw [if_pos hhead]

/-- A line that begins with an asterisk is a comment. -/
def asteriskLine {cs : List Char} (h : '\n' ∉ cs) : CommentLine (trimEnd cs |>.dropWhile (· == '*')) where
  raw := '*' :: cs
  isSource :=
    { noBreak := List.not_mem_cons_of_ne_of_not_mem (by decide) h
      notBlank := by rw [trim_cons_of_neg rfl]; exact List.cons_ne_nil _ _
      complete := by rw [lineContinuation_of_asterisk] }
  reads := .inl (by rw [trim_cons_of_neg rfl]; rfl)

namespace IsCommented

variable {code : String} (h : IsCommented code)
include h

theorem logicalLines_eq : logicalLines code = (lines code.toList).map trimEnd := by
  have hjoin : ∀ ls : List (List Char), (∀ l ∈ ls, l.head? = some '*') →
      joinFrom none ls = ls.map trimEnd := by
    -- no line goes on, so none is open when the next one is read
    intro ls hmark
    induction ls with
    | nil => rfl
    | cons l ls ih =>
      obtain ⟨hl, hls⟩ := List.forall_mem_cons.mp hmark
      obtain ⟨cs, rfl⟩ : ∃ cs, l = '*' :: cs := List.head?_eq_some_iff.mp hl
      rw [joinFrom, lineContinuation_of_asterisk, List.map_cons, ← ih hls]
      rfl
  exact hjoin _ h

/-- Legacy comments translate to comments, whatever was written before them. -/
theorem translates (ctx : Context) : ∃ texts, Translates ctx (lines code.toList) texts false := by
  have hbreak : ∀ l ∈ lines code.toList, '\n' ∉ l := fun _ => newline_not_mem_of_mem_lines
  rw [IsCommented] at h
  generalize lines code.toList = ls at h hbreak
  induction ls with
  | nil => exact ⟨[], .nil⟩
  | cons l ls ih =>
    obtain ⟨hl, hls⟩ := List.forall_mem_cons.mp h
    obtain ⟨hbreakl, hbreakls⟩ := List.forall_mem_cons.mp hbreak
    obtain ⟨cs, rfl⟩ : ∃ cs, l = '*' :: cs := List.head?_eq_some_iff.mp hl
    obtain ⟨texts, hrest⟩ := ih hls hbreakls
    exact ⟨_, (asteriskLine (List.not_mem_of_not_mem_cons hbreakl)).translates.append hrest⟩

/-- Legacy comments translate to a text without code. -/
theorem hasCode_translate (ctx : Context) : hasCode ctx.target (translate ctx code) = false := by
  obtain ⟨texts, htexts⟩ := h.translates ctx
  rw [translate, htexts.translatedLines_of_logicalLines h.logicalLines_eq, hasCode_join,
    htexts.hasCode]

end IsCommented

/-! ## Comments of a target -/

/-- Code that was put into comments holds no code. Every line either is empty or begins with the
mark for comments, and the lines of the joined text are these lines. -/
theorem hasCode_commentOut (target : Target) (body : String) :
    hasCode target (commentOut target body) = false := by
  have hline : ∀ l ∈ lines body.toList, hasCode target (String.ofList
      (if (trim l).isEmpty then [] else (idiom target).comment.toList ++ [' '] ++ l)) = false := by
    intro l hl
    split
    · rfl
    · rw [hasCode_of_not_mem, String.toList_ofList, List.append_assoc, isCode_comment]
      rw [String.toList_ofList, List.append_assoc, List.mem_append, not_or]
      refine ⟨fun hmem => (commentMark_solid target _ hmem).2 rfl, ?_⟩
      exact List.not_mem_cons_of_ne_of_not_mem (by decide) (newline_not_mem_of_mem_lines hl)
  have hjoin : ∀ ls : List (List Char),
      String.ofList (joinWith ['\n'] ls) = join "\n" (ls.map String.ofList) := by
    intro ls
    rw [← String.toList_inj, String.toList_ofList, toList_join, List.map_map]
    congr 1
    exact (List.map_id' ls).symm.trans (List.map_congr_left fun l _ => by simp)
  unfold commentOut
  dsimp only
  rw [hjoin, hasCode_join, List.any_eq_false]
  intro s hs
  obtain ⟨_, hline', rfl⟩ := List.mem_map.mp hs
  obtain ⟨l, hl, rfl⟩ := List.mem_map.mp hline'
  exact Bool.eq_false_iff.mp (hline l hl)

end ScreenForms.Code
