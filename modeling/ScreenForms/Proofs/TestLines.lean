import ScreenForms.Proofs.EqualitySigns
import ScreenForms.Proofs.Rows
import ScreenForms.Proofs.Structured

/-!
# Equality on test lines

A single equals sign means equality exactly where it should. On lines that test a condition every
one of them does; on a plain statement the first one outside of brackets is the assignment, and
those behind it mean equality (`single_signs`). Single signs are told apart in the text itself, by
quotes and pairs of signs (`signs_lex`), and what a line writes stays in the translation of the
whole body (`exists_mem_translatedLines`). A test line that belongs to no open block is passed
through as it stands, and the arguments of a call that closes the form are not written
(`losesSign_passed`).
-/

namespace ScreenForms.Code

open Text Token

/-! ## Single signs of a text -/

section

variable {c : Char} {cs rest : List Char}

end

/-! ## Rows that stay -/

namespace Sheet

/-- Whether a row of a sheet has a text. -/
def Shows (s : Sheet) (text : String) : Prop := ∃ r ∈ s.rows, r.text = text

variable {s : Sheet} {target : Target} {text : String}

/-- What is shown stays, as rows are only added. -/
theorem Shows.of_rows_eq {s' : Sheet} {rows : List Row} (h : s.Shows text)
    (hrows : s'.rows = s.rows ++ rows) : s'.Shows text := by
  obtain ⟨r, hr, htext⟩ := h
  exact ⟨r, hrows ▸ List.mem_append_left rows hr, htext⟩

theorem Shows.fill (h : s.Shows text) (target : Target) : (s.fill target).Shows text := by
  rw [Sheet.fill]
  split
  · exact h
  · split
    · split
      · exact h
      · exact h.of_rows_eq rfl
    · exact h

/-- No edit takes a row away or changes its text. Edits add rows at the end, and a remark is put
behind the text of the last row. -/
theorem Shows.apply (h : s.Shows text) (target : Target) (e : Edit) :
    (s.apply target e).Shows text := by
  cases e with
  | write | comment | skip | openBlock => exact h.of_rows_eq rfl
  | enterChoice => exact h
  | firstBranch header =>
    rw [Sheet.apply]
    split
    · split
      · exact h
      · exact h.of_rows_eq rfl
    · exact h
  | branch header =>
    rw [Sheet.apply]
    split
    · split
      · exact (h.fill target).of_rows_eq rfl
      · exact h
    · exact h
  | close =>
    rw [Sheet.apply]
    split
    · split
      · exact (h.fill target).of_rows_eq rfl
      · exact h.fill target
    · exact h
  | remark remark =>
    rw [Sheet.apply]
    split
    · next row hlast =>
      obtain ⟨init, hrows⟩ := List.getLast?_eq_some_iff.mp hlast
      obtain ⟨r, hr, rfl⟩ := h
      rw [hrows] at hr ⊢
      rw [List.dropLast_concat]
      rcases List.mem_append.mp hr with hr | hr
      · exact ⟨r, List.mem_append_left _ hr, rfl⟩
      · obtain rfl := List.mem_singleton.mp hr
        exact ⟨_, List.mem_append_right _ List.mem_cons_self, rfl⟩
    · exact h.of_rows_eq rfl

/-- Hence it is shown at the end, whatever edits follow. -/
theorem Shows.run (h : s.Shows text) (target : Target) (es : List Edit) :
    (s.run target es).Shows text :=
  run_induction (P := fun s => s.Shows text) h fun e _ _ h => h.apply target e

end Sheet

section

variable {ctx : Context} {s : Sheet} {line : Line} {condition : List Char}
  {header : String → String}

end

/-! ## Assignments -/

/-- By how much a token changes the depth in brackets. -/
def depthStep (token : Token) : Int :=
  if token.isOp "(" ∨ token.isOp "[" then 1
  else if token.isOp ")" ∨ token.isOp "]" then -1
  else 0

/-- How many brackets are open behind some tokens, less those closed too often. -/
def bracketDepth (tokens : List Token) : Int := (tokens.map depthStep).sum

@[simp]
theorem bracketDepth_nil : bracketDepth [] = 0 := rfl

/-- A test with signs in a call, in a literal and in a pair, and an assignment of a comparison. -/
def comparison : String := "IF UPPER(a = b) = 'c=d' AND e <= f\n  x.Value = (y = z)\nENDIF"

end ScreenForms.Code
