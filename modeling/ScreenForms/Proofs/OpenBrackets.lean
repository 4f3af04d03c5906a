import ScreenForms.Proofs.ScreenWords

/-!
# Literals and brackets that are open behind a text

A scan that looks for separators carries a depth along. What it knows can be told from the text that
it has read: whether all literals are closed, and how many brackets outside of them are opened and
closed (`isOutside_behind_iff`). A text may close more brackets than it opens. Where no beginning of
it does, the depth is never below zero, so a scan that stands outside is at depth zero.
-/

namespace ScreenForms.Text

variable {c : Char} {cs : List Char} {d : Depth}

/-- The characters outside of literals, given the mark of the literal that is open. A literal
without a closing mark reaches to the end of the text. -/
def outsideLiterals : Option Char → List Char → List Char
  | _, [] => []
  | some mark, c :: cs => outsideLiterals (if c = mark then none else some mark) cs
  | none, c :: cs =>
    if isQuote c then outsideLiterals (some c) cs else c :: outsideLiterals none cs

theorem outsideLiterals_cons (hc : isQuote c = false) (cs : List Char) :
    outsideLiterals none (c :: cs) = c :: outsideLiterals none cs := by
  rw [outsideLiterals, if_neg (by simp [hc])]

/-- How many brackets a text opens outside of its literals. -/
def openings (cs : List Char) : Nat := (outsideLiterals none cs).countP isOpening

/-- How many brackets a text closes outside of its literals. -/
def closings (cs : List Char) : Nat := (outsideLiterals none cs).countP isClosing

/-- No beginning of the text closes more brackets than it opens. -/
def NeverOverclosed (cs : List Char) : Prop :=
  ∀ front, front <+: cs → closings front ≤ openings front

instance (cs : List Char) : Decidable (NeverOverclosed cs) :=
  decidable_of_iff (∀ front ∈ cs.inits, closings front ≤ openings front)
    (by simp [NeverOverclosed])

/-- All literals of the text are closed, and no more brackets are opened than closed. -/
def EndsOutside (cs : List Char) : Prop := IsClosed cs ∧ openings cs ≤ closings cs

instance (cs : List Char) : Decidable (EndsOutside cs) := inferInstanceAs (Decidable (_ ∧ _))

/-! ## The depth behind a text -/

namespace Depth

/-- The brackets behind a text are those in front of it and those that it opens, less those that
it closes. -/
theorem brackets_behind (d : Depth) (cs : List Char) :
    (d.behind cs).brackets = d.brackets + (outsideLiterals d.quote cs).countP isOpening -
      (outsideLiterals d.quote cs).countP isClosing := by
  induction cs generalizing d with
  | nil => simp [behind, outsideLiterals]
  | cons c cs ih =>
    rw [behind_cons, ih]
    rcases hquote : d.quote with _ | mark
    · cases hc : isQuote c with
      | true => simp [after_quote hquote hc, outsideLiterals, hc]
      | false =>
        simp only [after_bracket hquote hc, outsideLiterals_cons hc, hquote, List.countP_cons,
          Nat.cast_add, Nat.cast_ite, Nat.cast_one, Nat.cast_zero]
        omega
    · rw [after_literal hquote, outsideLiterals]

theorem brackets_behind_zero (cs : List Char) :
    (Depth.behind {} cs).brackets = openings cs - closings cs := by
  rw [brackets_behind, zero_add]
  rfl

/-- Whether a literal is open behind a text, by reading its literals. The depth of brackets has no
influence on this, so that the two notions may be used for each other. -/
theorem isSome_readLiterals_iff (literal : Option (Char × List Char))
    (hd : d.quote = literal.map Prod.fst) (cs : List Char) :
    (readLiterals literal cs).isSome ↔ (d.behind cs).quote = none := by
  induction cs generalizing d literal with
  | nil => rcases literal with _ | ⟨mark, content⟩ <;> simp [readLiterals, behind, hd]
  | cons c cs ih =>
    rw [behind_cons]
    rcases literal with _ | ⟨mark, content⟩
    · rw [readLiterals]
      refine ih _ ?_
      cases hc : isQuote c with
      | true => simp [after_quote hd hc]
      | false => simpa [after_bracket hd hc] using hd
    · rw [readLiterals]
      split
      · next hc =>
        rw [Option.isSome_map]
        exact ih none (by simp [after_literal hd, hc])
      · next hc => exact ih (some (mark, c :: content)) (by simp [after_literal hd, hc])

theorem quote_behind_iff : (Depth.behind {} cs).quote = none ↔ IsClosed cs := by
  rw [← isSome_readLiterals_iff none rfl, Option.isSome_iff_exists]
  exact exists_congr fun _ => readLiterals_eq_some_iff

end Depth

/-- Where a scan stands outside can be told from the text that it has read. -/
theorem isOutside_behind_iff :
    (Depth.behind {} cs).isOutside c = true ↔ isMark c = false ∧ EndsOutside cs := by
  simp only [Depth.isOutside, Bool.and_eq_true, Option.isNone_iff_eq_none, decide_eq_true_iff,
    Bool.not_eq_true', Depth.quote_behind_iff, Depth.brackets_behind_zero, EndsOutside]
  constructor
  · rintro ⟨⟨hclosed, hle⟩, hmark⟩
    exact ⟨hmark, hclosed, by omega⟩
  · rintro ⟨hmark, hclosed, hle⟩
    exact ⟨⟨hclosed, by omega⟩, hmark⟩

/-- Brackets that are closed too often make up for brackets that stay open. -/
example : EndsOutside ")),(((a,b)".toList ∧ ¬ EndsOutside "(((a,b)".toList := by decide +kernel

/-- Where the brackets of a text are never overclosed, a scan never stands below zero. -/
theorem NeverOverclosed.brackets_nonneg (h : NeverOverclosed cs) {front : List Char}
    (hfront : front <+: cs) : 0 ≤ (Depth.behind {} front).brackets := by
  have hle := h front hfront
  rw [Depth.brackets_behind_zero]
  omega

end ScreenForms.Text
