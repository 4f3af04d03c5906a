import ScreenForms.Form.Value
import ScreenForms.Proofs.Blanks
import ScreenForms.Proofs.WholeFloats

/-!
# Written values

Texts, truth values and whole numbers of 32 bits are read again as they were written, also with
blanks around them. A written value has no line feed unless its text has one.
-/

namespace ScreenForms.Value

open Text

/-- What a written value means depends only on what is left of it when it is trimmed. -/
theorem sniff_eq_of_trim_eq {s t : String} (h : trim s.toList = trim t.toList) :
    sniff s = sniff t := by
  unfold sniff
  rw [h]

/-! ## Texts -/

theorem unquote?_marked {c d : Char} (h : closingMark? c = some d) (cs : List Char) :
    unquote? (c :: cs ++ [d]) = some cs := by
  rw [List.cons_append, unquote?, if_pos ⟨by simp, by simp [h]⟩, List.dropLast_concat]

/-- A quoted text begins and ends with a pair of marks. -/
theorem exists_quote_eq (cs : List Char) :
    ∃ c d, closingMark? c = some d ∧ quote cs = c :: cs ++ [d] := by
  unfold quote
  split
  · exact ⟨'"', '"', rfl, rfl⟩
  · split
    · exact ⟨'\'', '\'', rfl, rfl⟩
    · exact ⟨'[', ']', rfl, rfl⟩

theorem not_isBlank_of_closingMark? {c d : Char} (h : closingMark? c = some d) :
    isBlank c = false ∧ isBlank d = false ∧ c ≠ '\n' ∧ d ≠ '\n' := by
  unfold closingMark? at h
  split at h
  · obtain rfl := Option.some.inj h
    decide
  · obtain rfl := Option.some.inj h
    decide
  · obtain rfl := Option.some.inj h
    decide
  · cases h

theorem sniff_toLegacy_text (s : String) : sniff (text s).toLegacy = text s := by
  obtain ⟨c, d, hmarks, hquote⟩ := exists_quote_eq s.toList
  obtain ⟨hc, hd, -, -⟩ := not_isBlank_of_closingMark? hmarks
  have htrim : trim (c :: s.toList ++ [d]) = c :: s.toList ++ [d] :=
    trim_of_ends rfl hc (List.getLast?_concat) hd
  unfold sniff toLegacy
  simp only [toList_onChars, hquote, htrim, unquote?_marked hmarks, String.ofList_toList]

/-! ## Truth values and numbers -/

theorem sniff_toLegacy_flag (b : Bool) : sniff (flag b).toLegacy = flag b := by
  cases b <;> decide +kernel

theorem unquote?_eq_none {c : Char} {cs : List Char} (h : closingMark? c = none) :
    unquote? (c :: cs) = none := by
  rw [unquote?, if_neg]
  rintro ⟨hne, hlast⟩
  rw [h] at hlast
  exact hne (List.getLast?_eq_none_iff.mp hlast.symm)

/-- Every spelling of a truth value has one of four letters. -/
theorem readFlag?_eq_none {cs : List Char}
    (h : ∀ c ∈ cs, c.toUpper ∉ ['T', 'Y', 'F', 'N']) : readFlag? cs = none := by
  have hword : ∀ d ∈ ['T', 'Y', 'F', 'N'],
      String.ofList (upper (trim cs)) ≠ String.ofList ['.', d, '.'] := by
    intro d hd heq
    have hmem : d ∈ upper (trim cs) := by
      rw [String.ofList_injective heq]
      exact List.mem_cons_of_mem _ List.mem_cons_self
    obtain ⟨c, hc, rfl⟩ := List.mem_map.mp hmem
    exact h c (mem_of_mem_trim hc) hd
  unfold readFlag?
  dsimp only
  rw [if_neg, if_neg]
  · rintro (heq | heq)
    · exact hword 'F' (by decide) heq
    · exact hword 'N' (by decide) heq
  · rintro (heq | heq)
    · exact hword 'T' (by decide) heq
    · exact hword 'Y' (by decide) heq

theorem plain_of_isDigit {c : Char} (h : c.isDigit = true) :
    isBlank c = false ∧ closingMark? c = none ∧ c.toUpper ∉ ['T', 'Y', 'F', 'N'] ∧ c ≠ '\n' := by
  simp only [Char.isDigit, Bool.and_eq_true, decide_eq_true_eq, ge_iff_le,
    UInt32.le_iff_toNat_le] at h
  have hlow : 48 ≤ c.toNat := h.1
  have hhigh : c.toNat ≤ 57 := h.2
  have hne : ∀ d : Char, d.toNat < 48 ∨ 57 < d.toNat → c ≠ d := by
    rintro d hd rfl
    omega
  refine ⟨?_, ?_, ?_, hne _ (by decide)⟩
  · rw [Bool.eq_false_iff]
    simp only [isBlank, ne_eq, Bool.or_eq_true, Bool.and_eq_true, decide_eq_true_eq, beq_iff_eq]
    omega
  · unfold closingMark?
    split
    · exact absurd rfl (hne '"' (by decide))
    · exact absurd rfl (hne '\'' (by decide))
    · exact absurd rfl (hne '[' (by decide))
    · rfl
  · have hupper : c.toUpper = c := by
      unfold Char.toUpper
      refine dif_neg fun hlower => ?_
      have : 97 ≤ c.toNat := UInt32.le_iff_toNat_le.mp hlower.1
      omega
    rw [hupper]
    simp only [List.mem_cons, List.not_mem_nil, or_false, not_or]
    exact ⟨hne _ (by decide), hne _ (by decide), hne _ (by decide), hne _ (by decide)⟩

/-- A character of a number that is written with a point: a digit, a sign or the point. -/
def IsNumberChar (c : Char) : Prop := c.isDigit = true ∨ c ∈ ['-', '.']

theorem plain_of_isNumberChar {c : Char} (h : IsNumberChar c) :
    isBlank c = false ∧ closingMark? c = none ∧ c.toUpper ∉ ['T', 'Y', 'F', 'N'] ∧ c ≠ '\n' := by
  rcases h with hdigit | hmark
  · exact plain_of_isDigit hdigit
  · simp only [List.mem_cons, List.not_mem_nil, or_false] at hmark
    rcases hmark with rfl | rfl <;> decide

theorem isNumberChar_of_mem_intText {n : Int} {c : Char} (h : c ∈ (Decimal.intText n).toList) :
    IsNumberChar c := by
  rcases Decimal.of_mem_intText h with hdigit | rfl
  · exact .inl hdigit
  · exact .inr (by decide)

/-- A text of such characters is read as the finite number that it spells. -/
theorem sniff_eq_number {s : String} {x : Float} (hchars : ∀ c ∈ s.toList, IsNumberChar c)
    (hread : Decimal.read? s.toList = some x) (hfinite : x.isFinite = true) :
    sniff s = number x := by
  have htrim : trim s.toList = s.toList :=
    trim_of_forall fun c hc => (plain_of_isNumberChar (hchars c hc)).1
  have hquote : unquote? s.toList = none := by
    rcases hcs : s.toList with _ | ⟨c, cs⟩
    · rfl
    · exact unquote?_eq_none
        (plain_of_isNumberChar (hchars c (hcs ▸ List.mem_cons_self))).2.1
  have hflag : readFlag? s.toList = none :=
    readFlag?_eq_none fun c hc => (plain_of_isNumberChar (hchars c hc)).2.2.1
  unfold sniff
  simp only [htrim, hquote, hflag, hread, Option.filter_some, hfinite]
  rfl

open Decimal in
/-- The text of a whole number of 32 bits is read as a number that is nearest to it. -/
theorem exists_sniff_intText {n : Int} (h : Is32 n) :
    ∃ x, sniff (intText n) = number x ∧ nearest x = n := by
  obtain ⟨x, hread, hfinite, hnearest⟩ := exists_read?_intText h
  exact ⟨x, sniff_eq_number (fun _ => isNumberChar_of_mem_intText) hread hfinite, hnearest⟩

/-! ## Line feeds -/

theorem not_mem_quote {cs : List Char} (h : '\n' ∉ cs) : '\n' ∉ quote cs := by
  obtain ⟨c, d, hmarks, hquote⟩ := exists_quote_eq cs
  obtain ⟨-, -, hc, hd⟩ := not_isBlank_of_closingMark? hmarks
  rw [hquote]
  simp [hc.symm, hd.symm, h]

theorem not_mem_intText (n : Int) : '\n' ∉ (Decimal.intText n).toList :=
  fun h => (plain_of_isNumberChar (isNumberChar_of_mem_intText h)).2.2.2 rfl

open Decimal in
theorem of_mem_positional {d : Digits} {c : Char} (h : c ∈ d.positional) : IsNumberChar c := by
  have hpadded : ∀ k, c ∈ List.replicate k '0' ++ decimalText d.digits → IsNumberChar c := by
    intro k hc
    rcases List.mem_append.mp hc with hc | hc
    · rw [List.eq_of_mem_replicate hc]
      exact .inl rfl
    · exact .inl (isDigit_of_mem_decimalText hc)
  unfold Digits.positional at h
  dsimp only at h
  split at h
  · split at h
    · exact .inl (isDigit_of_mem_decimalText h)
    · exact hpadded _ (List.mem_append.mpr (List.mem_append.mp h).symm)
  · rcases List.mem_append.mp h with h | h
    · exact hpadded _ (List.mem_of_mem_take h)
    · rcases List.mem_cons.mp h with rfl | h
      · exact .inr (by decide)
      · exact hpadded _ (List.mem_of_mem_drop h)

/-- The text of a number is one of three words or a text of digits, a sign and a point. Neither is
taken for a truth value or for a text between marks. -/
theorem plainText_cases (x : Float) : Decimal.plainText x ∈ ["inf", "-inf", "NaN"] ∨
    ∀ c ∈ (Decimal.plainText x).toList, IsNumberChar c := by
  have htext : Decimal.text x ∈ ["inf", "-inf", "NaN"] ∨
      ∀ c ∈ (Decimal.text x).toList, IsNumberChar c := by
    unfold Decimal.text
    split
    · refine .inr fun c hc => ?_
      rw [String.toList_ofList, List.mem_append] at hc
      rcases hc with hc | hc
      · split at hc
        · obtain rfl := List.mem_singleton.mp hc
          exact .inr (by decide)
        · cases hc
      · exact of_mem_positional hc
    · refine .inl ?_
      split
      · decide
      · split <;> decide
  unfold Decimal.plainText
  split
  · split
    · exact .inr fun _ => isNumberChar_of_mem_intText
    · exact htext
  · exact htext

theorem not_mem_plainText (x : Float) : '\n' ∉ (Decimal.plainText x).toList := by
  rcases plainText_cases x with hword | hchars
  · exact (by decide : ∀ s ∈ ["inf", "-inf", "NaN"], '\n' ∉ s.toList) _ hword
  · exact fun h => (plain_of_isNumberChar (hchars _ h)).2.2.2 rfl

/-- A written value is on one line when its text is. -/
theorem not_mem_toLegacy {v : Value} (h : ∀ t, v.asText? = some t → '\n' ∉ t.toList) :
    '\n' ∉ v.toLegacy.toList := by
  cases v with
  | text content =>
    rw [toLegacy, toList_onChars]
    exact not_mem_quote (h content rfl)
  | flag set => cases set <;> decide
  | number amount => exact not_mem_plainText amount
  | expr source => exact h source rfl

end ScreenForms.Value
