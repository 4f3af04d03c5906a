import Mathlib
import ScreenForms.Import.Naming
import ScreenForms.Proofs.Digits
import ScreenForms.Proofs.Lists

/-!
# Names up to case

Names are compared in lower case. Only ASCII letters have another case, so what is no letter stays
where it is, and a path in lower case is made of the names in it in lower case.
-/

namespace ScreenForms

/-! ## Characters -/

namespace Text

theorem eq_of_toLower_eq {c d : Char} (h : c.toLower = d) (hd : d.isLower = false) : c = d := by
  have halpha : c.isAlpha = false := by
    rw [← Char.isLower_toLower_eq_isAlpha, h, hd]
  have hupper : ¬ c.isUpper = true := by
    rw [Char.isAlpha, Bool.or_eq_false_iff] at halpha
    simp [halpha.1]
  rw [← h, Char.toLower_eq_of_not_isUpper hupper]

theorem eq_of_toUpper_eq {c d : Char} (h : c.toUpper = d) (hd : d.isUpper = false) : c = d := by
  have halpha : c.isAlpha = false := by
    rw [← Char.isUpper_toUpper_eq_isAlpha, h, hd]
  have hlower : ¬ c.isLower = true := by
    rw [Char.isAlpha, Bool.or_eq_false_iff] at halpha
    simp [halpha.2]
  rw [← h, Char.toUpper_eq_of_not_isLower hlower]

theorem mem_of_mem_lower {c : Char} {cs : List Char} (hc : c.isLower = false)
    (h : c ∈ lower cs) : c ∈ cs := by
  obtain ⟨d, hd, hlower⟩ := List.mem_map.mp h
  exact eq_of_toLower_eq hlower hc ▸ hd

/-- Texts that agree in upper case agree in lower case. -/
theorem upper_eq_upper_iff {cs ds : List Char} : upper cs = upper ds ↔ lower cs = lower ds := by
  constructor
  · intro h
    simpa [upper, lower, Function.comp_def] using congrArg lower h
  · intro h
    simpa [upper, lower, Function.comp_def] using congrArg upper h

/-- A lead that is matched without regard to case is the lead in some spelling. -/
theorem dropLeadNoCase?_eq_some_iff {lead cs rest : List Char} :
    dropLeadNoCase? lead cs = some rest ↔ ∃ word, cs = word ++ rest ∧ lower word = lower lead := by
  induction lead generalizing cs with
  | nil => simp [dropLeadNoCase?, lower, eq_comm]
  | cons p lead ih =>
    cases cs with
    | nil => simp [dropLeadNoCase?, lower]
    | cons c cs =>
      rw [dropLeadNoCase?, Option.ite_none_right_eq_some, ih]
      constructor
      · rintro ⟨hc, word, rfl, hword⟩
        exact ⟨c :: word, rfl, by simpa [lower, hc] using hword⟩
      · rintro ⟨_ | ⟨d, word⟩, hcs, hword⟩
        · simp [lower] at hword
        · obtain ⟨rfl, rfl⟩ := List.cons.inj hcs
          simp only [lower, List.map_cons, List.cons.injEq] at hword
          exact ⟨hword.1.symm, word, rfl, hword.2⟩

theorem lower_decimalText (n : Nat) : lower (Decimal.decimalText n) = Decimal.decimalText n :=
  (List.map_congr_left fun _ hc =>
    Decimal.toLower_of_isDigit (Decimal.isDigit_of_mem_decimalText hc)).trans (List.map_id _)

end Text

/-! ## Paths -/

namespace NameRegistry

open Text

theorem fold_eq_iff {s t : String} : fold s = fold t ↔ lower s.toList = lower t.toList :=
  ⟨fun h => String.ofList_injective h, fun h => congrArg String.ofList h⟩

theorem length_eq_of_fold_eq {s t : String} (h : fold s = fold t) :
    s.toList.length = t.toList.length := by
  have hlength := congrArg List.length (fold_eq_iff.mp h)
  rwa [lower, lower, List.length_map, List.length_map] at hlength

theorem lower_path (s t : String) :
    lower (s ++ "." ++ t).toList = lower s.toList ++ '.' :: lower t.toList := by
  rw [String.toList_append, String.toList_append, lower, List.map_append, List.map_append,
    List.append_assoc]
  rfl

theorem fold_path (s t : String) : fold (s ++ "." ++ t) = fold s ++ "." ++ fold t := by
  refine String.toList_injective ?_
  rw [toList_onChars, lower_path, String.toList_append, String.toList_append, toList_onChars,
    toList_onChars, List.append_assoc]
  rfl

/-- What stands behind the last dot of a path is read off from the path in lower case. -/
theorem eq_of_fold_path_eq {s t s' t' : String} (ht : '.' ∉ t.toList) (ht' : '.' ∉ t'.toList)
    (h : fold (s ++ "." ++ t) = fold (s' ++ "." ++ t')) : fold s = fold s' ∧ fold t = fold t' := by
  have hlists := fold_eq_iff.mp h
  rw [lower_path, lower_path] at hlists
  obtain ⟨hpath, hname⟩ := eq_of_append_last_separator
    (fun hmem => ht (mem_of_mem_lower (by decide) hmem))
    (fun hmem => ht' (mem_of_mem_lower (by decide) hmem)) hlists
  exact ⟨fold_eq_iff.mpr hpath, fold_eq_iff.mpr hname⟩

end NameRegistry

end ScreenForms
