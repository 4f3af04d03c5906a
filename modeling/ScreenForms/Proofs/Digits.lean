import ScreenForms.Decimal.Read
import ScreenForms.Decimal.Shortest

/-!
# Whole numbers as texts

The text of a natural number is a nonempty run of digits that reads back as the number, so
different whole numbers have different texts. What reads as a whole number is a run of digits with
at most a sign in front.
-/

namespace ScreenForms.Decimal

theorem decimalText_ne_nil (n : Nat) : decimalText n ≠ [] := Nat.toDigits_ne_nil

theorem isDigit_of_mem_decimalText {n : Nat} {c : Char} (h : c ∈ decimalText n) : c.isDigit :=
  Nat.isDigit_of_mem_toDigits (by decide) (by decide) h

theorem toLower_of_isDigit {c : Char} (h : c.isDigit = true) : c.toLower = c := by
  simp only [Char.isDigit, Bool.and_eq_true, decide_eq_true_eq, UInt32.le_iff_toNat_le] at h
  have hhigh : c.val.toNat ≤ 57 := h.2
  unfold Char.toLower
  refine dif_neg fun hupper => ?_
  have hlow : 65 ≤ c.val.toNat := UInt32.le_iff_toNat_le.mp hupper.1
  omega

@[simp] theorem digitsValue_decimalText (n : Nat) : digitsValue (decimalText n) = n :=
  Nat.ofDigitChars_ten_toDigits

theorem decimalText_injective : Function.Injective decimalText :=
  Function.LeftInverse.injective digitsValue_decimalText

theorem readNat?_decimalText (n : Nat) : readNat? (decimalText n) = some n := by
  have hdigits : (decimalText n).all Char.isDigit = true :=
    List.all_eq_true.mpr fun c hc => isDigit_of_mem_decimalText hc
  simp [readNat?, hdigits, decimalText_ne_nil]

@[simp] theorem toList_intText_ofNat (n : Nat) : (intText n).toList = decimalText n :=
  String.toList_ofList

/-- The text of a whole number has digits and at most a sign. -/
theorem of_mem_intText {n : Int} {c : Char} (h : c ∈ (intText n).toList) :
    c.isDigit ∨ c = '-' := by
  cases n with
  | ofNat n =>
    rw [intText, String.toList_ofList] at h
    exact .inl (isDigit_of_mem_decimalText h)
  | negSucc n =>
    rw [intText, String.toList_ofList] at h
    rcases List.mem_cons.mp h with rfl | h
    · exact .inr rfl
    · exact .inl (isDigit_of_mem_decimalText h)

/-! ## Literals that are read -/

theorem isDigit_of_readNat? {cs : List Char} {n : Nat} (h : readNat? cs = some n) :
    ∀ c ∈ cs, c.isDigit = true := by
  unfold readNat? at h
  split at h
  · cases h
  · next hall => simp_all

/-- An integer literal is a run of digits with at most a sign in front. -/
theorem exists_of_readInt? {cs : List Char} {n : Int} (h : readInt? cs = some n) :
    ∃ digits, ∃ m : Nat, (∀ c ∈ digits, c.isDigit = true) ∧
      (cs = '+' :: digits ∧ n = m ∨ cs = '-' :: digits ∧ n = -m ∨ cs = digits ∧ n = m) := by
  unfold readInt? at h
  split at h
  · next digits =>
    obtain ⟨m, hm, rfl⟩ := Option.map_eq_some_iff.mp h
    exact ⟨digits, m, isDigit_of_readNat? hm, .inl ⟨rfl, rfl⟩⟩
  · next digits =>
    obtain ⟨k, hk, rfl⟩ := Option.map_eq_some_iff.mp h
    obtain ⟨m, hm, hmk⟩ := Option.bind_eq_some_iff.mp hk
    obtain rfl : (m : Int) = k := Option.some.inj hmk
    exact ⟨digits, m, isDigit_of_readNat? hm, .inr (.inl ⟨rfl, rfl⟩)⟩
  · obtain ⟨m, hm, rfl⟩ := Option.map_eq_some_iff.mp h
    exact ⟨cs, m, isDigit_of_readNat? hm, .inr (.inr ⟨rfl, rfl⟩)⟩

theorem of_mem_of_readInt? {cs : List Char} {n : Int} (h : readInt? cs = some n) :
    ∀ c ∈ cs, c.isDigit = true ∨ c = '+' ∨ c = '-' := by
  obtain ⟨digits, m, hdigits, ⟨rfl, -⟩ | ⟨rfl, -⟩ | ⟨rfl, -⟩⟩ := exists_of_readInt? h
  · exact List.forall_mem_cons.mpr ⟨.inr (.inl rfl), fun c hc => .inl (hdigits c hc)⟩
  · exact List.forall_mem_cons.mpr ⟨.inr (.inr rfl), fun c hc => .inl (hdigits c hc)⟩
  · exact fun c hc => .inl (hdigits c hc)

end ScreenForms.Decimal
