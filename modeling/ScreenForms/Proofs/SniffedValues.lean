import ScreenForms.Proofs.PropertyBags

/-!
# Values that are sniffed twice

What a raw text is taken for is written again as a text that is taken for the same
(`sniff_toLegacy_sniff`). Quoted texts are put between marks, whatever is in them, and nothing else
is looked at then; truth values have one spelling; an expression is written as it is, and was no
literal before. Numbers are written in two ways. The shortest digits of a float are assumed to read
back (`Decimal.ReadsBack`); a whole number below `10^15` is written without a sign of zero, and then
the float that is read is the same, since its mantissa and its exponent are those of the number
(`Decimal.eq_float_of_isWhole`).
-/

namespace ScreenForms

namespace Decimal

open Float.Model.UnpackedFloat

/-! ## The parts of a float -/

theorem eq_of_toBits_eq {x y : Float} (h : x.toBits = y.toBits) : x = y := by
  obtain ⟨⟨xbits, _⟩⟩ := x
  obtain ⟨⟨ybits, _⟩⟩ := y
  obtain rfl : xbits = ybits := h
  rfl

/-- The bits of a float are its sign, its exponent and the fraction of its mantissa. -/
theorem toNat_toBits {x : Float} {b : Binary} (h : Binary.ofFloat? x = some b) :
    ∃ biased < 2047, ∃ fraction < 2 ^ 52,
      x.toBits.toNat = b.negative.toNat * 2 ^ 63 + biased * 2 ^ 52 + fraction ∧
        b.mantissa = (if biased = 0 then fraction else fraction + 2 ^ 52) ∧
          b.exponent = (max biased 1 : Nat) - 1075 := by
  have hbits : x.toBits.toNat < 2 ^ 64 := x.toBits.toNat_lt
  unfold Binary.ofFloat? at h
  simp only [Nat.pow_eq] at h
  split at h
  · cases h
  · next hbiased =>
    obtain rfl := Option.some.inj h
    refine ⟨_, by omega, _, Nat.mod_lt _ (Nat.two_pow_pos 52), ?_, rfl, rfl⟩
    have hsign : x.toBits.toNat / 2 ^ 63 = 0 ∨ x.toBits.toNat / 2 ^ 63 = 1 := by omega
    rcases hsign with hsign | hsign <;> simp only [hsign] <;>
      simp only [Nat.reduceBEq, Bool.toNat_false, Bool.toNat_true] <;> omega

/-- A float with a full mantissa is known by its parts. -/
theorem IsNormal.eq_float {m : Nat} {e : Int} (h : IsNormal m e) {x : Float} {negative : Bool}
    (hx : Binary.ofFloat? x = some ⟨negative, m, e⟩) :
    x = h.float (if negative then .negative else .positive) := by
  obtain ⟨biased, hbiased, fraction, hfraction, hbits, hmantissa, hexponent⟩ := toNat_toBits hx
  have hlow := h.low
  dsimp only at hbits hmantissa hexponent
  have hnormal : biased ≠ 0 := by
    rintro rfl
    rw [if_pos rfl] at hmantissa
    omega
  rw [if_neg hnormal] at hmantissa
  refine eq_of_toBits_eq (UInt64.toNat_inj.mp (hbits.trans (Eq.trans ?_ (h.toNat_pack _).symm)))
  have hsign : (if negative then Sign.negative else .positive).toBitVec.toNat = negative.toNat := by
    cases negative <;> rfl
  rw [hsign]
  omega

theorem IsNormal.float_beq_float {m : Nat} {e : Int} (h : IsNormal m e) (s : Sign) :
    (h.float s == h.float s) = true := by
  have hcompare : (h.float s).toModel.unpack.compare (h.float s).toModel.unpack = some .eq := by
    have hsame : (compare e e).then (compare m m) = .eq := by simp
    rw [h.unpack_float]
    cases s with
    | negative => exact congrArg (fun o => some o.swap) hsame
    | positive => exact congrArg some hsame
  exact (beq_iff_eq.mpr hcompare : (_ == some Ordering.eq) = true)

/-! ## Whole numbers -/

/-- A factor of two more or less leaves the range of full mantissas. -/
theorem eq_of_shifted {n j k : Nat} (hj : 2 ^ 52 ≤ n * 2 ^ j ∧ n * 2 ^ j < 2 ^ 53)
    (hk : 2 ^ 52 ≤ n * 2 ^ k ∧ n * 2 ^ k < 2 ^ 53) : j = k := by
  have hdouble : ∀ {i l : Nat}, i < l → n * 2 ^ i * 2 ≤ n * 2 ^ l := by
    intro i l hlt
    rw [Nat.mul_assoc, ← Nat.pow_succ]
    exact Nat.mul_le_mul_left n (Nat.pow_le_pow_right (by decide) hlt)
  rcases Nat.lt_trichotomy j k with hlt | heq | hlt
  · have := hdouble hlt
    omega
  · exact heq
  · have := hdouble hlt
    omega

variable {x : Float} {b : Binary}

/-- A whole number other than zero is its mantissa without the zeros behind it. The exponent is
negative or zero, and the digits that it takes away all are zeros. -/
theorem mantissa_of_isWhole (hx : Binary.ofFloat? x = some b) (hwhole : b.isWhole = true)
    (hpos : 0 < b.magnitude) (hlarge : b.magnitude < 2 ^ 53) :
    ∃ k : Nat, b.exponent = -(k : Int) ∧ b.mantissa = b.magnitude * 2 ^ k ∧
      2 ^ 52 ≤ b.mantissa ∧ b.mantissa < 2 ^ 53 := by
  obtain ⟨biased, hbiased, fraction, hfraction, -, hmantissa, hexponent⟩ := toNat_toBits hx
  have hhigh : b.mantissa < 2 ^ 53 := by
    rw [hmantissa]
    split <;> omega
  have hfull : b.exponent = -1074 ∨ 2 ^ 52 ≤ b.mantissa := by
    rw [hmantissa]
    split <;> omega
  obtain ⟨negative, mantissa, exponent⟩ := b
  dsimp only at hhigh hfull ⊢
  rcases exponent with k | k
  · have hlow : 2 ^ 52 ≤ mantissa := hfull.resolve_left (by simp)
    have hmagnitude : mantissa * 2 ^ k < 2 ^ 53 := hlarge
    obtain rfl : k = 0 := by
      refine eq_of_shifted (n := mantissa) ⟨?_, hmagnitude⟩ (by omega)
      exact Nat.le_trans hlow (Nat.le_mul_of_pos_right _ (Nat.two_pow_pos k))
    refine ⟨0, rfl, ?_, hlow, hhigh⟩
    show mantissa = mantissa * 2 ^ 0 * 2 ^ 0
    simp
  · have hdivides : mantissa % 2 ^ (k + 1) = 0 := by simpa [Binary.isWhole] using hwhole
    have hmul : mantissa = mantissa / 2 ^ (k + 1) * 2 ^ (k + 1) :=
      (Nat.div_mul_cancel (Nat.dvd_of_mod_eq_zero hdivides)).symm
    refine ⟨k + 1, rfl, hmul, hfull.resolve_left fun hleast => ?_, hhigh⟩
    -- a float with the least exponent is far below one
    have hone : 1 * 2 ^ (k + 1) ≤ mantissa / 2 ^ (k + 1) * 2 ^ (k + 1) :=
      Nat.mul_le_mul_right _ hpos
    have hhuge : (2 : Nat) ^ 53 ≤ 2 ^ (k + 1) := Nat.pow_le_pow_right (by decide) (by omega)
    omega

/-- A whole float of at most 53 bits is the float that the text of its magnitude is read as. -/
theorem eq_float_of_isWhole (hx : Binary.ofFloat? x = some b) (hwhole : b.isWhole = true)
    (hpos : 0 < b.magnitude) (hlarge : b.magnitude < 2 ^ 53) :
    x = (isNormal_natCast hpos hlarge).float (if b.negative then .negative else .positive) := by
  obtain ⟨k, hexponent, hmantissa, hlow, hhigh⟩ := mantissa_of_isWhole hx hwhole hpos hlarge
  have hnormal := isNormal_natCast hpos hlarge
  obtain rfl : k = 52 - b.magnitude.log2 :=
    eq_of_shifted (hmantissa ▸ ⟨hlow, hhigh⟩) ⟨hnormal.low, hnormal.high⟩
  refine hnormal.eq_float ?_
  rw [hx, ← hmantissa, ← hexponent]

theorem read?_intText_neg {n : Nat} (hpos : 0 < n) :
    read? (intText (-(n : Int))).toList = some (-nearestFloat n 0) := by
  obtain ⟨k, rfl⟩ := Nat.exists_eq_add_one_of_ne_zero (Nat.pos_iff_ne_zero.mp hpos)
  show read? (String.ofList ('-' :: decimalText (k + 1))).toList = _
  rw [String.toList_ofList]
  show (readUnsigned? (decimalText (k + 1))).map _ = _
  rw [readUnsigned?_decimalText]
  rfl

/-- A float without a mantissa is one of the two zeros. -/
theorem eq_zero_of_mantissa (hx : Binary.ofFloat? x = some b) (hzero : b.mantissa = 0) :
    x = 0.0 ∨ x = -0.0 := by
  obtain ⟨biased, hbiased, fraction, hfraction, hbits, hmantissa, -⟩ := toNat_toBits hx
  rw [hzero] at hmantissa
  have hnone : biased = 0 ∧ fraction = 0 := by
    split at hmantissa <;> omega
  rw [hnone.1, hnone.2] at hbits
  rcases hnegative : b.negative with _ | _
  · left
    refine eq_of_toBits_eq (UInt64.toNat_inj.mp (hbits.trans ?_))
    rw [hnegative]
    decide +kernel
  · right
    refine eq_of_toBits_eq (UInt64.toNat_inj.mp (hbits.trans ?_))
    rw [hnegative]
    decide +kernel

theorem mantissa_eq_zero (hwhole : b.isWhole = true) (hzero : b.magnitude = 0) :
    b.mantissa = 0 := by
  obtain ⟨negative, mantissa, exponent⟩ := b
  rcases exponent with k | k
  · exact (Nat.mul_eq_zero.mp hzero).resolve_right (Nat.two_pow_pos k).ne'
  · have hdivides : mantissa % 2 ^ (k + 1) = 0 := by simpa [Binary.isWhole] using hwhole
    have hquotient : mantissa / 2 ^ (k + 1) = 0 := hzero
    show mantissa = 0
    rw [← Nat.div_add_mod mantissa (2 ^ (k + 1)), hquotient, hdivides, Nat.mul_zero]

/-- The text of a whole float is read as a float that equals it. Nothing is needed of the printer of
floats, since below 2^53 whole floats are written as integers. -/
theorem read?_wholeText (hx : Binary.ofFloat? x = some b) (hwhole : b.isWhole = true)
    (hlarge : b.magnitude < 2 ^ 53) :
    ∃ y, read? (intText (b.signed b.magnitude)).toList = some y ∧ (y == x) = true := by
  rcases Nat.eq_zero_or_pos b.magnitude with hzero | hpos
  · have hsigned : b.signed b.magnitude = 0 := by
      rw [hzero]
      unfold Binary.signed
      split <;> rfl
    rw [hsigned]
    refine ⟨0.0, by decide +kernel, ?_⟩
    rcases eq_zero_of_mantissa hx (mantissa_eq_zero hwhole hzero) with rfl | rfl <;> decide +kernel
  · have hnormal := isNormal_natCast hpos hlarge
    refine ⟨x, ?_, ?_⟩
    · rw [eq_float_of_isWhole hx hwhole hpos hlarge]
      unfold Binary.signed
      split
      · rw [read?_intText_neg hpos, nearestFloat_of_lt hpos hlarge, hnormal.neg_float]
        rfl
      · rw [toList_intText_ofNat, read?_decimalText, nearestFloat_of_lt hpos hlarge]
    · rw [eq_float_of_isWhole hx hwhole hpos hlarge]
      exact hnormal.float_beq_float _

/-- The shortest digits of a float are read as a float that equals it. -/
def ReadsBack (x : Float) : Prop :=
  ∃ y, read? (text x).toList = some y ∧ (y == x) = true

/-- Written as values are, floats read back when their digits do: those that are written in another
way do in any case. -/
theorem ReadsBack.roundTrips (h : ReadsBack x) : RoundTrips x := by
  unfold RoundTrips plainText
  split
  · next b hx =>
    split
    · next hwhole =>
      exact read?_wholeText hx hwhole.1 (Nat.lt_of_lt_of_le hwhole.2 (by decide))
    · exact h
  · exact h

end Decimal

/-! ## Values -/

namespace Value

open Text

variable {raw : String}

theorem isFinite_of_sniff {x : Float} (h : sniff raw = .number x) : x.isFinite = true := by
  unfold sniff at h
  dsimp only at h
  split at h
  · cases h
  split at h
  · cases h
  split at h
  · next hfinite =>
    cases h
    exact (Option.filter_eq_some_iff.mp hfinite).2
  · cases h

/-- An expression is the trimmed text itself. -/
theorem source_of_sniff {s : String} (h : sniff raw = .expr s) :
    s = String.ofList (trim raw.toList) := by
  unfold sniff at h
  dsimp only at h
  split at h
  · cases h
  split at h
  · cases h
  split at h
  · cases h
  · cases h
    rfl

/-- Writing what a text is taken for gives a text that is taken for the same, and a text between
marks is taken for that text, whatever is in it. -/
theorem sniff_toLegacy_sniff (raw content : String)
    (hround : ∀ x, sniff raw = .number x → Decimal.ReadsBack x) :
    Same (sniff (sniff raw).toLegacy) (sniff raw) ∧
      sniff (text content).toLegacy = text content := by
  refine ⟨?_, sniff_toLegacy_text content⟩
  rcases hsniff : sniff raw with t | set | x | s
  · rw [sniff_toLegacy_text]
    rfl
  · rw [sniff_toLegacy_flag]
    rfl
  · obtain ⟨y, hy, heq⟩ :=
      exists_sniff_plainText (isFinite_of_sniff hsniff) (hround x hsniff).roundTrips
    rw [toLegacy, hy]
    exact heq
  · have htrim : trim s.toList = trim raw.toList := by
      rw [source_of_sniff hsniff, String.toList_ofList, trim_trim]
    rw [toLegacy, sniff_eq_of_trim_eq htrim, hsniff]
    rfl

/-- A number with blanks around it and an exponent, and a text with all the marks in it. -/
theorem sniff_toLegacy_sniff_exponent :
    (∀ x, sniff " -2.50E-1\t" = .number x → Decimal.ReadsBack x) ∧
      Same (sniff (sniff " -2.50E-1\t").toLegacy) (sniff " -2.50E-1\t") ∧
        sniff (text "]'a\"[\\").toLegacy = text "]'a\"[\\" := by
  have hround : ∀ x, sniff " -2.50E-1\t" = .number x → Decimal.ReadsBack x := by
    intro x hx
    have hvalue : sniff " -2.50E-1\t" = .number (-0.25) := by decide +kernel
    rw [hvalue] at hx
    cases hx
    exact ⟨-0.25, by decide +kernel⟩
  exact ⟨hround, sniff_toLegacy_sniff _ _ hround⟩

end Value

end ScreenForms
