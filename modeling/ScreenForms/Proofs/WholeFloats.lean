import Mathlib
import ScreenForms.Decimal.Read
import ScreenForms.Decimal.Wrapping
import ScreenForms.Proofs.Digits

/-!
# Whole numbers as floats

A whole number of at most 53 bits is a float. Reading its text gives exactly that float, and the
nearest whole number of the float is the number again (`exists_read?_intText`). The proof follows the
logical model of floats: a float with a full mantissa keeps its parts when it is packed into bits
(`IsNormal.unpack_pack`, `IsNormal.ofFloat?_float`), and rounding only drops zeros from a mantissa
that was shifted to the left (`IsNormal.roundWithAccuracy_eq`).
-/

namespace ScreenForms.Decimal

open Float.Model (Format UnpackedFloat totalExponent)
open Float.Model.UnpackedFloat

/-! ## Floats with a full mantissa -/

/-- The parts of a float whose mantissa has all 53 bits. -/
structure IsNormal (m : Nat) (e : Int) : Prop where
  low : 2 ^ 52 ≤ m
  high : m < 2 ^ 53
  least : -1074 ≤ e
  greatest : e ≤ 971

namespace IsNormal

variable {m : Nat} {e : Int} (h : IsNormal m e)
include h

theorem pos : 0 < m := Nat.lt_of_lt_of_le (by decide) h.low

/-- Zeros behind a mantissa lengthen it by their number. -/
theorem log2_shifted (k : Nat) : (m * 2 ^ k).log2 = 52 + k := by
  have hlow := Nat.mul_le_mul_right (2 ^ k) h.low
  have hhigh := Nat.mul_lt_mul_of_pos_right h.high (Nat.two_pow_pos k)
  rw [← Nat.pow_add] at hlow hhigh
  refine (Nat.log2_eq_iff (Nat.pos_iff_ne_zero.mp ?_)).mpr ⟨hlow, ?_⟩
  · exact Nat.mul_pos h.pos (Nat.two_pow_pos k)
  · rwa [show 52 + k + 1 = 53 + k by omega]

theorem log2_eq : m.log2 = 52 := by simpa using h.log2_shifted 0

/-- The exponent to round to is the one the mantissa already has, wherever the number was shifted
before. -/
theorem targetExponent_shifted (k : Nat) :
    Format.binary64.targetExponent (totalExponent (m * 2 ^ k) (e - k)) = e := by
  have := h.least
  simp only [Format.targetExponent, totalExponent, h.log2_shifted, Format.mantissaBits,
    Format.minExponent]
  omega

/-! ### Rounding -/

omit h in
/-- Shifting zeros away loses nothing, so that neither of the two bits for lost digits is set. -/
theorem shiftRight_shifted (m k : Nat) :
    (⟨m * 2 ^ k, false, false⟩ : ExtendedMantissa) >>> k = ⟨m, false, false⟩ := by
  induction k generalizing m with
  | zero => rw [Nat.pow_zero, Nat.mul_one]; rfl
  | succ k ih =>
    have hstep : (⟨m * 2 ^ (k + 1), false, false⟩ : ExtendedMantissa) >>> (k + 1) =
        ((⟨m * 2 * 2 ^ k, false, false⟩ : ExtendedMantissa) >>> k).shiftRightOne := by
      rw [Nat.pow_succ, Nat.mul_assoc m, Nat.mul_comm 2]
      rfl
    rw [hstep, ih]
    simp [ExtendedMantissa.shiftRightOne]

/-- Rounding therefore starts from the mantissa itself, known exactly. -/
theorem shiftToTargetExponent_eq (k : Nat) :
    shiftToTargetExponent .binary64 (m * 2 ^ k) (e - k) .exact = (⟨m, false, false⟩, e) := by
  have hshift : (e - (e - k)).toNat = k := by omega
  have hback : e - (k : Int) + k = e := by omega
  simp only [shiftToTargetExponent, h.targetExponent_shifted, shiftToExponent, hshift, hback,
    ExtendedMantissa.ofMantissaAndAccuracy, shiftRight_shifted]

/-- Rounding drops the zeros behind a full mantissa and nothing else. -/
theorem roundWithAccuracy_eq (s : Sign) (k : Nat) :
    roundWithAccuracy .binary64 s (m * 2 ^ k) (e - k) .exact = .finite s m e h.pos := by
  have hsame : shiftToTargetExponent .binary64 m e .exact = (⟨m, false, false⟩, e) := by
    simpa using h.shiftToTargetExponent_eq 0
  have hrounded : (⟨m, false, false⟩ : ExtendedMantissa).roundedMantissa = m := rfl
  simp only [roundWithAccuracy, h.shiftToTargetExponent_eq, hrounded, hsame]
  exact dif_neg (Nat.pos_iff_ne_zero.mp h.pos)

/-! ### Packing -/

omit h in
/-- The exponent as it stands in the bits. -/
theorem biased_eq :
    (e + Format.binary64.exponentBias + (52 : Nat)).toNat = (e + 1075).toNat := by
  show (e + (1023 : Nat) + (52 : Nat)).toNat = (e + 1075).toNat
  omega

/-- The exponent is that of a normal number, neither of a subnormal one nor of an infinity. -/
theorem biased_bounds : 0 < (e + 1075).toNat ∧ (e + 1075).toNat < 2047 := by
  have := h.least
  have := h.greatest
  omega

theorem pack_eq (s : Sign) :
    pack .binary64 (.finite s m e h.pos) =
      packComponents .binary64 s (BitVec.ofNat 11 (e + 1075).toNat) (BitVec.ofNat 52 m) := by
  have := h.biased_bounds
  simp only [pack, h.log2_eq, biased_eq]
  rw [if_neg (by omega), if_pos (show 52 + 1 = Format.binary64.mantissaBits from rfl)]

/-- The bits are sign, exponent and mantissa one after another. -/
theorem toNat_pack (s : Sign) :
    (pack .binary64 (.finite s m e h.pos)).toNat =
      s.toBitVec.toNat * 2 ^ 63 + (e + 1075).toNat * 2 ^ 52 + m % 2 ^ 52 := by
  have := h.biased_bounds
  have hmantissa : m % 2 ^ 52 < 2 ^ 52 := Nat.mod_lt m (Nat.two_pow_pos 52)
  rw [h.pack_eq]
  show (s.toBitVec ++ BitVec.ofNat 11 (e + 1075).toNat ++ BitVec.ofNat 52 m).toNat = _
  rw [BitVec.toNat_append, BitVec.toNat_append, BitVec.toNat_ofNat, BitVec.toNat_ofNat,
    Nat.mod_eq_of_lt (show (e + 1075).toNat < 2 ^ 11 by omega),
    ← Nat.shiftLeft_add_eq_or_of_lt (show (e + 1075).toNat < 2 ^ 11 by omega),
    ← Nat.shiftLeft_add_eq_or_of_lt hmantissa, Nat.shiftLeft_eq, Nat.shiftLeft_eq]
  omega

/-- Packing a normal number and unpacking it gives the number back. -/
theorem unpack_pack (s : Sign) :
    unpack .binary64 (pack .binary64 (.finite s m e h.pos)) = .finite s m e h.pos := by
  have hbounds := h.biased_bounds
  have hlow := h.low
  have hhigh := h.high
  have hexponent : (BitVec.ofNat 11 (e + 1075).toNat).toNat = (e + 1075).toNat := by
    rw [BitVec.toNat_ofNat]
    omega
  have hmantissa : (1#1 ++ BitVec.ofNat 52 m).toNat = m := by
    rw [BitVec.toNat_append, ← Nat.shiftLeft_add_eq_or_of_lt (BitVec.isLt _), BitVec.toNat_ofNat,
      Nat.shiftLeft_eq]
    show 1 * 2 ^ 52 + m % 2 ^ 52 = m
    omega
  have hsign : ∀ (ee : BitVec 11) (mm : BitVec 52),
      unpackSign (packComponents .binary64 s ee mm) = s.toBitVec := by
    intro ee mm
    show (s.toBitVec ++ ee ++ mm).extractLsb' 63 1 = s.toBitVec
    rw [BitVec.extractLsb'_append_eq_of_le (by decide),
      BitVec.extractLsb'_append_eq_of_le (by decide)]
    exact BitVec.extractLsb'_eq_self
  have hsame : Sign.ofBitVec s.toBitVec = s := by
    cases s <;> rfl
  rw [h.pack_eq]
  simp only [unpack, unpackMantissa_packComponents, unpackExponent_packComponents, hsign, hsame]
  have hinfinite : BitVec.ofNat 11 (e + 1075).toNat ≠ -1#11 := by
    intro heq
    have := congrArg BitVec.toNat heq
    rw [hexponent] at this
    simp at this
    omega
  have hsubnormal : BitVec.ofNat 11 (e + 1075).toNat ≠ 0#11 := by
    intro heq
    have := congrArg BitVec.toNat heq
    rw [hexponent] at this
    simp at this
    omega
  rw [if_neg hinfinite, if_neg hsubnormal]
  have hvalue : ((BitVec.ofNat 11 (e + 1075).toNat).toNat : Int) - ((1023 : Nat) + (52 : Nat)) = e := by
    rw [hexponent]
    omega
  exact (UnpackedFloat.finite.injEq ..).mpr ⟨rfl, hmantissa, hvalue⟩

/-- The float with these parts. -/
def float (s : Sign) : Float := .ofModel (.pack (.finite s m e h.pos))

/-- Negation changes the sign bit only. -/
theorem neg_float (s : Sign) : -h.float s = h.float (-s) := by
  show Float.ofModel (.pack (unpack .binary64 (pack .binary64 (.finite s m e h.pos))).neg) = _
  rw [h.unpack_pack]
  rfl

/-- A normal number is finite. -/
theorem isFinite_float (s : Sign) : (h.float s).isFinite = true := by
  show (unpack .binary64 (pack .binary64 (.finite s m e h.pos))).isFinite = true
  rw [h.unpack_pack]
  rfl

/-- The parts by which a float is written are those it was made of. -/
theorem ofFloat?_float (s : Sign) :
    Binary.ofFloat? (h.float s) = some ⟨s.toBitVec.toNat == 1, m, e⟩ := by
  have hlow := h.low
  have hhigh := h.high
  have hbounds := h.biased_bounds
  have hbits : (h.float s).toBits.toNat =
      s.toBitVec.toNat * 2 ^ 63 + (e + 1075).toNat * 2 ^ 52 + m % 2 ^ 52 := h.toNat_pack s
  have hsign : s.toBitVec.toNat < 2 := s.toBitVec.isLt
  have hbiased : (h.float s).toBits.toNat / 2 ^ 52 % 2048 = (e + 1075).toNat := by omega
  have hfraction : (h.float s).toBits.toNat % 2 ^ 52 + 2 ^ 52 = m := by omega
  have htop : (h.float s).toBits.toNat / 2 ^ 63 = s.toBitVec.toNat := by omega
  unfold Binary.ofFloat?
  simp only [Nat.pow_eq, hbiased, htop]
  rw [if_neg (by omega), if_neg (by omega), hfraction]
  congr 2
  omega

end IsNormal

/-! ## Whole numbers -/

/-- The mantissa of a whole number of at most 53 bits, moved to the left until it is full. -/
theorem isNormal_natCast {n : Nat} (hpos : 0 < n) (hn : n < 2 ^ 53) :
    IsNormal (n * 2 ^ (52 - n.log2)) (-((52 - n.log2 : Nat) : Int)) := by
  have hlog : n.log2 ≤ 52 := by
    have := (Nat.log2_lt (Nat.pos_iff_ne_zero.mp hpos)).mpr hn
    omega
  have hlow := Nat.mul_le_mul_right (2 ^ (52 - n.log2)) (Nat.log2_self_le (Nat.pos_iff_ne_zero.mp hpos))
  have hhigh := Nat.mul_lt_mul_of_pos_right (Nat.lt_log2_self (n := n)) (Nat.two_pow_pos (52 - n.log2))
  rw [← Nat.pow_add] at hlow hhigh
  rw [show n.log2 + (52 - n.log2) = 52 by omega] at hlow
  rw [show n.log2 + 1 + (52 - n.log2) = 53 by omega] at hhigh
  exact ⟨hlow, hhigh, by omega, by omega⟩

/-- A whole number below 2^53 fits into a mantissa and is converted as it is. -/
theorem toFloat_toUInt64 {n : Nat} (hpos : 0 < n) (hn : n < 2 ^ 53) :
    n.toUInt64.toFloat = (isNormal_natCast hpos hn).float .positive := by
  have h := isNormal_natCast hpos hn
  have hlog : n.log2 ≤ 52 := by
    have := (Nat.log2_lt (Nat.pos_iff_ne_zero.mp hpos)).mpr hn
    omega
  have hword : n.toUInt64.toNat = n := by
    show n % 2 ^ 64 = n
    omega
  have hsign : compare (n : Int) 0 = .gt := Int.compare_eq_gt.mpr (by omega)
  have htarget : Format.binary64.targetExponent (totalExponent n 0) =
      -((52 - n.log2 : Nat) : Int) := by
    simp only [Format.targetExponent, totalExponent, Format.mantissaBits, Format.minExponent]
    omega
  have hshift : (0 - -((52 - n.log2 : Nat) : Int)).toNat = 52 - n.log2 := by omega
  have hround : round .binary64 .positive n 0 =
      .finite .positive (n * 2 ^ (52 - n.log2)) (-((52 - n.log2 : Nat) : Int)) h.pos := by
    have := h.roundWithAccuracy_eq .positive 0
    rw [Nat.pow_zero, Nat.mul_one, Int.natCast_zero, Int.sub_zero] at this
    rw [Float.Model.UnpackedFloat.round, htarget, decreaseExponent, hshift, Nat.shiftLeft_eq, Int.zero_sub]
    exact this
  show Float.ofModel (.pack (normalize .binary64 (n.toUInt64.toNat : Int) 0 .positive)) = _
  rw [hword]
  simp only [Float.Model.UnpackedFloat.normalize, hsign, Int.toNat_natCast, hround]
  rfl

/-- A whole number of at most 53 bits is read as the float that equals it. It fits into the
mantissa, so that neither the conversion nor the multiplication by one rounds. -/
theorem ofScientific_eq {n : Nat} (hpos : 0 < n) (hn : n < 2 ^ 53) :
    Float.ofScientific n false 0 = (isNormal_natCast hpos hn).float .positive := by
  have h := isNormal_natCast hpos hn
  unfold Float.ofScientific
  rw [dif_pos ⟨hn, by decide⟩]
  have hone : (Float.Model.ofBits 0x3FF0000000000000).unpack =
      .finite .positive (2 ^ 52) (-52) (by decide) := by rfl
  show n.toUInt64.toFloat * Float.ofBits 0x3FF0000000000000 = _
  rw [toFloat_toUInt64 hpos hn]
  show Float.ofModel (.pack (mul .binary64 (unpack .binary64 (pack .binary64 (.finite _ _ _ h.pos)))
    (Float.Model.ofBits 0x3FF0000000000000).unpack)) = _
  rw [h.unpack_pack, hone]
  have := h.roundWithAccuracy_eq .positive 52
  show Float.ofModel (.pack (roundWithAccuracy .binary64 .positive _ (_ - (52 : Nat)) .exact)) = _
  rw [this]
  rfl

/-- The number of a shifted mantissa, where the point stands behind the zeros. -/
theorem nearestMagnitude_shifted (negative : Bool) (n k : Nat) :
    Binary.nearestMagnitude ⟨negative, n * 2 ^ k, -(k : Int)⟩ = n := by
  cases k with
  | zero => simp [Binary.nearestMagnitude]
  | succ k =>
    have hpos : 0 < 2 ^ (k + 1) := Nat.two_pow_pos (k + 1)
    show (2 * (n * 2 ^ (k + 1)) + 2 ^ (k + 1)) / 2 ^ (k + 1 + 1) = n
    rw [show 2 ^ (k + 1 + 1) = 2 * 2 ^ (k + 1) from Nat.pow_succ', Nat.mul_comm n,
      ← Nat.mul_assoc, Nat.add_comm, Nat.add_mul_div_left _ _ (by omega),
      Nat.div_eq_of_lt (by omega), Nat.zero_add]

/-- Reading such a number gives the same float as converting it. -/
theorem nearestFloat_of_lt {n : Nat} (hpos : 0 < n) (hn : n < 2 ^ 53) :
    nearestFloat n 0 = (isNormal_natCast hpos hn).float .positive := by
  have hlength : (Nat.toDigits 10 n).length ≤ 16 :=
    (Nat.length_toDigits_le_iff (by decide) (by decide)).mpr (by omega)
  unfold nearestFloat
  dsimp only
  rw [if_neg (by omega), if_neg (by omega), if_neg (by omega)]
  exact ofScientific_eq hpos hn

/-- It is taken back to the whole number it came from, up to the bounds of 32 bits. -/
theorem nearest_float {n : Nat} (hpos : 0 < n) (hn : n < 2 ^ 53) (s : Sign) :
    nearest ((isNormal_natCast hpos hn).float s) =
      clamp (-2147483648) 2147483647 (if s.toBitVec.toNat == 1 then -(n : Int) else n) := by
  unfold nearest toRange
  rw [(isNormal_natCast hpos hn).ofFloat?_float]
  dsimp only [Binary.signed]
  rw [nearestMagnitude_shifted]

/-! ## Reading texts of whole numbers -/

/-- A text of digits is read as the number it writes, with no shift. -/
theorem readUnsigned?_decimalText (n : Nat) :
    readUnsigned? (decimalText n) = some (nearestFloat n 0) := by
  have hword : ∀ (c : Char) (cs : List Char), c.isDigit = false →
      String.ofList ((decimalText n).map Char.toLower) ≠ String.ofList (c :: cs) := by
    intro c cs hc heq
    have hmem : c ∈ (decimalText n).map Char.toLower := by
      rw [String.ofList_injective heq]
      exact List.mem_cons_self
    obtain ⟨d, hd, rfl⟩ := List.mem_map.mp hmem
    have hdigit := isDigit_of_mem_decimalText hd
    rw [toLower_of_isDigit hdigit, hdigit] at hc
    cases hc
  have hspan : spanDigits (decimalText n) = (decimalText n, []) := by
    have hall : ∀ c ∈ decimalText n, c.isDigit = true := fun c => isDigit_of_mem_decimalText
    exact Prod.ext (List.takeWhile_eq_self_iff.mpr hall) (List.dropWhile_eq_nil_iff.mpr hall)
  have hempty : (decimalText n).isEmpty = false := by
    rw [List.isEmpty_eq_false_iff]
    exact decimalText_ne_nil n
  unfold readUnsigned? readMagnitude?
  dsimp only
  rw [if_neg, if_neg (hword 'n' ['a', 'n'] rfl), hspan]
  · simp only [hempty, List.append_nil, digitsValue_decimalText]
    rfl
  · rintro (h | h)
    · exact hword 'i' ['n', 'f'] rfl h
    · exact hword 'i' ['n', 'f', 'i', 'n', 'i', 't', 'y'] rfl h

/-- There is no sign in front of it. -/
theorem read?_decimalText (n : Nat) : read? (decimalText n) = some (nearestFloat n 0) := by
  rw [← readUnsigned?_decimalText]
  have hdigit : ∀ c ∈ decimalText n, c.isDigit = true := fun c => isDigit_of_mem_decimalText
  unfold read?
  split
  · next heq => exact absurd (hdigit '+' (heq ▸ List.mem_cons_self)) (by decide)
  · next heq => exact absurd (hdigit '-' (heq ▸ List.mem_cons_self)) (by decide)
  · rfl

/-- The text of a whole number of 32 bits is read as a finite float that is nearest to it. So
coordinates and sizes come through a text unchanged. -/
theorem exists_read?_intText {n : Int} (h : Is32 n) :
    ∃ x, read? (intText n).toList = some x ∧ x.isFinite = true ∧ nearest x = n := by
  cases n with
  | ofNat n =>
    have hhigh : (n : Int) ≤ 2147483647 := h.2
    have hn : n < 2 ^ 53 := by omega
    rw [show (intText (Int.ofNat n)).toList = decimalText n from toList_intText_ofNat n,
      read?_decimalText]
    refine ⟨_, rfl, ?_⟩
    rcases Nat.eq_zero_or_pos n with rfl | hpos
    · exact ⟨by decide +kernel, by decide +kernel⟩
    · rw [nearestFloat_of_lt hpos hn]
      refine ⟨(isNormal_natCast hpos hn).isFinite_float _, ?_⟩
      rw [nearest_float hpos hn]
      exact clamp_of_mem h.1 h.2
  | negSucc n =>
    have hn : n + 1 < 2 ^ 53 := by have := h.1; omega
    have hread : read? (intText (Int.negSucc n)).toList = some (-nearestFloat (n + 1) 0) := by
      rw [intText, String.toList_ofList]
      show (readUnsigned? (decimalText (n + 1))).map _ = _
      rw [readUnsigned?_decimalText]
      rfl
    refine ⟨_, hread, ?_⟩
    rw [nearestFloat_of_lt (Nat.succ_pos n) hn, IsNormal.neg_float]
    refine ⟨(isNormal_natCast (Nat.succ_pos n) hn).isFinite_float _, ?_⟩
    rw [nearest_float (Nat.succ_pos n) hn]
    exact clamp_of_mem h.1 h.2

end ScreenForms.Decimal
