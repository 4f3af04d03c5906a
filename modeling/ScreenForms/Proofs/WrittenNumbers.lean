import ScreenForms.Form.Color
import ScreenForms.Proofs.WrittenValues

/-!
# Written numbers

A color is written as one packed number, which is small enough to be read as the float that equals
it, and so the same color is read (`Color.ofValue?_sniff_packed`). Any other number is written with
the fewest digits that read back; its text is taken for a number and for nothing else, so what is
read of it is what the reader of numbers makes of these digits (`Value.exists_sniff_plainText`).
-/

namespace ScreenForms

namespace Decimal

open Float.Model (Format UnpackedFloat)
open Float.Model.UnpackedFloat

variable {m m' : Nat} {e e' : Int} {x y : Float}

/-! ## Comparing floats -/

theorem le_iff : x ≤ y ↔ x.toModel.unpack.le y.toModel.unpack = true := by
  show decide (x.toModel ≤ y.toModel) = true ↔ _
  exact decide_eq_true_iff

theorem IsNormal.unpack_float (h : IsNormal m e) (s : Sign) :
    (h.float s).toModel.unpack = .finite s m e h.pos := h.unpack_pack s

theorem zero_eq : (0.0 : Float) = .ofModel (.ofBits 0) := by decide +kernel

theorem IsNormal.zero_le_float (h : IsNormal m e) : 0.0 ≤ h.float .positive := by
  have hzero : (0.0 : Float).toModel.unpack = .zero .positive := by
    rw [zero_eq]
    rfl
  rw [le_iff, hzero, h.unpack_float]
  rfl

theorem IsNormal.float_le_float (h : IsNormal m e) (h' : IsNormal m' e')
    (hle : e < e' ∨ e = e' ∧ m ≤ m') : h.float .positive ≤ h'.float .positive := by
  rw [le_iff, h.unpack_float, h'.unpack_float]
  show Option.any (fun o => o.isLE) (some ((compare e e').then (compare m m'))) = true
  rw [Option.any_some]
  rcases hle with hlt | ⟨rfl, hle⟩
  · rw [compare_lt_iff_lt.mpr hlt]
    rfl
  · rw [compare_eq_iff_eq.mpr rfl]
    exact Nat.isLE_compare.mpr hle

/-- A float that equals a finite one is finite. -/
theorem isFinite_of_beq (h : (y == x) = true) (hx : x.isFinite = true) : y.isFinite = true := by
  have heq : y.toModel.unpack.compare x.toModel.unpack = some .eq := beq_iff_eq.mp h
  have hfinite : x.toModel.unpack.isFinite = true := hx
  show y.toModel.unpack.isFinite = true
  revert heq hfinite
  generalize x.toModel.unpack = u
  generalize y.toModel.unpack = v
  cases v with
  | notANumber => nofun
  | infinity t => cases t <;> cases u <;> nofun
  | zero t => exact fun _ _ => rfl
  | finite t m e hm => exact fun _ _ => rfl

/-! ## Whole numbers of three bytes -/

theorem magnitude_shifted (negative : Bool) (n k : Nat) :
    Binary.magnitude ⟨negative, n * 2 ^ k, -(k : Int)⟩ = n := by
  cases k with
  | zero => simp [Binary.magnitude]
  | succ k => exact Nat.mul_div_cancel n (Nat.two_pow_pos (k + 1))

/-- The greatest number of three bytes. -/
theorem isNormal_bytes : IsNormal (16777215 * 2 ^ 29) (-29) :=
  ⟨by decide, by decide, by decide, by decide⟩

theorem bytes_eq : (16777215.0 : Float) = isNormal_bytes.float .positive := by decide +kernel

/-- A number of three bytes is read as a finite float in their range, whose whole part it is. -/
theorem nearestFloat_bytes {n : Nat} (hn : n ≤ 16777215) :
    (nearestFloat n 0).isFinite = true ∧ 0.0 ≤ nearestFloat n 0 ∧
      nearestFloat n 0 ≤ 16777215.0 ∧ truncate (nearestFloat n 0) = n := by
  rcases Nat.eq_zero_or_pos n with rfl | hpos
  · decide +kernel
  · have hlarge : n < 2 ^ 53 := by omega
    have hlog : n.log2 < 24 := (Nat.log2_lt (Nat.pos_iff_ne_zero.mp hpos)).mpr (by omega)
    have h := isNormal_natCast hpos hlarge
    rw [nearestFloat_of_lt hpos hlarge]
    refine ⟨h.isFinite_float _, h.zero_le_float, ?_, ?_⟩
    · rw [bytes_eq]
      refine h.float_le_float isNormal_bytes ?_
      rcases Nat.lt_or_eq_of_le (Nat.le_of_lt_succ hlog) with hlt | heq
      · exact .inl (by omega)
      · rw [heq]
        exact .inr ⟨rfl, Nat.mul_le_mul_right _ hn⟩
    · unfold truncate toRange
      rw [h.ofFloat?_float]
      dsimp only [Binary.signed]
      rw [magnitude_shifted]
      exact clamp_of_mem (by omega) (by omega)

end Decimal

/-! ## Colors -/

theorem Color.packed_le (c : Color) : c.packed ≤ 16777215 := by
  have hred := c.red.toNat_lt
  have hgreen := c.green.toNat_lt
  have hblue := c.blue.toNat_lt
  unfold Color.packed
  omega

open Decimal in
/-- A packed color is read again. -/
theorem Color.ofValue?_sniff_packed (c : Color) :
    Color.ofValue? (Value.sniff (intText c.packed)) = some c := by
  obtain ⟨hfinite, hlow, hhigh, htruncate⟩ := nearestFloat_bytes c.packed_le
  have hread : read? (intText (c.packed : Int)).toList = some (nearestFloat c.packed 0) := by
    rw [toList_intText_ofNat, read?_decimalText]
  rw [Value.sniff_eq_number (fun _ => Value.isNumberChar_of_mem_intText) hread hfinite,
    Color.ofValue?, if_pos ⟨hlow, hhigh⟩, htruncate, Int.toNat_natCast, Color.ofPacked_packed]

/-! ## Numbers -/

namespace Decimal

/-- The digits of a float are read as a float that equals it. -/
def RoundTrips (x : Float) : Prop :=
  ∃ y, read? (plainText x).toList = some y ∧ (y == x) = true

end Decimal

/-- A finite number whose digits read back is read again. -/
theorem Value.exists_sniff_plainText {x : Float} (hfinite : x.isFinite = true)
    (hround : Decimal.RoundTrips x) :
    ∃ y, Value.sniff (Decimal.plainText x) = .number y ∧ (y == x) = true := by
  obtain ⟨y, hread, heq⟩ := hround
  have hy := Decimal.isFinite_of_beq heq hfinite
  refine ⟨y, Value.sniff_eq_number ?_ hread hy, heq⟩
  refine (Value.plainText_cases x).resolve_left fun hword => ?_
  -- the three words spell floats that are not finite
  have hinfinite : ∀ s ∈ ["inf", "-inf", "NaN"],
      ∀ z, Decimal.read? s.toList = some z → z.isFinite = false := by
    intro s hs z hz
    simp only [List.mem_cons, List.not_mem_nil, or_false] at hs
    rcases hs with rfl | rfl | rfl
    all_goals
      obtain rfl := Option.some.inj hz
      decide +kernel
  rw [hinfinite _ hword y hread] at hy
  cases hy

end ScreenForms
