import ScreenForms.Decimal.Binary

/-!
# Whole numbers with 32 bits

Coordinates and sizes have 32 bits and a sign. A sum, a difference or a product that needs more
bits wraps around: it is brought back into the range by a multiple of `2 ^ 32`. Wrapping early or
late makes no difference (`wrapPlace_add`), and a result that fits is the exact one
(`wrapPlace_of_is32`), whatever the steps on the way to it did.
-/

namespace ScreenForms.Decimal

/-- The whole numbers that 32 bits with a sign can hold. -/
def Is32 (n : Int) : Prop := -2147483648 ≤ n ∧ n ≤ 2147483647

instance (n : Int) : Decidable (Is32 n) := inferInstanceAs (Decidable (_ ∧ _))

/-- What 32 bits make of a whole number: the number of the range that differs from it by a multiple
of `2 ^ 32`. -/
def wrap32 (n : Int) : Int := n.bmod 4294967296

theorem is32_wrap32 (n : Int) : Is32 (wrap32 n) := by
  have hlow := Int.le_bmod (x := n) (m := 4294967296) (by decide)
  have hhigh := Int.bmod_lt (x := n) (m := 4294967296) (by decide)
  unfold wrap32 Is32
  omega

/-- A number that fits is kept as it is. -/
theorem wrap32_of_is32 {n : Int} (h : Is32 n) : wrap32 n = n := by
  obtain ⟨hlow, hhigh⟩ := h
  exact Int.bmod_eq_of_le (by omega) (by omega)

/-- It is enough to wrap a sum at its end. -/
theorem wrap32_add_wrap32 (m n : Int) : wrap32 (m + wrap32 n) = wrap32 (m + n) :=
  Int.add_bmod_bmod

/-- Rounding a float keeps to 32 bits. -/
theorem is32_nearest (x : Float) : Is32 (nearest x) := by
  unfold nearest toRange
  split
  · unfold clamp Is32
    omega
  · split
    · decide
    · split <;> decide

example : wrap32 (2147483647 + 1) = -2147483648 ∧ wrap32 (-2147483648 - 1) = 2147483647 := by
  decide

/-! ## Places -/

/-- What 32 bits make of the two numbers of a place. -/
def wrapPlace (p : Int × Int) : Int × Int := (wrap32 p.1, wrap32 p.2)

/-- A place that fits is kept as it is. -/
theorem wrapPlace_of_is32 {p : Int × Int} (hx : Is32 p.1) (hy : Is32 p.2) : wrapPlace p = p :=
  Prod.ext (wrap32_of_is32 hx) (wrap32_of_is32 hy)

theorem wrapPlace_wrapPlace (p : Int × Int) : wrapPlace (wrapPlace p) = wrapPlace p :=
  wrapPlace_of_is32 (is32_wrap32 p.1) (is32_wrap32 p.2)

/-- A place that is moved once more wraps as if only the last sum did. -/
theorem wrapPlace_add (p q : Int × Int) :
    wrapPlace (p.1 + (wrapPlace q).1, p.2 + (wrapPlace q).2) = wrapPlace (p.1 + q.1, p.2 + q.2) :=
  Prod.ext (wrap32_add_wrap32 p.1 q.1) (wrap32_add_wrap32 p.2 q.2)

/-- A place relative to another one is found again from there, even where the difference wraps. -/
theorem wrapPlace_add_sub (p q : Int × Int) :
    wrapPlace (p.1 + (wrapPlace (q.1 - p.1, q.2 - p.2)).1,
      p.2 + (wrapPlace (q.1 - p.1, q.2 - p.2)).2) = wrapPlace q := by
  rw [wrapPlace_add, Int.add_comm, Int.sub_add_cancel, Int.add_comm, Int.sub_add_cancel]

end ScreenForms.Decimal
