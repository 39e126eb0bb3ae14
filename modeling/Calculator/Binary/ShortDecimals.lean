import Calculator.Binary.Integers
import Mathlib.Algebra.Order.Field.Power

/-! # Short decimals

Fifteen significant digits are never too many for double precision: different
decimals with at most as many are so far apart for their size that they round
to different numbers, unless these are subnormal.
-/

namespace Calculator.Binary

variable {A B : ℕ} {g h : ℤ} {u : ℚ}

/-- Different multiples of a unit, the smaller below `10 ^ 15`, are far apart
for their size. -/
theorem far_of_unit (hu : 0 < u) (hA : A < 10 ^ 15) (hAB : A < B) :
    A * u + B * u < (B * u - A * u) * 2 ^ 52 := by
  have hfar : A + B + 2 ^ 52 * A < B * 2 ^ 52 := by omega
  have hfar' : (A : ℚ) + B + 2 ^ 52 * A < B * 2 ^ 52 := by exact_mod_cast hfar
  have hmul := mul_lt_mul_of_pos_right hfar' hu
  linarith

theorem exists_unit (A : ℕ) (hgh : g ≤ h) : ∃ B : ℕ, (A : ℚ) * 10 ^ h = B * 10 ^ g := by
  refine ⟨A * 10 ^ (h - g).toNat, ?_⟩
  have hexp : h = ((h - g).toNat : ℤ) + g := by omega
  push_cast
  rw [mul_assoc, ← zpow_natCast, ← zpow_add₀ (by norm_num), ← hexp]

theorem far_of_short (hA : A < 10 ^ 15) (hB : B < 10 ^ 15)
    (hlt : (A : ℚ) * 10 ^ g < B * 10 ^ h) :
    (A : ℚ) * 10 ^ g + B * 10 ^ h < (B * 10 ^ h - A * 10 ^ g) * 2 ^ 52 := by
  have hpos (e : ℤ) : (0 : ℚ) < 10 ^ e := zpow_pos (by norm_num) e
  -- the one with the smaller unit is below `10 ^ 15` of it, so the smaller one is
  rcases le_total g h with hgh | hgh
  · obtain ⟨B, heq⟩ := exists_unit B hgh
    rw [heq] at hlt ⊢
    exact far_of_unit (hpos g) hA (by exact_mod_cast lt_of_mul_lt_mul_right hlt (hpos g).le)
  · obtain ⟨A, heq⟩ := exists_unit A hgh
    rw [heq] at hlt ⊢
    have hAB : A < B := by exact_mod_cast lt_of_mul_lt_mul_right hlt (hpos h).le
    exact far_of_unit (hpos h) (hAB.trans hB) hAB

theorem nearest_ne_of_short (hA : A < 10 ^ 15) (hB : B < 10 ^ 15)
    (hsize : 2 ^ 52 ≤ (A : ℚ) * 10 ^ g * 2 ^ 1074) (hlt : (A : ℚ) * 10 ^ g < B * 10 ^ h) :
    nearest 52 ((A : ℚ) * 10 ^ g * 2 ^ 1074) ≠ nearest 52 ((B : ℚ) * 10 ^ h * 2 ^ 1074) := by
  have hscale : (0 : ℚ) < 2 ^ 1074 := by positivity
  refine nearest_ne_of_add_lt hsize (mul_le_mul_of_nonneg_right hlt.le hscale.le) ?_
  rw [← add_mul, ← sub_mul, mul_right_comm]
  exact mul_lt_mul_of_pos_right (far_of_short hA hB hlt) hscale

namespace Float64

variable {s : Bool} {i : Fin finiteBound} {x : ℚ}

theorem pow_le_of_ofRat (hx : ofRat s x = .finite s i) (hx0 : 0 ≤ x) (hi : 2 ^ 52 < i.val) :
    2 ^ 52 ≤ x * 2 ^ 1074 := by
  by_contra hlt
  have hone : grid 52 (2 ^ 52) = 2 ^ 52 := by decide +kernel
  have hle : nearest 52 (x * 2 ^ 1074) ≤ 2 ^ 52 := by
    apply nearest_le (mul_nonneg hx0 (by positivity))
    rw [hone]
    exact_mod_cast (not_le.mp hlt).le
  rw [nearest_of_ofRat hx] at hle
  exact absurd hi (not_lt.mpr hle)

theorem not_lt_of_short (hA : A < 10 ^ 15) (hB : B < 10 ^ 15)
    (hx : ofRat s (A * 10 ^ g) = .finite s i) (hy : ofRat s (B * 10 ^ h) = .finite s i)
    (hi : 2 ^ 52 < i.val) : ¬ (A : ℚ) * 10 ^ g < B * 10 ^ h := by
  intro hlt
  have hnonneg : (0 : ℚ) ≤ A * 10 ^ g := by positivity
  exact nearest_ne_of_short hA hB (pow_le_of_ofRat hx hnonneg hi) hlt
    ((nearest_of_ofRat hx).trans (nearest_of_ofRat hy).symm)

/-- Decimals of at most fifteen digits that round alike are the same. -/
theorem eq_of_short (hA : A < 10 ^ 15) (hB : B < 10 ^ 15)
    (hx : ofRat s (A * 10 ^ g) = .finite s i) (hy : ofRat s (B * 10 ^ h) = .finite s i)
    (hi : 2 ^ 52 < i.val) : (A : ℚ) * 10 ^ g = B * 10 ^ h :=
  le_antisymm (not_lt.mp (not_lt_of_short hB hA hy hx hi))
    (not_lt.mp (not_lt_of_short hA hB hx hy hi))

end Float64

end Calculator.Binary
