import Calculator.Ecma.String

/-! # The length of numbers

Seventeen significant digits are always enough for double precision: the decimal
nearest to a number is then so close that it rounds to the number. The text of a
number is short, whatever the number is.
-/

namespace Calculator.Ecma

open Binary Decimal Float64

variable {i : Fin finiteBound} {k : ℕ} {q : ℚ} {t : Text} {n : ℤ}

theorem exists_near (hq : 0 ≤ q) (k : ℕ) :
    ∃ D : ℕ, |D * lastWeight q k - q| * 2 ≤ lastWeight q k := by
  have hw := lastWeight_pos q k
  have hlo : (truncated q k : ℚ) * lastWeight q k ≤ q := by
    rw [← le_div_iff₀ hw]
    exact Nat.floor_le (div_nonneg hq hw.le)
  have hhi : q < (truncated q k + 1) * lastWeight q k := by
    rw [← div_lt_iff₀ hw]
    exact Nat.lt_floor_add_one (q / lastWeight q k)
  rw [add_one_mul] at hhi
  by_cases hnear : (q - truncated q k * lastWeight q k) * 2 ≤ lastWeight q k
  · refine ⟨truncated q k, ?_⟩
    rwa [abs_sub_comm, abs_of_nonneg (sub_nonneg.mpr hlo)]
  · refine ⟨truncated q k + 1, ?_⟩
    push_cast
    rw [add_one_mul, abs_of_nonneg (by linarith)]
    linarith

theorem lastWeight_mul_pow_le (hq : 0 < q) : lastWeight q 17 * 10 ^ 16 ≤ q := by
  have hexp : pointPosition q - (17 : ℕ) + (16 : ℕ) = pointPosition q - 1 := by omega
  calc lastWeight q 17 * 10 ^ 16 = 10 ^ (pointPosition q - 1) := by
        rw [lastWeight, ← zpow_natCast, ← zpow_add₀ (by norm_num), hexp]
    _ ≤ q := pow_pointPosition_pred_le hq

theorem ofRat_of_close {x : ℚ} (hx : 0 ≤ x) (h : |x - magnitude i| * 2 ^ 54 < magnitude i) :
    ofRat false x = .finite false i := by
  have hscale : (0 : ℚ) < 2 ^ 1074 := by positivity
  have hsub : x * 2 ^ 1074 - grid 52 i = (x - magnitude i) * 2 ^ 1074 := by
    rw [sub_mul, magnitude_mul_unit]
  have hnearest : nearest 52 (x * 2 ^ 1074) = i := by
    apply nearest_eq_of_close (mul_nonneg hx hscale.le)
    rw [hsub, abs_mul, abs_of_pos hscale, mul_right_comm, ← magnitude_mul_unit]
    exact mul_lt_mul_of_pos_right h hscale
  simp [ofRat, hnearest]

theorem length_shortest_le_seventeen (hi : i.val ≠ 0) : (shortest i).1.length ≤ 17 := by
  have hq := magnitude_pos hi
  obtain ⟨D, hD⟩ := exists_near hq.le 17
  have hweight := lastWeight_mul_pow_le hq
  refine length_shortest_le hi (D := D) (by decide) (by decide) (ofRat_of_close ?_ ?_)
  · exact mul_nonneg (Nat.cast_nonneg D) (lastWeight_pos _ _).le
  · -- `2 ^ 54` is less than `2 * 10 ^ 16`
    have hpow : |(D : ℚ) * lastWeight (magnitude i) 17 - magnitude i| * 2 * 10 ^ 16 ≤
        lastWeight (magnitude i) 17 * 10 ^ 16 := mul_le_mul_of_nonneg_right hD (by positivity)
    rcases (abs_nonneg ((D : ℚ) * lastWeight (magnitude i) 17 - magnitude i)).eq_or_lt with h0 | h0
    · rwa [← h0, zero_mul]
    · calc |(D : ℚ) * lastWeight (magnitude i) 17 - magnitude i| * 2 ^ 54
          < |(D : ℚ) * lastWeight (magnitude i) 17 - magnitude i| * 2 * 10 ^ 16 := by
            rw [mul_assoc]
            exact mul_lt_mul_of_pos_left (by norm_num) h0
        _ ≤ magnitude i := hpow.trans hweight

theorem length_mantissaText (t : Text) : (mantissaText t).length ≤ t.length + 1 := by
  rcases t with - | ⟨c, - | ⟨d, t⟩⟩
  · exact Nat.zero_le _
  · exact Nat.le_succ _
  · simp [mantissaText]

theorem length_exponentText (hlo : -1074 ≤ n) (hhi : n ≤ 310) :
    (exponentText (some (exponentPart n))).length ≤ 6 := by
  have hdigits : (Nat.toDigits 10 n.natAbs).length ≤ 4 :=
    (Nat.length_toDigits_le_iff (by decide) (by decide)).mpr (by omega)
  simp only [exponentPart, exponentText, List.length_cons]
  omega

theorem length_layout (hlo : -1073 ≤ n) (hhi : n ≤ 310) (ht : t.length ≤ 17) :
    (layout t n).length ≤ 24 := by
  unfold layout
  split_ifs with h₁ h₂ h₃
  · simp only [List.length_append, zeros, List.length_replicate]
    omega
  · simp only [List.length_append, List.length_cons, List.length_take, List.length_drop]
    omega
  · simp only [List.length_append, List.length_cons, zeros, List.length_replicate]
    omega
  · have hmantissa := length_mantissaText t
    have hexponent := length_exponentText (n := n - 1) (by omega) (by omega)
    rw [List.length_append]
    omega

theorem length_string {x : Float64} (hx : x.isFinite = true) : (string x).length ≤ 25 := by
  cases x with
  | nan => cases hx
  | infinity s => cases hx
  | finite s i =>
    by_cases hi : i.val = 0
    · simp [string, hi]
    · obtain ⟨k, m, -, -, -, -, -, -, hpoint, hpoint', -⟩ := shortest_cases hi
      have hlo := neg_le_pointPosition_magnitude hi
      have hhi := pointPosition_magnitude_le hi
      have hlayout := length_layout (n := (shortest i).2) (by omega) (by omega)
        (length_shortest_le_seventeen hi)
      rw [string, if_neg hi]
      cases s with
      | false => exact hlayout.trans (by decide)
      | true =>
        rw [signed_true, List.length_cons]
        omega

end Calculator.Ecma
