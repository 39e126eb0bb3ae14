import Calculator.Binary.Float64

/-! # Integers on a binary grid

In the unit of the grid an integer is a multiple of a power of two. Rounding
keeps it one, and leaves it alone when it has no more bits than a significand.
-/

namespace Calculator.Binary

variable {p : ℕ}

theorem grid_floorIndex_of_ge {k : ℕ} (h : 2 ^ p ≤ k) : ∃ e,
    grid p (floorIndex p k) = k / 2 ^ e * 2 ^ e ∧ gap p (floorIndex p k) = 2 ^ e ∧
      2 ^ (p + e) ≤ k := by
  obtain ⟨e, f, hf, hq, hi⟩ := floorIndex_of_ge h
  refine ⟨e, ?_, ?_, ?_⟩
  · rw [hi, grid_normal e hf, hq]
  · rw [hi, gap_normal e hf]
  · rw [pow_add, ← Nat.le_div_iff_mul_le (Nat.two_pow_pos e), hq]
    exact Nat.le_add_right _ _

/-- Either the multiple is a grid number, or its neighbours are multiples too. -/
theorem grid_floorIndex_mul_pow (m j : ℕ) :
    grid p (floorIndex p (m * 2 ^ j)) = m * 2 ^ j ∨
      2 ^ (p + 1 + j) ≤ m * 2 ^ j ∧ 2 ^ j ∣ grid p (floorIndex p (m * 2 ^ j)) ∧
        2 ^ j ∣ grid p (floorIndex p (m * 2 ^ j) + 1) := by
  rcases Nat.lt_or_ge (m * 2 ^ j) (2 ^ p) with hlt | hge
  · left
    rw [floorIndex_of_lt hlt, grid_of_lt hlt]
  · obtain ⟨e, hgrid, hgap, hle⟩ := grid_floorIndex_of_ge hge
    rcases Nat.lt_or_ge j e with hje | hej
    · right
      have hdvd : 2 ^ j ∣ 2 ^ e := Nat.pow_dvd_pow 2 hje.le
      refine ⟨(Nat.pow_le_pow_right Nat.two_pos (by omega)).trans hle, ?_, ?_⟩
      · rw [hgrid]
        exact hdvd.mul_left _
      · rw [grid_succ, hgrid, hgap]
        exact (hdvd.mul_left _).add hdvd
    · left
      rw [hgrid]
      exact Nat.div_mul_cancel ((Nat.pow_dvd_pow 2 hej).mul_left m)

theorem exists_grid_nearest_eq (m j : ℕ) :
    ∃ n : ℕ, (grid p (nearest p (m * 2 ^ j)) : ℚ) = n * 2 ^ j := by
  have hcast : (m : ℚ) * 2 ^ j = (m * 2 ^ j : ℕ) := by push_cast; rfl
  have hdvd : 2 ^ j ∣ grid p (nearest p (m * 2 ^ j)) := by
    rw [hcast]
    rcases grid_floorIndex_mul_pow (p := p) m j with heq | ⟨-, hlo, hhi⟩
    · rw [← heq, nearest_grid, heq]
      exact Nat.dvd_mul_left _ _
    · rcases nearest_cases (p := p) (m * 2 ^ j : ℕ) with ⟨h, -⟩ | ⟨h, -⟩ <;>
        rw [h, Nat.floor_natCast]
      · exact hlo
      · exact hhi
  obtain ⟨n, hn⟩ := hdvd
  refine ⟨n, ?_⟩
  rw [hn, Nat.mul_comm]
  push_cast
  rfl

theorem grid_nearest_of_lt {m : ℕ} (h : m < 2 ^ (p + 1)) (j : ℕ) :
    (grid p (nearest p (m * 2 ^ j)) : ℚ) = m * 2 ^ j := by
  have hcast : (m : ℚ) * 2 ^ j = (m * 2 ^ j : ℕ) := by push_cast; rfl
  rw [hcast]
  rcases grid_floorIndex_mul_pow (p := p) m j with heq | ⟨hle, -, -⟩
  · rw [← heq, nearest_grid, heq]
  · rw [pow_add] at hle
    exact absurd (Nat.le_of_mul_le_mul_right hle (Nat.two_pow_pos j)) (not_le.mpr h)

namespace Float64

variable {s s' : Bool} {m : ℕ} {i : Fin finiteBound}

theorem magnitude_of_ofRat {q : ℚ} (h : ofRat s q = .finite s' i) :
    magnitude i = grid 52 (nearest 52 (q * 2 ^ 1074)) / 2 ^ 1074 := by
  unfold ofRat at h
  dsimp only at h
  split at h <;> cases h
  rfl

theorem exists_magnitude_eq (h : ofRat s m = .finite s' i) : ∃ n : ℕ, magnitude i = n := by
  obtain ⟨n, hn⟩ := exists_grid_nearest_eq (p := 52) m 1074
  refine ⟨n, ?_⟩
  rw [magnitude_of_ofRat h, hn]
  exact mul_div_cancel_right₀ _ (by positivity)

theorem magnitude_eq_of_lt (hm : m < 2 ^ 53) (h : ofRat s m = .finite s' i) :
    magnitude i = m := by
  rw [magnitude_of_ofRat h, grid_nearest_of_lt hm]
  exact mul_div_cancel_right₀ _ (by positivity)

end Float64

end Calculator.Binary
