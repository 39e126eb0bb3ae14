import Mathlib.Algebra.Order.Floor.Semifield
import Mathlib.Data.Rat.Floor
import Mathlib.Tactic.Linarith
import Calculator.Binary.Grid

/-! # Rounding to a binary grid

A nonnegative rational rounds to the nearest grid number. A rational halfway
between two grid numbers rounds to the one of even index, whose significand is
even.
-/

namespace Calculator.Binary

variable {p : ℕ}

/-- The midpoint of the grid numbers of index `n` and `n + 1`. -/
def midpoint (p n : ℕ) : ℚ := ((grid p n + grid p (n + 1) : ℕ) : ℚ) / 2

/-- The index of the grid number nearest to `q`, ties to the even index. -/
def nearest (p : ℕ) (q : ℚ) : ℕ :=
  let n := floorIndex p ⌊q⌋₊
  if q < midpoint p n then n
  else if midpoint p n < q then n + 1
  else n + n % 2

theorem grid_lt_midpoint (n : ℕ) : (grid p n : ℚ) < midpoint p n := by
  have h : grid p n < grid p (n + 1) := grid_strictMono (Nat.lt_succ_self n)
  have h' : (grid p n : ℚ) < grid p (n + 1) := by exact_mod_cast h
  rw [midpoint]
  push_cast
  linarith

theorem nearest_cases (q : ℚ) :
    nearest p q = floorIndex p ⌊q⌋₊ ∧ q ≤ midpoint p (floorIndex p ⌊q⌋₊) ∨
      nearest p q = floorIndex p ⌊q⌋₊ + 1 ∧ midpoint p (floorIndex p ⌊q⌋₊) ≤ q := by
  unfold nearest
  dsimp only
  split_ifs with h₁ h₂
  · exact Or.inl ⟨rfl, h₁.le⟩
  · exact Or.inr ⟨rfl, h₂.le⟩
  · rcases Nat.mod_two_eq_zero_or_one (floorIndex p ⌊q⌋₊) with h | h
    · exact Or.inl ⟨by rw [h, Nat.add_zero], not_lt.mp h₂⟩
    · exact Or.inr ⟨by rw [h], not_lt.mp h₁⟩

theorem grid_floorIndex_le_rat {q : ℚ} (hq : 0 ≤ q) : (grid p (floorIndex p ⌊q⌋₊) : ℚ) ≤ q :=
  (Nat.cast_le.mpr (grid_floorIndex_le ⌊q⌋₊)).trans (Nat.floor_le hq)

theorem lt_grid_floorIndex_succ_rat (q : ℚ) : q < grid p (floorIndex p ⌊q⌋₊ + 1) :=
  (Nat.floor_lt' (by simp)).mp (lt_grid_floorIndex_succ ⌊q⌋₊)

theorem le_nearest {q : ℚ} {n : ℕ} (h : (grid p n : ℚ) ≤ q) : n ≤ nearest p q := by
  have hn : n ≤ floorIndex p ⌊q⌋₊ := le_floorIndex_iff.mpr (Nat.le_floor h)
  rcases nearest_cases (p := p) q with ⟨he, -⟩ | ⟨he, -⟩ <;> omega

theorem nearest_le {q : ℚ} {n : ℕ} (hq : 0 ≤ q) (h : q ≤ grid p n) : nearest p q ≤ n := by
  have hn : floorIndex p ⌊q⌋₊ ≤ n := by
    have : (grid p (floorIndex p ⌊q⌋₊) : ℚ) ≤ grid p n := (grid_floorIndex_le_rat hq).trans h
    exact grid_le_grid_iff.mp (by exact_mod_cast this)
  rcases nearest_cases (p := p) q with ⟨he, -⟩ | ⟨he, hm⟩
  · omega
  · -- rounding up past `n` would need `q` above the midpoint that follows `n`
    have hlt : (grid p (floorIndex p ⌊q⌋₊) : ℚ) < grid p n :=
      (grid_lt_midpoint _).trans_le (hm.trans h)
    have : floorIndex p ⌊q⌋₊ < n := grid_lt_grid_iff.mp (by exact_mod_cast hlt)
    omega

theorem nearest_mono {q r : ℚ} (h : q ≤ r) : nearest p q ≤ nearest p r := by
  have hfloor : floorIndex p ⌊q⌋₊ ≤ floorIndex p ⌊r⌋₊ :=
    le_floorIndex_iff.mpr ((grid_floorIndex_le _).trans (Nat.floor_mono h))
  rcases hfloor.lt_or_eq with hlt | heq
  · rcases nearest_cases (p := p) q with ⟨hq, -⟩ | ⟨hq, -⟩ <;>
      rcases nearest_cases (p := p) r with ⟨hr, -⟩ | ⟨hr, -⟩ <;> omega
  · -- the same two neighbours, so the same midpoint decides both
    unfold nearest
    rw [heq]
    dsimp only
    split_ifs <;> first | omega | (exfalso; linarith)

@[simp] theorem nearest_grid (n : ℕ) : nearest p (grid p n) = n :=
  le_antisymm (nearest_le (Nat.cast_nonneg _) le_rfl) (le_nearest le_rfl)

@[simp] theorem nearest_zero : nearest p 0 = 0 := by
  simpa using nearest_grid (p := p) 0

theorem abs_grid_nearest_sub_le {q : ℚ} (hq : 0 ≤ q) (m : ℕ) :
    |(grid p (nearest p q) : ℚ) - q| ≤ |(grid p m : ℚ) - q| := by
  have hlo := grid_floorIndex_le_rat (p := p) hq
  have hhi := lt_grid_floorIndex_succ_rat (p := p) q
  have hm : (grid p m : ℚ) ≤ grid p (floorIndex p ⌊q⌋₊) ∨
      (grid p (floorIndex p ⌊q⌋₊ + 1) : ℚ) ≤ grid p m := by
    rcases Nat.lt_or_ge (floorIndex p ⌊q⌋₊) m with h | h
    · exact Or.inr (by exact_mod_cast grid_le_grid_iff.mpr h)
    · exact Or.inl (by exact_mod_cast grid_le_grid_iff.mpr h)
  have hmid : midpoint p (floorIndex p ⌊q⌋₊) =
      (grid p (floorIndex p ⌊q⌋₊) + grid p (floorIndex p ⌊q⌋₊ + 1)) / 2 := by
    rw [midpoint]
    push_cast
    rfl
  rcases nearest_cases (p := p) q with ⟨he, hq'⟩ | ⟨he, hq'⟩
  · rw [he, abs_of_nonpos (by linarith)]
    rcases hm with h | h
    · rw [abs_of_nonpos (by linarith)]; linarith
    · rw [abs_of_nonneg (by linarith)]; linarith
  · rw [he, abs_of_nonneg (by linarith)]
    rcases hm with h | h
    · rw [abs_of_nonpos (by linarith)]; linarith
    · rw [abs_of_nonneg (by linarith)]; linarith

theorem midpoint_lt_grid_succ (n : ℕ) : midpoint p n < grid p (n + 1) := by
  have h : grid p n < grid p (n + 1) := grid_strictMono (Nat.lt_succ_self n)
  have h' : (grid p n : ℚ) < grid p (n + 1) := by exact_mod_cast h
  rw [midpoint]
  push_cast
  linarith

/-- On the lower side of the boundary between the grid numbers of index `n` and
`n + 1`. The boundary itself goes with the even index. -/
def BelowMidpoint (p n : ℕ) (q : ℚ) : Prop := q < midpoint p n ∨ q = midpoint p n ∧ n % 2 = 0

theorem nearest_le_iff {q : ℚ} (hq : 0 ≤ q) {n : ℕ} :
    nearest p q ≤ n ↔ BelowMidpoint p n q := by
  rcases Nat.lt_trichotomy (floorIndex p ⌊q⌋₊) n with hlt | heq | hgt
  · have hle : nearest p q ≤ n := by
      rcases nearest_cases (p := p) q with ⟨he, -⟩ | ⟨he, -⟩ <;> omega
    have hgrid : (grid p (floorIndex p ⌊q⌋₊ + 1) : ℚ) ≤ grid p n := by
      exact_mod_cast grid_le_grid_iff.mpr hlt
    have hmid := grid_lt_midpoint (p := p) n
    have hq' := lt_grid_floorIndex_succ_rat (p := p) q
    exact iff_of_true hle (Or.inl (by linarith))
  · unfold nearest BelowMidpoint
    rw [heq]
    dsimp only
    split_ifs with h₁ h₂
    · exact iff_of_true le_rfl (Or.inl h₁)
    · refine iff_of_false (by omega) ?_
      rintro (h | ⟨h, -⟩) <;> linarith
    · have hq' : q = midpoint p n := le_antisymm (not_lt.mp h₂) (not_lt.mp h₁)
      constructor
      · exact fun h => Or.inr ⟨hq', by omega⟩
      · rintro (h | ⟨-, h⟩)
        · exact absurd h h₁
        · omega
  · have hle : ¬ nearest p q ≤ n := by
      rcases nearest_cases (p := p) q with ⟨he, -⟩ | ⟨he, -⟩ <;> omega
    have hgrid : (grid p (n + 1) : ℚ) ≤ grid p (floorIndex p ⌊q⌋₊) := by
      exact_mod_cast grid_le_grid_iff.mpr hgt
    have hmid := midpoint_lt_grid_succ (p := p) n
    have hq' := grid_floorIndex_le_rat (p := p) hq
    refine iff_of_false hle ?_
    rintro (h | ⟨h, -⟩) <;> linarith

/-- What is close enough to a grid number, for the size of it, rounds to it. -/
theorem nearest_eq_of_close {q : ℚ} {n : ℕ} (hq : 0 ≤ q)
    (h : |q - grid p n| * 2 ^ (p + 2) < grid p n) : nearest p q = n := by
  have hgap (m : ℕ) : (grid p (m + 1) : ℚ) ≤ gap p m * 2 ^ (p + 1) := by
    exact_mod_cast grid_succ_le m
  have hmid (m : ℕ) : midpoint p m = grid p m + gap p m / 2 := by
    rw [midpoint, grid_succ]
    push_cast
    ring
  have hpow : (0 : ℚ) < 2 ^ (p + 1) := by positivity
  have hdouble : (2 : ℚ) ^ (p + 2) = 2 ^ (p + 1) * 2 := pow_succ 2 (p + 1)
  -- half a gap, on either side
  have hclose (m : ℕ) (hm : grid p n ≤ grid p (m + 1)) : |q - grid p n| < gap p m / 2 := by
    have hle : (grid p n : ℚ) ≤ grid p (m + 1) := by exact_mod_cast hm
    have hlt := h.trans_le (hle.trans (hgap m))
    rw [hdouble, ← mul_assoc, mul_right_comm] at hlt
    linarith [lt_of_mul_lt_mul_right hlt hpow.le]
  apply le_antisymm
  · rw [nearest_le_iff hq]
    left
    have hup := hclose n (grid_le_grid_iff.mpr n.le_succ)
    rw [hmid]
    linarith [le_abs_self (q - grid p n)]
  · cases n with
    | zero => exact Nat.zero_le _
    | succ m =>
      rw [Nat.succ_le_iff, ← not_le, nearest_le_iff hq]
      have hdown := hclose m le_rfl
      have hnext : (grid p (m + 1) : ℚ) = grid p m + gap p m := by
        rw [grid_succ]
        push_cast
        rfl
      have habove : midpoint p m < q := by
        rw [hmid]
        linarith [neg_abs_le (q - grid p (m + 1))]
      rintro (hlt | ⟨heq, -⟩)
      · exact lt_asymm hlt habove
      · exact habove.ne' heq

/-- Two rationals round differently exactly if a boundary lies between them. -/
theorem nearest_ne_iff {q r : ℚ} (hq : 0 ≤ q) (hr : 0 ≤ r) :
    nearest p q ≠ nearest p r ↔ ∃ n, ¬ (BelowMidpoint p n q ↔ BelowMidpoint p n r) := by
  simp only [← nearest_le_iff hq, ← nearest_le_iff hr]
  constructor
  · intro hne
    rcases Nat.lt_or_gt_of_ne hne with h | h
    · exact ⟨nearest p q, fun hiff => absurd (hiff.mp le_rfl) (not_le.mpr h)⟩
    · exact ⟨nearest p r, fun hiff => absurd (hiff.mpr le_rfl) (not_le.mpr h)⟩
  · rintro ⟨n, hn⟩ heq
    exact hn (by rw [heq])

/-- The relative error of rounding to a normal number. -/
theorem abs_grid_nearest_sub_mul_pow_le {q : ℚ} (h : 2 ^ p ≤ q) :
    |(grid p (nearest p q) : ℚ) - q| * 2 ^ p ≤ q := by
  have hq : 0 ≤ q := le_trans (by positivity) h
  have hlo := grid_floorIndex_le_rat (p := p) hq
  have hhi := lt_grid_floorIndex_succ_rat (p := p) q
  have hfloor : 2 ^ p ≤ ⌊q⌋₊ := Nat.le_floor (by exact_mod_cast h)
  have hnormal : 2 ^ p ≤ floorIndex p ⌊q⌋₊ := by
    rw [le_floorIndex_iff]
    have hone : grid p (2 ^ p) = 2 ^ p := by
      simpa using grid_normal (p := p) 0 (Nat.two_pow_pos p)
    rwa [hone]
  have hgap : (gap p (floorIndex p ⌊q⌋₊) : ℚ) * 2 ^ p ≤ grid p (floorIndex p ⌊q⌋₊) := by
    exact_mod_cast gap_mul_pow_le hnormal
  rw [grid_succ] at hhi
  push_cast at hhi
  have hnear := abs_grid_nearest_sub_le (p := p) hq (floorIndex p ⌊q⌋₊)
  rw [abs_of_nonpos (by linarith : (grid p (floorIndex p ⌊q⌋₊) : ℚ) - q ≤ 0)] at hnear
  calc |(grid p (nearest p q) : ℚ) - q| * 2 ^ p
      _ ≤ gap p (floorIndex p ⌊q⌋₊) * 2 ^ p := by
        refine mul_le_mul_of_nonneg_right ?_ (by positivity)
        linarith
      _ ≤ q := hgap.trans hlo

theorem nearest_ne_of_add_lt {q r : ℚ} (h : 2 ^ p ≤ q) (hqr : q ≤ r)
    (hfar : q + r < (r - q) * 2 ^ p) : nearest p q ≠ nearest p r := by
  intro heq
  have hq := abs_grid_nearest_sub_mul_pow_le h
  have hr := abs_grid_nearest_sub_mul_pow_le (h.trans hqr)
  rw [← heq] at hr
  have hdist : r - q ≤ |(grid p (nearest p q) : ℚ) - q| + |(grid p (nearest p q) : ℚ) - r| := by
    have h₁ := le_abs_self ((grid p (nearest p q) : ℚ) - q)
    have h₂ := neg_abs_le ((grid p (nearest p q) : ℚ) - r)
    linarith
  have hmul := mul_le_mul_of_nonneg_right hdist (by positivity : (0 : ℚ) ≤ 2 ^ p)
  rw [add_mul] at hmul
  linarith

end Calculator.Binary
