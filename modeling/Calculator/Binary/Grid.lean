import Mathlib.Data.Nat.Log
import Mathlib.Order.Monotone.Basic
import Mathlib.Tactic.Ring

/-! # Binary grids with gradual underflow

The nonnegative numbers of a binary format with `p` fraction bits form an
increasing sequence of integer multiples of the smallest one. Counting is in
that unit, so a number is its index, and the index is its bit pattern.
-/

namespace Calculator.Binary

/-- The distance from the grid number of index `n` to the next one. -/
def gap (p n : ℕ) : ℕ := 2 ^ (n / 2 ^ p - 1)

/-- The grid number of index `n`: the index itself below the first normal
number, then `2 ^ p` numbers in each binade. -/
def grid (p n : ℕ) : ℕ :=
  if n < 2 ^ p then n else (2 ^ p + n % 2 ^ p) * 2 ^ (n / 2 ^ p - 1)

/-- The index of the largest grid number that is at most `k`. -/
def floorIndex (p k : ℕ) : ℕ :=
  (Nat.log 2 k - p) * 2 ^ p + k / 2 ^ (Nat.log 2 k - p)

variable {p : ℕ}

theorem gap_pos (n : ℕ) : 0 < gap p n := Nat.two_pow_pos _

theorem grid_of_lt {n : ℕ} (h : n < 2 ^ p) : grid p n = n := if_pos h

@[simp] theorem grid_zero : grid p 0 = 0 := grid_of_lt (Nat.two_pow_pos p)

theorem grid_normal (e : ℕ) {f : ℕ} (hf : f < 2 ^ p) :
    grid p ((e + 1) * 2 ^ p + f) = (2 ^ p + f) * 2 ^ e := by
  have hp : 0 < 2 ^ p := Nat.two_pow_pos p
  have hdiv : ((e + 1) * 2 ^ p + f) / 2 ^ p = e + 1 := by
    rw [Nat.mul_comm, Nat.mul_add_div hp, Nat.div_eq_of_lt hf, Nat.add_zero]
  have hmod : ((e + 1) * 2 ^ p + f) % 2 ^ p = f := by
    rw [Nat.mul_comm, Nat.mul_add_mod, Nat.mod_eq_of_lt hf]
  have hge : ¬ (e + 1) * 2 ^ p + f < 2 ^ p := by
    rw [Nat.succ_mul]
    omega
  rw [grid, if_neg hge, hdiv, hmod, Nat.add_sub_cancel]

theorem gap_normal (e : ℕ) {f : ℕ} (hf : f < 2 ^ p) :
    gap p ((e + 1) * 2 ^ p + f) = 2 ^ e := by
  rw [gap, Nat.mul_comm, Nat.mul_add_div (Nat.two_pow_pos p), Nat.div_eq_of_lt hf,
    Nat.add_zero, Nat.add_sub_cancel]

theorem gap_of_lt {n : ℕ} (h : n < 2 ^ p) : gap p n = 1 := by
  rw [gap, Nat.div_eq_of_lt h, Nat.zero_sub, Nat.pow_zero]

theorem index_cases (p n : ℕ) :
    n < 2 ^ p ∨ ∃ e f, f < 2 ^ p ∧ n = (e + 1) * 2 ^ p + f := by
  rcases Nat.lt_or_ge n (2 ^ p) with h | h
  · exact Or.inl h
  · have hp : 0 < 2 ^ p := Nat.two_pow_pos p
    have hq : 0 < n / 2 ^ p := Nat.div_pos h hp
    refine Or.inr ⟨n / 2 ^ p - 1, n % 2 ^ p, Nat.mod_lt _ hp, ?_⟩
    rw [Nat.sub_add_cancel hq, Nat.mul_comm]
    exact (Nat.div_add_mod n (2 ^ p)).symm

theorem gap_mul_pow_le {n : ℕ} (h : 2 ^ p ≤ n) : gap p n * 2 ^ p ≤ grid p n := by
  rcases index_cases p n with hlt | ⟨e, f, hf, rfl⟩
  · exact absurd h (not_le.mpr hlt)
  · rw [gap_normal e hf, grid_normal e hf, Nat.mul_comm]
    exact Nat.mul_le_mul_right _ (Nat.le_add_right _ _)

theorem grid_succ (n : ℕ) : grid p (n + 1) = grid p n + gap p n := by
  have hp : 0 < 2 ^ p := Nat.two_pow_pos p
  rcases index_cases p n with h | ⟨e, f, hf, rfl⟩
  · rw [grid_of_lt h, gap_of_lt h]
    rcases Nat.lt_or_ge (n + 1) (2 ^ p) with h' | h'
    · exact grid_of_lt h'
    · have hn : n + 1 = (0 + 1) * 2 ^ p + 0 := by omega
      rw [hn, grid_normal 0 hp]
      omega
  · rw [grid_normal e hf, gap_normal e hf]
    rcases Nat.lt_or_ge (f + 1) (2 ^ p) with h' | h'
    · rw [Nat.add_assoc, grid_normal e h']
      ring
    · -- the last number of a binade: the next one opens the binade above
      have hlast : (e + 1) * 2 ^ p + f + 1 = (e + 1 + 1) * 2 ^ p + 0 := by
        have : f + 1 = 2 ^ p := by omega
        rw [Nat.add_assoc, this]
        ring
      rw [hlast, grid_normal (e + 1) hp, Nat.pow_succ]
      have : f + 1 = 2 ^ p := by omega
      calc (2 ^ p + 0) * (2 ^ e * 2) = (2 ^ p + 2 ^ p) * 2 ^ e := by ring
        _ = (2 ^ p + (f + 1)) * 2 ^ e := by rw [this]
        _ = (2 ^ p + f) * 2 ^ e + 2 ^ e := by ring

theorem grid_strictMono : StrictMono (grid p) :=
  strictMono_nat_of_lt_succ fun n => by
    rw [grid_succ]
    exact Nat.lt_add_of_pos_right (gap_pos n)

theorem grid_succ_le (n : ℕ) : grid p (n + 1) ≤ gap p n * 2 ^ (p + 1) := by
  rw [grid_succ]
  rcases index_cases p n with h | ⟨e, f, hf, rfl⟩
  · rw [grid_of_lt h, gap_of_lt h, Nat.pow_succ]
    omega
  · rw [grid_normal e hf, gap_normal e hf]
    calc (2 ^ p + f) * 2 ^ e + 2 ^ e = (2 ^ p + (f + 1)) * 2 ^ e := by ring
      _ ≤ (2 ^ p + 2 ^ p) * 2 ^ e := Nat.mul_le_mul_right _ (by omega)
      _ = 2 ^ e * 2 ^ (p + 1) := by ring

@[simp] theorem grid_le_grid_iff {m n : ℕ} : grid p m ≤ grid p n ↔ m ≤ n :=
  grid_strictMono.le_iff_le

@[simp] theorem grid_lt_grid_iff {m n : ℕ} : grid p m < grid p n ↔ m < n :=
  grid_strictMono.lt_iff_lt

@[simp] theorem grid_eq_zero_iff {n : ℕ} : grid p n = 0 ↔ n = 0 :=
  ⟨fun h => grid_strictMono.injective (h.trans grid_zero.symm), by rintro rfl; exact grid_zero⟩

theorem floorIndex_of_lt {k : ℕ} (h : k < 2 ^ p) : floorIndex p k = k := by
  have hs : Nat.log 2 k - p = 0 := by
    rcases Nat.eq_zero_or_pos k with rfl | hk
    · simp
    · have := Nat.log_lt_of_lt_pow (Nat.pos_iff_ne_zero.mp hk) h
      omega
  rw [floorIndex, hs, Nat.zero_mul, Nat.zero_add, Nat.pow_zero, Nat.div_one]

/-- Above the subnormal numbers the quotient by the gap has `p + 1` bits. -/
theorem floorIndex_of_ge {k : ℕ} (h : 2 ^ p ≤ k) :
    ∃ e f, f < 2 ^ p ∧ k / 2 ^ e = 2 ^ p + f ∧ floorIndex p k = (e + 1) * 2 ^ p + f := by
  have hk : k ≠ 0 := fun h' => by
    have := Nat.two_pow_pos p
    omega
  have hlog : p ≤ Nat.log 2 k := Nat.le_log_of_pow_le Nat.one_lt_two h
  have hlo : 2 ^ p ≤ k / 2 ^ (Nat.log 2 k - p) := by
    rw [Nat.le_div_iff_mul_le (Nat.two_pow_pos _), ← Nat.pow_add, Nat.add_sub_cancel' hlog]
    exact Nat.pow_log_le_self 2 hk
  have hhi : k / 2 ^ (Nat.log 2 k - p) < 2 ^ (p + 1) := by
    rw [Nat.div_lt_iff_lt_mul (Nat.two_pow_pos _), ← Nat.pow_add]
    apply (Nat.lt_pow_succ_log_self Nat.one_lt_two k).trans_le
    exact Nat.pow_le_pow_right Nat.two_pos (by omega)
  refine ⟨Nat.log 2 k - p, k / 2 ^ (Nat.log 2 k - p) - 2 ^ p, ?_, ?_, ?_⟩
  · rw [Nat.pow_succ] at hhi
    omega
  · omega
  · rw [floorIndex, Nat.add_mul, Nat.one_mul]
    omega

theorem grid_floorIndex_le (k : ℕ) : grid p (floorIndex p k) ≤ k := by
  rcases Nat.lt_or_ge k (2 ^ p) with h | h
  · rw [floorIndex_of_lt h, grid_of_lt h]
  · obtain ⟨e, f, hf, hq, hi⟩ := floorIndex_of_ge h
    rw [hi, grid_normal e hf, ← hq]
    exact Nat.div_mul_le_self k (2 ^ e)

theorem lt_grid_floorIndex_succ (k : ℕ) : k < grid p (floorIndex p k + 1) := by
  rw [grid_succ]
  rcases Nat.lt_or_ge k (2 ^ p) with h | h
  · rw [floorIndex_of_lt h, grid_of_lt h, gap_of_lt h]
    exact Nat.lt_succ_self k
  · obtain ⟨e, f, hf, hq, hi⟩ := floorIndex_of_ge h
    rw [hi, grid_normal e hf, gap_normal e hf, ← hq, ← Nat.succ_mul, Nat.mul_comm]
    exact Nat.lt_mul_div_succ k (Nat.two_pow_pos e)

/-- `floorIndex` is the upper adjoint of `grid`. -/
theorem le_floorIndex_iff {k n : ℕ} : n ≤ floorIndex p k ↔ grid p n ≤ k := by
  constructor
  · intro h
    exact (grid_strictMono.monotone h).trans (grid_floorIndex_le k)
  · intro h
    have hlt : grid p n < grid p (floorIndex p k + 1) := h.trans_lt (lt_grid_floorIndex_succ k)
    exact Nat.lt_succ_iff.mp (grid_lt_grid_iff.mp hlt)

@[simp] theorem floorIndex_grid (n : ℕ) : floorIndex p (grid p n) = n :=
  le_antisymm (grid_le_grid_iff.mp (grid_floorIndex_le _)) (le_floorIndex_iff.mpr le_rfl)

end Calculator.Binary
