import Calculator.Binary.Nearest

/-! # Double precision

The binary64 numbers, and the correctly rounded value of a rational. A finite
number is a sign and the index of its magnitude in the grid with 52 fraction
bits, so the two zeros are different numbers.
-/

namespace Calculator.Binary

/-- The index from which on a magnitude is too large for binary64. -/
def finiteBound : ℕ := 2047 * 2 ^ 52

inductive Float64 where
  | nan
  | infinity (negative : Bool)
  | finite (negative : Bool) (index : Fin finiteBound)
  deriving DecidableEq

namespace Float64

def zero : Float64 := .finite false ⟨0, by decide⟩

def negZero : Float64 := .finite true ⟨0, by decide⟩

def magnitude (i : Fin finiteBound) : ℚ := grid 52 i / 2 ^ 1074

/-- The number nearest to `q`, or to `-q`, for a nonnegative `q`. -/
def ofRat (negative : Bool) (q : ℚ) : Float64 :=
  let i := nearest 52 (q * 2 ^ 1074)
  if h : i < finiteBound then .finite negative ⟨i, h⟩ else .infinity negative

/-- The magnitude nearest to a nonnegative rational, if it does not overflow. -/
def roundToDouble (q : ℚ) : ℚ := grid 52 (nearest 52 (q * 2 ^ 1074)) / 2 ^ 1074

def isFinite : Float64 → Bool
  | .finite _ _ => true
  | _ => false

/-- Change of sign, which turns a zero into the other zero. -/
def neg : Float64 → Float64
  | .nan => .nan
  | .infinity s => .infinity !s
  | .finite s i => .finite (!s) i

def isZero : Float64 → Bool
  | .finite _ i => i.val = 0
  | _ => false

def abs : Float64 → Float64
  | .nan => .nan
  | .infinity _ => .infinity false
  | .finite _ i => .finite false i

/-- The position of a finite number in the order of the finite numbers. -/
def rank (negative : Bool) (i : Fin finiteBound) : ℤ := if negative then -i.val else i.val

/-- The numeric order, in which `nan` is below and above nothing. -/
def lt : Float64 → Float64 → Bool
  | .nan, _ => false
  | _, .nan => false
  | .infinity s, .infinity s' => s && !s'
  | .infinity s, .finite _ _ => s
  | .finite _ _, .infinity s => !s
  | .finite s i, .finite s' i' => rank s i < rank s' i'

/-- `x === 0 ? 0 : x`, which leaves no negative zero. -/
def withoutNegativeZero (x : Float64) : Float64 := if x.isZero then zero else x

@[simp] theorem isFinite_finite (s : Bool) (i : Fin finiteBound) :
    (finite s i).isFinite = true := rfl
@[simp] theorem isFinite_zero : zero.isFinite = true := rfl
@[simp] theorem isZero_zero : zero.isZero = true := rfl

@[simp] theorem isFinite_neg (x : Float64) : x.neg.isFinite = x.isFinite := by
  cases x <;> rfl

@[simp] theorem neg_neg (x : Float64) : x.neg.neg = x := by
  cases x <;> simp [neg]

@[simp] theorem isZero_neg (x : Float64) : x.neg.isZero = x.isZero := by
  cases x <;> rfl

theorem isZero_iff {x : Float64} : x.isZero = true ↔ x = zero ∨ x = negZero := by
  cases x with
  | nan => simp [isZero, zero, negZero]
  | infinity s => simp [isZero, zero, negZero]
  | finite s i => cases s <;> simp [isZero, zero, negZero, Fin.ext_iff]

@[simp] theorem isFinite_withoutNegativeZero (x : Float64) :
    x.withoutNegativeZero.isFinite = x.isFinite := by
  unfold withoutNegativeZero
  split
  · next h => rcases isZero_iff.mp h with rfl | rfl <;> rfl
  · rfl

theorem withoutNegativeZero_ne (x : Float64) : x.withoutNegativeZero ≠ negZero := by
  unfold withoutNegativeZero
  split
  · decide
  · next h => rintro rfl; exact h rfl

theorem withoutNegativeZero_of_ne {x : Float64} (h : x ≠ negZero) : x.withoutNegativeZero = x := by
  unfold withoutNegativeZero
  split
  · next hz => exact ((isZero_iff.mp hz).resolve_right h).symm
  · rfl

theorem magnitude_pos {i : Fin finiteBound} (h : i.val ≠ 0) : 0 < magnitude i := by
  have : 0 < grid 52 i := Nat.pos_of_ne_zero (by simpa using h)
  unfold magnitude
  positivity

theorem magnitude_mul_unit (i : Fin finiteBound) : magnitude i * 2 ^ 1074 = grid 52 i :=
  div_mul_cancel₀ _ (by positivity)

@[simp] theorem ofRat_magnitude (s : Bool) (i : Fin finiteBound) :
    ofRat s (magnitude i) = .finite s i := by
  unfold ofRat
  rw [magnitude_mul_unit, nearest_grid]
  simp

@[simp] theorem ofRat_zero (s : Bool) : ofRat s 0 = .finite s ⟨0, by decide⟩ := by
  unfold ofRat
  rw [zero_mul, nearest_zero]
  simp [finiteBound]

@[simp] theorem neg_ofRat (s : Bool) (q : ℚ) : (ofRat s q).neg = ofRat (!s) q := by
  unfold ofRat
  dsimp only
  split <;> rfl

theorem nearest_of_ofRat {s : Bool} {x : ℚ} {i : Fin finiteBound}
    (hx : ofRat s x = .finite s i) : nearest 52 (x * 2 ^ 1074) = i := by
  unfold ofRat at hx
  dsimp only at hx
  split at hx <;> cases hx
  rfl

/-- What lies between two rationals that round alike rounds like them. -/
theorem ofRat_between {s : Bool} {x y z : ℚ} {i : Fin finiteBound}
    (hx : ofRat s x = .finite s i) (hy : ofRat s y = .finite s i) (hxz : x ≤ z) (hzy : z ≤ y) :
    ofRat s z = .finite s i := by
  have hscale : (0 : ℚ) ≤ 2 ^ 1074 := by positivity
  have hlo := nearest_mono (p := 52) (mul_le_mul_of_nonneg_right hxz hscale)
  have hhi := nearest_mono (p := 52) (mul_le_mul_of_nonneg_right hzy hscale)
  rw [nearest_of_ofRat hx] at hlo
  rw [nearest_of_ofRat hy] at hhi
  have heq : nearest 52 (z * 2 ^ 1074) = i := le_antisymm hhi hlo
  simp [ofRat, heq]

theorem isFinite_ofRat_iff {s : Bool} {q : ℚ} :
    (ofRat s q).isFinite = true ↔ nearest 52 (q * 2 ^ 1074) < finiteBound := by
  unfold ofRat
  by_cases h : nearest 52 (q * 2 ^ 1074) < finiteBound <;> simp [h, isFinite]

theorem isFinite_ofRat_mono {s s' : Bool} {q r : ℚ} (h : q ≤ r)
    (hr : (ofRat s r).isFinite = true) : (ofRat s' q).isFinite = true := by
  rw [isFinite_ofRat_iff] at hr ⊢
  exact (nearest_mono (mul_le_mul_of_nonneg_right h (by positivity))).trans_lt hr

theorem finiteBound_pred : finiteBound - 1 = (2045 + 1) * 2 ^ 52 + (2 ^ 52 - 1) := by decide

theorem mul_pow_add_div (m a b : ℕ) : ((m * 2 ^ (a + b) : ℕ) : ℚ) / 2 ^ b = (m * 2 ^ a : ℕ) := by
  push_cast
  rw [pow_add, ← mul_assoc]
  exact mul_div_cancel_right₀ _ (by positivity)

theorem magnitude_last :
    magnitude ⟨finiteBound - 1, by decide⟩ = ((2 ^ 52 + (2 ^ 52 - 1)) * 2 ^ 971 : ℕ) := by
  have h : grid 52 (finiteBound - 1) = (2 ^ 52 + (2 ^ 52 - 1)) * 2 ^ (971 + 1074) := by
    rw [finiteBound_pred, grid_normal 2045 (by decide)]
  unfold magnitude
  rw [h]
  exact mul_pow_add_div _ 971 1074

theorem magnitude_le_last (i : Fin finiteBound) :
    magnitude i ≤ magnitude ⟨finiteBound - 1, by decide⟩ := by
  refine div_le_div_of_nonneg_right ?_ (by positivity)
  exact_mod_cast grid_le_grid_iff.mpr (Nat.le_pred_of_lt i.isLt)

theorem last_lt_pow_309 : (2 ^ 52 + (2 ^ 52 - 1)) * 2 ^ 971 < 10 ^ 309 := by decide +kernel

theorem pow_308_le : 10 ^ 308 ≤ (2 ^ 52 + (2 ^ 52 - 1)) * 2 ^ 971 := by decide +kernel

theorem isFinite_ofRat_of_le_pow {s : Bool} {q : ℚ} (h : q ≤ 10 ^ 308) :
    (ofRat s q).isFinite = true := by
  have hlast : q ≤ magnitude ⟨finiteBound - 1, by decide⟩ := by
    rw [magnitude_last]
    exact h.trans (by exact_mod_cast pow_308_le)
  apply isFinite_ofRat_mono (s := s) hlast
  rw [ofRat_magnitude]
  rfl

theorem roundToDouble_mono {x y : ℚ} (h : x ≤ y) : roundToDouble x ≤ roundToDouble y := by
  have hpow : (0 : ℚ) ≤ 2 ^ 1074 := by positivity
  have hgrid : grid 52 (nearest 52 (x * 2 ^ 1074)) ≤ grid 52 (nearest 52 (y * 2 ^ 1074)) :=
    grid_le_grid_iff.mpr (nearest_mono (mul_le_mul_of_nonneg_right h hpow))
  exact div_le_div_of_nonneg_right (by exact_mod_cast hgrid) hpow

end Float64

end Calculator.Binary
