import Mathlib.Data.Int.Log
import Calculator.Ecma.Number

/-! # Number to text

ECMAScript's `String` on a number: the fewest significant digits that still
round to the number, the closest such decimal, written without an exponent
from `1e-6` up to below `1e21`. Reading the text back gives the number.
-/

namespace Calculator.Ecma

open Binary Decimal Float64

def pointPosition (q : ℚ) : ℤ := Int.log 10 q + 1

/-- The weight of the last of `k` significant digits of `q`. -/
def lastWeight (q : ℚ) (k : ℕ) : ℚ := 10 ^ (pointPosition q - k)

/-- The largest number of last digits that fits in `q`, which has `k` digits. -/
def truncated (q : ℚ) (k : ℕ) : ℕ := ⌊q / lastWeight q k⌋₊

/-- The `k` digits whose decimal rounds to the number of index `i`: the two
decimals around the magnitude are tried, and if both do the closer one is
taken, or the even one. -/
def significand (i : Fin finiteBound) (k : ℕ) : Option ℕ :=
  let q := magnitude i
  let w := lastWeight q k
  let s := truncated q k
  if ofRat false (s * w) = .finite false i then
    if ofRat false ((s + 1 : ℕ) * w) = .finite false i then
      if q - s * w < (s + 1 : ℕ) * w - q then some s
      else if (s + 1 : ℕ) * w - q < q - s * w then some (s + 1)
      else some (s + s % 2)
    else some s
  else if ofRat false ((s + 1 : ℕ) * w) = .finite false i then some (s + 1)
  else none

def shortestFrom (i : Fin finiteBound) : ℕ → ℕ → ℕ × ℕ
  | 0, k => (truncated (magnitude i) k, k)
  | fuel + 1, k =>
    match significand i k with
    | some s => (s, k)
    | none => shortestFrom i fuel (k + 1)

def maxDigits : ℕ := 1400

/-- The digits of the shortest decimal and the position of its point. -/
def shortest (i : Fin finiteBound) : Text × ℤ :=
  let (s, k) := shortestFrom i maxDigits 1
  if s = 10 ^ k then (Nat.toDigits 10 (10 ^ (k - 1)), pointPosition (magnitude i) + 1)
  else (Nat.toDigits 10 s, pointPosition (magnitude i))

def zeros (n : ℕ) : Text := List.replicate n '0'

/-- The exponent part of a decimal with the given exponent. -/
def exponentPart (e : ℤ) : Bool × Text := (decide (e < 0), Nat.toDigits 10 e.natAbs)

/-- The digits with a point after the first one, if there are more. -/
def mantissaText : Text → Text
  | c :: d :: t => c :: '.' :: d :: t
  | t => t

def layout (t : Text) (n : ℤ) : Text :=
  if t.length ≤ n ∧ n ≤ 21 then t ++ zeros (n - t.length).toNat
  else if 0 < n ∧ n ≤ 21 then t.take n.toNat ++ '.' :: t.drop n.toNat
  else if -6 < n ∧ n ≤ 0 then '0' :: '.' :: (zeros (-n).toNat ++ t)
  else mantissaText t ++ exponentText (some (exponentPart (n - 1)))

def string : Float64 → Text
  | .nan => ['N', 'a', 'N']
  | .infinity s => signed s infinityText
  | .finite s i =>
    if i.val = 0 then ['0'] else signed s (layout (shortest i).1 (shortest i).2)

example : string (.ofRat false (1 / 10 ^ 7)) = ['1', 'e', '-', '7'] := by decide +kernel
example : string (.ofRat true (5 / 2)) = ['-', '2', '.', '5'] := by decide +kernel

section Digits

variable {q : ℚ} {k : ℕ}

theorem lastWeight_pos (q : ℚ) (k : ℕ) : 0 < lastWeight q k := zpow_pos (by norm_num) _

theorem pow_pointPosition_pred_le (hq : 0 < q) : (10 : ℚ) ^ (pointPosition q - 1) ≤ q := by
  rw [pointPosition, add_sub_cancel_right]
  exact_mod_cast Int.zpow_log_le_self (b := 10) (by decide) hq

theorem lt_pow_pointPosition (q : ℚ) : q < (10 : ℚ) ^ pointPosition q := by
  exact_mod_cast Int.lt_zpow_succ_log_self (b := 10) (by decide) q

theorem pow_le_truncated (hq : 0 < q) (hk : 1 ≤ k) : 10 ^ (k - 1) ≤ truncated q k := by
  apply Nat.le_floor
  rw [le_div_iff₀ (lastWeight_pos q k), lastWeight]
  have hexp : ((k - 1 : ℕ) : ℤ) + (pointPosition q - k) = pointPosition q - 1 := by omega
  push_cast
  rw [← zpow_natCast, ← zpow_add₀ (by norm_num), hexp]
  exact pow_pointPosition_pred_le hq

theorem truncated_lt_pow (q : ℚ) (k : ℕ) : truncated q k < 10 ^ k := by
  apply (Nat.floor_lt' (by positivity)).mpr
  rw [div_lt_iff₀ (lastWeight_pos q k), lastWeight]
  push_cast
  rw [← zpow_natCast, ← zpow_add₀ (by norm_num), add_sub_cancel]
  exact lt_pow_pointPosition q

end Digits

variable {i : Fin finiteBound} {k s : ℕ}

theorem significand_spec (h : significand i k = some s) :
    ofRat false (s * lastWeight (magnitude i) k) = .finite false i ∧
      (s = truncated (magnitude i) k ∨ s = truncated (magnitude i) k + 1) := by
  unfold significand at h
  dsimp only at h
  split_ifs at h with h₁ h₂ h₃ h₄ h₅
  · cases h; exact ⟨h₁, Or.inl rfl⟩
  · cases h; exact ⟨h₂, Or.inr rfl⟩
  · cases h
    rcases Nat.mod_two_eq_zero_or_one (truncated (magnitude i) k) with hm | hm
    · rw [hm, Nat.add_zero]; exact ⟨h₁, Or.inl rfl⟩
    · rw [hm]; exact ⟨h₂, Or.inr rfl⟩
  · cases h; exact ⟨h₁, Or.inl rfl⟩
  · cases h; exact ⟨h₅, Or.inr rfl⟩

/-- The digits are found if some decimal with their last weight rounds to the
number: then the one on its side of the magnitude does. -/
theorem isSome_significand {D : ℕ}
    (h : ofRat false (D * lastWeight (magnitude i) k) = .finite false i) :
    (significand i k).isSome := by
  have hw := lastWeight_pos (magnitude i) k
  have hq : 0 ≤ magnitude i / lastWeight (magnitude i) k := by
    unfold magnitude
    positivity
  rcases Nat.lt_or_ge (truncated (magnitude i) k) D with hD | hD
  · have hlt : magnitude i < (truncated (magnitude i) k + 1 : ℕ) * lastWeight (magnitude i) k := by
      rw [← div_lt_iff₀ hw]
      exact_mod_cast Nat.lt_floor_add_one (magnitude i / lastWeight (magnitude i) k)
    have hle := mul_le_mul_of_nonneg_right (Nat.cast_le (α := ℚ).mpr (Nat.succ_le_of_lt hD)) hw.le
    have hround := ofRat_between (ofRat_magnitude false i) h hlt.le hle
    unfold significand
    dsimp only
    rw [if_pos hround]
    split_ifs <;> rfl
  · have hle : (truncated (magnitude i) k : ℚ) * lastWeight (magnitude i) k ≤ magnitude i := by
      rw [← le_div_iff₀ hw]
      exact Nat.floor_le hq
    have hge := mul_le_mul_of_nonneg_right (Nat.cast_le (α := ℚ).mpr hD) hw.le
    have hround := ofRat_between h (ofRat_magnitude false i) hge hle
    unfold significand
    dsimp only
    rw [if_pos hround]
    split_ifs <;> rfl

/-- Enough digits spell a magnitude exactly: it is a multiple of `2 ^ -1074`. -/
theorem truncated_exact (hk : pointPosition (magnitude i) + 1074 ≤ k) :
    truncated (magnitude i) k * lastWeight (magnitude i) k = magnitude i := by
  obtain ⟨j, hj⟩ : ∃ j : ℕ, (k : ℤ) - pointPosition (magnitude i) = 1074 + j :=
    ⟨(k - pointPosition (magnitude i) - 1074).toNat, by omega⟩
  have hw : (lastWeight (magnitude i) k)⁻¹ = 10 ^ (1074 + j) := by
    rw [lastWeight, ← zpow_neg, neg_sub, hj]
    exact_mod_cast zpow_natCast (10 : ℚ) (1074 + j)
  have hint : magnitude i / lastWeight (magnitude i) k =
      (grid 52 i * 5 ^ 1074 * 10 ^ j : ℕ) := by
    have h10 : (10 : ℚ) ^ 1074 = 2 ^ 1074 * 5 ^ 1074 := by rw [← mul_pow]; norm_num
    rw [div_eq_mul_inv, hw, magnitude, pow_add, h10, mul_assoc, ← mul_assoc,
      div_mul_cancel₀ _ (by positivity), Nat.cast_mul, Nat.cast_mul, Nat.cast_pow, Nat.cast_pow]
    exact (mul_assoc _ _ _).symm
  rw [truncated, hint, Nat.floor_natCast, ← hint]
  exact div_mul_cancel₀ _ (lastWeight_pos _ _).ne'

theorem pointPosition_magnitude_le (hi : i.val ≠ 0) : pointPosition (magnitude i) ≤ 309 := by
  have hlt : magnitude i < ((10 : ℕ) : ℚ) ^ (309 : ℤ) := by
    rw [show (309 : ℤ) = (309 : ℕ) from rfl, zpow_natCast, ← Nat.cast_pow]
    exact (magnitude_le_last i).trans_lt (by rw [magnitude_last]; exact_mod_cast last_lt_pow_309)
  have := (Int.lt_zpow_iff_log_lt (b := 10) (by decide) (magnitude_pos hi)).mp hlt
  rw [pointPosition]
  omega

theorem neg_le_pointPosition_magnitude (hi : i.val ≠ 0) :
    -1073 ≤ pointPosition (magnitude i) := by
  have hone : (1 : ℚ) ≤ grid 52 i := by
    exact_mod_cast Nat.pos_of_ne_zero (by simpa using hi : grid 52 i ≠ 0)
  have hle : ((10 : ℕ) : ℚ) ^ (-1074 : ℤ) ≤ magnitude i := by
    rw [show (-1074 : ℤ) = -(1074 : ℕ) from rfl, zpow_neg, zpow_natCast, magnitude, div_eq_mul_inv]
    refine le_trans ?_ (le_mul_of_one_le_left (by positivity) hone)
    exact inv_anti₀ (by positivity) (pow_le_pow_left₀ (by norm_num) (by norm_num) 1074)
  have := (Int.zpow_le_iff_le_log (b := 10) (by decide) (magnitude_pos hi)).mp hle
  rw [pointPosition]
  omega

theorem shortestFrom_spec {n k K : ℕ} (hk : k ≤ K) (hK : K < k + n)
    (hs : (significand i K).isSome) :
    k ≤ (shortestFrom i n k).2 ∧ (shortestFrom i n k).2 ≤ K ∧
      significand i (shortestFrom i n k).2 = some (shortestFrom i n k).1 := by
  induction n generalizing k with
  | zero => omega
  | succ n ih =>
    rw [shortestFrom]
    cases h : significand i k with
    | some s => exact ⟨le_rfl, hk, h⟩
    | none =>
      have hne : k ≠ K := by
        rintro rfl
        rw [h] at hs
        exact absurd hs (by simp)
      obtain ⟨h₁, h₂⟩ := ih (k := k + 1) (by omega) (by omega)
      exact ⟨(Nat.le_succ k).trans h₁, h₂⟩

theorem length_toDigits_eq {n k : ℕ} (hk : 1 ≤ k) (h₁ : 10 ^ (k - 1) ≤ n) (h₂ : n < 10 ^ k) :
    (Nat.toDigits 10 n).length = k := by
  have hle : (Nat.toDigits 10 n).length ≤ k :=
    (Nat.length_toDigits_le_iff (by decide) (by omega)).mpr h₂
  rcases Nat.lt_or_ge 1 k with hk' | hk'
  · have : ¬ (Nat.toDigits 10 n).length ≤ k - 1 := by
      rw [Nat.length_toDigits_le_iff (by decide) (by omega)]
      omega
    omega
  · have := Nat.length_toDigits_pos (b := 10) (n := n)
    omega

/-- The shortest digits are the first found, and rounding up may have carried
into one more digit before the point. -/
theorem shortest_cases (hi : i.val ≠ 0) : ∃ k s, 1 ≤ k ∧ k ≤ maxDigits ∧
    significand i k = some s ∧
    (∀ K, 1 ≤ K → K ≤ maxDigits → (significand i K).isSome → k ≤ K) ∧
    AllDigits (shortest i).1 ∧ (shortest i).1.length = k ∧
    pointPosition (magnitude i) ≤ (shortest i).2 ∧
    (shortest i).2 ≤ pointPosition (magnitude i) + 1 ∧
    digitsValue (shortest i).1 * 10 ^ ((shortest i).2 - k) = s * lastWeight (magnitude i) k := by
  have hq := magnitude_pos hi
  have hlo := neg_le_pointPosition_magnitude hi
  have hhi := pointPosition_magnitude_le hi
  have hexact := truncated_exact (i := i) (k := (pointPosition (magnitude i) + 1074).toNat)
    (by omega)
  have hK : (pointPosition (magnitude i) + 1074).toNat ≤ maxDigits := by
    rw [maxDigits]
    omega
  obtain ⟨hk, hkK, hs⟩ := shortestFrom_spec (i := i) (n := maxDigits) (k := 1)
    (K := (pointPosition (magnitude i) + 1074).toNat) (by omega) (by omega)
    (isSome_significand (by rw [hexact, ofRat_magnitude]))
  have hmin : ∀ K, 1 ≤ K → K ≤ maxDigits → (significand i K).isSome →
      (shortestFrom i maxDigits 1).2 ≤ K := fun K hK hK' hsome =>
    (shortestFrom_spec hK (by omega) hsome).2.1
  obtain ⟨-, hcase⟩ := significand_spec hs
  have hge := pow_le_truncated hq hk
  have hlt := truncated_lt_pow (magnitude i) (shortestFrom i maxDigits 1).2
  unfold shortest
  generalize shortestFrom i maxDigits 1 = r at *
  obtain ⟨s, k⟩ := r
  refine ⟨k, s, hk, hkK.trans hK, hs, hmin, ?_⟩
  dsimp only at *
  split_ifs with h
  · -- a one followed by zeros
    have hlen : (Nat.toDigits 10 (10 ^ (k - 1))).length = k :=
      length_toDigits_eq hk le_rfl (Nat.pow_lt_pow_right (by decide) (by omega))
    refine ⟨allDigits_toDigits _, hlen, by omega, le_rfl, ?_⟩
    rw [digitsValue_toDigits, h, lastWeight]
    push_cast
    have hexp : ((k - 1 : ℕ) : ℤ) + (pointPosition (magnitude i) + 1 - k) =
      k + (pointPosition (magnitude i) - k) := by omega
    rw [← zpow_natCast, ← zpow_natCast, ← zpow_add₀ (by norm_num), ← zpow_add₀ (by norm_num), hexp]
  · have hlen : (Nat.toDigits 10 s).length = k := length_toDigits_eq hk (by omega) (by omega)
    refine ⟨allDigits_toDigits _, hlen, le_rfl, by omega, ?_⟩
    rw [digitsValue_toDigits, lastWeight]

/-- The shortest digits spell a decimal that rounds to the number. -/
theorem shortest_spec (hi : i.val ≠ 0) :
    AllDigits (shortest i).1 ∧ (shortest i).1 ≠ [] ∧
      ofRat false (digitsValue (shortest i).1 * 10 ^ ((shortest i).2 - (shortest i).1.length)) =
        .finite false i := by
  obtain ⟨k, s, hk, -, hs, -, hd, hlen, -, -, hvalue⟩ := shortest_cases hi
  refine ⟨hd, List.ne_nil_of_length_pos (by omega), ?_⟩
  rw [hlen, hvalue]
  exact (significand_spec hs).1

theorem length_shortest_le (hi : i.val ≠ 0) {D K : ℕ} (hK : 1 ≤ K) (hK' : K ≤ maxDigits)
    (h : ofRat false (D * lastWeight (magnitude i) K) = .finite false i) :
    (shortest i).1.length ≤ K := by
  obtain ⟨k, s, -, -, -, hmin, -, hlen, -⟩ := shortest_cases hi
  rw [hlen]
  exact hmin K hK hK' (isSome_significand h)

/-- What `String` writes for a finite number: at most 21 digits before the
point and no exponent part, or one digit and an exponent part. -/
def Printed (m : Numeral) : Prop :=
  m.exponent = none ∧ m.whole.length ≤ 21 ∨ m.exponent ≠ none ∧ m.whole.length = 1

/-- The numeral has the digits `t` between zeros, and the point of its value is
`n` places after the first of them. A fraction ends with the last of them. -/
structure Spells (m : Numeral) (t : Text) (n : ℤ) : Prop where
  value : m.value = digitsValue t * 10 ^ (n - t.length)
  digits : ∃ a b, m.digits = zeros a ++ t ++ zeros b ∧ ∀ f ∈ m.fraction, b = 0 ∧ f ≠ []

section Numerals

variable {t : Text}

theorem allDigits_zeros_append (hd : AllDigits t) (n : ℕ) : AllDigits (zeros n ++ t) :=
  allDigits_append.mpr ⟨allDigits_zeros n, hd⟩

theorem whole_numeral (hd : AllDigits t) (hne : t ≠ []) (b : ℕ) :
    ∃ m : Numeral, m.text = t ++ zeros b ∧ Spells m t (t.length + b) ∧ m.exponent = none ∧
      m.whole.length = t.length + b := by
  have hdigits : AllDigits (t ++ zeros b) := allDigits_append.mpr ⟨hd, allDigits_zeros b⟩
  refine ⟨⟨t ++ zeros b, none, none, hdigits, by simp [hne], by simp, by simp⟩,
    by simp [Numeral.text, fractionText, exponentText], ⟨?_, 0, b, ?_, by simp⟩, rfl, ?_⟩
  · simp only [Numeral.value, Numeral.digits, exponentValue, Option.getD_none, List.append_nil,
      digitsValue_append, zeros, List.length_replicate, digitsValue_zeros, add_sub_cancel_left,
      zpow_natCast]
    push_cast
    simp
  · simp [Numeral.digits, zeros]
  · simp [zeros]

theorem pointed_numeral (hd : AllDigits t) {n : ℕ} (hn : 0 < n) (hn' : n < t.length) :
    ∃ m : Numeral, m.text = t.take n ++ '.' :: t.drop n ∧ Spells m t n ∧ m.exponent = none ∧
      m.whole.length = n := by
  have hne : t.take n ≠ [] := by
    rw [ne_eq, List.take_eq_nil_iff]
    rintro (rfl | rfl)
    · exact absurd hn (lt_irrefl 0)
    · exact absurd hn' (Nat.not_lt_zero n)
  have hdrop : t.drop n ≠ [] := by simpa [List.drop_eq_nil_iff] using hn'
  refine ⟨⟨t.take n, some (t.drop n), none, hd.take n, hne, ?_, by simp⟩,
    by simp [Numeral.text, fractionText, exponentText], ⟨?_, 0, 0, ?_, ?_⟩, rfl, ?_⟩
  · rintro f ⟨⟩
    exact hd.drop n
  · have hexp : (0 : ℤ) - (t.drop n).length = n - t.length := by
      rw [List.length_drop]
      omega
    simp only [Numeral.value, Numeral.digits, exponentValue, Option.getD_some,
      List.take_append_drop, hexp]
  · simp [Numeral.digits, zeros]
  · rintro f ⟨⟩
    exact ⟨rfl, hdrop⟩
  · rw [List.length_take]
    omega

theorem fraction_numeral (hd : AllDigits t) (hne : t ≠ []) (a : ℕ) :
    ∃ m : Numeral, m.text = '0' :: '.' :: (zeros a ++ t) ∧ Spells m t (-a) ∧
      m.exponent = none ∧ m.whole.length = 1 := by
  have hzeros : ['0'] ++ (zeros a ++ t) = zeros (a + 1) ++ t := by
    simp [zeros, List.replicate_succ]
  refine ⟨⟨['0'], some (zeros a ++ t), none, by simp [Char.isDigit], by simp, ?_, by simp⟩,
    by simp [Numeral.text, fractionText, exponentText], ⟨?_, a + 1, 0, ?_, ?_⟩, rfl, rfl⟩
  · rintro f ⟨⟩
    exact allDigits_zeros_append hd a
  · have hvalue : digitsValue (['0'] ++ (zeros a ++ t)) = digitsValue t := by
      rw [hzeros, digitsValue_append, zeros, digitsValue_zeros, Nat.zero_mul, Nat.zero_add]
    have hexp : (0 : ℤ) - (zeros a ++ t).length = -a - t.length := by
      rw [List.length_append, zeros, List.length_replicate]
      omega
    simp only [Numeral.value, Numeral.digits, exponentValue, Option.getD_some, hvalue, hexp]
  · simpa [Numeral.digits, zeros] using hzeros
  · rintro f ⟨⟩
    exact ⟨rfl, by simp [hne]⟩

@[simp] theorem exponentValue_exponentPart (e : ℤ) :
    exponentValue (some (exponentPart e)) = e := by
  simp only [exponentPart, exponentValue, digitsValue_toDigits, decide_eq_true_eq]
  split_ifs <;> omega

theorem exponentPart_digits (e : ℤ) :
    AllDigits (exponentPart e).2 ∧ (exponentPart e).2 ≠ [] :=
  ⟨allDigits_toDigits _, Nat.toDigits_ne_nil⟩

theorem exponential_numeral (hd : AllDigits t) (hne : t ≠ []) (n : ℤ) :
    ∃ m : Numeral, m.text = mantissaText t ++ exponentText (some (exponentPart (n - 1))) ∧
      Spells m t n ∧ m.exponent ≠ none ∧ m.whole.length = 1 := by
  have hx : ∀ x ∈ some (exponentPart (n - 1)), AllDigits x.2 ∧ x.2 ≠ [] := by
    rintro x ⟨⟩
    exact exponentPart_digits (n - 1)
  obtain ⟨c, u, rfl⟩ := List.exists_cons_of_ne_nil hne
  cases u with
  | nil =>
    refine ⟨⟨[c], none, some (exponentPart (n - 1)), hd, by simp, by simp, hx⟩,
      by simp [Numeral.text, fractionText, mantissaText], ⟨?_, 0, 0, ?_, by simp⟩, by simp, rfl⟩
    · simp [Numeral.value, Numeral.digits]
    · simp [Numeral.digits, zeros]
  | cons d u =>
    rw [allDigits_cons] at hd
    refine ⟨⟨[c], some (d :: u), some (exponentPart (n - 1)),
      allDigits_cons.mpr ⟨hd.1, allDigits_nil⟩, by simp, ?_, hx⟩,
      by simp [Numeral.text, fractionText, mantissaText], ⟨?_, 0, 0, ?_, by simp⟩, by simp, rfl⟩
    · rintro f ⟨⟩
      exact hd.2
    · have hexp : n - 1 - ((d :: u).length : ℤ) = n - (c :: d :: u).length := by
        simp only [List.length_cons]
        omega
      simp only [Numeral.value, Numeral.digits, Option.getD_some, exponentValue_exponentPart,
        List.singleton_append, hexp]
    · simp [Numeral.digits, zeros]

theorem layout_numeral {n : ℤ} (hd : AllDigits t) (hne : t ≠ []) :
    ∃ m : Numeral, m.text = layout t n ∧ Spells m t n ∧ Printed m ∧
      (m.exponent = none ↔ -6 < n ∧ n ≤ 21) := by
  have hlength := List.length_pos_of_ne_nil hne
  unfold layout
  split_ifs with h₁ h₂ h₃
  · obtain ⟨m, htext, hspells, hx, hwhole⟩ := whole_numeral hd hne (n - t.length).toNat
    have hn : (t.length : ℤ) + (n - t.length).toNat = n := by omega
    rw [hn] at hspells
    exact ⟨m, htext, hspells, Or.inl ⟨hx, by omega⟩, by simp only [hx, true_iff]; omega⟩
  · obtain ⟨m, htext, hspells, hx, hwhole⟩ :=
      pointed_numeral hd (n := n.toNat) (by omega) (by omega)
    rw [Int.toNat_of_nonneg h₂.1.le] at hspells
    exact ⟨m, htext, hspells, Or.inl ⟨hx, by omega⟩, by simp only [hx, true_iff]; omega⟩
  · obtain ⟨m, htext, hspells, hx, hwhole⟩ := fraction_numeral hd hne (-n).toNat
    rw [Int.toNat_of_nonneg (by omega), Int.neg_neg] at hspells
    exact ⟨m, htext, hspells, Or.inl ⟨hx, by omega⟩, by simp only [hx, true_iff]; omega⟩
  · obtain ⟨m, htext, hspells, hx, hwhole⟩ := exponential_numeral hd hne n
    exact ⟨m, htext, hspells, Or.inr ⟨hx, hwhole⟩, by simp only [hx, false_iff]; omega⟩

end Numerals

theorem string_finite (s : Bool) (hi : i.val ≠ 0) :
    ∃ m : Numeral, string (.finite s i) = signed s m.text ∧
      ofRat false m.value = .finite false i ∧ Printed m := by
  obtain ⟨hd, hne, hround⟩ := shortest_spec hi
  obtain ⟨m, htext, hspells, hp, -⟩ := layout_numeral (n := (shortest i).2) hd hne
  refine ⟨m, ?_, ?_, hp⟩
  · rw [string, if_neg hi, htext]
  · rw [hspells.value, hround]

@[simp] theorem string_zero : string zero = ['0'] := rfl
@[simp] theorem string_negZero : string negZero = ['0'] := rfl

theorem number_zero_text : number ['0'] = zero := by decide +kernel

/-- Reading back what `String` wrote: only the sign of a zero is lost. -/
theorem number_string {x : Float64} (hx : x.isFinite = true) (hz : x ≠ negZero) :
    number (string x) = x := by
  cases x with
  | nan => simp [isFinite] at hx
  | infinity s => simp [isFinite] at hx
  | finite s i =>
    by_cases hi : i.val = 0
    · have hzero : finite s i = zero := by
        rcases isZero_iff.mp (show (finite s i).isZero = true by simp [isZero, hi]) with h | h
        · exact h
        · exact absurd h hz
      rw [hzero, string_zero]
      exact number_zero_text
    · obtain ⟨m, htext, hround, -⟩ := string_finite s hi
      rw [htext, number_signed_text]
      cases s with
      | false => exact hround
      | true =>
        have := congrArg neg hround
        rwa [neg_ofRat] at this

end Calculator.Ecma
