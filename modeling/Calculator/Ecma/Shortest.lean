import Calculator.Binary.ShortDecimals
import Calculator.Ecma.String

/-! # Text of short decimals

The number nearest to a decimal of at most fifteen digits is written as that
decimal: no other decimal that short rounds to it. The digits that `String`
writes do not end with a zero, which would be a digit too many.
-/

namespace Calculator.Ecma

open Binary Decimal Float64

variable {i : Fin finiteBound} {t : Text} {n : ℤ}

theorem lt_pow_of_digits (hd : AllDigits t) (n : ℤ) :
    (digitsValue t : ℚ) * 10 ^ (n - t.length) < 10 ^ n := by
  have hlt : (digitsValue t : ℚ) < 10 ^ (t.length : ℤ) := by
    rw [zpow_natCast]
    exact_mod_cast digitsValue_lt hd
  have hmul := mul_lt_mul_of_pos_right hlt (zpow_pos (by norm_num : (0 : ℚ) < 10) (n - t.length))
  rwa [← zpow_add₀ (by norm_num), add_sub_cancel] at hmul

theorem pointPosition_le_of_lt {q : ℚ} (hq : 0 < q) (h : q < 10 ^ n) : pointPosition q ≤ n := by
  have hlog := (Int.lt_zpow_iff_log_lt (b := 10) (by decide) hq).mp (by exact_mod_cast h)
  rw [pointPosition]
  omega

theorem digitsValue_concat_zero (t : Text) : digitsValue (t ++ ['0']) = digitsValue t * 10 := by
  rw [digitsValue_append]
  rfl

theorem getLast_shortest (hi : i.val ≠ 0) : (shortest i).1.getLast? ≠ some '0' := by
  intro hlast
  obtain ⟨k, s, hk, hbound, hs, hmin, hd, hlen, hpoint, -, hvalue⟩ := shortest_cases hi
  obtain ⟨u, hu⟩ := List.getLast?_eq_some_iff.mp hlast
  have hround := (significand_spec hs).1
  have hk' : k = u.length + 1 := by rw [← hlen, hu, List.length_append, List.length_singleton]
  rw [hu, digitsValue_concat_zero] at hvalue
  by_cases hu0 : u.length = 0
  · -- a single zero is not the digit of a nonzero number
    rw [List.length_eq_zero_iff.mp hu0, digitsValue_nil, Nat.zero_mul, Nat.cast_zero,
      zero_mul] at hvalue
    rw [← hvalue, ofRat_zero] at hround
    exact hi (Fin.mk.inj (Float64.finite.inj hround).2).symm
  · have hexp : 1 + ((shortest i).2 - k) = (shortest i).2 - u.length := by omega
    obtain ⟨D, hD⟩ := exists_unit (digitsValue u)
      (sub_le_sub_right hpoint (u.length : ℤ))
    have hsame : (D : ℚ) * lastWeight (magnitude i) u.length = s * lastWeight (magnitude i) k := by
      rw [← hvalue, lastWeight, ← hD, ← hexp, zpow_add₀ (by norm_num), zpow_one]
      push_cast
      ring
    have hle := hmin u.length (by omega) (by omega) (isSome_significand (hsame ▸ hround))
    omega

/-- `String` writes a decimal of at most fifteen digits as itself. -/
theorem shortest_of_short (hd : AllDigits t) (hne : t ≠ []) (hlen : t.length ≤ 15)
    (hround : ofRat false (digitsValue t * 10 ^ (n - t.length)) = .finite false i)
    (hi : 2 ^ 52 < i.val) :
    (shortest i).1.length ≤ t.length ∧ (shortest i).2 ≤ n + 1 ∧
      (digitsValue (shortest i).1 : ℚ) * 10 ^ ((shortest i).2 - (shortest i).1.length) =
        digitsValue t * 10 ^ (n - t.length) := by
  have hi0 : i.val ≠ 0 := by omega
  have hpow {u : Text} (hu : u.length ≤ 15) : 10 ^ u.length ≤ 10 ^ 15 :=
    Nat.pow_le_pow_right (by decide) hu
  have ht := (digitsValue_lt hd).trans_le (hpow hlen)
  have hlt := lt_pow_of_digits hd n
  -- the next power of ten is a short decimal as well, so the number is below it
  have hmag : magnitude i < 10 ^ n := by
    by_contra hle
    have hten : ofRat false ((1 : ℕ) * 10 ^ n) = .finite false i := by
      rw [Nat.cast_one, one_mul]
      exact ofRat_between hround (ofRat_magnitude false i) hlt.le (not_lt.mp hle)
    have heq := eq_of_short ht (by norm_num) hround hten hi
    rw [heq, Nat.cast_one, one_mul] at hlt
    exact lt_irrefl _ hlt
  have hpoint := pointPosition_le_of_lt (magnitude_pos hi0) hmag
  obtain ⟨D, hD⟩ := exists_unit (digitsValue t) (sub_le_sub_right hpoint (t.length : ℤ))
  have hlength : (shortest i).1.length ≤ t.length := by
    apply length_shortest_le hi0 (D := D) (List.length_pos_of_ne_nil hne)
    · rw [maxDigits]
      omega
    · rw [lastWeight, ← hD, hround]
  obtain ⟨-, -, -, -, -, -, -, -, -, hpoint', -⟩ := shortest_cases hi0
  obtain ⟨hd', -, hround'⟩ := shortest_spec hi0
  have ht' := (digitsValue_lt hd').trans_le (hpow (hlength.trans hlen))
  exact ⟨hlength, by omega, eq_of_short ht' ht hround' hround hi⟩

end Calculator.Ecma
