import Calculator.Display.Trimming

/-! # How accurate a result is

A formatted result is the number rounded to the digits asked for, in either
notation: the fixed form is read back and written again, which changes nothing
for so few digits. The notation changes at the number nearest to `10 ^ -6`,
which is a little less, and at `10 ^ 15`.
-/

namespace Calculator.Display

open Binary Decimal Ecma Float64

variable {s : Bool} {i : Fin finiteBound} {p : ℕ}

theorem exists_ofRat {d : ℚ} (hlo : 1 / 10 ^ 6 ≤ d) (hhi : d ≤ 10 ^ 15) :
    ∃ j : Fin finiteBound, 2 ^ 52 < j.val ∧ ∀ s, ofRat s d = .finite s j := by
  have hfinite : nearest 52 (d * 2 ^ 1074) < finiteBound :=
    isFinite_ofRat_iff.mp (isFinite_ofRat_of_le_pow (s := false)
      (hhi.trans (pow_le_pow_right₀ (by norm_num) (by decide))))
  refine ⟨⟨_, hfinite⟩, ?_, fun s => dif_pos hfinite⟩
  have hgrid : grid 52 (2 ^ 52 + 1) = 2 ^ 52 + 1 := by decide +kernel
  apply Nat.lt_of_succ_le
  apply le_nearest
  rw [Nat.succ_eq_add_one, hgrid]
  calc ((2 ^ 52 + 1 : ℕ) : ℚ)
      ≤ 1 / 10 ^ 6 * 2 ^ 73 := by norm_num
    _ ≤ d * 2 ^ 73 := mul_le_mul_of_nonneg_right hlo (by positivity)
    _ ≤ d * 2 ^ 1074 := mul_le_mul_of_nonneg_left
        (pow_le_pow_right₀ (by norm_num) (by decide)) (le_trans (by positivity) hlo)

theorem neg_six_lt_of_digits {ds : Text} {n : ℤ} (hd : AllDigits ds)
    (hlo : 1 / 10 ^ 6 ≤ (digitsValue ds : ℚ) * 10 ^ (n - ds.length)) : -6 < n := by
  have hpow : (10 : ℚ) ^ (-6 : ℤ) < 10 ^ n := by
    refine lt_of_le_of_lt (le_of_eq ?_) (hlo.trans_lt (lt_pow_of_digits hd n))
    norm_num
  exact (zpow_lt_zpow_iff_right₀ (by norm_num)).mp hpow

theorem position_le_of_roundedValue_le {q : ℚ} (hq : 0 < q) (hp : 1 ≤ p)
    (hhi : roundedValue q p ≤ 10 ^ 15) : (roundedDigits q p).2 ≤ 15 := by
  obtain ⟨-, -, hge, -⟩ := roundedDigits_spec hq hp
  have hpow : (10 : ℚ) ^ (roundedDigits q p).2 ≤ 10 ^ (15 : ℤ) := by
    refine le_trans ?_ (hhi.trans (by norm_num))
    have hexp : (roundedDigits q p).2 = (p - 1 : ℕ) + ((roundedDigits q p).2 + 1 - p) := by omega
    rw [hexp, zpow_add₀ (by norm_num), zpow_natCast, roundedValue]
    exact mul_le_mul_of_nonneg_right (by exact_mod_cast hge) (by positivity)
  exact (zpow_le_zpow_iff_right₀ (by norm_num)).mp hpow

theorem formatFixed_numeral (hi : i.val ≠ 0) (hp : 1 ≤ p) (hp' : p ≤ 15)
    (hlo : 1 / 10 ^ 6 ≤ roundedValue (magnitude i) p)
    (hhi : roundedValue (magnitude i) p ≤ 10 ^ 15) :
    ∃ m : Numeral, formatFixed (.finite s i) p = .ok (signed s m.text) ∧
      m.value = roundedValue (magnitude i) p ∧ m.exponent = none ∧
      (significantDigits m).length ≤ p ∧ Trimmed m.fraction := by
  obtain ⟨m₀, htext₀, hspells₀⟩ := toPrecision_numeral (s := s) hi hp (by omega)
  obtain ⟨hd, hlen, -, -⟩ := roundedDigits_spec (magnitude_pos hi) hp
  have hne : (roundedDigits (magnitude i) p).1 ≠ [] := List.ne_nil_of_length_pos (by omega)
  have hvalue₀ : m₀.value = roundedValue (magnitude i) p := by
    rw [hspells₀.value, hlen, roundedValue]
  obtain ⟨j, hj, hround⟩ := exists_ofRat hlo hhi
  have hj0 : j.val ≠ 0 := by omega
  -- what is read back is the number nearest to the rounded value
  have hread : number (signed s m₀.text) = .finite s j := by
    rw [number_signed_text, hvalue₀, hround]
  have hnonzero : Float64.finite s j ≠ .negZero := fun h =>
    hj0 (congrArg Fin.val (Float64.finite.inj h).2)
  -- and it is written with the same value
  obtain ⟨hlength, hpoint, hsame⟩ := shortest_of_short hd hne (by omega)
    (n := (roundedDigits (magnitude i) p).2 + 1) (by
      rw [hlen]
      exact hround false) hj
  rw [hlen] at hlength hsame
  have hsame' : (digitsValue (shortest j).1 : ℚ) *
      10 ^ ((shortest j).2 - (shortest j).1.length) = roundedValue (magnitude i) p := hsame
  obtain ⟨hd', hne', -⟩ := shortest_spec hj0
  obtain ⟨m, htext, hspells, -, hexponent⟩ := layout_numeral (n := (shortest j).2) hd' hne'
  have hlast := getLast_shortest hj0
  rw [← hsame'] at hlo
  refine ⟨m, ?_, hspells.value.trans hsame', hexponent.mpr ⟨neg_six_lt_of_digits hd' hlo, ?_⟩, ?_,
    trimmed_of_spells hspells hlast hne'⟩
  · simp only [formatFixed, htext₀]
    change Except.ok _ = Except.ok _
    rw [hread, if_neg hnonzero, string, if_neg hj0, htext]
  · have hposition := position_le_of_roundedValue_le (magnitude_pos hi) hp hhi
    omega
  · exact (length_significantDigits_of_spells hspells hlast hne').trans hlength

theorem magnitude_lt_iff {j : Fin finiteBound} : magnitude i < magnitude j ↔ i.val < j.val := by
  rw [magnitude, magnitude, div_lt_div_iff_of_pos_right (by positivity), Nat.cast_lt,
    grid_lt_grid_iff]

theorem lt_finite (i j : Fin finiteBound) :
    (Float64.finite false i).lt (.finite false j) = true ↔ magnitude i < magnitude j := by
  simp [Float64.lt, rank, magnitude_lt_iff]

def lowerIndex : Fin finiteBound := ⟨4517329193108106637, by decide⟩

def upperIndex : Fin finiteBound := ⟨4831355200913801216, by decide⟩

theorem exponentLowerBound_eq : exponentLowerBound = .finite false lowerIndex := by
  decide +kernel

theorem exponentUpperBound_eq : exponentUpperBound = .finite false upperIndex := by
  decide +kernel

theorem magnitude_lowerIndex : magnitude lowerIndex = roundToDouble (1 / 10 ^ 6) := by
  decide +kernel

theorem magnitude_upperIndex : magnitude upperIndex = 10 ^ 15 := by
  decide +kernel

/-- The number nearest to `10 ^ -6` is a little less. -/
theorem lower_bounds : 1 / 10 ^ 6 - 1 / (2 * 10 ^ 21) < roundToDouble (1 / 10 ^ 6) ∧
    roundToDouble (1 / 10 ^ 6) < 1 / 10 ^ 6 := by
  decide +kernel

theorem formatResult_cases (hi : i.val ≠ 0) :
    ((10 ^ 15 ≤ magnitude i ∨ magnitude i < roundToDouble (1 / 10 ^ 6)) ∧
      formatResult (.finite s i) ⟨some p⟩ = formatExponential (.finite s i) p) ∨
    ((roundToDouble (1 / 10 ^ 6) ≤ magnitude i ∧ magnitude i < 10 ^ 15) ∧
      formatResult (.finite s i) ⟨some p⟩ = formatFixed (.finite s i) p) := by
  have hvalue : (Float64.finite s i).withoutNegativeZero = .finite s i := by
    apply withoutNegativeZero_of_ne
    exact fun h => hi (congrArg Fin.val (Float64.finite.inj h).2)
  have hupper := lt_finite i upperIndex
  have hlower := lt_finite i lowerIndex
  rw [magnitude_upperIndex] at hupper
  rw [magnitude_lowerIndex] at hlower
  simp only [formatResult, isFinite_finite, Bool.not_true, Bool.false_eq_true, if_false, hvalue,
    Option.getD_some, Float64.abs, isZero, hi, decide_false, Bool.not_false, Bool.true_and,
    exponentUpperBound_eq, exponentLowerBound_eq, Bool.or_eq_true, Bool.not_eq_true',
    Bool.eq_false_iff, ne_eq, hupper, hlower, not_lt]
  by_cases h : 10 ^ 15 ≤ magnitude i ∨ magnitude i < roundToDouble (1 / 10 ^ 6)
  · exact Or.inl ⟨h, if_pos h⟩
  · obtain ⟨hhi, hlo⟩ := not_or.mp h
    exact Or.inr ⟨⟨not_lt.mp hlo, not_le.mp hhi⟩, if_neg h⟩

theorem roundedValue_range (hi : i.val ≠ 0) (hp : 1 ≤ p) (hp' : p ≤ 15)
    (hlo : roundToDouble (1 / 10 ^ 6) ≤ magnitude i) (hhi : magnitude i < 10 ^ 15) :
    1 / 10 ^ 6 ≤ roundedValue (magnitude i) p ∧ roundedValue (magnitude i) p ≤ 10 ^ 15 := by
  have hq := magnitude_pos hi
  have hten : (1 : ℚ) ≤ 10 := by norm_num
  obtain ⟨hge, hle⟩ := roundedValue_bounds hq hp
  have hmillionth : (1 : ℚ) / 10 ^ 6 = 10 ^ (-6 : ℤ) := by norm_num
  constructor
  · rcases le_or_gt (-5) (pointPosition (magnitude i)) with hpoint | hpoint
    · rw [hmillionth]
      exact (zpow_le_zpow_right₀ hten (by omega)).trans hge
    · -- only the lower bound itself is this close, and it is rounded up
      have hpoint' : pointPosition (magnitude i) = -6 := by
        have hlt := lt_pow_pointPosition (magnitude i)
        have hseven : (10 : ℚ) ^ (-7 : ℤ) < 10 ^ pointPosition (magnitude i) := by
          refine lt_trans ?_ ((lower_bounds.1.trans_le hlo).trans hlt)
          norm_num
        have := (zpow_lt_zpow_iff_right₀ (by norm_num)).mp hseven
        omega
      have hweight : 1 / 10 ^ 21 ≤ lastWeight (magnitude i) p := by
        have h21 : (1 : ℚ) / 10 ^ 21 = 10 ^ (-21 : ℤ) := by norm_num
        rw [lastWeight, hpoint', h21]
        exact zpow_le_zpow_right₀ hten (by omega)
      have heq := roundedValue_eq_pow hq hp (by
        have hnear := lower_bounds.1.trans_le hlo
        rw [hpoint', ← hmillionth]
        linarith)
      rw [heq, hpoint', hmillionth]
  · have hpoint : pointPosition (magnitude i) ≤ 15 :=
      pointPosition_le_of_lt hq (by exact_mod_cast hhi)
    exact hle.trans (by exact_mod_cast zpow_le_zpow_right₀ hten hpoint)

/-- The numeral is the number rounded to `p` digits, without a trailing zero
after a point, and has an exponent part outside of the bounds. -/
structure IsResult (low : ℚ) (i : Fin finiteBound) (p : ℕ) (m : Numeral) : Prop where
  pos : 0 < m.value
  near : ∀ e : ℤ, 10 ^ e ≤ magnitude i → magnitude i < 10 ^ (e + 1) →
    |m.value - magnitude i| ≤ 10 ^ (e - p + 1) / 2
  digits : (significantDigits m).length ≤ p
  trimmed : Trimmed m.fraction
  notation_iff : 'e' ∈ m.text ↔ 10 ^ 15 ≤ magnitude i ∨ magnitude i < low

theorem isResult_of_value {m : Numeral} {low : ℚ} (hi : i.val ≠ 0) (hp : 1 ≤ p)
    (hvalue : m.value = roundedValue (magnitude i) p) (hdigits : (significantDigits m).length ≤ p)
    (htrimmed : Trimmed m.fraction)
    (hexponent : m.exponent ≠ none ↔ 10 ^ 15 ≤ magnitude i ∨ magnitude i < low) :
    IsResult low i p m where
  pos := by
    rw [hvalue]
    exact (zpow_pos (by norm_num) _).trans_le (roundedValue_bounds (magnitude_pos hi) hp).1
  near e he he' := by
    have hlog : Int.log 10 (magnitude i) = e := by
      have hq := magnitude_pos hi
      have hle := (Int.zpow_le_iff_le_log (b := 10) (by decide) hq).mp (by exact_mod_cast he)
      have hlt := (Int.lt_zpow_iff_log_lt (b := 10) (by decide) hq).mp (by exact_mod_cast he')
      omega
    rw [hvalue]
    convert abs_roundedValue_sub_le (magnitude_pos hi) hp using 2
    rw [lastWeight, pointPosition, hlog]
    congr 1
    omega
  digits := hdigits
  trimmed := htrimmed
  notation_iff := m.e_mem_text_iff.trans hexponent

/-- A finite nonzero number is formatted accurately, for up to 15 digits. -/
theorem formatResult_accurate (hi : i.val ≠ 0) (hp : 1 ≤ p) (hp' : p ≤ 15) :
    ∃ m : Numeral, formatResult (.finite s i) ⟨some p⟩ = .ok (signed s m.text) ∧
      IsResult (roundToDouble (1 / 10 ^ 6)) i p m := by
  rcases formatResult_cases (s := s) (p := p) hi with ⟨hrange, heq⟩ | ⟨⟨hlo, hhi⟩, heq⟩
  · obtain ⟨m, htext, hvalue, hexponent, hdigits, htrimmed⟩ :=
      formatExponential_numeral (s := s) hi hp (by omega)
    refine ⟨m, heq.trans htext, isResult_of_value hi hp hvalue hdigits htrimmed ?_⟩
    exact iff_of_true hexponent hrange
  · obtain ⟨hlo', hhi'⟩ := roundedValue_range hi hp hp' hlo hhi
    obtain ⟨m, htext, hvalue, hexponent, hdigits, htrimmed⟩ :=
      formatFixed_numeral (s := s) hi hp hp' hlo' hhi'
    refine ⟨m, heq.trans htext, isResult_of_value hi hp hvalue hdigits htrimmed ?_⟩
    refine iff_of_false (not_not.mpr hexponent) ?_
    exact not_or.mpr ⟨not_le.mpr hhi, not_lt.mpr hlo⟩

/-- A third, to three digits. -/
theorem formatResult_accurate_third : ∃ m : Numeral,
    formatResult (.finite false ⟨4599676419421066581, by decide⟩) ⟨some 3⟩ =
      .ok (signed false m.text) ∧
    IsResult (roundToDouble (1 / 10 ^ 6)) ⟨4599676419421066581, by decide⟩ 3 m :=
  formatResult_accurate (by decide) (by decide) (by decide)

/-- The number nearest to `10 ^ -6` is less, and has no exponent part. -/
theorem formatResult_lower_bound : ¬ ∀ s (i : Fin finiteBound) p, i.val ≠ 0 → 1 ≤ p → p ≤ 15 →
    ∃ m : Numeral, formatResult (.finite s i) ⟨some p⟩ = .ok (signed s m.text) ∧
      IsResult (1 / 10 ^ 6) i p m := by
  intro h
  obtain ⟨m, htext, hm⟩ := h false lowerIndex 12 (by decide) (by decide) (by decide)
  have hfixed : formatResult (.finite false lowerIndex) ⟨some 12⟩ = .ok "0.000001".toList := by
    decide +kernel
  have hsmall : magnitude lowerIndex < 1 / 10 ^ 6 := by
    rw [magnitude_lowerIndex]
    exact lower_bounds.2
  have he := hm.notation_iff.mpr (Or.inr hsmall)
  have htext' : m.text = "0.000001".toList := Except.ok.inj (htext.symm.trans hfixed)
  rw [htext'] at he
  revert he
  decide

end Calculator.Display
