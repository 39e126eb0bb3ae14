import Calculator.Binary.ShortDecimals
import Calculator.Engine.Grammar

/-! # How far typed entries are told apart

An entry is read as the nearest double. Two entries that denote different
numbers are read as different operands unless they have the same sign and no
boundary between two neighbouring doubles lies between them. Fifteen digits are
never too many for that, sixteen are.
-/

namespace Calculator.Engine

open Binary Decimal Ecma

def decimalValue : Text → Option ℚ
  | '-' :: t => (scanDecimal t).map fun q => -q
  | t => scanDecimal t

/-- The signs differ, zero counting as positive, or a boundary between two
neighbouring magnitudes of binary64 lies between the two. -/
def Distinguished (x y : ℚ) : Prop :=
  ¬ (x < 0 ↔ y < 0) ∨
    ∃ n, ¬ (BelowMidpoint 52 n (|x| * 2 ^ 1074) ↔ BelowMidpoint 52 n (|y| * 2 ^ 1074))

namespace Literal

def places (l : Literal) : ℕ := (l.fraction.getD []).length

def significand (l : Literal) : ℕ := digitsValue l.numeral.digits

def magnitude (l : Literal) : ℚ := l.numeral.value

def value (l : Literal) : ℚ := if l.negative then -l.magnitude else l.magnitude

def index (l : Literal) : ℕ := nearest 52 (l.magnitude * 2 ^ 1074)

variable (l m : Literal)

theorem decimalValue_text : decimalValue l.text = some l.value := by
  have hscan : scanDecimal l.numeral.text = some l.magnitude := l.numeral.scanDecimal_text
  rw [l.text_eq_signed, value]
  cases l.negative with
  | true => simp [decimalValue, hscan]
  | false =>
    rw [signed_false, decimalValue]
    · exact hscan
    · intro t ht
      exact head_text_ne (by rw [ht]; rfl)

theorem magnitude_eq : l.magnitude = l.significand / 10 ^ l.places := by
  unfold magnitude Numeral.value
  rw [div_eq_mul_inv, ← zpow_natCast, ← zpow_neg]
  congr 2
  simp [numeral, exponentValue, places]

theorem magnitude_nonneg : 0 ≤ l.magnitude := by
  rw [magnitude_eq]
  positivity

theorem abs_value : |l.value| = l.magnitude := by
  unfold value
  cases l.negative with
  | true => rw [if_pos rfl, abs_neg, abs_of_nonneg l.magnitude_nonneg]
  | false => exact abs_of_nonneg l.magnitude_nonneg

theorem value_neg_iff : l.value < 0 ↔ l.negative = true ∧ l.magnitude ≠ 0 := by
  have h := l.magnitude_nonneg
  unfold value
  cases l.negative with
  | true => simpa using h.lt_iff_ne.trans ne_comm
  | false => simpa using h

theorem significand_lt : l.significand < 10 ^ countDigits l.text := by
  have hd : AllDigits l.numeral.digits := by
    refine allDigits_append.mpr ⟨l.isWhole.allDigits, ?_⟩
    cases hf : l.numeral.fraction with
    | none => exact allDigits_nil
    | some f => exact l.fraction_digits f hf
  have hlt := digitsValue_lt hd
  rwa [l.countDigits_text, ← List.length_append]

theorem places_le : l.places ≤ maxEntryDigits := by
  have := l.length_le
  unfold places
  omega

theorem one_le_magnitude_mul (h : l.magnitude ≠ 0) : 2 ^ 52 ≤ l.magnitude * 2 ^ 1074 := by
  have hne : l.significand ≠ 0 := by
    rintro h0
    rw [magnitude_eq, h0] at h
    simp at h
  have hone : (1 : ℚ) ≤ l.significand := by exact_mod_cast Nat.one_le_iff_ne_zero.mpr hne
  have hpow : (10 : ℚ) ^ l.places ≤ 10 ^ 16 := pow_le_pow_right₀ (by norm_num) l.places_le
  rw [magnitude_eq, div_mul_eq_mul_div, le_div_iff₀ (by positivity)]
  calc (2 : ℚ) ^ 52 * 10 ^ l.places
      _ ≤ 2 ^ 52 * 10 ^ 16 := mul_le_mul_of_nonneg_left hpow (by positivity)
      _ ≤ 2 ^ 106 := by norm_num
      _ ≤ 1 * 2 ^ 1074 := by
        rw [one_mul]
        exact pow_le_pow_right₀ (by norm_num) (by decide)
      _ ≤ l.significand * 2 ^ 1074 := mul_le_mul_of_nonneg_right hone (by positivity)

theorem index_eq_zero_iff : l.index = 0 ↔ l.magnitude = 0 := by
  constructor
  · intro h
    by_contra hne
    have hle : ((grid 52 1 : ℕ) : ℚ) ≤ l.magnitude * 2 ^ 1074 := by
      rw [grid_of_lt (by norm_num)]
      exact le_trans (by norm_num) (l.one_le_magnitude_mul hne)
    have := le_nearest hle
    rw [← index, h] at this
    omega
  · intro h
    rw [index, h, zero_mul, nearest_zero]

theorem parseEntry_text : parseEntry l.text =
    (Float64.ofRat l.negative l.magnitude).withoutNegativeZero := by
  rw [parseEntry, text_eq_signed, number_signed_text]
  rfl

theorem index_lt : l.index < finiteBound := by
  have hfin : IsEntry l.text := by
    rw [text_eq_signed]
    refine isEntry_of_plain rfl ?_
    have hle : l.whole.length ≤ 16 := Nat.le_of_add_right_le l.length_le
    exact hle.trans (by decide)
  have := hfin.isFinite
  rw [text_eq_signed, number_signed_text] at this
  exact Float64.isFinite_ofRat_iff.mp this

theorem parseEntry_eq : parseEntry l.text =
    if l.index = 0 then .zero else .finite l.negative ⟨l.index, l.index_lt⟩ := by
  have hfinite : Float64.ofRat l.negative l.magnitude = .finite l.negative ⟨l.index, l.index_lt⟩ :=
    dif_pos l.index_lt
  rw [parseEntry_text, hfinite, Float64.withoutNegativeZero]
  simp [Float64.isZero]

/-- The sign of a zero is lost. -/
theorem parseEntry_eq_iff : parseEntry l.text = parseEntry m.text ↔
    l.index = m.index ∧ (l.index = 0 ∨ l.negative = m.negative) := by
  rw [parseEntry_eq, parseEntry_eq]
  by_cases hl : l.index = 0
  · rw [if_pos hl]
    by_cases hm : m.index = 0
    · rw [if_pos hm]
      exact iff_of_true rfl ⟨hl.trans hm.symm, Or.inl hl⟩
    · rw [if_neg hm]
      refine iff_of_false (fun h => hm ?_) fun h => hm (h.1.symm.trans hl)
      exact (Fin.mk.inj (Float64.finite.inj h).2).symm
  · rw [if_neg hl]
    by_cases hm : m.index = 0
    · rw [if_pos hm]
      refine iff_of_false (fun h => hl ?_) fun h => hl (h.1.trans hm)
      exact Fin.mk.inj (Float64.finite.inj h).2
    · rw [if_neg hm, Float64.finite.injEq, Fin.mk.injEq]
      simp only [hl, false_or, and_comm]

theorem parseEntry_ne_iff :
    parseEntry l.text ≠ parseEntry m.text ↔ Distinguished l.value m.value := by
  have hindex : l.index ≠ m.index ↔ ∃ n,
      ¬ (BelowMidpoint 52 n (l.magnitude * 2 ^ 1074) ↔
        BelowMidpoint 52 n (m.magnitude * 2 ^ 1074)) :=
    nearest_ne_iff (mul_nonneg l.magnitude_nonneg (by positivity))
      (mul_nonneg m.magnitude_nonneg (by positivity))
  rw [ne_eq, parseEntry_eq_iff, Distinguished, abs_value, abs_value, ← hindex, value_neg_iff,
    value_neg_iff, not_and_or, or_comm, ne_eq, ne_eq, ne_eq, ← index_eq_zero_iff,
    ← index_eq_zero_iff]
  by_cases heq : l.index = m.index
  · rw [heq]
    by_cases hm : m.index = 0
    · simp [hm]
    · cases l.negative <;> cases m.negative <;> simp [hm]
  · simp [heq]

variable {l m}

theorem magnitude_eq_zpow : l.magnitude = l.significand * 10 ^ (-(l.places : ℤ)) := by
  rw [magnitude_eq, zpow_neg, zpow_natCast, div_eq_mul_inv]

theorem index_ne_of_short (hl : countDigits l.text ≤ 15) (hm : countDigits m.text ≤ 15)
    (h : l.magnitude < m.magnitude) : l.index ≠ m.index := by
  by_cases h0 : l.magnitude = 0
  · rw [l.index_eq_zero_iff.mpr h0]
    intro hm0
    rw [m.index_eq_zero_iff.mp hm0.symm] at h
    exact absurd h (not_lt.mpr l.magnitude_nonneg)
  · have hlt := l.significand_lt.trans_le (Nat.pow_le_pow_right (by norm_num) hl)
    have hmt := m.significand_lt.trans_le (Nat.pow_le_pow_right (by norm_num) hm)
    have hsize := l.one_le_magnitude_mul h0
    rw [magnitude_eq_zpow] at hsize
    rw [magnitude_eq_zpow, magnitude_eq_zpow] at h
    rw [index, index, magnitude_eq_zpow, magnitude_eq_zpow]
    exact nearest_ne_of_short hlt hmt hsize h

/-- Fifteen digits are never too many. -/
theorem distinguished_of_short (hl : countDigits l.text ≤ 15) (hm : countDigits m.text ≤ 15)
    (hne : l.value ≠ m.value) : Distinguished l.value m.value := by
  rw [← parseEntry_ne_iff, ne_eq, parseEntry_eq_iff]
  rintro ⟨hindex, hsign⟩
  have hmag : l.magnitude = m.magnitude := by
    by_contra hmag
    rcases lt_or_gt_of_ne hmag with h | h
    · exact index_ne_of_short hl hm h hindex
    · exact index_ne_of_short hm hl h hindex.symm
  apply hne
  rcases hsign with h0 | hneg
  · have hl0 := l.index_eq_zero_iff.mp h0
    simp [value, ← hmag, hl0]
  · simp [value, hmag, hneg]

end Literal

/-- Two typed entries are read as different operands exactly if the numbers
they denote are distinguished, which different numbers of at most fifteen
digits always are. -/
theorem typed_operands_differ_iff {c d : CalcState} (hc : c.phase.entering = false)
    (hd : d.phase.entering = false) {t u : Text} (ht : CanType c t) (hu : CanType d u) {x y : ℚ}
    (hx : decimalValue t = some x) (hy : decimalValue u = some y) :
    (parseEntry t ≠ parseEntry u ↔ Distinguished x y) ∧
      (x ≠ y → countDigits t ≤ 15 → countDigits u ≤ 15 → Distinguished x y) := by
  obtain ⟨l, rfl⟩ := ht.isLiteral hc
  obtain ⟨m, rfl⟩ := hu.isLiteral hd
  cases l.decimalValue_text.symm.trans hx
  cases m.decimalValue_text.symm.trans hy
  exact ⟨l.parseEntry_ne_iff m, fun hne hl hm => Literal.distinguished_of_short hl hm hne⟩

def evenInteger : Text := '9' :: "007199254740992".toList

def oddInteger : Text := '9' :: "007199254740993".toList

theorem isLiteral_evenInteger : IsLiteral evenInteger :=
  ⟨⟨false, evenInteger, none, .digits rfl (by decide) (by simp), nofun,
    by decide +kernel, nofun⟩, by decide +kernel⟩

theorem isLiteral_oddInteger : IsLiteral oddInteger :=
  ⟨⟨false, oddInteger, none, .digits rfl (by decide) (by simp), nofun,
    by decide +kernel, nofun⟩, by decide +kernel⟩

theorem typed_operands_differ_iff_evenInteger :
    parseEntry evenInteger ≠ parseEntry ['-', '5'] ↔ Distinguished 9007199254740992 (-5) :=
  (typed_operands_differ_iff (c := initialState) (d := initialState) rfl rfl
    (canType_of_isLiteral rfl isLiteral_evenInteger)
    (canType_of_isLiteral rfl (isLiteral_toggleEntrySign (isLiteral_digit 5)))
    (by decide +kernel) (by decide +kernel)).1

/-- Sixteen digits can be too many: the odd integer is read as the even one. -/
theorem typed_operands_collide :
    CanType initialState evenInteger ∧ CanType initialState oddInteger ∧
      decimalValue evenInteger = some 9007199254740992 ∧
      decimalValue oddInteger = some 9007199254740993 ∧
      parseEntry evenInteger = parseEntry oddInteger := by
  refine ⟨canType_of_isLiteral rfl isLiteral_evenInteger,
    canType_of_isLiteral rfl isLiteral_oddInteger, ?_, ?_, ?_⟩ <;> decide +kernel

end Calculator.Engine
