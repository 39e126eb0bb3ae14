import Calculator.Ecma.String

/-! # Fixed precision and grouping

ECMAScript's `toPrecision` and `toExponential`, which round to a number of
significant digits, the larger decimal on a tie, and the default number format
of the `en-US` locale, which rounds to three fraction digits and groups the
integer digits by thousands.
-/

namespace Calculator.Ecma

open Binary Decimal Float64

/-- The error of a number argument that is out of range. -/
structure RangeError where
  message : Text
  deriving DecidableEq

/-- The `p` significant digits nearest to `q`, and the exponent of the first. -/
def roundedDigits (q : ℚ) (p : ℕ) : Text × ℤ :=
  let s := ⌊q / lastWeight q p + 1 / 2⌋₊
  if s = 10 ^ p then (Nat.toDigits 10 (10 ^ (p - 1)), pointPosition q)
  else (Nat.toDigits 10 s, pointPosition q - 1)

/-- The digits and the exponent of a finite magnitude, where zero is all zeros. -/
def precisionDigits (i : Fin finiteBound) (p : ℕ) : Text × ℤ :=
  if i.val = 0 then (zeros p, 0) else roundedDigits (magnitude i) p

/-- The sign that the formatting functions write: zeros have none. -/
def isNegative (s : Bool) (i : Fin finiteBound) : Bool := s && i.val ≠ 0

def exponential (t : Text) (e : ℤ) : Text :=
  mantissaText t ++ exponentText (some (exponentPart e))

def precisionMessage : Text :=
  "toPrecision() argument must be between 1 and 100".toList

def exponentialMessage : Text :=
  "toExponential() argument must be between 0 and 100".toList

def toPrecision (x : Float64) (p : ℕ) : Except RangeError Text :=
  match x with
  | .finite s i =>
    if p < 1 ∨ 100 < p then .error ⟨precisionMessage⟩
    else
      let (t, e) := precisionDigits i p
      .ok (signed (isNegative s i)
        (if e < -6 ∨ (p : ℤ) ≤ e then exponential t e
        else if e = p - 1 then t
        else if 0 ≤ e then t.take (e + 1).toNat ++ '.' :: t.drop (e + 1).toNat
        else '0' :: '.' :: (zeros (-(e + 1)).toNat ++ t)))
  | x => .ok (string x)

def toExponential (x : Float64) (f : ℕ) : Except RangeError Text :=
  match x with
  | .finite s i =>
    if 100 < f then .error ⟨exponentialMessage⟩
    else
      let (t, e) := precisionDigits i (f + 1)
      .ok (signed (isNegative s i) (exponential t e))
  | x => .ok (string x)

def insertCommas : Text → Text
  | a :: b :: c :: d :: t => a :: b :: c :: ',' :: insertCommas (d :: t)
  | t => t

def groupThousands (t : Text) : Text := (insertCommas t.reverse).reverse

def dropTrailingZeros (t : Text) : Text := (t.reverse.dropWhile (· = '0')).reverse

/-- A number of thousandths as three digits after the point, without the
trailing zeros. -/
def fractionDigits (n : ℕ) : Text :=
  match dropTrailingZeros (((Nat.toDigits 10 (1000 + n)).drop 1)) with
  | [] => []
  | t => '.' :: t

def formatEnUS : Float64 → Text
  | .nan => ['N', 'a', 'N']
  | .infinity s => signed s ['∞']
  | .finite s i =>
    let n := ⌊magnitude i * 1000 + 1 / 2⌋₊
    signed s (groupThousands (Nat.toDigits 10 (n / 1000)) ++ fractionDigits (n % 1000))

example : formatEnUS (.ofRat true (12345678 + 1 / 4)) = "-12,345,678.25".toList := by decide +kernel

theorem toPrecision_ok (x : Float64) {p : ℕ} (h : 1 ≤ p) (h' : p ≤ 100) :
    ∃ t, toPrecision x p = .ok t := by
  cases x with
  | nan => exact ⟨_, rfl⟩
  | infinity s => exact ⟨_, rfl⟩
  | finite s i =>
    rw [toPrecision, if_neg (by omega)]
    exact ⟨_, rfl⟩

theorem toExponential_ok (x : Float64) {f : ℕ} (h : f ≤ 100) :
    ∃ t, toExponential x f = .ok t := by
  cases x with
  | nan => exact ⟨_, rfl⟩
  | infinity s => exact ⟨_, rfl⟩
  | finite s i =>
    rw [toExponential, if_neg (by omega)]
    exact ⟨_, rfl⟩

def roundedValue (q : ℚ) (p : ℕ) : ℚ :=
  digitsValue (roundedDigits q p).1 * 10 ^ ((roundedDigits q p).2 + 1 - p)

section Rounded

variable {q : ℚ} {p : ℕ}

theorem rounded_bounds (hq : 0 < q) (hp : 1 ≤ p) :
    10 ^ (p - 1) ≤ ⌊q / lastWeight q p + 1 / 2⌋₊ ∧ ⌊q / lastWeight q p + 1 / 2⌋₊ ≤ 10 ^ p ∧
      |(⌊q / lastWeight q p + 1 / 2⌋₊ : ℚ) * lastWeight q p - q| ≤ lastWeight q p / 2 := by
  have hw := lastWeight_pos q p
  have hpos : 0 ≤ q / lastWeight q p + 1 / 2 := by positivity
  refine ⟨?_, ?_, ?_⟩
  · exact (pow_le_truncated hq hp).trans (Nat.floor_le_floor (by linarith))
  · have htrunc : ((⌊q / lastWeight q p⌋₊ + 1 : ℕ) : ℚ) ≤ (10 ^ p : ℕ) :=
      Nat.cast_le.mpr (truncated_lt_pow q p)
    have hlt := Nat.lt_floor_add_one (q / lastWeight q p)
    apply Nat.le_of_lt_succ
    apply (Nat.floor_lt hpos).mpr
    push_cast at htrunc hlt ⊢
    linarith
  · have hlo := Nat.floor_le hpos
    have hhi := Nat.lt_floor_add_one (q / lastWeight q p + 1 / 2)
    generalize (⌊q / lastWeight q p + 1 / 2⌋₊ : ℚ) = s at hlo hhi
    have hdiv : q / lastWeight q p * lastWeight q p = q := div_mul_cancel₀ q hw.ne'
    have hlo' := mul_le_mul_of_nonneg_right hlo hw.le
    have hhi' := mul_lt_mul_of_pos_right hhi hw
    rw [abs_le]
    constructor <;> linarith

theorem roundedDigits_spec (hq : 0 < q) (hp : 1 ≤ p) :
    AllDigits (roundedDigits q p).1 ∧ (roundedDigits q p).1.length = p ∧
      10 ^ (p - 1) ≤ digitsValue (roundedDigits q p).1 ∧
      roundedValue q p = ⌊q / lastWeight q p + 1 / 2⌋₊ * lastWeight q p := by
  obtain ⟨hge, hle, -⟩ := rounded_bounds hq hp
  unfold roundedValue roundedDigits
  generalize ⌊q / lastWeight q p + 1 / 2⌋₊ = s at *
  dsimp only
  split_ifs with h
  · -- rounding has carried into the next power of ten
    have hexp : ((p - 1 : ℕ) : ℤ) + (pointPosition q + 1 - p) = p + (pointPosition q - p) := by
      omega
    refine ⟨allDigits_toDigits _, ?_, ?_, ?_⟩
    · exact length_toDigits_eq hp le_rfl (Nat.pow_lt_pow_right (by decide) (by omega))
    · rw [digitsValue_toDigits]
    · rw [digitsValue_toDigits, h, lastWeight]
      push_cast
      rw [← zpow_natCast, ← zpow_natCast, ← zpow_add₀ (by norm_num), ← zpow_add₀ (by norm_num),
        hexp]
  · refine ⟨allDigits_toDigits _, length_toDigits_eq hp hge (by omega), ?_, ?_⟩
    · rwa [digitsValue_toDigits]
    · rw [digitsValue_toDigits, sub_add_cancel, lastWeight]

theorem abs_roundedValue_sub_le (hq : 0 < q) (hp : 1 ≤ p) :
    |roundedValue q p - q| ≤ lastWeight q p / 2 := by
  obtain ⟨-, -, -, hvalue⟩ := roundedDigits_spec hq hp
  rw [hvalue]
  exact (rounded_bounds hq hp).2.2

theorem pow_mul_lastWeight (q : ℚ) {n p : ℕ} :
    ((10 ^ n : ℕ) : ℚ) * lastWeight q p = 10 ^ (pointPosition q + n - p) := by
  rw [lastWeight]
  push_cast
  rw [← zpow_natCast, ← zpow_add₀ (by norm_num)]
  congr 1
  omega

/-- Rounding does not leave the decade, but may reach the next. -/
theorem roundedValue_bounds (hq : 0 < q) (hp : 1 ≤ p) :
    10 ^ (pointPosition q - 1) ≤ roundedValue q p ∧
      roundedValue q p ≤ 10 ^ pointPosition q := by
  have hw := lastWeight_pos q p
  obtain ⟨hge, hle, -⟩ := rounded_bounds hq hp
  obtain ⟨-, -, -, hvalue⟩ := roundedDigits_spec hq hp
  have hge' := mul_le_mul_of_nonneg_right (Nat.cast_le (α := ℚ).mpr hge) hw.le
  have hle' := mul_le_mul_of_nonneg_right (Nat.cast_le (α := ℚ).mpr hle) hw.le
  have hlo : pointPosition q + (p - 1 : ℕ) - p = pointPosition q - 1 := by omega
  rw [pow_mul_lastWeight, hlo] at hge'
  rw [pow_mul_lastWeight, add_sub_cancel_right] at hle'
  exact ⟨hge'.trans hvalue.ge, hvalue.le.trans hle'⟩

theorem roundedValue_eq_pow (hq : 0 < q) (hp : 1 ≤ p)
    (h : 10 ^ pointPosition q - lastWeight q p / 2 < q) :
    roundedValue q p = 10 ^ pointPosition q := by
  have hw := lastWeight_pos q p
  obtain ⟨-, hle, hnear⟩ := rounded_bounds hq hp
  obtain ⟨-, -, -, hvalue⟩ := roundedDigits_spec hq hp
  have hpow := pow_mul_lastWeight q (n := p) (p := p)
  rw [add_sub_cancel_right] at hpow
  have hlt : ((10 ^ p : ℕ) : ℚ) < ⌊q / lastWeight q p + 1 / 2⌋₊ + 1 := by
    apply lt_of_mul_lt_mul_right (a := lastWeight q p) ?_ hw.le
    have habs := (abs_le.mp hnear).1
    rw [hpow]
    linarith
  have heq : ⌊q / lastWeight q p + 1 / 2⌋₊ = 10 ^ p :=
    le_antisymm hle (Nat.le_of_lt_succ (by exact_mod_cast hlt))
  rw [hvalue, heq, hpow]

end Rounded

section Precision

variable {s : Bool} {i : Fin finiteBound} {p : ℕ}

theorem precisionDigits_of_ne (hi : i.val ≠ 0) :
    precisionDigits i p = roundedDigits (magnitude i) p := if_neg hi

theorem isNegative_of_ne (hi : i.val ≠ 0) : isNegative s i = s := by
  simp [isNegative, hi]

theorem toPrecision_numeral (hi : i.val ≠ 0) (hp : 1 ≤ p) (hp' : p ≤ 100) :
    ∃ m : Numeral, toPrecision (.finite s i) p = .ok (signed s m.text) ∧
      Spells m (roundedDigits (magnitude i) p).1 ((roundedDigits (magnitude i) p).2 + 1) := by
  obtain ⟨hd, hlen, -, -⟩ := roundedDigits_spec (magnitude_pos hi) hp
  simp only [toPrecision, if_neg (show ¬ (p < 1 ∨ 100 < p) by omega), precisionDigits_of_ne hi,
    isNegative_of_ne hi]
  generalize roundedDigits (magnitude i) p = r at *
  obtain ⟨t, e⟩ := r
  dsimp only at *
  have hne : t ≠ [] := List.ne_nil_of_length_pos (by omega)
  split_ifs with h₁ h₂ h₃
  · obtain ⟨m, htext, hspells, -⟩ := exponential_numeral hd hne (e + 1)
    rw [add_sub_cancel_right] at htext
    exact ⟨m, by rw [htext, exponential], hspells⟩
  · obtain ⟨m, htext, hspells, -⟩ := whole_numeral hd hne 0
    refine ⟨m, by simp [htext, zeros], ?_⟩
    convert hspells using 1
    push_cast
    omega
  · obtain ⟨m, htext, hspells, -⟩ := pointed_numeral hd (n := (e + 1).toNat) (by omega) (by omega)
    rw [Int.toNat_of_nonneg (by omega)] at hspells
    exact ⟨m, by rw [htext], hspells⟩
  · obtain ⟨m, htext, hspells, -⟩ := fraction_numeral hd hne (-(e + 1)).toNat
    rw [Int.toNat_of_nonneg (by omega), Int.neg_neg] at hspells
    exact ⟨m, by rw [htext], hspells⟩

theorem toExponential_eq (hi : i.val ≠ 0) {f : ℕ} (hf : f ≤ 100) :
    toExponential (.finite s i) f = .ok (signed s
      (mantissaText (roundedDigits (magnitude i) (f + 1)).1 ++
        exponentText (some (exponentPart (roundedDigits (magnitude i) (f + 1)).2)))) := by
  rw [toExponential, if_neg (by omega), precisionDigits_of_ne hi, isNegative_of_ne hi]
  rfl

end Precision

theorem filter_insertCommas (t : Text) :
    (insertCommas t).filter (· ≠ ',') = t.filter (· ≠ ',') := by
  induction t using insertCommas.induct with
  | case1 a b c d t ih =>
    rw [insertCommas]
    simp only [List.filter_cons, ih]
    rfl
  | case2 t h => rw [insertCommas.eq_2 t h]

theorem filter_groupThousands {t : Text} (h : ',' ∉ t) :
    (groupThousands t).filter (· ≠ ',') = t := by
  have ht : t.filter (· ≠ ',') = t :=
    List.filter_eq_self.mpr fun c hc => by simpa using ne_of_mem_of_not_mem hc h
  rw [groupThousands, List.filter_reverse, filter_insertCommas, List.filter_reverse,
    List.reverse_reverse, ht]

theorem fractionDigits_eq_nil_or (n : ℕ) : fractionDigits n = [] ∨ '.' ∈ fractionDigits n := by
  unfold fractionDigits
  split
  · exact Or.inl rfl
  · exact Or.inr List.mem_cons_self

theorem floor_mul_add_half (n : ℕ) : ⌊(n : ℚ) * 1000 + 1 / 2⌋₊ = n * 1000 := by
  rw [Nat.floor_eq_iff (by positivity)]
  push_cast
  constructor <;> linarith

theorem formatEnUS_of_magnitude_eq {s : Bool} {i : Fin finiteBound} {n : ℕ}
    (h : magnitude i = n) :
    formatEnUS (.finite s i) = signed s (groupThousands (Nat.toDigits 10 n)) := by
  have hzero : fractionDigits 0 = [] := by decide +kernel
  simp only [formatEnUS, h, floor_mul_add_half]
  rw [Nat.mul_div_cancel n (by decide), Nat.mul_mod_left, hzero, List.append_nil]

end Calculator.Ecma
