import Calculator.Ecma.String

/-! # Entries

The text of the operand being typed, and the edits of the digit, point, sign
and backspace keys. A computed value can become an entry too, so that an entry
may have an exponent part: the edits that then leave a finite number are
singled out.
-/

namespace Calculator.Engine

open Binary Decimal Ecma

abbrev Digit := Fin 10

/-- A digit can be written as a literal. -/
instance Digit.neZero : NeZero 10 := ⟨by decide⟩

def Digit.char (d : Digit) : Char := Nat.digitChar d

def maxEntryDigits : ℕ := 16

/-- Digits in the entry, ignoring the sign and the decimal point. -/
def countDigits (entry : Text) : ℕ := (entry.filter Char.isDigit).length

def appendDigit (entry : Text) (digit : Digit) : Text :=
  if maxEntryDigits ≤ countDigits entry then entry
  -- the first digit replaces the placeholder instead of extending it
  else if entry = ['0'] then [digit.char]
  else entry ++ [digit.char]

def appendDecimal (entry : Text) : Text := if '.' ∈ entry then entry else entry ++ ['.']

/-- An entry is never empty, never a lone sign and never a negative zero. -/
def normaliseEntry (entry : Text) : Text :=
  if entry = [] ∨ entry = ['-'] ∨ entry = ['-', '0'] then ['0'] else entry

def dropLastChar (entry : Text) : Text := normaliseEntry entry.dropLast

def toggleEntrySign (entry : Text) : Text :=
  normaliseEntry (if entry.head? = some '-' then entry.drop 1 else '-' :: entry)

def parseEntry (entry : Text) : Float64 := (number entry).withoutNegativeZero

def toDisplay (value : Float64) : Text := string value

/-- A signed numeral of the form that `String` writes, of a finite value. -/
def IsEntry (t : Text) : Prop :=
  ∃ (s : Bool) (n : Numeral), t = signed s n.text ∧ Printed n ∧
    (Float64.ofRat s n.value).isFinite = true

section Plain

variable {n : Numeral} {t : Text} {s : Bool}

theorem value_lt_pow (hx : exponentValue n.exponent ≤ 0) : n.value < 10 ^ n.whole.length := by
  have hd : AllDigits n.digits := by
    refine allDigits_append.mpr ⟨n.whole_digits, ?_⟩
    cases hf : n.fraction with
    | none => exact allDigits_nil
    | some f => exact n.fraction_digits f (by simp [hf])
  have hlt : (digitsValue n.digits : ℚ) < 10 ^ (n.whole.length + (n.fraction.getD []).length) := by
    have := digitsValue_lt hd
    rw [show n.digits.length = n.whole.length + (n.fraction.getD []).length from
      List.length_append] at this
    exact_mod_cast this
  calc n.value
      _ ≤ digitsValue n.digits * 10 ^ (-((n.fraction.getD []).length : ℤ)) := by
        refine mul_le_mul_of_nonneg_left ?_ (by positivity)
        exact zpow_le_zpow_right₀ (by norm_num) (by omega)
      _ < 10 ^ (n.whole.length + (n.fraction.getD []).length) *
          10 ^ (-((n.fraction.getD []).length : ℤ)) :=
        mul_lt_mul_of_pos_right hlt (by positivity)
      _ = 10 ^ n.whole.length := by
        rw [pow_add, zpow_neg, zpow_natCast]
        exact mul_inv_cancel_right₀ (by positivity) _

/-- A literal without an exponent part and with at most 21 digits before the
point is far from overflowing. -/
theorem isEntry_of_plain (hx : n.exponent = none) (hw : n.whole.length ≤ 21) :
    IsEntry (signed s n.text) := by
  refine ⟨s, n, rfl, Or.inl ⟨hx, hw⟩, Float64.isFinite_ofRat_of_le_pow ?_⟩
  apply (value_lt_pow (by rw [hx]; rfl)).le.trans
  exact pow_le_pow_right₀ (by norm_num) (by omega)

end Plain

theorem Digit.isDigit_char (d : Digit) : d.char.isDigit = true := by
  revert d
  decide

theorem isEntry_digit (d : Digit) : IsEntry [d.char] := by
  have hd : AllDigits [d.char] := allDigits_cons.mpr ⟨d.isDigit_char, allDigits_nil⟩
  exact isEntry_of_plain (s := false) (n := ⟨[d.char], none, none, hd, by simp, by simp, by simp⟩)
    rfl (by simp)

theorem isEntry_zero : IsEntry ['0'] := isEntry_digit 0

theorem isEntry_zero_point : IsEntry ['0', '.'] :=
  isEntry_of_plain (s := false)
    (n := ⟨['0'], some [], none, by simp [Char.isDigit], by simp, by simp, by simp⟩) rfl (by simp)

theorem isEntry_string {x : Float64} (hx : x.isFinite = true) : IsEntry (string x) := by
  cases x with
  | nan => simp [Float64.isFinite] at hx
  | infinity s => simp [Float64.isFinite] at hx
  | finite s i =>
    by_cases hi : i.val = 0
    · rw [string, if_pos hi]
      exact isEntry_zero
    · obtain ⟨m, htext, hround, hm⟩ := string_finite s hi
      refine ⟨s, m, htext, hm, ?_⟩
      exact Float64.isFinite_ofRat_mono (s := false) le_rfl (by rw [hround]; rfl)

namespace IsEntry

variable {t : Text}

theorem isFinite (h : IsEntry t) : (number t).isFinite = true := by
  obtain ⟨s, n, rfl, -, hfin⟩ := h
  rwa [number_signed_text]

theorem isFinite_parseEntry (h : IsEntry t) : (parseEntry t).isFinite = true := by
  rw [parseEntry, Float64.isFinite_withoutNegativeZero]
  exact h.isFinite

theorem filter_comma (h : IsEntry t) : t.filter (· ≠ ',') = t := by
  obtain ⟨s, n, rfl, -⟩ := h
  refine List.filter_eq_self.mpr fun c hc => ?_
  rcases isNumeralChar_of_mem_signed n hc with hd | rfl | rfl | rfl | rfl
  · have : c ≠ ',' := by
      rintro rfl
      cases hd
    simpa using this
  all_goals rfl

theorem normalise (h : t = [] ∨ t = ['-'] ∨ IsEntry t) : IsEntry (normaliseEntry t) := by
  unfold normaliseEntry
  split
  · exact isEntry_zero
  · next hne =>
    rcases h with h | h | h
    · exact absurd (Or.inl h) hne
    · exact absurd (Or.inr (Or.inl h)) hne
    · exact h

end IsEntry

/-- A digit may extend a positive exponent only as far as the number stays finite. -/
def DigitFits (entry : Text) (digit : Digit) : Prop :=
  '+' ∈ entry → countDigits entry < maxEntryDigits →
    (number (entry ++ [digit.char])).isFinite = true

/-- A point may not follow an exponent part. -/
def PointFits (entry : Text) : Prop := 'e' ∈ entry → '.' ∈ entry

/-- The last digit of an exponent may not be deleted. -/
def BackspaceFits (entry : Text) : Prop :=
  'e' ∈ entry → entry.dropLast.getLast?.any Char.isDigit = true

instance (entry : Text) (digit : Digit) : Decidable (DigitFits entry digit) :=
  inferInstanceAs (Decidable (_ → _ → _))

instance (entry : Text) : Decidable (PointFits entry) := inferInstanceAs (Decidable (_ → _))

instance (entry : Text) : Decidable (BackspaceFits entry) := inferInstanceAs (Decidable (_ → _))

section Edits

variable {s : Bool} {n : Numeral} {t : Text} {d : Digit}

theorem mem_signed_text_iff {c : Char} (hc : c.isDigit = false) (hm : c ≠ '-') :
    c ∈ signed s n.text ↔ c ∈ fractionText n.fraction ∨ c ∈ exponentText n.exponent := by
  rw [← n.mem_text_iff hc]
  cases s <;> simp [hm]

theorem e_mem_iff : 'e' ∈ signed s n.text ↔ n.exponent ≠ none := by
  rw [← n.e_mem_text_iff]
  cases s <;> simp

theorem point_mem_iff : '.' ∈ signed s n.text ↔ n.fraction ≠ none := by
  rw [mem_signed_text_iff rfl (by decide)]
  have hx : '.' ∉ exponentText n.exponent := by
    cases h : n.exponent with
    | none => simp [exponentText]
    | some x =>
      have hd : '.' ∉ x.2 := fun hm => by
        have := (n.exponent_digits x (by simp [h])).1 '.' hm
        cases this
      obtain ⟨negative, y⟩ := x
      cases negative <;> simpa [exponentText] using hd
  cases n.fraction <;> simp [fractionText, hx]

theorem plus_mem_of_exponent {x : Text} (hx : n.exponent = some (false, x)) :
    '+' ∈ signed s n.text := by
  rw [mem_signed_text_iff rfl (by decide), hx]
  simp [exponentText]

theorem length_whole_le_countDigits : n.whole.length ≤ countDigits (signed s n.text) := by
  have hw : n.whole.filter Char.isDigit = n.whole := List.filter_eq_self.mpr n.whole_digits
  unfold countDigits
  cases s <;> simp [Numeral.text, hw]

theorem isEntry_append_plain (hx : n.exponent = none) (hw : n.whole.length < 21) :
    IsEntry (signed s n.text ++ [d.char]) := by
  rw [signed_append]
  have hd : AllDigits [d.char] := allDigits_cons.mpr ⟨d.isDigit_char, allDigits_nil⟩
  cases hf : n.fraction with
  | none =>
    have ht : n.text ++ [d.char] = (⟨n.whole ++ [d.char], none, none,
        allDigits_append.mpr ⟨n.whole_digits, hd⟩, by simp, by simp, by simp⟩ : Numeral).text := by
      simp [Numeral.text, hf, hx, fractionText, exponentText]
    rw [ht]
    exact isEntry_of_plain rfl (by simp only [List.length_append, List.length_singleton]; omega)
  | some f =>
    have ht : n.text ++ [d.char] = (⟨n.whole, some (f ++ [d.char]), none, n.whole_digits,
        n.whole_ne, by simpa [hd] using n.fraction_digits f (by simp [hf]), by simp⟩ :
          Numeral).text := by
      simp [Numeral.text, hf, hx, fractionText, exponentText]
    rw [ht]
    exact isEntry_of_plain rfl hw.le

theorem value_le_of_negative {m : Numeral} {x y : Text} (hw : m.digits = n.digits)
    (hf : (m.fraction.getD []).length = (n.fraction.getD []).length)
    (hx : n.exponent = some (true, x)) (hy : m.exponent = some (true, x ++ y)) :
    m.value ≤ n.value := by
  have hle : digitsValue x ≤ digitsValue (x ++ y) := by
    rw [digitsValue_append]
    exact (Nat.le_mul_of_pos_right _ (by positivity)).trans (Nat.le_add_right _ _)
  simp only [Numeral.value, hw, hf, hx, hy, exponentValue, if_true]
  refine mul_le_mul_of_nonneg_left ?_ (by positivity)
  exact zpow_le_zpow_right₀ (by norm_num) (by omega)

theorem isEntry_append_exponent {x : Bool × Text} (hx : n.exponent = some x) (hn : Printed n)
    (hfin : (Float64.ofRat s n.value).isFinite = true) (hfit : x.1 = false →
      (number (signed s n.text ++ [d.char])).isFinite = true) :
    IsEntry (signed s n.text ++ [d.char]) := by
  have hd : AllDigits [d.char] := allDigits_cons.mpr ⟨d.isDigit_char, allDigits_nil⟩
  have hxd := n.exponent_digits x (by simp [hx])
  have hm : ∃ m : Numeral, m.text = n.text ++ [d.char] ∧ m.whole = n.whole ∧
      m.fraction = n.fraction ∧ m.exponent = some (x.1, x.2 ++ [d.char]) :=
    ⟨⟨n.whole, n.fraction, some (x.1, x.2 ++ [d.char]), n.whole_digits, n.whole_ne,
      n.fraction_digits, by simpa [hd] using hxd.1⟩,
      by simp [Numeral.text, hx, exponentText], rfl, rfl, rfl⟩
  obtain ⟨m, ht, hwm, hfm, hxm⟩ := hm
  rw [signed_append, ← ht] at hfit ⊢
  have hlen : n.whole.length = 1 := by
    rcases hn with ⟨h, -⟩ | ⟨-, h⟩
    · simp [hx] at h
    · exact h
  refine ⟨s, m, rfl, Or.inr ⟨by simp [hxm], by rw [hwm, hlen]⟩, ?_⟩
  obtain ⟨negative, x⟩ := x
  cases negative with
  | false => rw [← number_signed_text]; exact hfit rfl
  | true =>
    refine Float64.isFinite_ofRat_mono ?_ hfin
    exact value_le_of_negative (by simp [Numeral.digits, hwm, hfm]) (by rw [hfm]) hx hxm

theorem head_text_ne : n.text.head? ≠ some '-' := by
  obtain ⟨c, w, hw⟩ := List.exists_cons_of_ne_nil n.whole_ne
  have hc : c.isDigit = true := n.whole_digits c (by simp [hw])
  rw [Numeral.text, hw]
  rintro ⟨⟩
  cases hc

theorem dropLast_signed (ht : t ≠ []) : (signed s t).dropLast = signed s t.dropLast := by
  cases s with
  | false => rfl
  | true => exact List.dropLast_cons_of_ne_nil ht

theorem dropLast_plain (hx : n.exponent = none) :
    n.text.dropLast = [] ∨ ∃ m : Numeral, n.text.dropLast = m.text ∧ m.exponent = none ∧
      m.whole.length ≤ n.whole.length := by
  rcases hf : n.fraction with - | f
  · have ht : n.text = n.whole := by simp [Numeral.text, hf, hx, fractionText, exponentText]
    rw [ht]
    by_cases hw : n.whole.dropLast = []
    · exact Or.inl hw
    · refine Or.inr ⟨⟨n.whole.dropLast, none, none, ?_, hw, by simp, by simp⟩, ?_, rfl, by simp⟩
      · exact fun c hc => n.whole_digits c (List.mem_of_mem_dropLast hc)
      · simp [Numeral.text, fractionText, exponentText]
  · have ht : n.text = n.whole ++ '.' :: f := by
      simp [Numeral.text, hf, hx, fractionText, exponentText]
    rw [ht, List.dropLast_append_of_ne_nil (by simp)]
    rcases List.eq_nil_or_concat' f with rfl | ⟨g, c, rfl⟩
    · refine Or.inr ⟨⟨n.whole, none, none, n.whole_digits, n.whole_ne, by simp, by simp⟩, ?_, rfl,
        le_rfl⟩
      simp [Numeral.text, fractionText, exponentText]
    · refine Or.inr ⟨⟨n.whole, some g, none, n.whole_digits, n.whole_ne, ?_, by simp⟩, ?_, rfl,
        le_rfl⟩
      · have hd := n.fraction_digits _ hf
        simp only [Option.mem_some_iff, forall_eq']
        exact (allDigits_append.mp hd).1
      · rw [← List.cons_append, List.dropLast_concat]
        simp [Numeral.text, fractionText, exponentText]

theorem dropLast_exponent {negative : Bool} {x : Text} {c : Char} (hx0 : x ≠ [])
    (hx : n.exponent = some (negative, x ++ [c])) :
    ∃ m : Numeral, n.text.dropLast = m.text ∧ m.whole = n.whole ∧ m.fraction = n.fraction ∧
      m.exponent = some (negative, x) := by
  have hd := (n.exponent_digits _ hx).1
  refine ⟨⟨n.whole, n.fraction, some (negative, x), n.whole_digits, n.whole_ne, n.fraction_digits,
    ?_⟩, ?_, rfl, rfl, rfl⟩
  · rintro y ⟨⟩
    exact ⟨(allDigits_append.mp hd).1, hx0⟩
  · have ht : n.text = (n.whole ++ (fractionText n.fraction ++
        'e' :: (if negative then '-' else '+') :: x)) ++ [c] := by
      simp [Numeral.text, hx, exponentText]
    rw [ht, List.dropLast_concat]
    rfl

/-- A shorter exponent brings the value closer to the mantissa, which has one
digit before the point. -/
theorem isFinite_of_dropLast_exponent {m : Numeral} {negative : Bool} {x : Text} {c : Char}
    (hlen : n.whole.length = 1) (hfin : (Float64.ofRat s n.value).isFinite = true)
    (hx : n.exponent = some (negative, x ++ [c])) (hw : m.whole = n.whole)
    (hf : m.fraction = n.fraction) (hm : m.exponent = some (negative, x)) :
    (Float64.ofRat s m.value).isFinite = true := by
  cases negative with
  | true =>
    have hlt : m.value < 10 ^ m.whole.length := value_lt_pow (by simp [hm, exponentValue])
    rw [hw, hlen] at hlt
    apply Float64.isFinite_ofRat_of_le_pow
    exact hlt.le.trans (pow_le_pow_right₀ (by norm_num) (by decide))
  | false =>
    refine Float64.isFinite_ofRat_mono ?_ hfin
    have hle : digitsValue x ≤ digitsValue (x ++ [c]) := by
      rw [digitsValue_append]
      exact (Nat.le_mul_of_pos_right _ (by positivity)).trans (Nat.le_add_right _ _)
    simp only [Numeral.value, Numeral.digits, hw, hf, hx, hm, exponentValue]
    refine mul_le_mul_of_nonneg_left ?_ (by positivity)
    exact zpow_le_zpow_right₀ (by norm_num) (by simp; omega)

end Edits

theorem IsEntry.appendDigit {t : Text} (h : IsEntry t) {d : Digit} (hfit : DigitFits t d) :
    IsEntry (appendDigit t d) := by
  unfold Engine.appendDigit
  split
  · exact h
  · next hcap =>
    split
    · exact isEntry_digit d
    · obtain ⟨s, n, rfl, hn, hfin⟩ := h
      rcases hx : n.exponent with - | x
      · have := length_whole_le_countDigits (s := s) (n := n)
        exact isEntry_append_plain hx (by rw [maxEntryDigits] at hcap; omega)
      · refine isEntry_append_exponent hx hn hfin fun hpos => ?_
        obtain ⟨negative, x⟩ := x
        cases hpos
        exact hfit (plus_mem_of_exponent hx) (by omega)

theorem IsEntry.appendDecimal {t : Text} (h : IsEntry t) (hfit : PointFits t) :
    IsEntry (appendDecimal t) := by
  unfold Engine.appendDecimal
  split
  · exact h
  · next hp =>
    obtain ⟨s, n, rfl, hn, -⟩ := h
    have hx : n.exponent = none := by
      by_contra hx
      exact hp (hfit (e_mem_iff.mpr hx))
    have hf : n.fraction = none := by
      by_contra hf
      exact hp (point_mem_iff.mpr hf)
    have ht : n.text ++ ['.'] = (⟨n.whole, some [], none, n.whole_digits, n.whole_ne, by simp,
        by simp⟩ : Numeral).text := by
      simp [Numeral.text, hf, hx, fractionText, exponentText]
    rw [signed_append, ht]
    apply isEntry_of_plain rfl
    rcases hn with ⟨-, hw⟩ | ⟨hne, -⟩
    · exact hw
    · exact absurd hx hne

theorem IsEntry.toggleEntrySign {t : Text} (h : IsEntry t) : IsEntry (toggleEntrySign t) := by
  obtain ⟨s, n, rfl, hn, hfin⟩ := h
  have hnot : IsEntry (signed (!s) n.text) :=
    ⟨!s, n, rfl, hn, Float64.isFinite_ofRat_mono le_rfl hfin⟩
  refine IsEntry.normalise (Or.inr (Or.inr ?_))
  cases s with
  | true => exact hnot
  | false =>
    rw [signed_false, if_neg head_text_ne]
    exact hnot

theorem IsEntry.dropLastChar {t : Text} (h : IsEntry t) (hfit : BackspaceFits t) :
    IsEntry (dropLastChar t) := by
  obtain ⟨s, n, rfl, hn, hfin⟩ := h
  apply IsEntry.normalise
  rcases hn with ⟨hx, hw⟩ | ⟨hne, hlen⟩
  · rw [dropLast_signed n.text_ne_nil]
    rcases dropLast_plain hx with ht | ⟨m, ht, hm, hle⟩
    · rw [ht]
      cases s <;> simp
    · rw [ht]
      exact Or.inr (Or.inr (isEntry_of_plain hm (hle.trans hw)))
  · obtain ⟨⟨negative, x⟩, hx⟩ := Option.ne_none_iff_exists'.mp hne
    obtain ⟨y, c, rfl⟩ := (List.eq_nil_or_concat' x).resolve_left (n.exponent_digits _ hx).2
    have hy : y ≠ [] := by
      rintro rfl
      have hlast := hfit (e_mem_iff.mpr hne)
      rw [dropLast_signed n.text_ne_nil] at hlast
      have ht : n.text = (n.whole ++ (fractionText n.fraction ++ ['e'])) ++
          [if negative then '-' else '+'] ++ [c] := by
        simp [Numeral.text, hx, exponentText]
      rw [ht, List.dropLast_concat, ← signed_append, List.getLast?_concat] at hlast
      cases negative <;> cases hlast
    obtain ⟨m, ht, hw, hf, hm⟩ := dropLast_exponent hy hx
    rw [dropLast_signed n.text_ne_nil, ht]
    refine Or.inr (Or.inr ⟨s, m, rfl, Or.inr ⟨by simp [hm], by rw [hw, hlen]⟩, ?_⟩)
    exact isFinite_of_dropLast_exponent hlen hfin hx hw hf hm

end Calculator.Engine
