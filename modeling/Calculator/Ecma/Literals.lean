import Calculator.Ecma.String
import Calculator.Json.Syntax

/-! # Numbers as JSON literals

What `String` writes for a finite number is a literal of JSON that is read as
the number, but for the sign of a zero. So are the digits of a natural number.
-/

namespace Calculator.Ecma

open Binary Decimal Float64 Json

variable {t : Text} {n : ℤ} {i : Fin finiteBound}

theorem unsigned_signed (s : Bool) {c : Char} (hc : c ≠ '-') (t : Text) :
    unsigned (signed s (c :: t)) = c :: t := by
  cases s with
  | true => rfl
  | false =>
    unfold unsigned
    split
    · next h => exact absurd (List.cons.inj h).1 hc
    · rfl

theorem ne_of_isDigit {c d : Char} (hc : c.isDigit = true) (hd : d.isDigit = false) : c ≠ d := by
  rintro rfl
  rw [hc] at hd
  cases hd

theorem unsigned_signed_text (s : Bool) (m : Numeral) :
    unsigned (signed s m.text) = m.text := by
  obtain ⟨c, w, hw⟩ := List.exists_cons_of_ne_nil m.whole_ne
  have hc : c ≠ '-' := ne_of_isDigit (m.whole_digits c (by simp [hw])) rfl
  have htext : m.text = c :: (w ++ (fractionText m.fraction ++ exponentText m.exponent)) := by
    rw [Numeral.text, hw, List.cons_append]
  rw [htext, unsigned_signed s hc]

/-- The numerals that JSON allows: no leading zeros, and no point without digits. -/
structure Strict (m : Numeral) : Prop where
  whole : m.whole = ['0'] ∨ m.whole.head? ≠ some '0'
  fraction : ∀ f ∈ m.fraction, f ≠ []

namespace Strict

variable {m : Numeral}

theorem isNumber (h : Strict m) (s : Bool) : isNumber (signed s m.text) = true := by
  have hhead := Numeral.head_fractionText m.fraction (Numeral.endsMantissa_exponentText m.exponent)
  have hscan := m.scanFraction_append (Numeral.endsMantissa_exponentText m.exponent)
  unfold Json.isNumber
  rw [unsigned_signed_text, Numeral.text, takeWhile_isDigit m.whole_digits hhead,
    dropWhile_isDigit m.whole_digits hhead]
  dsimp only
  rw [hscan, m.scanExponent_text]
  have hpoint : (fractionText m.fraction ++ exponentText m.exponent).head? ≠ some '.' ∨
      m.fraction.getD [] ≠ [] := by
    cases hf : m.fraction with
    | some f => exact Or.inr (h.fraction f hf)
    | none =>
      refine Or.inl fun hdot => ?_
      have hhead := by simpa [fractionText] using hdot
      exact (Numeral.endsMantissa_exponentText m.exponent '.' hhead).2
        rfl
  simp only [ne_eq, m.whole_ne, not_false_eq_true, decide_true, Bool.true_and, Bool.and_eq_true,
    Bool.or_eq_true, decide_eq_true_eq, Option.isSome_some, and_true]
  exact ⟨h.whole, hpoint⟩

def literal (h : Strict m) (s : Bool) : Literal := ⟨signed s m.text, h.isNumber s⟩

theorem literal_magnitude (h : Strict m) (s : Bool) : (h.literal s).magnitude = m.value := by
  rw [Literal.magnitude, literal, unsigned_signed_text, m.scanDecimal_text, Option.getD_some]

theorem literal_negative (h : Strict m) (s : Bool) : (h.literal s).negative = s := by
  cases s with
  | true => rfl
  | false =>
    obtain ⟨c, w, hw⟩ := List.exists_cons_of_ne_nil m.whole_ne
    have hc : c ≠ '-' := ne_of_isDigit (m.whole_digits c (by simp [hw])) rfl
    simp [Literal.negative, literal, Numeral.text, hw, hc]

end Strict

def natNumeral (n : ℕ) : Numeral where
  whole := Nat.toDigits 10 n
  fraction := none
  exponent := none
  whole_digits := allDigits_toDigits n
  whole_ne := Nat.toDigits_ne_nil
  fraction_digits := by simp
  exponent_digits := by simp

theorem strict_natNumeral (n : ℕ) : Strict (natNumeral n) where
  whole := by
    rcases Nat.eq_zero_or_pos n with rfl | hn
    · exact Or.inl (Nat.toDigits_zero 10)
    · exact Or.inr (head_toDigits_ne hn)
  fraction := by simp [natNumeral]

theorem natNumeral_text (n : ℕ) : (natNumeral n).text = Nat.toDigits 10 n := by
  simp [natNumeral, Numeral.text, fractionText, exponentText]

theorem natNumeral_value (n : ℕ) : (natNumeral n).value = n := by
  simp [natNumeral, Numeral.value, Numeral.digits, exponentValue]

def natLiteral (n : ℕ) : Literal := (strict_natNumeral n).literal false

@[simp] theorem natLiteral_text (n : ℕ) : (natLiteral n).text = Nat.toDigits 10 n :=
  natNumeral_text n

theorem shortest_pos (hi : i.val ≠ 0) : ∃ d, 0 < d ∧ (shortest i).1 = Nat.toDigits 10 d := by
  have hdigits : ∃ d, (shortest i).1 = Nat.toDigits 10 d := by
    unfold shortest
    dsimp only
    split
    · exact ⟨_, rfl⟩
    · exact ⟨_, rfl⟩
  obtain ⟨d, hd⟩ := hdigits
  refine ⟨d, Nat.pos_of_ne_zero ?_, hd⟩
  rintro rfl
  -- a zero does not round to the number
  obtain ⟨-, -, hround⟩ := shortest_spec hi
  rw [hd, digitsValue_toDigits, Nat.cast_zero, zero_mul, ofRat_zero] at hround
  exact hi (Fin.mk.inj (Float64.finite.inj hround).2).symm

theorem head_whole (m : Numeral) : m.whole.head? = m.text.head? := by
  rw [Numeral.text, List.head?_append_of_ne_nil _ m.whole_ne]

theorem whole_of_text {m : Numeral} {u : Text} (h : m.text = '0' :: '.' :: u) :
    m.whole = ['0'] := by
  have hhead := Numeral.head_fractionText m.fraction (Numeral.endsMantissa_exponentText m.exponent)
  have hwhole := takeWhile_isDigit m.whole_digits hhead
  rw [← Numeral.text, h] at hwhole
  exact hwhole.symm

theorem layout_cases (hne : t ≠ []) (n : ℤ) :
    (layout t n).head? = t.head? ∨ ∃ u, layout t n = '0' :: '.' :: u := by
  obtain ⟨c, u, rfl⟩ := List.exists_cons_of_ne_nil hne
  unfold layout
  split_ifs with h₁ h₂ h₃
  · exact Or.inl rfl
  · obtain ⟨k, hk⟩ : ∃ k, n.toNat = k + 1 := ⟨n.toNat - 1, by omega⟩
    left
    rw [hk]
    rfl
  · exact Or.inr ⟨_, rfl⟩
  · left
    cases u <;> rfl

theorem strict_of_layout {m : Numeral} (hne : t ≠ []) (hlead : t.head? ≠ some '0')
    (htext : m.text = layout t n) (hspells : Spells m t n) : Strict m where
  whole := by
    rcases layout_cases hne n with hhead | ⟨u, hu⟩
    · right
      rwa [head_whole, htext, hhead]
    · exact Or.inl (whole_of_text (htext.trans hu))
  fraction f hf := by
    obtain ⟨a, b, -, hfraction⟩ := hspells.digits
    exact (hfraction f hf).2

/-- `String` writes a strict numeral that rounds to the number. -/
theorem exists_strict (s : Bool) (hi : i.val ≠ 0) :
    ∃ m : Numeral, Strict m ∧ string (.finite s i) = signed s m.text ∧
      ofRat s m.value = .finite s i := by
  obtain ⟨hd, hne, hround⟩ := shortest_spec hi
  obtain ⟨m, htext, hspells, -, -⟩ := layout_numeral (n := (shortest i).2) hd hne
  obtain ⟨d, hpos, hdigits⟩ := shortest_pos hi
  have hlead : (shortest i).1.head? ≠ some '0' := by
    rw [hdigits]
    exact head_toDigits_ne hpos
  refine ⟨m, strict_of_layout hne hlead htext hspells, ?_, ?_⟩
  · rw [string, if_neg hi, htext]
  · rw [← hspells.value] at hround
    cases s with
    | false => exact hround
    | true =>
      have hneg := congrArg Float64.neg hround
      rwa [neg_ofRat] at hneg

theorem exists_literal {x : Float64} (hx : x.isFinite = true) :
    ∃ l : Literal, l.text = string x ∧
      ofRat l.negative l.magnitude = x.withoutNegativeZero := by
  cases x with
  | nan => cases hx
  | infinity s => cases hx
  | finite s i =>
    by_cases hi : i.val = 0
    · refine ⟨natLiteral 0, ?_, ?_⟩
      · rw [natLiteral_text, string, if_pos hi, Nat.toDigits_zero]
      · have hzero : (finite s i).isZero = true := by simp [isZero, hi]
        rw [natLiteral, Strict.literal_magnitude, Strict.literal_negative, natNumeral_value,
          Nat.cast_zero, ofRat_zero, withoutNegativeZero, if_pos hzero]
        rfl
    · obtain ⟨m, hm, htext, hround⟩ := exists_strict s hi
      refine ⟨hm.literal s, htext.symm, ?_⟩
      rw [hm.literal_magnitude, hm.literal_negative, hround, withoutNegativeZero, if_neg]
      simp [isZero, hi]

theorem isNumber_string {x : Float64} (hx : x.isFinite = true) :
    Json.isNumber (string x) = true := by
  obtain ⟨l, htext, -⟩ := exists_literal hx
  rw [← htext]
  exact l.valid

def literal (x : Float64) (hx : x.isFinite = true) : Literal := ⟨string x, isNumber_string hx⟩

theorem literal_value {x : Float64} (hx : x.isFinite = true) :
    ofRat (literal x hx).negative (literal x hx).magnitude = x.withoutNegativeZero := by
  obtain ⟨⟨text, hvalid⟩, htext, hround⟩ := exists_literal hx
  cases htext
  exact hround

theorem natLiteral_value (n : ℕ) :
    ofRat (natLiteral n).negative (natLiteral n).magnitude = ofRat false n := by
  rw [natLiteral, Strict.literal_magnitude, Strict.literal_negative, natNumeral_value]

end Calculator.Ecma
