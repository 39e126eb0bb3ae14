import Mathlib.Algebra.Order.Field.Power
import Mathlib.Algebra.Field.Rat
import Mathlib.Data.List.Induction
import Mathlib.Tactic.Positivity
import Mathlib.Tactic.Ring

/-! # Decimal numerals

Texts of decimal digits, and the unsigned decimal literal: digits, an optional
point with further digits, and an optional exponent part. A numeral keeps its
parts separately; scanning its text gives back the value of the parts.
-/

namespace Calculator.Decimal

/-- A text, as the list of its characters. -/
abbrev Text := List Char

def AllDigits (t : Text) : Prop := ∀ c ∈ t, c.isDigit = true

instance AllDigits.decidable (t : Text) : Decidable (AllDigits t) :=
  inferInstanceAs (Decidable (∀ c ∈ t, c.isDigit = true))

def digitsValue (t : Text) : ℕ := Nat.ofDigitChars 10 t 0

@[simp] theorem allDigits_nil : AllDigits [] := by simp [AllDigits]

@[simp] theorem allDigits_append {s t : Text} :
    AllDigits (s ++ t) ↔ AllDigits s ∧ AllDigits t := by
  simp only [AllDigits, List.mem_append, or_imp, forall_and]

@[simp] theorem allDigits_cons {c : Char} {t : Text} :
    AllDigits (c :: t) ↔ c.isDigit = true ∧ AllDigits t := by
  simp only [AllDigits, List.mem_cons, forall_eq_or_imp]

theorem allDigits_toDigits (n : ℕ) : AllDigits (Nat.toDigits 10 n) :=
  fun _ hc => Nat.isDigit_of_mem_toDigits (by decide) (by decide) hc

theorem allDigits_zeros (n : ℕ) : AllDigits (List.replicate n '0') := by
  intro c hc
  rw [List.eq_of_mem_replicate hc]
  rfl

theorem AllDigits.take {t : Text} (h : AllDigits t) (n : ℕ) : AllDigits (t.take n) :=
  fun c hc => h c (List.mem_of_mem_take hc)

theorem AllDigits.drop {t : Text} (h : AllDigits t) (n : ℕ) : AllDigits (t.drop n) :=
  fun c hc => h c (List.mem_of_mem_drop hc)

@[simp] theorem digitsValue_nil : digitsValue [] = 0 := by simp [digitsValue]

theorem digitsValue_append (s t : Text) :
    digitsValue (s ++ t) = digitsValue s * 10 ^ t.length + digitsValue t := by
  rw [digitsValue, Nat.ofDigitChars_append, Nat.ofDigitChars_eq_ofDigitChars_zero, Nat.mul_comm]
  rfl

@[simp] theorem digitsValue_toDigits (n : ℕ) : digitsValue (Nat.toDigits 10 n) = n :=
  Nat.ofDigitChars_toDigits (by decide) (by decide)

@[simp] theorem digitsValue_zeros (n : ℕ) : digitsValue (List.replicate n '0') = 0 := by
  rw [digitsValue, Nat.ofDigitChars_replicate_zero, Nat.mul_zero]

theorem digitsValue_lt {t : Text} (h : AllDigits t) : digitsValue t < 10 ^ t.length := by
  induction t using List.reverseRecOn with
  | nil => simp
  | append_singleton s c ih =>
    rw [allDigits_append, allDigits_cons] at h
    have hc : digitsValue [c] < 10 := by
      have := h.2.1
      simp only [Char.isDigit, Bool.and_eq_true, decide_eq_true_eq] at this
      have hle : c.toNat ≤ 57 := this.2
      simp only [digitsValue, Nat.ofDigitChars_cons, Nat.ofDigitChars_nil]
      have : ('0' : Char).toNat = 48 := rfl
      omega
    have hs := ih h.1
    rw [digitsValue_append, List.length_append, List.length_singleton, Nat.pow_succ]
    omega

theorem toDigits_singleton {c : Char} (hc : c.isDigit = true) :
    Nat.toDigits 10 (digitsValue [c]) = [c] := by
  simp only [Char.isDigit, Bool.and_eq_true, decide_eq_true_eq] at hc
  have h₁ : 48 ≤ c.toNat := hc.1
  have h₂ : c.toNat ≤ 57 := hc.2
  have hv : digitsValue [c] = c.toNat - 48 := by
    simp [digitsValue, Nat.ofDigitChars_cons]
  have hlt : c.toNat - 48 < 10 := by omega
  rw [hv, Nat.toDigits_of_lt_base hlt]
  congr 1
  apply Char.toNat_inj.mp
  rw [Nat.toNat_digitChar_of_lt_ten hlt]
  omega

theorem toDigits_digitsValue {t : Text} (h : AllDigits t) (hne : t ≠ [])
    (hhead : t.head? ≠ some '0') : Nat.toDigits 10 (digitsValue t) = t := by
  induction t using List.reverseRecOn with
  | nil => exact absurd rfl hne
  | append_singleton s c ih =>
    obtain ⟨hs, hc⟩ := allDigits_append.mp h
    have hdigit := toDigits_singleton (hc c (by simp))
    by_cases hnil : s = []
    · subst hnil
      exact hdigit
    · have hs0 : s.head? ≠ some '0' := by rwa [List.head?_append_of_ne_nil _ hnil] at hhead
      have ihs := ih hs hnil hs0
      have hpos : 0 < digitsValue s := by
        -- otherwise the digits before the last one are `0`
        apply Nat.pos_of_ne_zero
        intro h0
        rw [h0, Nat.toDigits_zero] at ihs
        rw [← ihs] at hs0
        exact hs0 rfl
      have hlt : digitsValue [c] < 10 := digitsValue_lt hc
      rw [digitsValue_append, List.length_singleton, pow_one, Nat.mul_comm,
        ← Nat.toDigits_append_toDigits (by decide) hpos hlt, ihs, hdigit]

theorem head_toDigits_ne {n : ℕ} (hn : 0 < n) : (Nat.toDigits 10 n).head? ≠ some '0' := by
  intro hhead
  obtain ⟨t, ht⟩ := List.head?_eq_some_iff.mp hhead
  have hall : AllDigits t := (allDigits_cons.mp (ht ▸ allDigits_toDigits n)).2
  have hvalue : n = digitsValue t := by
    have h := digitsValue_toDigits n
    rw [ht, ← List.singleton_append, digitsValue_append,
      show digitsValue ['0'] = 0 from rfl] at h
    omega
  have hlt : n < 10 ^ t.length := by
    rw [hvalue]
    exact digitsValue_lt hall
  have hpos : 0 < t.length := by
    apply Nat.pos_of_ne_zero
    intro h0
    rw [h0] at hlt
    omega
  have hle := (Nat.length_toDigits_le_iff (by decide) hpos).mpr hlt
  rw [ht, List.length_cons] at hle
  omega

theorem takeWhile_isDigit {s t : Text} (hs : AllDigits s) (ht : ∀ c ∈ t.head?, c.isDigit = false) :
    (s ++ t).takeWhile Char.isDigit = s := by
  rw [List.takeWhile_append_of_pos hs]
  cases t with
  | nil => simp
  | cons c t =>
    have hc : c.isDigit = false := ht c (by simp)
    simp [hc]

theorem dropWhile_isDigit {s t : Text} (hs : AllDigits s) (ht : ∀ c ∈ t.head?, c.isDigit = false) :
    (s ++ t).dropWhile Char.isDigit = t := by
  rw [List.dropWhile_append_of_pos hs]
  cases t with
  | nil => rfl
  | cons c t =>
    have hc : c.isDigit = false := ht c (by simp)
    simp [hc]

/-- The digits after a point, if the text starts with one, and the rest. -/
def scanFraction : Text → Text × Text
  | '.' :: t => (t.takeWhile Char.isDigit, t.dropWhile Char.isDigit)
  | t => ([], t)

def scanDigits (t : Text) : Option ℕ :=
  if t ≠ [] ∧ t.all Char.isDigit then some (digitsValue t) else none

def scanSigned : Text → Option ℤ
  | '-' :: t => (scanDigits t).map fun n => -(n : ℤ)
  | '+' :: t => (scanDigits t).map fun n => (n : ℤ)
  | t => (scanDigits t).map fun n => (n : ℤ)

/-- The exponent of a literal whose remaining text is `t`. -/
def scanExponent : Text → Option ℤ
  | [] => some 0
  | c :: t => if c = 'e' ∨ c = 'E' then scanSigned t else none

def scanDecimal (t : Text) : Option ℚ :=
  let whole := t.takeWhile Char.isDigit
  let rest := scanFraction (t.dropWhile Char.isDigit)
  if whole ++ rest.1 = [] then none
  else (scanExponent rest.2).map fun e : ℤ =>
    (digitsValue (whole ++ rest.1) : ℚ) * 10 ^ (e - rest.1.length)

theorem scanDigits_of_allDigits {t : Text} (h : AllDigits t) (hne : t ≠ []) :
    scanDigits t = some (digitsValue t) :=
  if_pos ⟨hne, List.all_eq_true.mpr h⟩

theorem scanDigits_eq_none {t : Text} (h : t = [] ∨ ∃ c ∈ t, c.isDigit = false) :
    scanDigits t = none := by
  apply if_neg
  rintro ⟨hne, hall⟩
  rcases h with rfl | ⟨c, hc, hdigit⟩
  · exact hne rfl
  · rw [List.all_eq_true.mp hall c hc] at hdigit
    cases hdigit

/-- An unsigned decimal literal with digits before the point. The exponent is
the sign, negative or not, and the digits. -/
structure Numeral where
  whole : Text
  fraction : Option Text
  exponent : Option (Bool × Text)
  whole_digits : AllDigits whole
  whole_ne : whole ≠ []
  fraction_digits : ∀ f ∈ fraction, AllDigits f
  exponent_digits : ∀ x ∈ exponent, AllDigits x.2 ∧ x.2 ≠ []

def fractionText : Option Text → Text
  | none => []
  | some f => '.' :: f

def exponentText : Option (Bool × Text) → Text
  | none => []
  | some (negative, t) => 'e' :: (if negative then '-' else '+') :: t

def exponentValue : Option (Bool × Text) → ℤ
  | none => 0
  | some (negative, t) => if negative then -(digitsValue t : ℤ) else digitsValue t

namespace Numeral

def text (n : Numeral) : Text :=
  n.whole ++ (fractionText n.fraction ++ exponentText n.exponent)

/-- The digits of the numeral without its point and exponent part. -/
def digits (n : Numeral) : Text := n.whole ++ n.fraction.getD []

def value (n : Numeral) : ℚ :=
  (digitsValue n.digits : ℚ) * 10 ^ (exponentValue n.exponent - (n.fraction.getD []).length)

/-- What may follow the digits before and after the point. -/
def EndsMantissa (t : Text) : Prop := ∀ c ∈ t.head?, c.isDigit = false ∧ c ≠ '.'

theorem endsMantissa_cons {c : Char} {t : Text} (hc : c.isDigit = false) (hp : c ≠ '.') :
    EndsMantissa (c :: t) := by
  rintro d ⟨⟩
  exact ⟨hc, hp⟩

theorem endsMantissa_exponentText (x : Option (Bool × Text)) : EndsMantissa (exponentText x) := by
  cases x with
  | none => exact nofun
  | some x => exact endsMantissa_cons rfl (by decide)

theorem head_fractionText (f : Option Text) {t : Text} (ht : EndsMantissa t) :
    ∀ c ∈ (fractionText f ++ t).head?, c.isDigit = false := by
  cases f with
  | none => exact fun c hc => (ht c hc).1
  | some f =>
    rintro c ⟨⟩
    rfl

theorem scanFraction_append (n : Numeral) {t : Text} (ht : EndsMantissa t) :
    scanFraction (fractionText n.fraction ++ t) = (n.fraction.getD [], t) := by
  cases hf : n.fraction with
  | none =>
    cases t with
    | nil => rfl
    | cons c t => simp [fractionText, scanFraction, (ht c rfl).2]
  | some f =>
    have hd : AllDigits f := n.fraction_digits f (by simp [hf])
    have hhead : ∀ c ∈ t.head?, c.isDigit = false := fun c hc => (ht c hc).1
    simp only [fractionText, List.cons_append, scanFraction, Option.getD_some]
    rw [takeWhile_isDigit hd hhead, dropWhile_isDigit hd hhead]

theorem scanDecimal_append (n : Numeral) {t : Text} (ht : EndsMantissa t) :
    scanDecimal (n.whole ++ (fractionText n.fraction ++ t)) = (scanExponent t).map fun e : ℤ =>
      (digitsValue n.digits : ℚ) * 10 ^ (e - (n.fraction.getD []).length) := by
  have hhead := head_fractionText n.fraction ht
  unfold scanDecimal
  rw [takeWhile_isDigit n.whole_digits hhead, dropWhile_isDigit n.whole_digits hhead,
    scanFraction_append n ht]
  exact if_neg (by simp [n.whole_ne])

theorem scanExponent_text (n : Numeral) :
    scanExponent (exponentText n.exponent) = some (exponentValue n.exponent) := by
  cases hx : n.exponent with
  | none => rfl
  | some x =>
    obtain ⟨hd, hne⟩ := n.exponent_digits x (by simp [hx])
    obtain ⟨negative, t⟩ := x
    cases negative <;>
      simp [exponentText, exponentValue, scanExponent, scanSigned, scanDigits_of_allDigits hd hne]

theorem scanDecimal_text (n : Numeral) : scanDecimal n.text = some n.value := by
  rw [text, n.scanDecimal_append (endsMantissa_exponentText _), scanExponent_text]
  rfl

theorem text_ne_nil (n : Numeral) : n.text ≠ [] := by
  simp [text, n.whole_ne]

/-- The characters that occur in the text of a numeral. -/
def IsNumeralChar (c : Char) : Prop :=
  c.isDigit = true ∨ c = '.' ∨ c = 'e' ∨ c = '-' ∨ c = '+'

theorem isNumeralChar_of_mem_text (n : Numeral) {c : Char} (h : c ∈ n.text) :
    IsNumeralChar c := by
  simp only [text, List.mem_append] at h
  rcases h with h | h | h
  · exact Or.inl (n.whole_digits c h)
  · cases hf : n.fraction with
    | none => simp [hf, fractionText] at h
    | some f =>
      simp only [hf, fractionText, List.mem_cons] at h
      rcases h with rfl | h
      · exact Or.inr (Or.inl rfl)
      · exact Or.inl (n.fraction_digits f (by simp [hf]) c h)
  · cases hx : n.exponent with
    | none => simp [hx, exponentText] at h
    | some x =>
      simp only [hx, exponentText, List.mem_cons] at h
      rcases h with rfl | rfl | h
      · exact Or.inr (Or.inr (Or.inl rfl))
      · cases x.1 <;> simp [IsNumeralChar]
      · exact Or.inl ((n.exponent_digits x (by simp [hx])).1 c h)

theorem mem_text_iff (n : Numeral) {c : Char} (hc : c.isDigit = false) :
    c ∈ n.text ↔ c ∈ fractionText n.fraction ∨ c ∈ exponentText n.exponent := by
  have hwhole : c ∉ n.whole := fun h => by simp [n.whole_digits c h] at hc
  simp [text, hwhole]

theorem not_mem_fractionText (n : Numeral) {c : Char} (hc : c.isDigit = false) (hp : c ≠ '.') :
    c ∉ fractionText n.fraction := by
  cases hf : n.fraction with
  | none => simp [fractionText]
  | some f =>
    have hd : c ∉ f := fun h => by simp [n.fraction_digits f (by simp [hf]) c h] at hc
    simp [fractionText, hp, hd]

theorem e_mem_text_iff (n : Numeral) : 'e' ∈ n.text ↔ n.exponent ≠ none := by
  have hfraction := n.not_mem_fractionText (c := 'e') rfl (by decide)
  rw [n.mem_text_iff rfl]
  cases n.exponent <;> simp [exponentText, hfraction]

end Numeral

end Calculator.Decimal
