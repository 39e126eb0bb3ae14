import Calculator.Binary.Float64
import Calculator.Decimal.Numeral

/-! # Text to number

ECMAScript's `Number` on a string: white space around the literal is dropped,
the empty string is zero, a literal is a decimal with an optional sign, an
unsigned hexadecimal, octal or binary integer, or a signed `Infinity`, and
every other string is not a number.
-/

namespace Calculator.Ecma

open Binary Decimal

def isSpace (c : Char) : Bool :=
  c.toNat ∈ [0x09, 0x0A, 0x0B, 0x0C, 0x0D, 0x20, 0xA0, 0x1680, 0x2028, 0x2029, 0x202F, 0x205F,
    0x3000, 0xFEFF] || (0x2000 ≤ c.toNat && c.toNat ≤ 0x200A)

def trim (t : Text) : Text :=
  ((t.dropWhile isSpace).reverse.dropWhile isSpace).reverse

/-- The value of a character as a digit in a base up to sixteen. -/
def digitOf (c : Char) : ℕ :=
  if c.isDigit then c.toNat - '0'.toNat
  else if 'a' ≤ c ∧ c ≤ 'f' then c.toNat - 'a'.toNat + 10
  else if 'A' ≤ c ∧ c ≤ 'F' then c.toNat - 'A'.toNat + 10
  else 16

/-- The integer spelled in the given base, if every character is a digit of it. -/
def scanBase (base : ℕ) (t : Text) : Option ℕ :=
  if t ≠ [] ∧ t.all (fun c => digitOf c < base) then
    some (t.foldl (fun n c => base * n + digitOf c) 0)
  else none

/-- A literal with a base prefix, and `none` when there is no such prefix. -/
def scanPrefixed : Text → Option (Option ℕ)
  | '0' :: c :: t =>
    if c = 'x' ∨ c = 'X' then some (scanBase 16 t)
    else if c = 'o' ∨ c = 'O' then some (scanBase 8 t)
    else if c = 'b' ∨ c = 'B' then some (scanBase 2 t)
    else none
  | _ => none

def infinityText : Text := ['I', 'n', 'f', 'i', 'n', 'i', 't', 'y']

def unsignedNumber (negative : Bool) (t : Text) : Float64 :=
  if t = infinityText then .infinity negative
  else match scanDecimal t with
    | some q => .ofRat negative q
    | none => .nan

def signedNumber : Text → Float64
  | '-' :: t => unsignedNumber true t
  | '+' :: t => unsignedNumber false t
  | t => unsignedNumber false t

def number (text : Text) : Float64 :=
  match trim text with
  | [] => .zero
  | t =>
    match scanPrefixed t with
    | some (some n) => .ofRat false n
    | some none => .nan
    | none => signedNumber t

/-- A text with a minus sign in front, if negative. -/
def signed (negative : Bool) (t : Text) : Text := if negative then '-' :: t else t

@[simp] theorem signed_false (t : Text) : signed false t = t := rfl
@[simp] theorem signed_true (t : Text) : signed true t = '-' :: t := rfl

theorem signed_append (s : Bool) (t u : Text) : signed s t ++ u = signed s (t ++ u) := by
  cases s <;> rfl

theorem isSpace_of_isNumeralChar {c : Char} (h : Numeral.IsNumeralChar c) : isSpace c = false := by
  rcases h with h | rfl | rfl | rfl | rfl
  · simp only [Char.isDigit, Bool.and_eq_true, decide_eq_true_eq] at h
    have h₁ : 48 ≤ c.toNat := h.1
    have h₂ : c.toNat ≤ 57 := h.2
    simp only [isSpace, List.mem_cons, List.not_mem_nil, Bool.or_eq_false_iff,
      decide_eq_false_iff_not, Bool.and_eq_false_iff, or_false]
    omega
  all_goals decide

theorem trim_eq_self {t : Text} (h : ∀ c ∈ t, isSpace c = false) : trim t = t := by
  have hdrop : ∀ s : Text, (∀ c ∈ s, isSpace c = false) → s.dropWhile isSpace = s := by
    intro s hs
    cases s with
    | nil => rfl
    | cons c s => simp [hs c (by simp)]
  rw [trim, hdrop t h, hdrop _ (by simpa using h), List.reverse_reverse]

theorem isNumeralChar_of_mem_signed {s : Bool} (n : Numeral) {c : Char}
    (h : c ∈ signed s n.text) : Numeral.IsNumeralChar c := by
  cases s with
  | false => exact n.isNumeralChar_of_mem_text h
  | true =>
    rcases List.mem_cons.mp h with rfl | h
    · exact Or.inr (Or.inr (Or.inr (Or.inl rfl)))
    · exact n.isNumeralChar_of_mem_text h

theorem scanPrefixed_eq_none {t : Text} (h : ∀ c ∈ t, Numeral.IsNumeralChar c) :
    scanPrefixed t = none := by
  unfold scanPrefixed
  split
  · next c t =>
    have hc : Numeral.IsNumeralChar c := h c (by simp)
    rw [if_neg, if_neg, if_neg]
    all_goals
      rintro (rfl | rfl) <;> simp [Numeral.IsNumeralChar, Char.isDigit] at hc
  · rfl

theorem unsignedNumber_eq (negative : Bool) {t : Text} (h : ∀ c ∈ t, Numeral.IsNumeralChar c) :
    unsignedNumber negative t = ((scanDecimal t).map (Float64.ofRat negative)).getD .nan := by
  have hne : t ≠ infinityText := by
    intro ht
    have hI : 'I' ∈ t := by rw [ht]; simp [infinityText]
    simpa [Numeral.IsNumeralChar, Char.isDigit] using h 'I' hI
  rw [unsignedNumber, if_neg hne]
  cases scanDecimal t <;> rfl

theorem signedNumber_of_isDigit {c : Char} (hc : c.isDigit = true) (t : Text) :
    signedNumber (c :: t) = unsignedNumber false (c :: t) := by
  unfold signedNumber
  split
  · next h =>
    cases h
    cases hc
  · next h =>
    cases h
    cases hc
  · rfl

theorem number_signed (s : Bool) {c : Char} {t : Text} (hc : c.isDigit = true)
    (h : ∀ d ∈ c :: t, Numeral.IsNumeralChar d) :
    number (signed s (c :: t)) = ((scanDecimal (c :: t)).map (Float64.ofRat s)).getD .nan := by
  have hchar : ∀ d ∈ signed s (c :: t), Numeral.IsNumeralChar d := by
    cases s with
    | false => exact h
    | true => exact List.forall_mem_cons.mpr ⟨Or.inr (Or.inr (Or.inr (Or.inl rfl))), h⟩
  have hne : signed s (c :: t) ≠ [] := by cases s <;> simp
  rw [number, trim_eq_self fun d hd => isSpace_of_isNumeralChar (hchar d hd)]
  split
  · next h => exact absurd h hne
  · rw [scanPrefixed_eq_none hchar, ← unsignedNumber_eq s h]
    cases s with
    | true => rfl
    | false => exact signedNumber_of_isDigit hc t

theorem number_signed_append (s : Bool) (n : Numeral) {t : Text} (ht : Numeral.EndsMantissa t)
    (h : ∀ c ∈ t, Numeral.IsNumeralChar c) :
    number (signed s (n.whole ++ (fractionText n.fraction ++ t))) =
      ((scanExponent t).map fun e : ℤ => Float64.ofRat s
        ((digitsValue n.digits : ℚ) * 10 ^ (e - (n.fraction.getD []).length))).getD .nan := by
  obtain ⟨c, w, hw⟩ := List.exists_cons_of_ne_nil n.whole_ne
  have hc : c.isDigit = true := n.whole_digits c (by simp [hw])
  have hscan := n.scanDecimal_append ht
  have hchar : ∀ d ∈ n.whole ++ (fractionText n.fraction ++ t), Numeral.IsNumeralChar d := by
    intro d hd
    rw [← List.append_assoc, List.mem_append] at hd
    rcases hd with hd | hd
    · apply n.isNumeralChar_of_mem_text
      rw [Numeral.text, ← List.append_assoc]
      exact List.mem_append_left _ hd
    · exact h d hd
  rw [hw, List.cons_append] at hscan hchar ⊢
  rw [number_signed s hc hchar, hscan, Option.map_map]
  rfl

/-- The number of a signed numeral is its correctly rounded value. -/
theorem number_signed_text (s : Bool) (n : Numeral) :
    number (signed s n.text) = .ofRat s n.value := by
  have hchar : ∀ c ∈ exponentText n.exponent, Numeral.IsNumeralChar c := by
    intro c hc
    apply n.isNumeralChar_of_mem_text
    rw [Numeral.text, ← List.append_assoc]
    exact List.mem_append_right _ hc
  rw [Numeral.text, number_signed_append s n (Numeral.endsMantissa_exponentText _) hchar,
    Numeral.scanExponent_text]
  rfl

theorem number_of_allDigits {t : Text} (h : AllDigits t) (hne : t ≠ []) :
    number t = .ofRat false (digitsValue t) := by
  have hn := number_signed_text false ⟨t, none, none, h, hne, nofun, nofun⟩
  simpa [Numeral.text, Numeral.value, Numeral.digits, fractionText, exponentText,
    exponentValue] using hn

theorem number_signed_spoiled (s : Bool) (n : Numeral) {t : Text} (ht : scanSigned t = none)
    (h : ∀ c ∈ t, Numeral.IsNumeralChar c) :
    number (signed s (n.whole ++ (fractionText n.fraction ++ 'e' :: t))) = .nan := by
  have hchar : ∀ c ∈ 'e' :: t, Numeral.IsNumeralChar c :=
    List.forall_mem_cons.mpr ⟨Or.inr (Or.inr (Or.inl rfl)), h⟩
  rw [number_signed_append s n (Numeral.endsMantissa_cons rfl (by decide)) hchar, scanExponent,
    if_pos (Or.inl rfl), ht]
  rfl

end Calculator.Ecma
