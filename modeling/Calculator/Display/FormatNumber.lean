import Calculator.Ecma.Format

/-! # Numbers on the display

The presentation layer over the engine's display text. A finished value is
rounded to a number of significant digits, and written with an exponent when it
is very large or very small; an entry being typed only gets thousands grouping.
The main line throws exactly on a finished text that is not a finite number.
-/

namespace Calculator.Display

open Binary Decimal Ecma

structure FormatResultOptions where
  maxSignificant : Option ℕ := none

def defaultMaxSignificant : ℕ := 12

def exponentUpperBound : Float64 := .ofRat false (10 ^ 15)

def exponentLowerBound : Float64 := .ofRat false (1 / 10 ^ 6)

def notFiniteMessage (n : Float64) : Text :=
  "formatResult expects a finite number, got ".toList ++ string n

def formatFixed (value : Float64) (maxSignificant : ℕ) : Except RangeError Text := do
  let rounded := number (← toPrecision value maxSignificant)
  return if rounded = .negZero then ['0'] else string rounded

/-- The text without the zeros at the end of its fraction, and without the
point when no fraction is left. -/
def trimTrailingZeros (mantissa : Text) : Text :=
  if '.' ∉ mantissa then mantissa
  else
    let trimmed := dropTrailingZeros mantissa
    if trimmed.getLast? = some '.' then trimmed.dropLast else trimmed

/-- The first two pieces of a text that is split at each `c`. -/
def splitTwo (c : Char) (t : Text) : Text × Option Text :=
  match t.dropWhile (· ≠ c) with
  | [] => (t, none)
  | _ :: u => (t.takeWhile (· ≠ c), some (u.takeWhile (· ≠ c)))

def formatExponential (value : Float64) (maxSignificant : ℕ) : Except RangeError Text := do
  -- no fraction digits can be asked of a precision of zero
  let text ← match maxSignificant with
    | 0 => .error ⟨exponentialMessage⟩
    | p + 1 => toExponential value p
  let (mantissa, exponent) := splitTwo 'e' text
  return trimTrailingZeros mantissa ++ 'e' :: exponent.getD ['+', '0']

def formatResult (n : Float64) (options : FormatResultOptions) : Except RangeError Text :=
  let maxSignificant := options.maxSignificant.getD defaultMaxSignificant
  if !n.isFinite then .error ⟨notFiniteMessage n⟩
  else
    let value := n.withoutNegativeZero
    let magnitude := value.abs
    if !magnitude.isZero && (!magnitude.lt exponentUpperBound || magnitude.lt exponentLowerBound)
    then formatExponential value maxSignificant
    else formatFixed value maxSignificant

def groupIntegerPart (integerPart : Text) : Text :=
  if integerPart = [] then integerPart
  else
    let numeric := number integerPart
    if numeric.isFinite then formatEnUS numeric else integerPart

/-- An entry being typed, with grouping added to its integer part. -/
def formatEntry (raw : Text) : Text :=
  let negative := raw.head? = some '-'
  let unsigned := if negative then raw.drop 1 else raw
  let integerPart := unsigned.takeWhile (· ≠ '.')
  let fractionalPart := unsigned.dropWhile (· ≠ '.')
  (if negative then ['-'] else []) ++ (groupIntegerPart integerPart ++ fractionalPart)

/-- The number on the display, whose grouping commas are dropped. -/
def parseEntry (raw : Text) : Float64 :=
  let value := number (raw.filter (· ≠ ','))
  if value = .negZero then .zero else value

def formatMainValue (value : Text) (entering : Bool) : Except RangeError Text :=
  if entering then .ok (formatEntry value) else formatResult (parseEntry value) {}

example : formatResult (number "0.30000000000000004".toList) {} = .ok "0.3".toList := by
  decide +kernel
example : formatResult (number "-123456789012345678".toList) {} =
    .ok "-1.23456789012e+17".toList := by decide +kernel
example : formatEntry "-1234567.50".toList = "-1,234,567.50".toList := by decide +kernel

theorem formatFixed_ok (value : Float64) {p : ℕ} (h : 1 ≤ p) (h' : p ≤ 100) :
    ∃ t, formatFixed value p = .ok t := by
  obtain ⟨t, ht⟩ := toPrecision_ok value h h'
  exact ⟨_, by rw [formatFixed, ht]; rfl⟩

theorem formatExponential_ok (value : Float64) {p : ℕ} (h : 1 ≤ p) (h' : p ≤ 100) :
    ∃ t, formatExponential value p = .ok t := by
  obtain ⟨q, rfl⟩ := Nat.exists_eq_add_of_le' h
  obtain ⟨t, ht⟩ := toExponential_ok value (f := q) (by omega)
  exact ⟨_, by simp only [formatExponential, ht]; rfl⟩

theorem formatResult_ok {n : Float64} (h : n.isFinite = true) {options : FormatResultOptions}
    (hp : 1 ≤ options.maxSignificant.getD defaultMaxSignificant)
    (hp' : options.maxSignificant.getD defaultMaxSignificant ≤ 100) :
    ∃ t, formatResult n options = .ok t := by
  unfold formatResult
  simp only [h, Bool.not_true, Bool.false_eq_true, if_false]
  split
  · exact formatExponential_ok _ hp hp'
  · exact formatFixed_ok _ hp hp'

theorem formatResult_error {n : Float64} (h : n.isFinite = false) (options : FormatResultOptions) :
    formatResult n options = .error ⟨notFiniteMessage n⟩ := by
  simp [formatResult, h]

theorem isFinite_parseEntry (raw : Text) :
    (parseEntry raw).isFinite = (number (raw.filter (· ≠ ','))).isFinite := by
  unfold parseEntry
  dsimp only
  split
  · next h => rw [h]; rfl
  · rfl

/-- The main line is a string exactly if the text is still being typed or reads
as a finite number. -/
theorem formatMainValue_ok_iff {value : Text} {entering : Bool} :
    (∃ t, formatMainValue value entering = .ok t) ↔
      entering = true ∨ (number (value.filter (· ≠ ','))).isFinite = true := by
  rw [← isFinite_parseEntry]
  cases entering with
  | true => simp [formatMainValue]
  | false =>
    simp only [formatMainValue, Bool.false_eq_true, if_false, false_or]
    constructor
    · rintro ⟨t, ht⟩
      by_contra hf
      rw [formatResult_error (by simpa using hf)] at ht
      cases ht
    · intro hf
      exact formatResult_ok hf (by decide) (by decide)

end Calculator.Display
