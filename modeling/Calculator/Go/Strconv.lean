import Calculator.Decimal.Numeral

/-! # Conversions of texts

What the standard library of the server makes of the text of a setting: white
space is trimmed, integers are read and written in base ten, and a host and a
port are joined to an address.
-/

namespace Calculator.Go

open Decimal

def isSpace (c : Char) : Bool :=
  let n := c.toNat
  (0x09 ≤ n && n ≤ 0x0D) || (0x2000 ≤ n && n ≤ 0x200A) ||
    decide (n ∈ [0x20, 0x85, 0xA0, 0x1680, 0x2028, 0x2029, 0x202F, 0x205F, 0x3000])

def trimSpace (t : Text) : Text :=
  ((t.dropWhile isSpace).reverse.dropWhile isSpace).reverse

def minInt : ℤ := -2 ^ 63

def maxInt : ℤ := 2 ^ 63 - 1

def parseInt (t : Text) : Option ℤ :=
  (scanSigned t).filter fun n => minInt ≤ n ∧ n ≤ maxInt

def atoi (t : Text) : Option ℤ := parseInt t

def itoa (n : ℤ) : Text :=
  if n < 0 then '-' :: Nat.toDigits 10 n.natAbs else Nat.toDigits 10 n.natAbs

def parseBool (t : Text) : Option Bool :=
  if [['1'], ['t'], ['T'], "TRUE".toList, "true".toList, "True".toList].contains t then some true
  else if [['0'], ['f'], ['F'], "FALSE".toList, "false".toList, "False".toList].contains t then
    some false
  else none

/-- A host with a colon in it is an IPv6 address. -/
def joinHostPort (host port : Text) : Text :=
  if ':' ∈ host then '[' :: host ++ ']' :: ':' :: port else host ++ ':' :: port

variable {t : Text} {n : ℤ}

theorem atoi_eq_some_iff : atoi t = some n ↔ scanSigned t = some n ∧ minInt ≤ n ∧ n ≤ maxInt := by
  simp [atoi, parseInt, Option.filter_eq_some_iff]

theorem scanDigits_eq_some_iff {k : ℕ} :
    scanDigits t = some k ↔ AllDigits t ∧ t ≠ [] ∧ digitsValue t = k := by
  simp only [scanDigits, Option.ite_none_right_eq_some, List.all_eq_true, Option.some.injEq,
    AllDigits]
  tauto

theorem exists_digits_of_atoi (h : atoi t = some n) (hn : 0 < n) :
    ∃ ds, (t = ds ∨ t = '+' :: ds) ∧ AllDigits ds ∧ ds ≠ [] ∧ n = digitsValue ds := by
  obtain ⟨h, -, -⟩ := atoi_eq_some_iff.mp h
  unfold scanSigned at h
  split at h
  · obtain ⟨k, -, rfl⟩ : ∃ k : ℕ, scanDigits _ = some k ∧ -(k : ℤ) = n := by
      simpa [Option.bind_eq_some_iff] using h
    omega
  · next _ ds _ =>
    obtain ⟨k, hds, rfl⟩ : ∃ k : ℕ, scanDigits ds = some k ∧ (k : ℤ) = n := by
      simpa [Option.bind_eq_some_iff] using h
    obtain ⟨hall, hne, hk⟩ := scanDigits_eq_some_iff.mp hds
    exact ⟨ds, Or.inr rfl, hall, hne, by rw [hk]⟩
  · obtain ⟨k, hds, rfl⟩ : ∃ k : ℕ, scanDigits t = some k ∧ (k : ℤ) = n := by
      simpa [Option.bind_eq_some_iff] using h
    obtain ⟨hall, hne, hk⟩ := scanDigits_eq_some_iff.mp hds
    exact ⟨t, Or.inl rfl, hall, hne, by rw [hk]⟩

theorem itoa_natCast (n : ℕ) : itoa n = Nat.toDigits 10 n := by
  rw [itoa, if_neg (by omega), Int.natAbs_natCast]

/-- A positive number is written as it was read exactly if it was read without a
plus sign and leading zeros. -/
theorem itoa_eq_iff (h : atoi t = some n) (hn : 0 < n) :
    itoa n = t ↔ ∀ c ∈ t.head?, c ≠ '+' ∧ c ≠ '0' := by
  obtain ⟨ds, ht, hall, hne, rfl⟩ := exists_digits_of_atoi h hn
  rw [itoa_natCast]
  have hpos : 0 < digitsValue ds := by exact_mod_cast hn
  constructor
  · intro hwritten c hc
    rw [← hwritten] at hc
    constructor
    · rintro rfl
      have hplus := allDigits_toDigits (digitsValue ds) '+' (List.mem_of_mem_head? hc)
      cases hplus
    · rintro rfl
      exact head_toDigits_ne hpos hc
  · intro hhead
    rcases ht with rfl | rfl
    · exact toDigits_digitsValue hall hne fun h0 => (hhead '0' h0).2 rfl
    · exact absurd rfl (hhead '+' rfl).1

end Calculator.Go
