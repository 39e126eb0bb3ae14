import Mathlib.Data.List.TakeWhile
import Calculator.Binary.Integers
import Calculator.Display.FormatNumber

/-! # What grouping keeps

The integer digits of an entry are read as a number and written again. Nothing
but commas is added exactly if that number is one the digits spell without
rounding, or if they do not spell a finite number and are left alone.
-/

namespace Calculator.Display

open Binary Decimal Ecma Float64

def Ungrouped (raw : Text) : Prop :=
  ∃ s u, raw = signed s u ∧ u.head? ≠ some '-' ∧ ',' ∉ u

def integerPart (raw : Text) : Text :=
  (if raw.head? = some '-' then raw.drop 1 else raw).takeWhile (· ≠ '.')

/-- The digits of an integer that is a double, without leading zeros, or a text
that grouping leaves alone. -/
def KeepsDigits (u : Text) : Prop :=
  u = [] ∨ (number u).isFinite = false ∨ ∃ n i, u = Nat.toDigits 10 n ∧ magnitude i = n

variable {u : Text}

theorem comma_not_mem_toDigits (n : ℕ) : ',' ∉ Nat.toDigits 10 n := fun h => by
  cases allDigits_toDigits n ',' h

theorem number_toDigits (n : ℕ) : number (Nat.toDigits 10 n) = .ofRat false n := by
  rw [number_of_allDigits (allDigits_toDigits n) Nat.toDigits_ne_nil, digitsValue_toDigits]

theorem exists_of_filter_formatEnUS {s : Bool} {i : Fin finiteBound} (hp : '.' ∉ u)
    (hm : u.head? ≠ some '-') (hu : number u = .finite s i)
    (h : (formatEnUS (.finite s i)).filter (· ≠ ',') = u) :
    ∃ n, u = Nat.toDigits 10 n ∧ magnitude i = n := by
  simp only [formatEnUS] at h
  generalize hk : ⌊magnitude i * 1000 + 1 / 2⌋₊ = k at h
  have hfraction : fractionDigits (k % 1000) = [] := by
    apply (fractionDigits_eq_nil_or _).resolve_right
    intro hmem
    apply hp
    rw [← h]
    cases s <;> simp [hmem]
  have hdigits := filter_groupThousands (comma_not_mem_toDigits (k / 1000))
  have hkeep : (signed s (groupThousands (Nat.toDigits 10 (k / 1000)))).filter (· ≠ ',') =
      signed s (Nat.toDigits 10 (k / 1000)) := by
    cases s with
    | false => exact hdigits
    | true => simpa using hdigits
  rw [hfraction, List.append_nil, hkeep] at h
  cases s with
  | true =>
    rw [← h] at hm
    exact absurd rfl hm
  | false =>
    rw [signed_false] at h
    rw [← h, number_toDigits] at hu
    obtain ⟨n, hn⟩ := exists_magnitude_eq hu
    have hkn : k / 1000 = n := by
      rw [← hk, hn, floor_mul_add_half, Nat.mul_div_cancel n (by decide)]
    exact ⟨n, by rw [← h, hkn], hn⟩

theorem filter_groupIntegerPart_iff (hc : ',' ∉ u) (hp : '.' ∉ u) (hm : u.head? ≠ some '-') :
    (groupIntegerPart u).filter (· ≠ ',') = u ↔ KeepsDigits u := by
  have hself : u.filter (· ≠ ',') = u :=
    List.filter_eq_self.mpr fun c hmem => by simpa using ne_of_mem_of_not_mem hmem hc
  unfold groupIntegerPart
  by_cases hnil : u = []
  · rw [if_pos hnil]
    exact iff_of_true hself (Or.inl hnil)
  · rw [if_neg hnil]
    dsimp only
    cases hu : number u with
    | nan =>
      refine iff_of_true ?_ (Or.inr (Or.inl (by rw [hu]; rfl)))
      simpa [Float64.isFinite] using hself
    | infinity s =>
      refine iff_of_true ?_ (Or.inr (Or.inl (by rw [hu]; rfl)))
      simpa [Float64.isFinite] using hself
    | finite s i =>
      rw [isFinite_finite, if_pos rfl]
      constructor
      · intro h
        obtain ⟨n, hn, hi⟩ := exists_of_filter_formatEnUS hp hm hu h
        exact Or.inr (Or.inr ⟨n, i, hn, hi⟩)
      · rintro (h | h | ⟨n, j, rfl, hj⟩)
        · exact absurd h hnil
        · rw [hu] at h
          cases h
        · rw [number_toDigits, ← hj, ofRat_magnitude] at hu
          cases hu
          rw [formatEnUS_of_magnitude_eq hj]
          exact filter_groupThousands (comma_not_mem_toDigits n)

theorem head_signed_iff {s : Bool} (hm : u.head? ≠ some '-') :
    (signed s u).head? = some '-' ↔ s = true := by
  cases s with
  | false => simpa using hm
  | true => simp

theorem integerPart_signed {s : Bool} (hm : u.head? ≠ some '-') :
    integerPart (signed s u) = u.takeWhile (· ≠ '.') := by
  simp only [integerPart, head_signed_iff hm]
  cases s <;> rfl

theorem formatEntry_signed {s : Bool} (hm : u.head? ≠ some '-') :
    formatEntry (signed s u) =
      signed s (groupIntegerPart (u.takeWhile (· ≠ '.')) ++ u.dropWhile (· ≠ '.')) := by
  simp only [formatEntry, head_signed_iff hm]
  cases s <;> rfl

theorem filter_signed (s : Bool) (t : Text) :
    (signed s t).filter (· ≠ ',') = signed s (t.filter (· ≠ ',')) := by
  cases s <;> simp

/-- The entry is shown as it was typed, commas apart, exactly if grouping keeps
its integer part. -/
theorem filter_formatEntry_iff {raw : Text} (h : Ungrouped raw) :
    (formatEntry raw).filter (· ≠ ',') = raw ↔ KeepsDigits (integerPart raw) := by
  obtain ⟨s, u, rfl, hm, hc⟩ := h
  have hsub : ∀ {c}, c ∈ u.takeWhile (· ≠ '.') → c ∈ u :=
    fun h => List.takeWhile_subset _ h
  have hp : '.' ∉ u.takeWhile (· ≠ '.') := fun h => by
    simpa using List.mem_takeWhile_imp h
  have hm' : (u.takeWhile (· ≠ '.')).head? ≠ some '-' := by
    rw [List.head?_takeWhile]
    intro h
    exact hm (Option.filter_eq_some_iff.mp h).1
  have hdrop : (u.dropWhile (· ≠ '.')).filter (· ≠ ',') = u.dropWhile (· ≠ '.') :=
    List.filter_eq_self.mpr fun c hmem => by
      simpa using ne_of_mem_of_not_mem (List.dropWhile_subset _ hmem) hc
  have hsplit := List.takeWhile_append_dropWhile (p := (· ≠ '.')) (l := u)
  rw [integerPart_signed hm, ← filter_groupIntegerPart_iff (fun h => hc (hsub h)) hp hm',
    formatEntry_signed hm, filter_signed, List.filter_append, hdrop]
  constructor
  · intro h
    have hu : (groupIntegerPart (u.takeWhile (· ≠ '.'))).filter (· ≠ ',') ++
        u.dropWhile (· ≠ '.') = u := by
      cases s with
      | false => exact h
      | true => exact (List.cons.inj h).2
    exact List.append_cancel_right (hu.trans hsplit.symm)
  · intro h
    rw [h, hsplit]

end Calculator.Display
