import Calculator.Engine.Operands

/-! # Spoiled entries

A key that does not fit an entry in exponent form leaves a text that is not a
finite number. So the keys that fit are exactly those that keep the engine's
numbers finite.
-/

namespace Calculator.Engine

open Binary Decimal Ecma

/-- A mantissa and an exponent part that ends with the given text. -/
def withExponent (s : Bool) (n : Numeral) (negative : Bool) (t : Text) : Text :=
  signed s (n.whole ++ (fractionText n.fraction ++ 'e' :: (if negative then '-' else '+') :: t))

variable {s negative : Bool} {n : Numeral} {t : Text} {c : Char}

theorem withExponent_concat : withExponent s n negative (t ++ [c]) =
    withExponent s n negative t ++ [c] := by
  rw [withExponent, withExponent, signed_append]
  simp

theorem number_withExponent (h : t = [] ∨ ∃ c ∈ t, c.isDigit = false)
    (hchar : ∀ c ∈ t, Numeral.IsNumeralChar c) : number (withExponent s n negative t) = .nan := by
  apply number_signed_spoiled
  · cases negative <;> simp [scanSigned, scanDigits_eq_none h]
  · rw [List.forall_mem_cons]
    constructor
    · cases negative <;> simp [Numeral.IsNumeralChar]
    · exact hchar

theorem IsEntry.exists_withExponent (h : IsEntry t) (he : 'e' ∈ t) :
    ∃ s n negative x, t = withExponent s n negative x ∧ AllDigits x ∧ x ≠ [] := by
  obtain ⟨s, n, rfl, -, -⟩ := h
  obtain ⟨⟨negative, x⟩, hx⟩ := Option.ne_none_iff_exists'.mp (e_mem_iff.mp he)
  refine ⟨s, n, negative, x, ?_, n.exponent_digits _ hx⟩
  rw [Numeral.text, hx]
  rfl

theorem number_appendDigit_of_not_fits {d : Digit} (hfit : ¬ DigitFits t d) :
    (number (appendDigit t d)).isFinite = false := by
  rw [DigitFits, Classical.not_imp, Classical.not_imp, Bool.not_eq_true] at hfit
  obtain ⟨hplus, hcap, hfin⟩ := hfit
  have hzero : t ≠ ['0'] := by
    rintro rfl
    simp at hplus
  rwa [appendDigit, if_neg (not_le.mpr hcap), if_neg hzero]

theorem number_appendDecimal_of_not_fits (h : IsEntry t) (hfit : ¬ PointFits t) :
    number (appendDecimal t) = .nan := by
  rw [PointFits, Classical.not_imp] at hfit
  obtain ⟨he, hp⟩ := hfit
  obtain ⟨s, n, negative, x, rfl, hx, -⟩ := h.exists_withExponent he
  rw [appendDecimal, if_neg hp, ← withExponent_concat]
  apply number_withExponent
  · exact Or.inr ⟨'.', by simp, rfl⟩
  · intro c hc
    rcases List.mem_append.mp hc with hc | hc
    · exact Or.inl (hx c hc)
    · exact Or.inr (Or.inl (List.mem_singleton.mp hc))

theorem normaliseEntry_withExponent :
    normaliseEntry (withExponent s n negative t) = withExponent s n negative t := by
  have hmem : 'e' ∈ withExponent s n negative t := by cases s <;> simp [withExponent]
  apply if_neg
  rintro (hbad | hbad | hbad) <;> rw [hbad] at hmem <;> simp at hmem

theorem number_dropLastChar_of_not_fits (h : IsEntry t) (hfit : ¬ BackspaceFits t) :
    number (dropLastChar t) = .nan := by
  rw [BackspaceFits, Classical.not_imp] at hfit
  obtain ⟨he, hlast⟩ := hfit
  obtain ⟨s, n, negative, x, rfl, hx, hne⟩ := h.exists_withExponent he
  obtain ⟨y, c, rfl⟩ := (List.eq_nil_or_concat' x).resolve_left hne
  rw [withExponent_concat, List.dropLast_concat] at hlast
  rcases List.eq_nil_or_concat' y with rfl | ⟨z, d, rfl⟩
  · rw [dropLastChar, withExponent_concat, List.dropLast_concat, normaliseEntry_withExponent]
    exact number_withExponent (Or.inl rfl) (by simp)
  · rw [withExponent_concat, List.getLast?_concat] at hlast
    exact absurd (hx d (by simp)) hlast

/-- The keys that fit are those that keep the numbers of the engine finite. -/
theorem keyFits_iff_readable {c : CalcState} (h : Readable c) (k : Key) :
    KeyFits c k ↔ Readable (press c k).state := by
  constructor
  · intro hfit
    exact (h.press hfit).state
  · intro hr hphase
    have hfin := hr.display.isFinite
    cases k with
    | digit d =>
      by_contra hfit
      rw [press, inputDigit_of_entering hphase] at hfin
      cases hfin.symm.trans (number_appendDigit_of_not_fits hfit)
    | decimal =>
      by_contra hfit
      rw [press, inputDecimal_of_entering hphase, stay_state,
        number_appendDecimal_of_not_fits h.display hfit] at hfin
      cases hfin
    | backspace =>
      by_contra hfit
      rw [press, backspace_of_entering hphase, stay_state,
        number_dropLastChar_of_not_fits h.display hfit] at hfin
      cases hfin
    | toggleSign | clearEntry | operator _ | evaluate | unary _ => trivial

end Calculator.Engine
