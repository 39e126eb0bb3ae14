import Calculator.Display.FormatNumber
import Calculator.Ecma.Shortest
import Mathlib.Data.List.DropRight

/-! # Trimmed texts

What trimming leaves of a formatted number: the zeros at the end of a fraction
go, and the value stays. A trimmed numeral has no zero at the end of its
fraction, and no point without a fraction.
-/

namespace Calculator.Display

open Binary Decimal Ecma Float64

variable {t u v : Text} {c : Char} {s : Bool} {i : Fin finiteBound} {p n : ℕ}

theorem dropTrailingZeros_eq (t : Text) : dropTrailingZeros t = t.rdropWhile (· = '0') := rfl

theorem dropTrailingZeros_of_getLast (h : t.getLast? ≠ some '0') : dropTrailingZeros t = t := by
  rw [dropTrailingZeros_eq, List.rdropWhile_eq_self_iff]
  intro hne
  rw [List.getLast?_eq_some_getLast hne, ne_eq, Option.some.injEq] at h
  simpa using h

theorem getLast_dropTrailingZeros (t : Text) : (dropTrailingZeros t).getLast? ≠ some '0' := by
  by_cases hne : dropTrailingZeros t = []
  · simp [hne]
  · rw [List.getLast?_eq_some_getLast hne, ne_eq, Option.some.injEq]
    exact fun h => List.rdropWhile_last_not _ t hne (decide_eq_true h)

theorem exists_zeros (t : Text) : ∃ n, t = dropTrailingZeros t ++ zeros n := by
  induction t using List.reverseRecOn with
  | nil => exact ⟨0, rfl⟩
  | append_singleton t c ih =>
    rw [dropTrailingZeros_eq, List.rdropWhile_concat]
    split
    · next hc =>
      obtain ⟨n, hn⟩ := ih
      refine ⟨n + 1, ?_⟩
      rw [of_decide_eq_true hc, zeros, List.replicate_succ', ← List.append_assoc]
      exact congrArg (· ++ ['0']) hn
    · exact ⟨0, by simp [zeros]⟩

theorem dropTrailingZeros_append_zeros (t : Text) (n : ℕ) :
    dropTrailingZeros (t ++ zeros n) = dropTrailingZeros t := by
  induction n with
  | zero => simp [zeros]
  | succ n ih =>
    rw [zeros, List.replicate_succ', ← List.append_assoc, dropTrailingZeros_eq,
      List.rdropWhile_concat_pos _ _ _ (by decide)]
    exact ih

theorem dropTrailingZeros_append_cons (u : Text) (hc : c ≠ '0') (v : Text) :
    dropTrailingZeros (u ++ c :: v) = u ++ c :: dropTrailingZeros v := by
  induction v using List.reverseRecOn with
  | nil =>
    rw [dropTrailingZeros_eq, List.rdropWhile_concat_neg _ _ _ (by simpa using hc)]
    rfl
  | append_singleton v d ih =>
    rw [← List.cons_append, ← List.append_assoc, dropTrailingZeros_eq, dropTrailingZeros_eq,
      List.rdropWhile_concat, List.rdropWhile_concat]
    split
    · exact ih
    · rw [List.append_assoc, List.cons_append]

def trimmedFraction (v : Text) : Option Text :=
  if dropTrailingZeros v = [] then none else some (dropTrailingZeros v)

theorem getD_trimmedFraction (v : Text) : (trimmedFraction v).getD [] = dropTrailingZeros v := by
  unfold trimmedFraction
  split
  · next h => exact h.symm
  · rfl

/-- The fraction of a trimmed numeral does not end with a zero. -/
def Trimmed (f : Option Text) : Prop := ∀ t ∈ f, ∃ c, t.getLast? = some c ∧ c ≠ '0'

theorem trimmed_of_getLast (hne : t ≠ []) (h : t.getLast? ≠ some '0') : Trimmed (some t) := by
  rintro _ ⟨⟩
  refine ⟨t.getLast hne, List.getLast?_eq_some_getLast hne, ?_⟩
  rwa [List.getLast?_eq_some_getLast hne, ne_eq, Option.some.injEq] at h

theorem trimmed_trimmedFraction (v : Text) : Trimmed (trimmedFraction v) := by
  unfold trimmedFraction
  split
  · rintro t ⟨⟩
  · next hne => exact trimmed_of_getLast hne (getLast_dropTrailingZeros v)

theorem trimTrailingZeros_of_not_mem (h : '.' ∉ t) : trimTrailingZeros t = t := if_pos h

theorem trimTrailingZeros_pointed (u : Text) (hv : '.' ∉ v) :
    trimTrailingZeros (u ++ '.' :: v) = u ++ fractionText (trimmedFraction v) := by
  obtain ⟨n, hn⟩ := exists_zeros v
  have hpoint : '.' ∉ dropTrailingZeros v := fun h => hv (by
    rw [hn]
    exact List.mem_append_left _ h)
  simp only [trimTrailingZeros, List.mem_append, List.mem_cons, true_or, or_true, not_true_eq_false,
    if_false, dropTrailingZeros_append_cons u (show '.' ≠ '0' by decide), trimmedFraction]
  by_cases hnil : dropTrailingZeros v = []
  · rw [hnil]
    simp [fractionText]
  · have hlast : (u ++ '.' :: dropTrailingZeros v).getLast? ≠ some '.' := by
      rw [← List.singleton_append, ← List.append_assoc, List.getLast?_append_of_ne_nil _ hnil]
      exact fun h => hpoint (List.mem_of_getLast? h)
    rw [if_neg hlast, if_neg hnil]
    rfl

theorem trimTrailingZeros_mantissa (s : Bool) (hd : AllDigits (c :: u)) :
    trimTrailingZeros (signed s (mantissaText (c :: u))) =
      signed s (c :: fractionText (trimmedFraction u)) := by
  have hpoint : '.' ∉ c :: u := fun h => by cases hd '.' h
  obtain ⟨hc, hu⟩ := not_or.mp fun h => hpoint (List.mem_cons.mpr h)
  cases u with
  | nil =>
    refine trimTrailingZeros_of_not_mem (t := signed s [c]) ?_
    cases s <;> simp [hc]
  | cons d u =>
    have htrimmed := trimTrailingZeros_pointed (signed s [c]) hu
    rw [signed_append, signed_append] at htrimmed
    exact htrimmed

/-- The digits of a numeral without the zeros around them. -/
def significantDigits (m : Numeral) : Text :=
  (dropTrailingZeros m.digits).dropWhile (· = '0')

theorem length_dropTrailingZeros_le (t : Text) : (dropTrailingZeros t).length ≤ t.length :=
  (List.rdropWhile_prefix _ t).length_le

theorem length_significantDigits_le (m : Numeral) :
    (significantDigits m).length ≤ m.digits.length :=
  (List.length_dropWhile_le _ _).trans (length_dropTrailingZeros_le _)

theorem dropWhile_zeros_append (n : ℕ) (t : Text) :
    (zeros n ++ t).dropWhile (· = '0') = t.dropWhile (· = '0') := by
  apply List.dropWhile_append_of_pos
  intro d hd
  rw [List.eq_of_mem_replicate hd]
  rfl

theorem length_significantDigits_of_spells {m : Numeral} {k : ℤ} (hm : Spells m t k)
    (hlast : t.getLast? ≠ some '0') (hne : t ≠ []) :
    (significantDigits m).length ≤ t.length := by
  obtain ⟨a, b, hdigits, -⟩ := hm.digits
  have hlast' : (zeros a ++ t).getLast? ≠ some '0' := by
    rwa [List.getLast?_append_of_ne_nil _ hne]
  rw [significantDigits, hdigits, dropTrailingZeros_append_zeros,
    dropTrailingZeros_of_getLast hlast', dropWhile_zeros_append]
  exact List.length_dropWhile_le _ _

theorem trimmed_of_spells {m : Numeral} {k : ℤ} (hm : Spells m t k)
    (hlast : t.getLast? ≠ some '0') (hne : t ≠ []) : Trimmed m.fraction := by
  obtain ⟨a, b, hdigits, hfraction⟩ := hm.digits
  cases hf : m.fraction with
  | none =>
    rintro f ⟨⟩
  | some f =>
    obtain ⟨rfl, hfne⟩ := hfraction f (by simp [hf])
    apply trimmed_of_getLast hfne
    have heq := congrArg List.getLast? hdigits
    rw [Numeral.digits, hf, Option.getD_some, List.getLast?_append_of_ne_nil _ hfne] at heq
    rw [heq, zeros, zeros, List.replicate_zero, List.append_nil,
      List.getLast?_append_of_ne_nil _ hne]
    exact hlast

theorem splitTwo_append (hu : c ∉ u) (hv : c ∉ v) : splitTwo c (u ++ c :: v) = (u, some v) := by
  have hall {w : Text} (hw : c ∉ w) : ∀ d ∈ w, decide (d ≠ c) = true := fun d hd =>
    decide_eq_true (ne_of_mem_of_not_mem hd hw)
  have htake : v.takeWhile (· ≠ c) = v := List.takeWhile_eq_self_iff.mpr (hall hv)
  have hdrop : (c :: v).dropWhile (· ≠ c) = c :: v := List.dropWhile_cons_of_neg (by simp)
  have htake' : (c :: v).takeWhile (· ≠ c) = [] := List.takeWhile_cons_of_neg (by simp)
  rw [splitTwo, List.dropWhile_append_of_pos (hall hu), List.takeWhile_append_of_pos (hall hu),
    hdrop, htake', List.append_nil]
  exact congrArg (fun w => (u, some w)) htake

theorem not_mem_mantissa (hd : AllDigits t) : 'e' ∉ signed s (mantissaText t) := by
  have hmem : 'e' ∉ mantissaText t := by
    unfold mantissaText
    split
    · simp only [List.mem_cons, not_or]
      refine ⟨?_, by decide, ?_, ?_⟩
      · rintro rfl
        cases hd 'e' (by simp)
      · rintro rfl
        cases hd 'e' (by simp)
      · exact fun h => by cases hd 'e' (by simp [h])
    · exact fun h => by cases hd 'e' h
  cases s with
  | false => exact hmem
  | true => simpa using hmem

theorem not_mem_exponentPart (e : ℤ) :
    'e' ∉ (if (exponentPart e).1 then '-' else '+') :: (exponentPart e).2 := by
  rintro h
  rcases List.mem_cons.mp h with h | h
  · split at h <;> cases h
  · cases (exponentPart_digits e).1 'e' h

theorem value_trimmed (u : Text) (e : ℤ) :
    (digitsValue (c :: dropTrailingZeros u) : ℚ) * 10 ^ (e - (dropTrailingZeros u).length) =
      digitsValue (c :: u) * 10 ^ (e + 1 - (c :: u).length) := by
  obtain ⟨n, hn⟩ := exists_zeros u
  generalize dropTrailingZeros u = v at *
  subst hn
  have hvalue : digitsValue (c :: (v ++ zeros n)) = digitsValue (c :: v) * 10 ^ n := by
    rw [← List.cons_append, digitsValue_append, zeros, digitsValue_zeros, List.length_replicate,
      Nat.add_zero]
  have hexp : (n : ℤ) + (e + 1 - (c :: (v ++ zeros n)).length) = e - v.length := by
    simp only [List.length_cons, List.length_append, zeros, List.length_replicate]
    push_cast
    omega
  rw [hvalue]
  push_cast
  rw [mul_assoc, ← zpow_natCast, ← zpow_add₀ (by norm_num), ← hexp]

theorem formatExponential_numeral (hi : i.val ≠ 0) (hp : 1 ≤ p) (hp' : p ≤ 100) :
    ∃ m : Numeral, formatExponential (.finite s i) p = .ok (signed s m.text) ∧
      m.value = roundedValue (magnitude i) p ∧ m.exponent ≠ none ∧
      (significantDigits m).length ≤ p ∧ Trimmed m.fraction := by
  obtain ⟨q, rfl⟩ := Nat.exists_eq_add_of_le' hp
  obtain ⟨hd, hlen, -, -⟩ := roundedDigits_spec (magnitude_pos hi) hp
  have htext := toExponential_eq (s := s) hi (f := q) (by omega)
  have hvalue : roundedValue (magnitude i) (q + 1) =
      digitsValue (roundedDigits (magnitude i) (q + 1)).1 *
        10 ^ ((roundedDigits (magnitude i) (q + 1)).2 + 1 - (q + 1 : ℕ)) := rfl
  generalize roundedDigits (magnitude i) (q + 1) = r at *
  obtain ⟨t, e⟩ := r
  obtain ⟨c, u, rfl⟩ := List.exists_cons_of_length_eq_add_one hlen
  dsimp only at *
  obtain ⟨hc, hu⟩ := allDigits_cons.mp hd
  have hdropped : AllDigits (dropTrailingZeros u) := fun d hmem =>
    hu d ((List.rdropWhile_prefix _ u).subset hmem)
  have hfraction : ∀ f ∈ trimmedFraction u, AllDigits f := by
    intro f hf
    have heq := getD_trimmedFraction u
    rw [Option.mem_def.mp hf, Option.getD_some] at heq
    exact heq ▸ hdropped
  refine ⟨⟨[c], trimmedFraction u, some (exponentPart e), by simpa using hc, by simp, hfraction,
    fun x hx => Option.some.inj hx ▸ exponentPart_digits e⟩, ?_, ?_, by simp, ?_,
    trimmed_trimmedFraction u⟩
  · rw [← signed_append, exponentText] at htext
    simp only [formatExponential, htext]
    change Except.ok _ = Except.ok _
    rw [splitTwo_append (not_mem_mantissa hd) (not_mem_exponentPart e)]
    dsimp only
    rw [trimTrailingZeros_mantissa s hd, signed_append]
    simp [Numeral.text, exponentText]
  · simp only [Numeral.value, Numeral.digits, getD_trimmedFraction, exponentValue_exponentPart,
      List.singleton_append]
    rw [value_trimmed, hlen, hvalue]
  · refine (length_significantDigits_le _).trans ?_
    simp only [Numeral.digits, getD_trimmedFraction, List.singleton_append, List.length_cons]
    have hle := length_dropTrailingZeros_le u
    rw [List.length_cons] at hlen
    omega

end Calculator.Display
