import Calculator.Engine.Reference
import Calculator.Runs.Machine

/-! # The texts that can be typed

The edit keys are digits, the point, the sign and backspace. Pressed from a
state in which a digit opens an entry, they leave exactly the plain decimal
literals on the display: no leading zeros, no negative zero, and no more digits
than an entry may have.
-/

namespace Calculator.Engine

open Decimal Ecma Reference Runs

theorem Digit.char_eq_ofNat (d : Digit) : d.char = Char.ofNat (48 + d) := by
  revert d
  decide

theorem Digit.exists_char {c : Char} (hc : c.isDigit = true) : ∃ d : Digit, d.char = c := by
  simp only [Char.isDigit, Bool.and_eq_true, decide_eq_true_eq] at hc
  have h₁ : 48 ≤ c.toNat := hc.1
  have h₂ : c.toNat ≤ 57 := hc.2
  refine ⟨⟨c.toNat - 48, by omega⟩, ?_⟩
  rw [Digit.char_eq_ofNat, Nat.add_sub_cancel' h₁, Char.ofNat_toNat]

/-- `0`, or digits of which the first is not `0`. -/
inductive IsWhole : Text → Prop
  | zero : IsWhole ['0']
  | digits {c : Char} {t : Text} (hc : c.isDigit = true) (hne : c ≠ '0') (ht : AllDigits t) :
    IsWhole (c :: t)

/-- The parts of a literal. There is a point if there is a fraction, which may
be empty. -/
structure Literal where
  negative : Bool
  whole : Text
  fraction : Option Text
  isWhole : IsWhole whole
  fraction_digits : ∀ f ∈ fraction, AllDigits f
  length_le : whole.length + (fraction.getD []).length ≤ maxEntryDigits
  ne_negativeZero : negative = true → fraction = none → whole ≠ ['0']

theorem IsWhole.allDigits {w : Text} (h : IsWhole w) : AllDigits w := by
  cases h with
  | zero => exact allDigits_cons.mpr ⟨rfl, allDigits_nil⟩
  | digits hc hne ht => exact allDigits_cons.mpr ⟨hc, ht⟩

theorem IsWhole.ne_nil {w : Text} (h : IsWhole w) : w ≠ [] := by
  cases h <;> simp

theorem IsWhole.concat {w : Text} (h : IsWhole w) (hw : w ≠ ['0']) {c : Char}
    (hc : c.isDigit = true) : IsWhole (w ++ [c]) := by
  cases h with
  | zero => exact absurd rfl hw
  | digits hd hne ht =>
    exact .digits hd hne (allDigits_append.mpr ⟨ht, allDigits_cons.mpr ⟨hc, allDigits_nil⟩⟩)

theorem IsWhole.of_concat {w : Text} {c : Char} (h : IsWhole (w ++ [c])) (hw : w ≠ []) :
    IsWhole w := by
  generalize hv : w ++ [c] = v at h
  cases h with
  | zero => exact absurd (List.append_eq_singleton_iff.mp hv) (by simp [hw])
  | digits hd hne ht =>
    obtain ⟨d, t, rfl⟩ := List.exists_cons_of_ne_nil hw
    cases hv
    exact .digits hd hne (allDigits_append.mp ht).1

theorem IsWhole.toDigits_digitsValue {w : Text} (h : IsWhole w) :
    Nat.toDigits 10 (digitsValue w) = w := by
  cases h with
  | zero => rfl
  | digits hc hne ht =>
    exact Decimal.toDigits_digitsValue (allDigits_cons.mpr ⟨hc, ht⟩) (by simp) (by simpa using hne)

namespace Literal

def numeral (l : Literal) : Numeral where
  whole := l.whole
  fraction := l.fraction
  exponent := none
  whole_digits := l.isWhole.allDigits
  whole_ne := l.isWhole.ne_nil
  fraction_digits := l.fraction_digits
  exponent_digits := nofun

def text (l : Literal) : Text := signed l.negative (l.whole ++ fractionText l.fraction)

variable (l : Literal)

theorem text_eq_signed : l.text = signed l.negative l.numeral.text := by
  simp [text, numeral, Numeral.text, exponentText]

theorem countDigits_text :
    countDigits l.text = l.whole.length + (l.fraction.getD []).length := by
  have hw : l.whole.filter Char.isDigit = l.whole :=
    List.filter_eq_self.mpr l.isWhole.allDigits
  have hf : (fractionText l.fraction).filter Char.isDigit = l.fraction.getD [] := by
    cases hf : l.fraction with
    | none => rfl
    | some f =>
      have hd : f.filter Char.isDigit = f :=
        List.filter_eq_self.mpr (l.fraction_digits f (by simp [hf]))
      simpa [fractionText] using hd
  unfold countDigits text
  cases l.negative <;> simp [hw, hf]

end Literal

/-- The texts of the literals. -/
def IsLiteral (t : Text) : Prop := ∃ l : Literal, l.text = t

theorem isLiteral_digit (d : Digit) : IsLiteral [d.char] := by
  have hw : IsWhole [d.char] := by
    by_cases h0 : d.char = '0'
    · rw [h0]
      exact .zero
    · exact .digits d.isDigit_char h0 allDigits_nil
  exact ⟨⟨false, [d.char], none, hw, by simp, by simp [maxEntryDigits], by simp⟩, rfl⟩

theorem isLiteral_zero_point : IsLiteral ['0', '.'] :=
  ⟨⟨false, ['0'], some [], .zero, by simp, by decide, by simp⟩, rfl⟩

theorem isLiteral_appendDigit {t : Text} (h : IsLiteral t) (d : Digit) :
    IsLiteral (appendDigit t d) := by
  obtain ⟨l, rfl⟩ := h
  unfold appendDigit
  split
  · exact ⟨l, rfl⟩
  · next hcap =>
    rw [l.countDigits_text, not_le] at hcap
    split
    · exact isLiteral_digit d
    · next h0 =>
      have hd : AllDigits [d.char] := allDigits_cons.mpr ⟨d.isDigit_char, allDigits_nil⟩
      rcases hf : l.fraction with - | f
      · -- the digits before the point grow, and they are not `0`
        have hw : l.whole ≠ ['0'] := by
          intro hw
          cases hn : l.negative with
          | false => exact h0 (by simp [Literal.text, hn, hw, hf, fractionText])
          | true => exact l.ne_negativeZero hn hf hw
        refine ⟨⟨l.negative, l.whole ++ [d.char], none, l.isWhole.concat hw d.isDigit_char,
          by simp, ?_, ?_⟩, ?_⟩
        · simpa [hf, Nat.succ_le_iff] using hcap
        · rintro - - hw'
          exact hw (by simpa [l.isWhole.ne_nil] using congrArg List.dropLast hw')
        · simp [Literal.text, hf, fractionText, signed_append]
      · refine ⟨⟨l.negative, l.whole, some (f ++ [d.char]), l.isWhole, ?_, ?_, by simp⟩, ?_⟩
        · rintro g ⟨⟩
          exact allDigits_append.mpr ⟨l.fraction_digits f (by simp [hf]), hd⟩
        · simp only [hf, Option.getD_some, List.length_append, List.length_singleton] at hcap ⊢
          omega
        · simp [Literal.text, hf, fractionText, signed_append]

theorem isLiteral_appendDecimal {t : Text} (h : IsLiteral t) : IsLiteral (appendDecimal t) := by
  obtain ⟨l, rfl⟩ := h
  unfold appendDecimal
  split
  · exact ⟨l, rfl⟩
  · next hp =>
    rw [l.text_eq_signed, point_mem_iff, not_not] at hp
    have hf : l.fraction = none := hp
    refine ⟨⟨l.negative, l.whole, some [], l.isWhole, by simp, ?_, by simp⟩, ?_⟩
    · simpa [hf] using l.length_le
    · simp [Literal.text, hf, fractionText, signed_append]

theorem isLiteral_normaliseEntry {s : Bool} {w : Text} {f : Option Text} (hw : IsWhole w)
    (hf : ∀ g ∈ f, AllDigits g) (hlen : w.length + (f.getD []).length ≤ maxEntryDigits) :
    IsLiteral (normaliseEntry (signed s (w ++ fractionText f))) := by
  unfold normaliseEntry
  split
  · exact isLiteral_digit 0
  · next hne =>
    refine ⟨⟨s, w, f, hw, hf, hlen, ?_⟩, rfl⟩
    rintro rfl rfl rfl
    exact hne (Or.inr (Or.inr rfl))

theorem isLiteral_toggleEntrySign {t : Text} (h : IsLiteral t) :
    IsLiteral (toggleEntrySign t) := by
  obtain ⟨l, rfl⟩ := h
  have ht : (if l.text.head? = some '-' then l.text.drop 1 else '-' :: l.text) =
      signed (!l.negative) (l.whole ++ fractionText l.fraction) := by
    cases hn : l.negative with
    | true => simp [Literal.text, hn]
    | false =>
      have hhead : l.text.head? ≠ some '-' := by
        rw [l.text_eq_signed, hn]
        exact head_text_ne
      rw [if_neg hhead]
      simp [Literal.text, hn]
  rw [toggleEntrySign, ht]
  exact isLiteral_normaliseEntry l.isWhole l.fraction_digits l.length_le

theorem isLiteral_dropLastChar {t : Text} (h : IsLiteral t) : IsLiteral (dropLastChar t) := by
  obtain ⟨l, rfl⟩ := h
  have hlen := l.length_le
  have hd := l.fraction_digits
  have hne : l.whole ++ fractionText l.fraction ≠ [] := by simp [l.isWhole.ne_nil]
  rw [dropLastChar, Literal.text, dropLast_signed hne]
  rcases hf : l.fraction with - | f
  · simp only [fractionText, List.append_nil]
    obtain ⟨w, c, hw⟩ := (List.eq_nil_or_concat' l.whole).resolve_left l.isWhole.ne_nil
    rw [hw, List.dropLast_concat]
    by_cases hnil : w = []
    · -- the only digit goes, and the sign with it
      have : normaliseEntry (signed l.negative w) = ['0'] := by
        subst hnil
        cases l.negative <;> rfl
      rw [this]
      exact isLiteral_digit 0
    · have hwhole : IsWhole w := (hw ▸ l.isWhole).of_concat hnil
      have := isLiteral_normaliseEntry (s := l.negative) (f := none) hwhole (by simp)
        (by simp only [hw, List.length_append, List.length_singleton] at hlen; simp; omega)
      simpa [fractionText] using this
  · rw [fractionText, List.dropLast_append_of_ne_nil (by simp)]
    rw [hf] at hd hlen
    rcases List.eq_nil_or_concat' f with rfl | ⟨g, c, rfl⟩
    · exact isLiteral_normaliseEntry (f := none) l.isWhole (by simp) hlen
    · have hg : AllDigits g := (allDigits_append.mp (hd _ rfl)).1
      rw [← List.cons_append, List.dropLast_concat]
      refine isLiteral_normaliseEntry (f := some g) l.isWhole (by simpa using hg) ?_
      simp only [Option.getD_some, List.length_append, List.length_singleton] at hlen ⊢
      omega

theorem IsLiteral.apply {t : Text} (h : IsLiteral t) (e : Edit) : IsLiteral (e.apply t) := by
  cases e with
  | digit d => exact isLiteral_appendDigit h d
  | decimal => exact isLiteral_appendDecimal h
  | toggleSign => exact isLiteral_toggleEntrySign h
  | backspace => exact isLiteral_dropLastChar h

/-- The edit keys, pressed as long as an entry is being typed. -/
def typing (c : CalcState) : Machine CalcState Edit where
  start := c
  next state e :=
    if (press state e.key).state.phase.entering then some (press state e.key).state else none

/-- The text is on the display after one or more edit keys. -/
def CanType (c : CalcState) (t : Text) : Prop :=
  ∃ e es c', (typing c).Run c (e :: es) c' ∧ c'.display = t

section Typing

variable {c c' d : CalcState} {e : Edit} {t : Text}

theorem typing_next_iff : (typing c).next c' e = some d ↔
    (press c' e.key).state = d ∧ d.phase.entering = true := by
  simp only [typing, Option.ite_none_right_eq_some, Option.some.injEq]
  constructor
  · rintro ⟨h, rfl⟩
    exact ⟨rfl, h⟩
  · rintro ⟨rfl, h⟩
    exact ⟨h, rfl⟩

theorem appendDigit_zero (d : Digit) : appendDigit ['0'] d = [d.char] := by
  simp [appendDigit, countDigits, maxEntryDigits]

theorem isLiteral_press (hc : c.phase.entering = false)
    (h : (press c e.key).state.phase.entering = true) :
    IsLiteral (press c e.key).state.display := by
  obtain ⟨phase, display, a, b, operator, error, last⟩ := c
  cases e with
  | digit d =>
    have hd := isLiteral_digit d
    cases phase with
    | enteringA | enteringB => cases hc
    | idle | result | error | operatorSelected =>
      simpa [Edit.key, press, inputDigit, appendDigit_zero] using hd
  | decimal =>
    cases phase with
    | enteringA | enteringB => cases hc
    | idle | result | error | operatorSelected => exact isLiteral_zero_point
  | toggleSign | backspace =>
    cases phase with
    | enteringA | enteringB => cases hc
    | idle | result | error | operatorSelected => cases h

/-- Whatever the edit keys leave on the display is a literal. -/
theorem CanType.isLiteral (hc : c.phase.entering = false) (h : CanType c t) : IsLiteral t := by
  obtain ⟨e, es, c', hrun, rfl⟩ := h
  obtain ⟨c₁, -, hn, hrun⟩ := Machine.runWhen_cons_iff.mp hrun
  obtain ⟨rfl, he⟩ := typing_next_iff.mp hn
  refine (hrun.preserves (I := fun s => s.phase.entering = true ∧ IsLiteral s.display)
    ?_ ⟨he, isLiteral_press hc he⟩).2
  rintro s e s' ⟨hs, hl⟩ - hn
  obtain ⟨rfl, hs'⟩ := typing_next_iff.mp hn
  refine ⟨hs', ?_⟩
  rw [press_edit hs]
  exact hl.apply e

theorem run_typing (es : List Edit) (h : c'.phase.entering = true) :
    (typing c).Run c' es { c' with display := es.foldl Edit.apply c'.display } := by
  induction es generalizing c' with
  | nil => exact .nil c'
  | cons e es ih =>
    have hn : (typing c).next c' e = some { c' with display := e.apply c'.display } := by
      rw [typing_next_iff, press_edit h]
      exact ⟨rfl, h⟩
    exact .cons trivial hn (ih h)

theorem canType_foldl (hc : c.phase.entering = false) (d : Digit) (es : List Edit) :
    CanType c (es.foldl Edit.apply [d.char]) := by
  have hphase : (press c (Edit.digit d).key).state.phase.entering = true ∧
      (press c (Edit.digit d).key).state.display = [d.char] := by
    rw [← appendDigit_zero]
    cases hp : c.phase with
    | enteringA | enteringB =>
      rw [hp] at hc
      cases hc
    | idle | result | error | operatorSelected =>
      simp [Edit.key, press, inputDigit, hp, Phase.entering]
  refine ⟨.digit d, es, _, .cons trivial (typing_next_iff.mpr ⟨rfl, hphase.1⟩)
    (run_typing es hphase.1), ?_⟩
  rw [← hphase.2]

end Typing

theorem exists_digits {t : Text} (h : AllDigits t) : ∃ ds : List Digit, ds.map Digit.char = t := by
  induction t with
  | nil => exact ⟨[], rfl⟩
  | cons c t ih =>
    obtain ⟨hc, ht⟩ := allDigits_cons.mp h
    obtain ⟨d, rfl⟩ := Digit.exists_char hc
    obtain ⟨ds, rfl⟩ := ih ht
    exact ⟨d :: ds, rfl⟩

theorem foldl_digits {t : Text} (hne : t ≠ []) (h0 : t ≠ ['0']) (ds : List Digit)
    (hcap : countDigits t + ds.length ≤ maxEntryDigits) :
    (ds.map Edit.digit).foldl Edit.apply t = t ++ ds.map Digit.char := by
  induction ds generalizing t with
  | nil => simp
  | cons d ds ih =>
    rw [List.length_cons] at hcap
    have hcount : countDigits (t ++ [d.char]) = countDigits t + 1 := by
      simp [countDigits, d.isDigit_char]
    have happ : Edit.apply t (.digit d) = t ++ [d.char] := by
      rw [Edit.apply, appendDigit, if_neg (by omega), if_neg h0]
    have hne' : t ++ [d.char] ≠ ['0'] := fun h =>
      hne (by simpa using congrArg List.dropLast h)
    rw [List.map_cons, List.foldl_cons, happ, ih (by simp) hne' (by omega)]
    simp

/-- Edits lead from the first text to the second. -/
def Leads (t u : Text) : Prop := ∃ es : List Edit, es.foldl Edit.apply t = u

theorem Leads.trans {t u v : Text} (h : Leads t u) (h' : Leads u v) : Leads t v := by
  obtain ⟨es, rfl⟩ := h
  obtain ⟨fs, rfl⟩ := h'
  exact ⟨es ++ fs, List.foldl_append⟩

theorem leads_digits {t u : Text} (hne : t ≠ []) (h0 : t ≠ ['0']) (hu : AllDigits u)
    (hcap : countDigits t + u.length ≤ maxEntryDigits) : Leads t (t ++ u) := by
  obtain ⟨ds, rfl⟩ := exists_digits hu
  exact ⟨ds.map Edit.digit, foldl_digits hne h0 ds (by simpa using hcap)⟩

theorem leads_whole {w : Text} (h : IsWhole w) (hlen : w.length ≤ maxEntryDigits) :
    ∃ d : Digit, Leads [d.char] w := by
  cases h with
  | zero => exact ⟨0, [], rfl⟩
  | digits hc hne ht =>
    obtain ⟨d, rfl⟩ := Digit.exists_char hc
    refine ⟨d, leads_digits (by simp) (by simpa using hne) ht ?_⟩
    have hcount : countDigits [d.char] = 1 := by simp [countDigits, d.isDigit_char]
    rw [List.length_cons] at hlen
    omega

theorem leads_fraction {w : Text} {f : Option Text} (hw : IsWhole w)
    (hf : ∀ g ∈ f, AllDigits g) (hlen : w.length + (f.getD []).length ≤ maxEntryDigits) :
    Leads w (w ++ fractionText f) := by
  cases f with
  | none => exact ⟨[], by simp [fractionText]⟩
  | some g =>
    have hpoint : Leads w (w ++ ['.']) := by
      have hp : '.' ∉ w := fun h => by cases hw.allDigits '.' h
      exact ⟨[.decimal], if_neg hp⟩
    have hcount : countDigits (w ++ ['.']) = w.length := by
      have hd : w.filter Char.isDigit = w := List.filter_eq_self.mpr hw.allDigits
      simp [countDigits, hd]
    have hdigits : Leads (w ++ ['.']) (w ++ ['.'] ++ g) :=
      leads_digits (by simp) (fun h => by simpa using congrArg List.getLast? h) (hf g rfl)
        (by rw [hcount]; exact hlen)
    rw [fractionText]
    simpa using hpoint.trans hdigits

/-- The sign comes last: on the first digit alone it could be refused. -/
theorem Literal.leads_sign (l : Literal) : Leads (l.whole ++ fractionText l.fraction) l.text := by
  have hhead : (l.whole ++ fractionText l.fraction).head? ≠ some '-' := by
    have := head_text_ne (n := l.numeral)
    simpa [Literal.numeral, Numeral.text, exponentText] using this
  cases hn : l.negative with
  | false => exact ⟨[], by simp [Literal.text, hn]⟩
  | true =>
    refine ⟨[.toggleSign], ?_⟩
    rw [List.foldl_cons, Edit.apply, toggleEntrySign, if_neg hhead, Literal.text, hn]
    apply if_neg
    rintro (h | h | h)
    · cases h
    · simp [l.isWhole.ne_nil] at h
    · have hzero := List.append_eq_singleton_iff.mp (List.cons.inj h).2
      rcases hzero with ⟨hw, -⟩ | ⟨hw, hf⟩
      · exact l.isWhole.ne_nil hw
      · refine l.ne_negativeZero hn ?_ hw
        cases hfr : l.fraction with
        | none => rfl
        | some f => simp [hfr, fractionText] at hf

theorem canType_of_isLiteral {c : CalcState} (hc : c.phase.entering = false) {t : Text}
    (h : IsLiteral t) : CanType c t := by
  obtain ⟨l, rfl⟩ := h
  obtain ⟨d, hwhole⟩ := leads_whole l.isWhole (Nat.le_of_add_right_le l.length_le)
  have hfraction := leads_fraction l.isWhole l.fraction_digits l.length_le
  obtain ⟨es, hes⟩ := (hwhole.trans hfraction).trans l.leads_sign
  rw [← hes]
  exact canType_foldl hc d es

/-- Exactly the literals can be typed, whatever the state the entry is opened in. -/
theorem canType_iff_isLiteral {c : CalcState} (hc : c.phase.entering = false) (t : Text) :
    CanType c t ↔ IsLiteral t :=
  ⟨fun h => h.isLiteral hc, canType_of_isLiteral hc⟩

theorem canType_iff_isLiteral_initialState : CanType initialState ['-', '0', '.', '5'] :=
  (canType_iff_isLiteral rfl _).mpr
    ⟨⟨true, ['0'], some ['5'], .zero, by simp [Char.isDigit], by decide, nofun⟩, rfl⟩

end Calculator.Engine
