import Calculator.Display.Grouping
import Calculator.Engine.Grammar
import Calculator.Store.Displays

/-! # What is typed and what is shown

The display never holds a comma or more than one sign, so that the entry on the
main line differs from the display by commas alone exactly if grouping keeps
its integer part.
-/

namespace Calculator.Display

open Binary Decimal Ecma Engine

variable {t : Text}

theorem ungrouped_text (s : Bool) (n : Numeral) : Ungrouped (signed s n.text) := by
  refine ⟨s, n.text, rfl, head_text_ne, fun h => ?_⟩
  rcases n.isNumeralChar_of_mem_text h with h | h | h | h | h <;> cases h

theorem ungrouped_zero : Ungrouped ['0'] := ⟨false, ['0'], rfl, by decide, by decide⟩

theorem ungrouped_string (x : Float64) : Ungrouped (string x) := by
  cases x with
  | nan => exact ⟨false, string .nan, rfl, by decide, by decide⟩
  | infinity s => exact ⟨s, infinityText, rfl, by decide, by decide⟩
  | finite s i =>
    by_cases hi : i.val = 0
    · rw [string, if_pos hi]
      exact ungrouped_zero
    · obtain ⟨m, htext, -⟩ := string_finite s hi
      rw [htext]
      exact ungrouped_text s m

namespace Ungrouped

theorem append (h : Ungrouped t) {c : Char} (hm : c ≠ '-') (hc : c ≠ ',') :
    Ungrouped (t ++ [c]) := by
  obtain ⟨s, u, rfl, hhead, hmem⟩ := h
  refine ⟨s, u ++ [c], signed_append s u [c], ?_, ?_⟩
  · cases u with
    | nil => simpa using hm
    | cons d u => exact hhead
  · simp [hmem, hc.symm]

theorem normaliseEntry (h : Ungrouped t) : Ungrouped (normaliseEntry t) := by
  unfold Engine.normaliseEntry
  split
  · exact ungrouped_zero
  · exact h

theorem appendDigit (h : Ungrouped t) (d : Digit) : Ungrouped (appendDigit t d) := by
  have hd := d.isDigit_char
  have hm : d.char ≠ '-' := by
    rintro hm
    rw [hm] at hd
    cases hd
  have hc : d.char ≠ ',' := by
    rintro hc
    rw [hc] at hd
    cases hd
  unfold Engine.appendDigit
  split
  · exact h
  · split
    · exact ⟨false, [d.char], rfl, by simpa using hm, by simpa using hc.symm⟩
    · exact h.append hm hc

theorem appendDecimal (h : Ungrouped t) : Ungrouped (appendDecimal t) := by
  unfold Engine.appendDecimal
  split
  · exact h
  · exact h.append (by decide) (by decide)

theorem toggleEntrySign (h : Ungrouped t) : Ungrouped (toggleEntrySign t) := by
  obtain ⟨s, u, rfl, hhead, hmem⟩ := h
  refine normaliseEntry ⟨!s, u, ?_, hhead, hmem⟩
  simp only [head_signed_iff hhead]
  cases s <;> rfl

theorem dropLastChar (h : Ungrouped t) : Ungrouped (dropLastChar t) := by
  obtain ⟨s, u, rfl, hhead, hmem⟩ := h
  apply normaliseEntry
  by_cases hu : u = []
  · subst hu
    cases s <;> exact ⟨false, [], rfl, by decide, by decide⟩
  · refine ⟨s, u.dropLast, dropLast_signed hu, ?_, fun h => hmem (List.mem_of_mem_dropLast h)⟩
    intro h
    apply hhead
    cases u with
    | nil => cases h
    | cons c u =>
      cases u with
      | nil => cases h
      | cons d u => exact h

end Ungrouped

theorem keepsDigits_of_isWhole {w : Text} (h : IsWhole w) (hlen : w.length ≤ 15) :
    KeepsDigits w := by
  have hlt : digitsValue w < 10 ^ 15 :=
    (digitsValue_lt h.allDigits).trans_le (Nat.pow_le_pow_right (by decide) hlen)
  have hfin : (Float64.ofRat false (digitsValue w)).isFinite = true := by
    apply Float64.isFinite_ofRat_of_le_pow
    have hle : (digitsValue w : ℚ) ≤ 10 ^ 15 := by exact_mod_cast hlt.le
    exact hle.trans (pow_le_pow_right₀ (by norm_num) (by decide))
  cases hx : Float64.ofRat false (digitsValue w) with
  | nan | infinity _ =>
    rw [hx] at hfin
    cases hfin
  | finite s i =>
    have hbits : digitsValue w < 2 ^ 53 := hlt.trans (by norm_num)
    exact Or.inr (Or.inr ⟨digitsValue w, i, h.toDigits_digitsValue.symm,
      Float64.magnitude_eq_of_lt hbits hx⟩)

theorem integerPart_text (l : Literal) : integerPart l.text = l.whole := by
  have hp : ∀ c ∈ l.whole, c ≠ '.' := by
    rintro c hc rfl
    cases l.isWhole.allDigits '.' hc
  have hhead := head_text_ne (n := l.numeral)
  have htext : l.numeral.text = l.whole ++ fractionText l.fraction := by
    simp [Literal.numeral, Numeral.text, exponentText]
  rw [l.text_eq_signed, integerPart_signed hhead, htext,
    List.takeWhile_append_of_pos (by simpa using hp)]
  cases l.fraction <;> simp [fractionText]

end Calculator.Display

namespace Calculator.Store

open Binary Decimal Ecma Engine Runs Display

theorem ungrouped_editInvariant : EditInvariant Ungrouped where
  string := ungrouped_string
  appendDigit := Ungrouped.appendDigit
  appendDecimal := Ungrouped.appendDecimal
  toggleEntrySign := Ungrouped.toggleEntrySign
  dropLastChar := Ungrouped.dropLastChar

variable {s : Session}

theorem ungrouped_display (h : store.Reachable s) : Ungrouped s.calcState.display :=
  ungrouped_editInvariant.display h

/-- While an entry is being typed, the main line with its commas removed is the
display exactly if grouping keeps the integer part, which it does for a typed
entry with up to fifteen integer digits. -/
theorem entry_is_shown_iff (h : store.Reachable s) (he : s.calcState.phase.entering = true) :
    formatMainValue s.calcState.display s.calcState.phase.entering =
        .ok (formatEntry s.calcState.display) ∧
      ((formatEntry s.calcState.display).filter (· ≠ ',') = s.calcState.display ↔
        KeepsDigits (integerPart s.calcState.display)) ∧
      (IsLiteral s.calcState.display → (integerPart s.calcState.display).length ≤ 15 →
        KeepsDigits (integerPart s.calcState.display)) := by
  refine ⟨by rw [formatMainValue, if_pos he], filter_formatEntry_iff (ungrouped_display h), ?_⟩
  rintro ⟨l, hl⟩ hlen
  rw [← hl, integerPart_text] at hlen ⊢
  exact keepsDigits_of_isWhole l.isWhole hlen

def negatedHalf : List Event :=
  [.key (.digit 1), .key .decimal, .key (.digit 5), .key .toggleSign]

theorem negatedHalf_isSome : (store.replay (fresh false) negatedHalf).isSome := by
  decide +kernel

theorem entry_is_shown_iff_negatedHalf :
    let s := (store.replay (fresh false) negatedHalf).get negatedHalf_isSome
    (formatEntry s.calcState.display).filter (· ≠ ',') = s.calcState.display ↔
      KeepsDigits (integerPart s.calcState.display) :=
  (entry_is_shown_iff ⟨_, Machine.runWhen_replayWhen_get negatedHalf_isSome⟩
    (by decide +kernel)).2.1

def sixteenDigits : List Event :=
  ([9, 0, 0, 7, 1, 9, 9, 2, 5, 4, 7, 4, 0, 9, 9, 3] : List Digit).map fun d => .key (.digit d)

/-- The last digit is shown as a 2. -/
theorem entry_is_misshown :
    ¬ ∀ s, store.Reachable s → s.calcState.phase.entering = true →
      (formatEntry s.calcState.display).filter (· ≠ ',') = s.calcState.display := by
  intro h
  obtain ⟨s, hs, hp⟩ : ∃ s, store.Run (fresh false) sixteenDigits s ∧
      decide (s.calcState.phase.entering = true ∧
        s.calcState.display = "9007199254740993".toList ∧
        formatEntry s.calcState.display = "9,007,199,254,740,992".toList) = true :=
    Machine.exists_run_of_replay (by decide +kernel)
  obtain ⟨hphase, hdisplay, hshown⟩ := of_decide_eq_true hp
  have hfalse := h s ⟨_, hs⟩ hphase
  rw [hshown, hdisplay] at hfalse
  exact absurd hfalse (by decide +kernel)

end Calculator.Store
