import Calculator.Runs.Machine
import Mathlib.Order.WithBot

/-! # Runs in the order of time

A machine with a clock, in which the times of the events never decrease. The
clock of the start is below all times.
-/

namespace Calculator.Runs.Machine

universe u v w

variable {σ : Type u} {ε : Type v} {τ : Type w} [LinearOrder τ]

def timed (M : Machine σ ε) (time : ε → τ) : Machine (σ × WithBot τ) ε where
  start := (M.start, ⊥)
  next s e := if s.2 ≤ time e then (M.next s.1 e).map (·, (time e : WithBot τ)) else none

variable {M : Machine σ ε} {time : ε → τ} {s t : σ × WithBot τ} {e : ε} {es : List ε}

theorem timed_next_iff :
    (M.timed time).next s e = some t ↔ s.2 ≤ time e ∧ M.next s.1 e = some t.1 ∧ t.2 = time e := by
  simp only [timed, Option.ite_none_right_eq_some, Option.map_eq_some_iff]
  constructor
  · rintro ⟨hle, u, hu, rfl⟩
    exact ⟨hle, hu, rfl⟩
  · rintro ⟨hle, hu, ht⟩
    exact ⟨hle, t.1, hu, Prod.ext rfl ht.symm⟩

theorem clock_le (h : (M.timed time).Run s es t) : s.2 ≤ t.2 := by
  induction h with
  | nil => exact le_rfl
  | cons _ hn _ ih =>
    obtain ⟨hle, -, hclock⟩ := timed_next_iff.mp hn
    exact (hle.trans hclock.ge).trans ih

end Calculator.Runs.Machine
