import Calculator.RateLimit.TokenBucket

/-! # Reservations

A reservation takes a token even if there is none yet, and can be cancelled. It
gets its token back only as far as nothing was reserved since, so reservations
that are made at one time and cancelled later leave no trace if the newest is
always cancelled first.
-/

namespace Calculator.TokenBucket

universe u

variable {K : Type u} [Field K] [LinearOrder K]

structure Account (K : Type u) extends Bucket K where
  lastEvent : K

namespace Account

variable (L : Limit K)

def timeToAct (a : Account K) (t : K) : K := t + a.wait L t

def reserve (a : Account K) (t : K) : Account K where
  tokens := a.level L t - 1
  since := t
  lastEvent := a.timeToAct L t

def restored (a : Account K) (act : K) : K := 1 - L.rate * (a.lastEvent - act)

/-- Cancel, at some time, the reservation that may act at another. -/
def cancel (a : Account K) (act t : K) : Account K :=
  if a.restored L act ≤ 0 then a
  else
    { tokens := min L.burst (a.level L t + a.restored L act)
      since := t
      lastEvent := if act = a.lastEvent ∧ t ≤ act - 1 / L.rate then act - 1 / L.rate
        else a.lastEvent }

end Account

section Level

variable [IsStrictOrderedRing K] {L : Limit K} {b c : Bucket K} {s t : K}

theorem Bucket.level_congr (hb : b.level L s = c.level L s) (h : s ≤ t) :
    b.level L t = c.level L t := by
  rw [← Bucket.level_level (b := b) h, hb, Bucket.level_level h]

omit [IsStrictOrderedRing K] in
theorem Bucket.level_self (h : b.tokens ≤ L.burst) : b.level L b.since = b.tokens := by
  rw [Bucket.level, sub_self, mul_zero, add_zero]
  exact min_eq_right h

end Level

namespace Account

variable [IsStrictOrderedRing K] {L : Limit K} {a : Account K} {act s t : K}

omit [IsStrictOrderedRing K] in
@[simp] theorem since_reserve : (a.reserve L t).since = t := rfl

@[simp] theorem level_reserve : (a.reserve L t).level L t = a.level L t - 1 := by
  have hle : (a.reserve L t).tokens ≤ L.burst :=
    (sub_le_self _ zero_le_one).trans Bucket.level_le_burst
  exact Bucket.level_self hle

theorem timeToAct_of_lt (h : a.level L t < 1) :
    a.timeToAct L t = t + (1 - a.level L t) / L.rate := by
  have hnonneg : 0 ≤ (1 - a.level L t) / L.rate :=
    div_nonneg (sub_nonneg.mpr h.le) L.rate_pos.le
  rw [timeToAct, Bucket.wait, max_eq_right hnonneg]

theorem cancel_last (h : a.lastEvent = act) :
    (a.cancel L act t).tokens = min L.burst (a.level L t + 1) ∧
      (a.cancel L act t).since = t ∧
      (t ≤ act - 1 / L.rate → (a.cancel L act t).lastEvent = act - 1 / L.rate) := by
  have hrestored : a.restored L act = 1 := by rw [restored, h, sub_self, mul_zero, sub_zero]
  rw [cancel, hrestored, if_neg (not_le.mpr zero_lt_one)]
  refine ⟨rfl, rfl, fun ht => ?_⟩
  exact if_pos ⟨h.symm, ht⟩

end Account

/-- The account of a bucket with reservations on hold, the newest first, that
were all made at the same time, when there was no token. -/
structure Held (L : Limit K) (b : Bucket K) (a : Account K) (acts : List K) : Prop where
  since_le : b.since ≤ a.since
  level : a.level L a.since = b.level L a.since - acts.length
  lt_one : acts ≠ [] → b.level L a.since < 1
  act : ∀ (n : ℕ) (act : K), acts[n]? = some act →
    act = a.since + (acts.length - n - b.level L a.since) / L.rate
  lastEvent : ∀ act ∈ acts.head?, a.lastEvent = act

namespace Held

open Account

variable {L : Limit K} {b : Bucket K} {a : Account K} {act t : K} {acts : List K} {n : ℕ}

theorem refl (a : Account K) : Held L a.toBucket a [] where
  since_le := le_rfl
  level := by simp
  lt_one h := absurd rfl h
  act _ _ h := by simp at h
  lastEvent := by simp

variable [IsStrictOrderedRing K]

theorem level_eq (h : Held L b a []) (ht : a.since ≤ t) : a.level L t = b.level L t := by
  have hlevel := h.level
  rw [List.length_nil, Nat.cast_zero, sub_zero] at hlevel
  exact Bucket.level_congr hlevel ht

theorem allow (h : Held L b a []) (ht : a.since ≤ t) {c : Account K}
    (hc : c.toBucket = b) : Held L (c.reserve L t).toBucket (a.reserve L t) [] where
  since_le := le_rfl
  level := by
    subst hc
    rw [since_reserve, level_reserve, level_reserve, h.level_eq ht]
    simp
  lt_one h := absurd rfl h
  act _ _ h := by simp at h
  lastEvent := by simp

theorem refuse (h : Held L b a []) (ht : a.since ≤ t) (hlt : a.level L t < 1) :
    Held L b (a.reserve L t) [a.timeToAct L t] where
  since_le := h.since_le.trans ht
  level := by
    rw [since_reserve, level_reserve, h.level_eq ht]
    simp
  lt_one _ := by
    rw [since_reserve, ← h.level_eq ht]
    exact hlt
  act n act hn := by
    obtain ⟨rfl, rfl⟩ : n = 0 ∧ a.timeToAct L t = act := by
      cases n with
      | zero => simpa using hn
      | succ n => simp at hn
    rw [since_reserve, timeToAct_of_lt hlt, h.level_eq ht]
    simp
  lastEvent := by
    rintro act ⟨⟩
    rfl

/-- With reservations on hold there is no token for another at the same time. -/
theorem refuse_again (h : Held L b a acts) (hne : acts ≠ []) :
    a.level L a.since < 1 ∧
      Held L b (a.reserve L a.since) (a.timeToAct L a.since :: acts) := by
  have hlt : a.level L a.since < 1 := by
    rw [h.level]
    exact (sub_le_self _ (Nat.cast_nonneg _)).trans_lt (h.lt_one hne)
  refine ⟨hlt, h.since_le, ?_, fun _ => h.lt_one hne, ?_, ?_⟩
  · rw [since_reserve, level_reserve, h.level, List.length_cons]
    push_cast
    ring
  · intro n act hn
    rw [since_reserve, List.length_cons]
    cases n with
    | zero =>
      obtain rfl : a.timeToAct L a.since = act := by simpa using hn
      rw [timeToAct_of_lt hlt, h.level]
      push_cast
      ring
    | succ n =>
      rw [h.act n act (by simpa using hn)]
      push_cast
      ring
  · rintro act ⟨⟩
    rfl

theorem eq_zero (h : Held L b a acts) (hn : acts[n]? = some act) (hlast : a.lastEvent = act) :
    n = 0 := by
  cases acts with
  | nil => simp at hn
  | cons first acts =>
    have hact := h.act n act hn
    have hfirst := h.act 0 first rfl
    rw [← h.lastEvent first rfl, hlast, hact, add_right_inj,
      div_left_inj' L.rate_pos.ne'] at hfirst
    simp only [List.length_cons, Nat.cast_zero, sub_zero] at hfirst
    exact_mod_cast (by linarith : (n : K) = 0)

/-- Cancelling the newest reservation leaves the others on hold. -/
theorem cancel (h : Held L b a (act :: acts)) :
    Held L b (a.cancel L act a.since) acts := by
  obtain ⟨htokens, hsince, hlast⟩ := cancel_last (L := L) (t := a.since) (h.lastEvent act rfl)
  have hlt : b.level L a.since < 1 := h.lt_one (List.cons_ne_nil _ _)
  have hlevel : (a.cancel L act a.since).level L a.since = b.level L a.since - acts.length := by
    have hle : a.level L a.since + 1 ≤ L.burst := by
      rw [h.level, List.length_cons]
      push_cast
      have hburst : b.level L a.since ≤ L.burst := Bucket.level_le_burst
      have hnonneg : (0 : K) ≤ acts.length := Nat.cast_nonneg _
      linarith
    rw [min_eq_right hle] at htokens
    have hself := Bucket.level_self (htokens.trans_le hle)
    rw [hsince] at hself
    rw [hself, htokens, h.level, List.length_cons]
    push_cast
    ring
  refine ⟨?_, ?_, ?_, ?_, ?_⟩
  · rw [hsince]
    exact h.since_le
  · rw [hsince]
    exact hlevel
  · rw [hsince]
    exact fun _ => hlt
  · intro n act' hn
    rw [hsince, h.act (n + 1) act' (by simpa using hn), List.length_cons]
    push_cast
    ring
  · intro next hnext
    have hfirst := h.act 0 act rfl
    have hsecond := h.act 1 next (by simpa [List.head?_eq_getElem?] using hnext)
    have hback : next = act - 1 / L.rate := by
      rw [hfirst, hsecond]
      push_cast
      ring
    rw [hback]
    apply hlast
    rw [← hback, hsecond]
    apply le_add_of_nonneg_right
    apply div_nonneg _ L.rate_pos.le
    have hone : (1 : K) ≤ acts.length := by
      exact_mod_cast List.length_pos_iff.mpr (List.ne_nil_of_mem (List.mem_of_mem_head? hnext))
    rw [List.length_cons]
    push_cast
    linarith

end Held

end Calculator.TokenBucket
