import Mathlib.Algebra.Order.Field.Basic
import Mathlib.Algebra.Order.Group.MinMax
import Mathlib.Data.List.Pairwise
import Mathlib.Tactic.Linarith
import Mathlib.Tactic.Ring

/-! # Token buckets

A bucket fills at a constant rate up to its burst, and a request takes a token
if there is one. A bucket that has had the time to fill up is as good as a new
one, and the requests admitted in a window of time are bounded by what the
bucket can hold and what flows in.
-/

namespace Calculator.TokenBucket

universe u

variable {K : Type u} [Field K] [LinearOrder K]

structure Limit (K : Type u) [Field K] [LinearOrder K] where
  /-- Tokens that flow in per unit of time. -/
  rate : K
  /-- Tokens that the bucket can hold. -/
  burst : K
  rate_pos : 0 < rate
  one_le_burst : 1 ≤ burst

structure Bucket (K : Type u) where
  tokens : K
  since : K

variable (L : Limit K)

namespace Bucket

def level (b : Bucket K) (t : K) : K := min L.burst (b.tokens + L.rate * (t - b.since))

/-- How long a request has to wait for a token. -/
def wait (b : Bucket K) (t : K) : K := max 0 ((1 - b.level L t) / L.rate)

/-- The bucket after a request, which takes a token if there is one. -/
def take (b : Bucket K) (t : K) : Bucket K where
  tokens := if 1 ≤ b.level L t then b.level L t - 1 else b.level L t
  since := t

def waits (b : Bucket K) : List K → List K
  | [] => []
  | t :: ts => b.wait L t :: (b.take L t).waits ts

variable {L} {b : Bucket K} {s t u v : K} {ts : List K}

theorem level_le_burst : b.level L t ≤ L.burst := min_le_left _ _

/-- Two buckets that hold the same are used alike. -/
theorem take_congr {c : Bucket K} (h : b.level L t = c.level L t) : b.take L t = c.take L t := by
  rw [take, take, h]

theorem wait_nonneg : 0 ≤ b.wait L t := le_max_left _ _

theorem wait_congr {c : Bucket K} (h : b.level L t = c.level L t) : b.wait L t = c.wait L t := by
  rw [wait, wait, h]

variable [IsStrictOrderedRing K]

theorem level_mono (h : s ≤ t) : b.level L s ≤ b.level L t := by
  apply min_le_min_left _
  have := mul_le_mul_of_nonneg_left (sub_le_sub_right h b.since) L.rate_pos.le
  linarith

theorem level_le_add (h : s ≤ t) : b.level L t ≤ b.level L s + L.rate * (t - s) := by
  have hnonneg : 0 ≤ L.rate * (t - s) := mul_nonneg L.rate_pos.le (sub_nonneg.mpr h)
  rw [level, level, ← min_add_add_right]
  refine min_le_min ?_ ?_
  · exact le_add_of_nonneg_right hnonneg
  · exact le_of_eq (by ring)

theorem level_nonneg (hb : 0 ≤ b.tokens) (h : b.since ≤ t) : 0 ≤ b.level L t := by
  apply le_min (zero_le_one.trans L.one_le_burst)
  exact add_nonneg hb (mul_nonneg L.rate_pos.le (sub_nonneg.mpr h))

/-- Reading the level on the way does not change it. -/
theorem level_level (h : s ≤ t) : (⟨b.level L s, s⟩ : Bucket K).level L t = b.level L t := by
  have hnonneg : 0 ≤ L.rate * (t - s) := mul_nonneg L.rate_pos.le (sub_nonneg.mpr h)
  have hsplit : b.tokens + L.rate * (t - b.since) =
      b.tokens + L.rate * (s - b.since) + L.rate * (t - s) := by ring
  rw [level, level, level, hsplit, ← min_add_add_right, ← min_assoc,
    min_eq_left (le_add_of_nonneg_right hnonneg)]

theorem level_eq_burst_of_le (hb : b.level L s = L.burst) (h : s ≤ t) :
    b.level L t = L.burst :=
  le_antisymm level_le_burst (hb ▸ level_mono h)

theorem level_eq_burst (hb : 0 ≤ b.tokens) (h : L.burst ≤ L.rate * (t - b.since)) :
    b.level L t = L.burst :=
  min_eq_left (by linarith)

theorem level_le_level {L' : Limit K} {c : Bucket K} (hburst : L.burst = L'.burst)
    (hrate : L.rate ≤ L'.rate) (hs : b.level L s ≤ c.level L' s) (h : s ≤ t) :
    b.level L t ≤ c.level L' t := by
  rw [← level_level (L := L') h]
  apply le_min (hburst ▸ level_le_burst)
  have hflow := b.level_le_add (L := L) h
  have hfaster := mul_le_mul_of_nonneg_right hrate (sub_nonneg.mpr h)
  change b.level L t ≤ c.level L' s + L'.rate * (t - s)
  linarith

theorem wait_eq_zero_iff : b.wait L t = 0 ↔ 1 ≤ b.level L t := by
  rw [wait, max_eq_left_iff, div_nonpos_iff]
  constructor
  · rintro (⟨-, h⟩ | ⟨h, -⟩)
    · exact absurd h (not_le.mpr L.rate_pos)
    · linarith
  · intro h
    exact Or.inr ⟨by linarith, L.rate_pos.le⟩

theorem wait_pos_iff : 0 < b.wait L t ↔ b.level L t < 1 := by
  rw [← not_le (a := (1 : K)), ← wait_eq_zero_iff (L := L), ← ne_eq, ne_comm]
  exact (le_max_left _ _).lt_iff_ne

theorem one_le_level (h : t + b.wait L t ≤ u) : 1 ≤ b.level L u := by
  have htu : t ≤ u := le_trans (le_add_of_nonneg_right wait_nonneg) h
  rw [← level_level htu]
  apply le_min L.one_le_burst
  have hwait : (1 - b.level L t) / L.rate ≤ u - t :=
    (le_max_right _ _).trans (le_sub_iff_add_le'.mpr h)
  rw [div_le_iff₀ L.rate_pos] at hwait
  change 1 ≤ b.level L t + L.rate * (u - t)
  linarith

theorem wait_le (hb : 0 ≤ b.level L t) : b.wait L t ≤ 1 / L.rate := by
  apply max_le (div_nonneg zero_le_one L.rate_pos.le)
  exact div_le_div_of_nonneg_right (by linarith) L.rate_pos.le

theorem take_tokens_nonneg (hb : 0 ≤ b.level L t) : 0 ≤ (b.take L t).tokens := by
  unfold take
  split
  · next h => exact sub_nonneg.mpr h
  · exact hb

theorem take_tokens : (b.take L t).tokens =
    b.level L t - if b.wait L t = 0 then 1 else 0 := by
  simp only [take, wait_eq_zero_iff]
  split
  · rfl
  · rw [sub_zero]

theorem level_take : (b.take L t).level L t = (b.take L t).tokens := by
  have hle : (b.take L t).tokens ≤ L.burst := by
    rw [take_tokens]
    refine (sub_le_self _ ?_).trans level_le_burst
    split
    · exact zero_le_one
    · exact le_rfl
  rw [level, take, sub_self, mul_zero, add_zero]
  exact min_eq_right hle

/-- The requests that are admitted from time `u` to time `v`. -/
def admitted (u v : K) (answers : List (K × K)) : ℕ :=
  answers.countP fun x => u ≤ x.1 ∧ x.1 ≤ v ∧ x.2 = 0

omit [IsStrictOrderedRing K] in
theorem admitted_eq_zero (h : (t :: ts).Pairwise (· ≤ ·)) (htv : v < t) :
    admitted u v ((t :: ts).zip (b.waits L (t :: ts))) = 0 := by
  apply List.countP_eq_zero.mpr
  rintro ⟨r, w⟩ hmem
  have hr : v < r := by
    rcases List.mem_cons.mp (List.of_mem_zip hmem).1 with rfl | hr
    · exact htv
    · exact htv.trans_le (List.rel_of_pairwise_cons h hr)
  simp [not_le.mpr hr]

omit [IsStrictOrderedRing K] in
theorem admitted_cons : admitted u v ((t :: ts).zip (b.waits L (t :: ts))) =
    admitted u v (ts.zip ((b.take L t).waits L ts)) +
      if u ≤ t ∧ t ≤ v ∧ b.wait L t = 0 then 1 else 0 := by
  rw [waits, List.zip_cons_cons, admitted, List.countP_cons, admitted]
  simp only [decide_eq_true_eq]

theorem admitted_le_level (hu : u ≤ s) (hv : s ≤ v) (hb : 0 ≤ b.tokens) (hs : b.since ≤ s)
    (hle : ∀ t ∈ ts, s ≤ t) (hts : ts.Pairwise (· ≤ ·)) :
    (admitted u v (ts.zip (b.waits L ts)) : K) ≤ b.level L s + L.rate * (v - s) := by
  have hinflow : 0 ≤ L.rate * (v - s) := mul_nonneg L.rate_pos.le (sub_nonneg.mpr hv)
  induction ts generalizing b s with
  | nil => simpa [admitted] using add_nonneg (level_nonneg hb hs) hinflow
  | cons t ts ih =>
    have hst : s ≤ t := hle t List.mem_cons_self
    have hlevel : 0 ≤ b.level L t := level_nonneg hb (hs.trans hst)
    rcases le_or_gt t v with htv | htv
    · have hrest := ih (b := b.take L t) (hu.trans hst) htv (take_tokens_nonneg hlevel) le_rfl
        (fun r hr => List.rel_of_pairwise_cons hts hr) hts.of_cons
        (mul_nonneg L.rate_pos.le (sub_nonneg.mpr htv))
      have hflow := b.level_le_add (L := L) hst
      rw [level_take, take_tokens] at hrest
      rw [admitted_cons]
      simp only [hu.trans hst, htv, true_and]
      push_cast
      linarith
    · rw [admitted_eq_zero hts htv, Nat.cast_zero]
      exact add_nonneg (level_nonneg hb hs) hinflow

/-- In any window, at most the burst and the inflow are admitted. -/
theorem admitted_le (huv : u ≤ v) (hb : 0 ≤ b.tokens) (hs : ∀ t ∈ ts, b.since ≤ t)
    (hts : ts.Pairwise (· ≤ ·)) :
    (admitted u v (ts.zip (b.waits L ts)) : K) ≤ L.burst + L.rate * (v - u) := by
  have hinflow : 0 ≤ L.rate * (v - u) := mul_nonneg L.rate_pos.le (sub_nonneg.mpr huv)
  have hburst : 0 ≤ L.burst := zero_le_one.trans L.one_le_burst
  induction ts generalizing b with
  | nil => simpa [admitted] using add_nonneg hburst hinflow
  | cons t ts ih =>
    have hst : b.since ≤ t := hs t List.mem_cons_self
    rcases lt_or_ge t u with htu | htu
    · -- the window has not begun
      rw [admitted_cons, if_neg fun h => not_le.mpr htu h.1, add_zero]
      refine ih (take_tokens_nonneg (level_nonneg hb hst)) ?_ hts.of_cons
      exact fun r hr => List.rel_of_pairwise_cons hts hr
    · rcases le_or_gt t v with htv | htv
      · have hle : ∀ r ∈ t :: ts, t ≤ r :=
          List.forall_mem_cons.mpr ⟨le_rfl, fun r hr => List.rel_of_pairwise_cons hts hr⟩
        have hall := admitted_le_level (L := L) htu htv hb hst hle hts
        have hlevel := b.level_le_burst (L := L) (t := t)
        have hshorter : L.rate * (v - t) ≤ L.rate * (v - u) :=
          mul_le_mul_of_nonneg_left (by linarith) L.rate_pos.le
        linarith
      · rw [admitted_eq_zero hts htv, Nat.cast_zero]
        exact add_nonneg hburst hinflow

end Bucket

end Calculator.TokenBucket
