import Calculator.RateLimit.BucketStore

/-! # A limiter with exact arithmetic

What the rate package computes, on rationals instead of floating-point numbers.
It is an exact token bucket, so the hypothesis about the package can be met.
-/

namespace Calculator.RateLimit

open TokenBucket

structure ExactLimiter where
  limit : ℚ
  burst : ℤ
  tokens : ℚ
  last : ℤ

structure ExactReservation where
  ok : Bool
  tokens : ℤ
  timeToAct : ℚ

namespace ExactLimiter

def tokensAt (l : ExactLimiter) (t : ℤ) : ℚ :=
  min l.burst (l.tokens + l.limit / second * (max 0 (t - l.last) : ℤ))

def reserveN (l : ExactLimiter) (t n : ℤ) : ExactLimiter × ExactReservation :=
  if n ≤ l.burst then
    ({ l with tokens := l.tokensAt t - n, last := t },
      ⟨true, n, t + max 0 ((n - l.tokensAt t) / (l.limit / second))⟩)
  else (l, ⟨false, 0, t⟩)

def cancelAt (l : ExactLimiter) (res : ExactReservation) (t : ℤ) : ExactLimiter :=
  { l with tokens := min l.burst (l.tokensAt t + res.tokens), last := t }

end ExactLimiter

def exactLimiter : RateLimiter where
  Limiter := ExactLimiter
  Reservation := ExactReservation
  newLimiter limit burst := ⟨limit, burst, burst, 0⟩
  limit := ExactLimiter.limit
  burst := ExactLimiter.burst
  tokensAt := ExactLimiter.tokensAt
  reserveN := ExactLimiter.reserveN
  ok := ExactReservation.ok
  delayFrom res t := max 0 (res.timeToAct - t)
  cancelAt := ExactLimiter.cancelAt

variable {cfg : AcceptedConfig} {l : ExactLimiter} {x : ℚ} {t : ℤ}

theorem isBucket_exactLimiter (hlimit : l.limit = cfg.rps) (hburst : l.burst = cfg.burst)
    (hlast : l.last = t) : IsBucket (R := exactLimiter) cfg l l.tokens t where
  limit := hlimit
  burst := hburst
  tokensAt u hu := by
    change ExactLimiter.tokensAt l u = _
    rw [ExactLimiter.tokensAt, hlimit, hburst, hlast, max_eq_right (by omega), Int.cast_sub]
    rfl

theorem isBucket_newLimiter (cfg : AcceptedConfig) (t : ℤ) : IsBucket (R := exactLimiter) cfg
    (exactLimiter.newLimiter cfg.rps cfg.burst) cfg.burst t where
  limit := rfl
  burst := rfl
  tokensAt u hu := by
    have hfull : cfg.limit.burst ≤ cfg.burst + cfg.limit.rate * (u - t) := by
      have hle : (t : ℚ) ≤ u := by exact_mod_cast hu
      exact le_add_of_nonneg_right (mul_nonneg cfg.limit.rate_pos.le (sub_nonneg.mpr hle))
    rw [Bucket.level, min_eq_left hfull]
    refine min_eq_left (le_add_of_nonneg_right ?_)
    exact mul_nonneg cfg.limit.rate_pos.le (by exact_mod_cast le_max_left _ _)

theorem reserveN_eq (h : IsBucket (R := exactLimiter) cfg l x t) : l.reserveN t 1 =
    ({ l with tokens := Bucket.level cfg.limit ⟨x, t⟩ t - 1, last := t },
      ⟨true, 1, t + Bucket.wait cfg.limit ⟨x, t⟩ t⟩) := by
  have htokens : l.tokensAt t = Bucket.level cfg.limit ⟨x, t⟩ t := h.tokensAt t le_rfl
  have hlimit : l.limit = cfg.rps := h.limit
  have hburst : l.burst = cfg.burst := h.burst
  rw [ExactLimiter.reserveN, hburst, if_pos cfg.one_le_burst, htokens, hlimit, Int.cast_one]
  rfl

theorem cancelAt_reserveN (h : IsBucket (R := exactLimiter) cfg l x t) :
    ExactLimiter.cancelAt (l.reserveN t 1).1 (l.reserveN t 1).2 t =
      { l with tokens := Bucket.level cfg.limit ⟨x, t⟩ t, last := t } := by
  have hburst : l.burst = cfg.burst := h.burst
  have hlevel : Bucket.level cfg.limit ⟨x, t⟩ t ≤ (cfg.burst : ℚ) := Bucket.level_le_burst
  rw [reserveN_eq h, ExactLimiter.cancelAt]
  simp only [ExactLimiter.tokensAt, sub_self, max_self, Int.cast_zero, mul_zero, add_zero, hburst,
    Int.cast_one]
  rw [min_eq_right (sub_le_self _ zero_le_one |>.trans hlevel), sub_add_cancel,
    min_eq_right hlevel]

theorem exactTokenBucket (cfg : AcceptedConfig) : ExactTokenBucket exactLimiter cfg where
  newLimiter := isBucket_newLimiter cfg
  ok h := by
    change (ExactLimiter.reserveN _ _ 1).2.ok = true
    rw [reserveN_eq h]
  delayFrom {l x t} h := by
    change max 0 ((ExactLimiter.reserveN l t 1).2.timeToAct - t) = _
    rw [reserveN_eq h, add_sub_cancel_left]
    exact max_eq_right Bucket.wait_nonneg
  reserveN {l x t} h := by
    change IsBucket (R := exactLimiter) cfg (ExactLimiter.reserveN l t 1).1 _ t
    rw [reserveN_eq h]
    exact isBucket_exactLimiter h.limit h.burst rfl
  cancelAt {l x t} h := by
    change IsBucket (R := exactLimiter) cfg (ExactLimiter.cancelAt (ExactLimiter.reserveN l t 1).1
      (ExactLimiter.reserveN l t 1).2 t) _ t
    rw [cancelAt_reserveN h]
    exact isBucket_exactLimiter h.limit h.burst rfl

end Calculator.RateLimit
