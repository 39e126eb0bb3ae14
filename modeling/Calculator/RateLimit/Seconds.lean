import Calculator.RateLimit.RetryAfter

/-! # Seconds of a refusal

A refused client is always told to wait for one second: a bucket that is not overdrawn
has a token by then, and a whole second is the least that a client is told.
-/

namespace Calculator.RateLimit

open Binary.Float64 Runs TokenBucket

theorem roundToDouble_zero : roundToDouble 0 = 0 := by decide +kernel

theorem roundToDouble_one : roundToDouble 1 = 1 := by decide +kernel

theorem roundToDouble_billion : roundToDouble (10 ^ 9) = 10 ^ 9 := by decide +kernel

theorem seconds_le_one {d : ℚ} (hd : 0 ≤ d) (hle : d ≤ second) : seconds d ≤ 1 := by
  have hsecond : (second : ℚ) = 10 ^ 9 := by norm_num [second]
  rcases hle.lt_or_eq with hlt | rfl
  · have hfloor : ⌊d / second⌋ = 0 := by
      rw [Int.floor_eq_zero_iff, Set.mem_Ico, div_lt_one (by norm_num [second])]
      exact ⟨div_nonneg hd (by norm_num [second]), hlt⟩
    have hnano : roundToDouble d / 10 ^ 9 ≤ 1 := by
      rw [div_le_one (by norm_num), ← roundToDouble_billion, ← hsecond]
      exact roundToDouble_mono hle
    simp only [seconds, hfloor, Int.cast_zero, zero_mul, sub_zero, roundToDouble_zero, zero_add]
    calc roundToDouble (roundToDouble (roundToDouble d / 10 ^ 9))
        ≤ roundToDouble (roundToDouble 1) := roundToDouble_mono (roundToDouble_mono hnano)
      _ = 1 := by rw [roundToDouble_one, roundToDouble_one]
  · have hone : seconds second = 1 := by decide +kernel
    exact hone.le

theorem retryAfter_eq_one {wait : ℚ} (hwait : 0 ≤ wait) (hle : wait ≤ second) :
    retryAfter wait = 1 :=
  max_eq_left (Int.ceil_le.mpr (by exact_mod_cast seconds_le_one hwait hle))

variable {R : RateLimiter} {cfg : AcceptedConfig} {p q : BucketStore R × WithBot ℤ} {a : Arrival}
  {n : ℤ}

/-- A client is never told to wait for longer than a second: no bucket is overdrawn,
and each gets a token a second at least. -/
theorem refused_seconds (hR : ExactTokenBucket R cfg)
    (hp : (inOrder R cfg.toRateLimitConfig).Reachable p)
    (hrefused : (inOrder R cfg.toRateLimitConfig).next p (a, .tooManyRequests n) = some q) :
    n = 1 := by
  obtain ⟨hle, hn, -⟩ := Machine.timed_next_iff.mp hrefused
  rcases exchanges_next_cases hn with ⟨-, hverdict, -⟩ | ⟨-, -, hverdict⟩
  · cases hverdict
  split at hverdict
  · cases hverdict
  · next hok =>
    obtain ⟨x, hx, hbucket⟩ := (Sound.of_reachable hR hp).bucketFor hR hle a.key
    have hwait : (p.1.allow a.key a.now).2.wait = Bucket.wait cfg.limit ⟨x, a.now⟩ a.now :=
      (reserve_refused hR hbucket (Bool.eq_false_iff.mpr hok)).2
    rw [Verdict.tooManyRequests.inj hverdict, hwait]
    exact retryAfter_eq_one Bucket.wait_nonneg (wait_le_second hx)

end Calculator.RateLimit
