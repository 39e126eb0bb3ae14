import Calculator.Binary.Float64
import Calculator.RateLimit.BucketStore
import Calculator.Runs.Timed

/-! # The rate limit's middleware

What becomes of a request: it is passed on, or refused with the seconds after
which to try again. As a machine with a clock, the middleware handles requests
one after another.
-/

namespace Calculator.RateLimit

open Binary.Float64 Runs TokenBucket

structure Arrival where
  path : List Char
  key : ClientKey
  now : ℤ

inductive Verdict where
  | next
  | tooManyRequests (retryAfter : ℤ)
  deriving DecidableEq

def operationalPaths : List (List Char) :=
  ["/healthz".toList, "/readyz".toList, "/metrics".toList]

def seconds (d : ℚ) : ℚ :=
  let sec : ℤ := ⌊d / second⌋
  let nsec : ℚ := d - sec * second
  roundToDouble (roundToDouble sec + roundToDouble (roundToDouble nsec / 10 ^ 9))

def retryAfter (wait : ℚ) : ℤ := max 1 ⌈seconds wait⌉

variable {R : RateLimiter}

def rateLimit (cfg : RateLimitConfig) (s : BucketStore R) (r : Arrival) :
    BucketStore R × Verdict :=
  if cfg.rps < 1 ∨ cfg.burst < 1 then (s, .next)
  else if operationalPaths.contains r.path then (s, .next)
  else
    let (s, answer) := s.allow r.key r.now
    (s, if answer.ok then .next else .tooManyRequests (retryAfter answer.wait))

abbrev Exchange := Arrival × Verdict

def Exchange.Admits (k : ClientKey) (e : Exchange) : Prop :=
  e.1.key = k ∧ e.1.path ∉ operationalPaths ∧ e.2 = .next

def exchanges (R : RateLimiter) (cfg : RateLimitConfig) : Machine (BucketStore R) Exchange where
  start := newBucketStore R cfg
  next s e := if (rateLimit cfg s e.1).2 = e.2 then some (rateLimit cfg s e.1).1 else none

/-- Requests are handled one after another. -/
abbrev inOrder (R : RateLimiter) (cfg : RateLimitConfig) :
    Machine (BucketStore R × WithBot ℤ) Exchange :=
  (exchanges R cfg).timed fun e => e.1.now

variable {cfg : AcceptedConfig} {s s' : BucketStore R} {e : Exchange} {r : Arrival} {v : Verdict}

theorem rateLimit_of_mem (hr : r.path ∈ operationalPaths) :
    rateLimit cfg.toRateLimitConfig s r = (s, .next) := by
  rw [rateLimit, if_pos (List.contains_iff_mem.mpr hr), ite_self]

theorem rateLimit_of_not_mem (hr : r.path ∉ operationalPaths) :
    rateLimit cfg.toRateLimitConfig s r = ((s.allow r.key r.now).1,
      if (s.allow r.key r.now).2.ok then .next
      else .tooManyRequests (retryAfter (s.allow r.key r.now).2.wait)) := by
  have hon : ¬ (cfg.rps < 1 ∨ cfg.burst < 1) :=
    not_or.mpr ⟨not_lt.mpr cfg.one_le_rps, not_lt.mpr cfg.one_le_burst⟩
  rw [rateLimit, if_neg hon, if_neg (mt List.contains_iff_mem.mp hr)]

theorem exchanges_next_cases (h : (exchanges R cfg.toRateLimitConfig).next s e = some s') :
    (e.1.path ∈ operationalPaths ∧ e.2 = .next ∧ s' = s) ∨
    (e.1.path ∉ operationalPaths ∧ s' = (s.allow e.1.key e.1.now).1 ∧
      e.2 = if (s.allow e.1.key e.1.now).2.ok then .next
        else .tooManyRequests (retryAfter (s.allow e.1.key e.1.now).2.wait)) := by
  rw [exchanges, Option.ite_none_right_eq_some] at h
  obtain ⟨hverdict, hs⟩ := h
  by_cases hr : e.1.path ∈ operationalPaths
  · rw [rateLimit_of_mem hr] at hverdict hs
    exact Or.inl ⟨hr, hverdict.symm, (Option.some.inj hs).symm⟩
  · rw [rateLimit_of_not_mem hr] at hverdict hs
    exact Or.inr ⟨hr, (Option.some.inj hs).symm, hverdict.symm⟩

end Calculator.RateLimit
