import Calculator.RateLimit.TokenBucket
import Mathlib.Algebra.Order.Field.Rat
import Mathlib.Logic.Function.Basic
import Mathlib.Tactic.Positivity

/-! # The bucket store

The map of clients to buckets with the eviction that keeps it bounded. The
limiter in a bucket comes from a package: it is a parameter here, and that it is
an exact token bucket is a hypothesis. Times and durations are in nanoseconds.
-/

namespace Calculator.RateLimit

open TokenBucket

abbrev ClientKey := List Char

def second : ℤ := 10 ^ 9

def defaultIdleTTL : ℤ := 10 * 60 * second

def sweepEvery : ℕ := 64

structure RateLimitConfig where
  rps : ℤ
  burst : ℤ
  idleTTL : ℤ

structure AcceptedConfig extends RateLimitConfig where
  one_le_rps : 1 ≤ rps
  one_le_burst : 1 ≤ burst

def RateLimitConfig.ttl (cfg : RateLimitConfig) : ℤ :=
  if cfg.idleTTL ≤ 0 then defaultIdleTTL else cfg.idleTTL

theorem RateLimitConfig.ttl_pos (cfg : RateLimitConfig) : 0 < cfg.ttl := by
  unfold RateLimitConfig.ttl
  split
  · decide
  · next h => exact not_le.mp h

/-- The limiters of the rate package, with the rate in tokens per second. -/
structure RateLimiter where
  Limiter : Type
  Reservation : Type
  newLimiter (limit : ℚ) (burst : ℤ) : Limiter
  limit : Limiter → ℚ
  burst : Limiter → ℤ
  tokensAt : Limiter → ℤ → ℚ
  reserveN : Limiter → ℤ → ℤ → Limiter × Reservation
  ok : Reservation → Bool
  delayFrom : Reservation → ℤ → ℚ
  cancelAt : Limiter → Reservation → ℤ → Limiter

structure Bucket (R : RateLimiter) where
  limiter : R.Limiter
  lastSeen : ℤ

structure BucketStore (R : RateLimiter) where
  rps : ℚ
  burst : ℤ
  ttl : ℤ
  buckets : ClientKey → Option (Bucket R)
  inserts : ℕ

structure Answer where
  wait : ℚ
  ok : Bool
  deriving DecidableEq

variable {R : RateLimiter}

def newBucketStore (R : RateLimiter) (cfg : RateLimitConfig) : BucketStore R where
  rps := cfg.rps
  burst := cfg.burst
  ttl := cfg.ttl
  buckets _ := none
  inserts := 0

/-- Take one token, or say how long until there is one. -/
def reserve (limiter : R.Limiter) (now : ℤ) : R.Limiter × Answer :=
  let (limiter, res) := R.reserveN limiter now 1
  if !R.ok res then (limiter, ⟨second, false⟩)
  else
    let d := R.delayFrom res now
    -- a rejected request must not delay the next one
    if 0 < d then (R.cancelAt limiter res now, ⟨d, false⟩) else (limiter, ⟨0, true⟩)

namespace BucketStore

/-- Drop the buckets nobody has used for longer than the TTL. -/
def sweepLocked (s : BucketStore R) (now : ℤ) : BucketStore R :=
  { s with buckets := fun key => (s.buckets key).filter fun b => ¬ s.ttl < now - b.lastSeen }

def put (s : BucketStore R) (key : ClientKey) (b : Option (Bucket R)) : BucketStore R :=
  { s with buckets := Function.update s.buckets key b }

/-- Add a new client's bucket; every `sweepEvery`-th one also triggers a sweep. -/
def insert (evicts : Bool) (s : BucketStore R) (key : ClientKey) (b : Bucket R) (now : ℤ) :
    BucketStore R :=
  let s := { s.put key (some b) with inserts := s.inserts + 1 }
  if evicts = true ∧ s.inserts % sweepEvery = 0 then s.sweepLocked now else s

/-- Take one token for a client. The flag turns the eviction on. -/
def allowWith (evicts : Bool) (s : BucketStore R) (key : ClientKey) (now : ℤ) :
    BucketStore R × Answer :=
  let b := (s.buckets key).getD ⟨R.newLimiter s.rps s.burst, now⟩
  let s := if (s.buckets key).isSome then s else s.insert evicts key b now
  let (limiter, answer) := reserve b.limiter now
  -- the bucket is shared with the map, as long as it is in there
  (s.put key ((s.buckets key).map fun _ => ⟨limiter, now⟩), answer)

def allow : BucketStore R → ClientKey → ℤ → BucketStore R × Answer := allowWith true

def allowForever : BucketStore R → ClientKey → ℤ → BucketStore R × Answer := allowWith false

end BucketStore

abbrev Request := ClientKey × ℤ

def answers (allow : BucketStore R → ClientKey → ℤ → BucketStore R × Answer)
    (s : BucketStore R) : List Request → List Answer
  | [] => []
  | (key, now) :: reqs => (allow s key now).2 :: answers allow (allow s key now).1 reqs

def after (allow : BucketStore R → ClientKey → ℤ → BucketStore R × Answer)
    (s : BucketStore R) : List Request → BucketStore R
  | [] => s
  | (key, now) :: reqs => after allow (allow s key now).1 reqs

section Answers

variable {allow : BucketStore R → ClientKey → ℤ → BucketStore R × Answer} {s : BucketStore R}
  {reqs reqs' : List Request}

theorem length_answers : (answers allow s reqs).length = reqs.length := by
  induction reqs generalizing s with
  | nil => rfl
  | cons r reqs ih => exact congrArg (· + 1) ih

theorem answers_append : answers allow s (reqs ++ reqs') =
    answers allow s reqs ++ answers allow (after allow s reqs) reqs' := by
  induction reqs generalizing s with
  | nil => rfl
  | cons r reqs ih => exact congrArg _ ih

theorem after_append : after allow s (reqs ++ reqs') = after allow (after allow s reqs) reqs' := by
  induction reqs generalizing s with
  | nil => rfl
  | cons r reqs ih => exact ih

end Answers

namespace AcceptedConfig

def limit (cfg : AcceptedConfig) : Limit ℚ where
  rate := cfg.rps / second
  burst := cfg.burst
  rate_pos := by
    have h : (1 : ℚ) ≤ cfg.rps := by exact_mod_cast cfg.one_le_rps
    exact div_pos (by linarith) (by norm_num [second])
  one_le_burst := by exact_mod_cast cfg.one_le_burst

end AcceptedConfig

variable {cfg : AcceptedConfig} {l : R.Limiter} {x : ℚ} {t u : ℤ}

/-- From time `t` on the limiter is a bucket with `x` tokens at time `t`. -/
structure IsBucket (cfg : AcceptedConfig) (l : R.Limiter) (x : ℚ) (t : ℤ) : Prop where
  limit : R.limit l = cfg.rps
  burst : R.burst l = cfg.burst
  tokensAt : ∀ u, t ≤ u → R.tokensAt l u = Bucket.level cfg.limit ⟨x, t⟩ u

/-- What the package documents, with exact arithmetic: a limiter starts full, a
reservation takes a token even if there is none yet, its delay is the time until
there is one, and a reservation cancelled at once has no effect. -/
structure ExactTokenBucket (R : RateLimiter) (cfg : AcceptedConfig) : Prop where
  newLimiter : ∀ t, IsBucket cfg (R.newLimiter cfg.rps cfg.burst) cfg.burst t
  ok : ∀ {l : R.Limiter} {x t}, IsBucket cfg l x t → R.ok (R.reserveN l t 1).2 = true
  delayFrom : ∀ {l : R.Limiter} {x t}, IsBucket cfg l x t →
    R.delayFrom (R.reserveN l t 1).2 t = Bucket.wait cfg.limit ⟨x, t⟩ t
  reserveN : ∀ {l : R.Limiter} {x t}, IsBucket cfg l x t →
    IsBucket cfg (R.reserveN l t 1).1 (Bucket.level cfg.limit ⟨x, t⟩ t - 1) t
  cancelAt : ∀ {l : R.Limiter} {x t}, IsBucket cfg l x t →
    IsBucket cfg (R.cancelAt (R.reserveN l t 1).1 (R.reserveN l t 1).2 t)
      (Bucket.level cfg.limit ⟨x, t⟩ t) t

/-- A bucket's answer to a request that has to wait. -/
def answerOf (wait : ℚ) : Answer := if 0 < wait then ⟨wait, false⟩ else ⟨0, true⟩

theorem IsBucket.later (h : IsBucket cfg l x t) (htu : t ≤ u) :
    IsBucket cfg l (Bucket.level cfg.limit ⟨x, t⟩ u) u where
  limit := h.limit
  burst := h.burst
  tokensAt v hv := by
    rw [h.tokensAt v (htu.trans hv)]
    exact (Bucket.level_level (by exact_mod_cast hv)).symm

theorem reserve_spec (hR : ExactTokenBucket R cfg) (h : IsBucket cfg l x t) :
    IsBucket cfg (reserve l t).1 (Bucket.take cfg.limit ⟨x, t⟩ t).tokens t ∧
      (reserve l t).2 = answerOf (Bucket.wait cfg.limit ⟨x, t⟩ t) := by
  simp only [reserve, hR.ok h, hR.delayFrom h, Bool.not_true, Bool.false_eq_true, if_false,
    answerOf, Bucket.take]
  by_cases hwait : 0 < Bucket.wait cfg.limit ⟨x, t⟩ t
  · rw [if_pos hwait, if_pos hwait, if_neg (not_le.mpr (Bucket.wait_pos_iff.mp hwait))]
    exact ⟨hR.cancelAt h, rfl⟩
  · have hlevel : 1 ≤ Bucket.level cfg.limit ⟨x, t⟩ (t : ℚ) := by
      rwa [Bucket.wait_pos_iff, not_lt] at hwait
    rw [if_neg hwait, if_neg hwait, if_pos hlevel]
    exact ⟨hR.reserveN h, rfl⟩

namespace BucketStore

variable {evicts : Bool} {s : BucketStore R} {key k : ClientKey} {b : Bucket R} {now : ℤ}

def bucketFor (s : BucketStore R) (key : ClientKey) (now : ℤ) : Bucket R :=
  (s.buckets key).getD ⟨R.newLimiter s.rps s.burst, now⟩

@[simp] theorem put_self (b : Option (Bucket R)) : (s.put key b).buckets key = b := by
  simp [put]

theorem put_of_ne (hk : k ≠ key) (b : Option (Bucket R)) :
    (s.put key b).buckets k = s.buckets k := by
  simp [put, hk]

theorem sweepLocked_some (hk : s.buckets k = some b) : (s.sweepLocked now).buckets k =
    if s.ttl < now - b.lastSeen then none else some b := by
  simp only [sweepLocked, hk, Option.filter_some, decide_eq_true_eq, ite_not]

theorem insert_frame (evicts : Bool) (s : BucketStore R) (key : ClientKey) (b : Bucket R)
    (now : ℤ) : (s.insert evicts key b now).rps = s.rps ∧
      (s.insert evicts key b now).burst = s.burst ∧ (s.insert evicts key b now).ttl = s.ttl ∧
      (s.insert evicts key b now).inserts = s.inserts + 1 := by
  unfold insert
  dsimp only
  split <;> exact ⟨rfl, rfl, rfl, rfl⟩

theorem insert_self (hb : b.lastSeen = now) (httl : 0 ≤ s.ttl) :
    (s.insert evicts key b now).buckets key = some b := by
  unfold insert
  dsimp only
  split
  · have hidle : ¬ s.ttl < now - b.lastSeen := by omega
    apply (sweepLocked_some (b := b) (put_self (some b))).trans
    exact if_neg hidle
  · exact put_self (some b)

theorem insert_of_ne (hk : k ≠ key) : (s.insert evicts key b now).buckets k =
    if evicts = true ∧ (s.inserts + 1) % sweepEvery = 0 then (s.sweepLocked now).buckets k
    else s.buckets k := by
  unfold insert
  dsimp only
  split
  · simp [sweepLocked, put, hk]
  · simp [put, hk]

theorem allowWith_answer :
    (s.allowWith evicts key now).2 = (reserve (s.bucketFor key now).limiter now).2 := rfl

theorem allowWith_self (evicts : Bool) (httl : 0 ≤ s.ttl) (key : ClientKey) (now : ℤ) :
    (s.allowWith evicts key now).1.buckets key =
      some ⟨(reserve (s.bucketFor key now).limiter now).1, now⟩ := by
  unfold allowWith bucketFor
  rcases hkey : s.buckets key with - | b
  · simp [insert_self rfl httl]
  · simp [hkey]

/-- The other buckets stay as they are, up to a sweep when the client is new. -/
theorem allowWith_of_ne (hk : k ≠ key) : (s.allowWith evicts key now).1.buckets k =
    if s.buckets key = none ∧ evicts = true ∧ (s.inserts + 1) % sweepEvery = 0
    then (s.sweepLocked now).buckets k else s.buckets k := by
  unfold allowWith
  rcases hkey : s.buckets key with - | b
  · simp [put_of_ne hk, insert_of_ne hk]
  · simp [put_of_ne hk]

theorem allowWith_frame (evicts : Bool) (s : BucketStore R) (key : ClientKey) (now : ℤ) :
    (s.allowWith evicts key now).1.rps = s.rps ∧
      (s.allowWith evicts key now).1.burst = s.burst ∧
      (s.allowWith evicts key now).1.ttl = s.ttl ∧
      (s.allowWith evicts key now).1.inserts =
        s.inserts + if s.buckets key = none then 1 else 0 := by
  unfold allowWith
  rcases hkey : s.buckets key with - | b
  · exact insert_frame evicts s key _ now
  · exact ⟨rfl, rfl, rfl, rfl⟩

structure Configured (cfg : RateLimitConfig) (s : BucketStore R) : Prop where
  rps : s.rps = cfg.rps
  burst : s.burst = cfg.burst
  ttl : s.ttl = cfg.ttl

theorem configured_new (R : RateLimiter) (cfg : RateLimitConfig) :
    Configured cfg (newBucketStore R cfg) := ⟨rfl, rfl, rfl⟩

theorem Configured.allowWith {cfg : RateLimitConfig} (h : Configured cfg s) (evicts : Bool)
    (key : ClientKey) (now : ℤ) : Configured cfg (s.allowWith evicts key now).1 := by
  obtain ⟨hrps, hburst, httl, -⟩ := allowWith_frame evicts s key now
  exact ⟨hrps.trans h.rps, hburst.trans h.burst, httl.trans h.ttl⟩

/-- What a sweep drops has been idle for longer than the TTL. -/
theorem sweepLocked_buckets (s : BucketStore R) (now : ℤ) (k : ClientKey) :
    (s.sweepLocked now).buckets k = s.buckets k ∨
      (s.sweepLocked now).buckets k = none ∧
        ∃ b, s.buckets k = some b ∧ s.ttl < now - b.lastSeen := by
  rcases hk : s.buckets k with - | b
  · exact Or.inl (by simp [sweepLocked, hk])
  · rw [sweepLocked_some hk]
    split
    · next hidle => exact Or.inr ⟨rfl, b, rfl, hidle⟩
    · exact Or.inl rfl

theorem allowWith_cases (httl : 0 ≤ s.ttl)
    (h : (s.allowWith evicts key now).1.buckets k = some b) :
    (k = key ∧ b = ⟨(reserve (s.bucketFor key now).limiter now).1, now⟩) ∨
      (k ≠ key ∧ s.buckets k = some b) := by
  by_cases hk : k = key
  · subst hk
    rw [allowWith_self evicts httl, Option.some.injEq] at h
    exact Or.inl ⟨rfl, h.symm⟩
  · refine Or.inr ⟨hk, ?_⟩
    rw [allowWith_of_ne hk] at h
    split at h
    · rcases s.sweepLocked_buckets now k with heq | ⟨hnone, -⟩
      · rwa [heq] at h
      · rw [hnone] at h
        cases h
    · exact h

theorem allowWith_eq_none_cases (httl : 0 ≤ s.ttl)
    (h : (s.allowWith evicts key now).1.buckets k = none) : k ≠ key ∧
      (s.buckets k = none ∨
        evicts = true ∧ ∃ b, s.buckets k = some b ∧ s.ttl < now - b.lastSeen) := by
  have hk : k ≠ key := by
    rintro rfl
    rw [allowWith_self evicts httl] at h
    cases h
  refine ⟨hk, ?_⟩
  rw [allowWith_of_ne hk] at h
  split at h
  · next hsweep =>
    rcases s.sweepLocked_buckets now k with heq | ⟨-, hidle⟩
    · exact Or.inl (heq ▸ h)
    · exact Or.inr ⟨hsweep.2.1, hidle⟩
  · exact Or.inl h

end BucketStore

end Calculator.RateLimit
