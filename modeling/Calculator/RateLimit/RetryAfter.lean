import Calculator.RateLimit.ExactLimiter
import Calculator.RateLimit.Middleware
import Mathlib.Data.Int.ConditionallyCompleteOrder

/-! # Retry-After

A refused client that waits for the time it is told is admitted. A refusal
leaves its bucket as it was, so it fills up whatever the others do and however
often the client tries; and if the store forgets the bucket, the client gets a
full one.
-/

namespace Calculator.RateLimit

open Runs Machine TokenBucket

variable {R : RateLimiter} {cfg : AcceptedConfig} {s s' : BucketStore R} {l : R.Limiter} {x : ℚ}
  {k : ClientKey} {t u : ℤ} {now now' : WithBot ℤ} {e : Exchange} {es : List Exchange}
  {p q : BucketStore R × WithBot ℤ}

/-- A refusal leaves the bucket as it was. -/
theorem reserve_refused (hR : ExactTokenBucket R cfg) (h : IsBucket cfg l x t)
    (hrefused : (reserve l t).2.ok = false) :
    IsBucket cfg (reserve l t).1 (Bucket.level cfg.limit ⟨x, t⟩ t) t ∧
      (reserve l t).2.wait = Bucket.wait cfg.limit ⟨x, t⟩ t := by
  obtain ⟨hlimiter, hanswer⟩ := reserve_spec hR h
  have hwait : 0 < Bucket.wait cfg.limit ⟨x, t⟩ (t : ℚ) := by
    by_contra hzero
    rw [hanswer, answerOf, if_neg hzero] at hrefused
    cases hrefused
  rw [Bucket.take, if_neg (not_le.mpr (Bucket.wait_pos_iff.mp hwait))] at hlimiter
  rw [hanswer, answerOf, if_pos hwait]
  exact ⟨hlimiter, rfl⟩

theorem reserve_ok (hR : ExactTokenBucket R cfg) (h : IsBucket cfg l x t)
    (hone : 1 ≤ Bucket.level cfg.limit ⟨x, t⟩ t) : (reserve l t).2.ok = true := by
  rw [(reserve_spec hR h).2, Bucket.wait_eq_zero_iff.mpr hone]
  rfl

/-- Each bucket has held some tokens since its client was last seen. -/
structure Sound (cfg : AcceptedConfig) (s : BucketStore R) (now : WithBot ℤ) : Prop where
  configured : s.Configured cfg.toRateLimitConfig
  buckets : ∀ k b, s.buckets k = some b → (b.lastSeen : WithBot ℤ) ≤ now ∧
    ∃ x, 0 ≤ x ∧ IsBucket cfg b.limiter x b.lastSeen

namespace Sound

theorem mono (h : Sound cfg s now) (hle : now ≤ now') : Sound cfg s now' where
  configured := h.configured
  buckets k b hb := (h.buckets k b hb).imp_left (·.trans hle)

theorem bucketFor (hR : ExactTokenBucket R cfg) (h : Sound cfg s now) (ht : now ≤ t)
    (k : ClientKey) : ∃ x, 0 ≤ x ∧ IsBucket cfg (s.bucketFor k t).limiter x t := by
  unfold BucketStore.bucketFor
  rcases hk : s.buckets k with - | b
  · refine ⟨cfg.burst, zero_le_one.trans cfg.limit.one_le_burst, ?_⟩
    rw [h.configured.rps, h.configured.burst]
    exact hR.newLimiter t
  · obtain ⟨hseen, x, hx, hb⟩ := h.buckets k b hk
    have hle : b.lastSeen ≤ t := WithBot.coe_le_coe.mp (hseen.trans ht)
    have hcast : (b.lastSeen : ℚ) ≤ t := by exact_mod_cast hle
    exact ⟨_, Bucket.level_nonneg hx hcast, hb.later hle⟩

theorem allow (hR : ExactTokenBucket R cfg) (h : Sound cfg s now) (ht : now ≤ t)
    (k : ClientKey) : Sound cfg (s.allow k t).1 t where
  configured := h.configured.allowWith true k t
  buckets k' b hb := by
    rcases BucketStore.allowWith_cases (h.configured.ttl ▸ cfg.ttl_pos.le) hb with
      ⟨-, rfl⟩ | ⟨-, hb⟩
    · obtain ⟨x, hx, hbucket⟩ := h.bucketFor hR ht k
      refine ⟨le_rfl, _, ?_, (reserve_spec hR hbucket).1⟩
      exact Bucket.take_tokens_nonneg (Bucket.level_nonneg hx le_rfl)
    · exact (h.buckets k' b hb).imp_left (·.trans ht)

theorem next (hR : ExactTokenBucket R cfg) (h : Sound cfg p.1 p.2)
    (hn : (inOrder R cfg.toRateLimitConfig).next p e = some q) : Sound cfg q.1 q.2 := by
  obtain ⟨hle, hn, hclock⟩ := timed_next_iff.mp hn
  rw [hclock]
  rcases exchanges_next_cases hn with ⟨-, -, hq⟩ | ⟨-, hq, -⟩
  · exact hq ▸ h.mono hle
  · exact hq ▸ h.allow hR hle e.1.key

theorem of_reachable (hR : ExactTokenBucket R cfg)
    (h : (inOrder R cfg.toRateLimitConfig).Reachable p) : Sound cfg p.1 p.2 := by
  apply h.induction (I := fun p => Sound cfg p.1 p.2)
  · exact ⟨BucketStore.configured_new R _, fun _ _ hb => by cases hb⟩
  · exact fun h hn => h.next hR hn

end Sound

/-- The client's bucket, if the store has one, will hold a token at time `u`. -/
structure Refills (cfg : AcceptedConfig) (k : ClientKey) (u : ℤ) (s : BucketStore R)
    (now : WithBot ℤ) : Prop where
  configured : s.Configured cfg.toRateLimitConfig
  bucket : ∀ b, s.buckets k = some b → (b.lastSeen : WithBot ℤ) ≤ now ∧
    ∃ x, IsBucket cfg b.limiter x b.lastSeen ∧ 1 ≤ Bucket.level cfg.limit ⟨x, b.lastSeen⟩ u

namespace Refills

theorem mono (h : Refills cfg k u s now) (hle : now ≤ now') : Refills cfg k u s now' where
  configured := h.configured
  bucket b hb := (h.bucket b hb).imp_left (·.trans hle)

theorem bucketFor (hR : ExactTokenBucket R cfg) (h : Refills cfg k u s now) (ht : now ≤ t)
    (htu : t ≤ u) : ∃ x, IsBucket cfg (s.bucketFor k t).limiter x t ∧
      1 ≤ Bucket.level cfg.limit ⟨x, t⟩ u := by
  have hcast : (t : ℚ) ≤ u := by exact_mod_cast htu
  unfold BucketStore.bucketFor
  rcases hk : s.buckets k with - | b
  · refine ⟨cfg.burst, ?_, ?_⟩
    · rw [h.configured.rps, h.configured.burst]
      exact hR.newLimiter t
    · -- a new bucket is full
      have hfull : Bucket.level cfg.limit ⟨cfg.burst, t⟩ (t : ℚ) = cfg.limit.burst :=
        min_eq_left (by simp [AcceptedConfig.limit])
      rw [Bucket.level_eq_burst_of_le hfull hcast]
      exact cfg.limit.one_le_burst
  · obtain ⟨hseen, x, hb, hone⟩ := h.bucket b hk
    have hle : b.lastSeen ≤ t := WithBot.coe_le_coe.mp (hseen.trans ht)
    refine ⟨_, hb.later hle, ?_⟩
    rwa [Bucket.level_level hcast]

theorem of_refused (hR : ExactTokenBucket R cfg) (hs : s.Configured cfg.toRateLimitConfig)
    (hx : IsBucket cfg (s.bucketFor k t).limiter x t)
    (hone : 1 ≤ Bucket.level cfg.limit ⟨x, t⟩ u) (htu : t ≤ u)
    (hrefused : (s.allow k t).2.ok = false) : Refills cfg k u (s.allow k t).1 t where
  configured := hs.allowWith true k t
  bucket b hb := by
    rcases BucketStore.allowWith_cases (hs.ttl ▸ cfg.ttl_pos.le) hb with ⟨-, rfl⟩ | ⟨hk, -⟩
    · refine ⟨le_rfl, _, (reserve_refused hR hx hrefused).1, ?_⟩
      rwa [Bucket.level_level (by exact_mod_cast htu)]
    · exact absurd rfl hk

theorem next (hR : ExactTokenBucket R cfg) (h : Refills cfg k u p.1 p.2)
    (hn : (inOrder R cfg.toRateLimitConfig).next p e = some q) (hq : q.2 ≤ u)
    (he : ¬ e.Admits k) : Refills cfg k u q.1 q.2 := by
  obtain ⟨hle, hn, hclock⟩ := timed_next_iff.mp hn
  have hu : e.1.now ≤ u := WithBot.coe_le_coe.mp (hclock ▸ hq)
  rw [hclock]
  rcases exchanges_next_cases hn with ⟨-, -, hq⟩ | ⟨hpath, hq, hverdict⟩
  · exact hq ▸ h.mono hle
  · rw [hq]
    by_cases hk : e.1.key = k
    · obtain ⟨x, hx, hone⟩ := h.bucketFor hR hle hu
      subst hk
      refine of_refused hR h.configured hx hone hu ?_
      rw [← Bool.not_eq_true]
      intro hok
      exact he ⟨rfl, hpath, hverdict.trans (if_pos hok)⟩
    · refine ⟨h.configured.allowWith true _ _, ?_⟩
      intro b hb
      rcases BucketStore.allowWith_cases (h.configured.ttl ▸ cfg.ttl_pos.le) hb with
        ⟨heq, -⟩ | ⟨-, hb⟩
      · exact absurd heq.symm hk
      · exact (h.bucket b hb).imp_left (·.trans hle)

theorem run (hR : ExactTokenBucket R cfg) (hrun : (inOrder R cfg.toRateLimitConfig).Run p es q)
    (h : Refills cfg k u p.1 p.2) (hq : q.2 ≤ u) (hes : ∀ e ∈ es, ¬ e.Admits k) :
    Refills cfg k u q.1 q.2 := by
  induction hrun with
  | nil => exact h
  | cons _ hn hrest ih =>
    obtain ⟨he, hes⟩ := List.forall_mem_cons.mp hes
    exact ih (h.next hR hn ((clock_le hrest).trans hq) he) hq hes

theorem admitted (hR : ExactTokenBucket R cfg) (h : Refills cfg k e.1.now p.1 p.2)
    (hk : e.1.key = k) (hn : (inOrder R cfg.toRateLimitConfig).next p e = some q) :
    e.2 = .next := by
  obtain ⟨hle, hn, -⟩ := timed_next_iff.mp hn
  rcases exchanges_next_cases hn with ⟨-, hverdict, -⟩ | ⟨-, -, hverdict⟩
  · exact hverdict
  · obtain ⟨x, hx, hone⟩ := h.bucketFor hR hle le_rfl
    subst hk
    exact hverdict.trans (if_pos (reserve_ok hR hx hone))

end Refills

theorem wait_le_second (hx : 0 ≤ x) : Bucket.wait cfg.limit ⟨x, t⟩ (t : ℚ) ≤ second := by
  have hrps : (1 : ℚ) ≤ cfg.rps := by exact_mod_cast cfg.one_le_rps
  have hsecond : (0 : ℚ) < second := by norm_num [second]
  calc Bucket.wait cfg.limit ⟨x, t⟩ (t : ℚ)
      ≤ 1 / (cfg.rps / second) := Bucket.wait_le (Bucket.level_nonneg hx le_rfl)
    _ = second / cfg.rps := one_div_div _ _
    _ ≤ second := div_le_self hsecond.le hrps

theorem one_le_retryAfter (wait : ℚ) : 1 ≤ retryAfter wait := le_max_left _ _

/-- A refused client that tries again after the time it is told is admitted,
unless it has been admitted before. -/
theorem retryAfter_is_honest (hR : ExactTokenBucket R cfg)
    (hp : (inOrder R cfg.toRateLimitConfig).Reachable p) {r : Arrival} {n : ℤ}
    (hrefused : (inOrder R cfg.toRateLimitConfig).next p (r, .tooManyRequests n) = some q) :
    1 ≤ n ∧ ∀ es r' v w, (inOrder R cfg.toRateLimitConfig).Run q (es ++ [(r', v)]) w →
      r'.key = r.key → (∀ e ∈ es, ¬ Exchange.Admits r.key e) →
      r.now + n * second ≤ r'.now → v = .next := by
  have hsound := Sound.of_reachable hR hp
  obtain ⟨hle, hn, hclock⟩ := timed_next_iff.mp hrefused
  rcases exchanges_next_cases hn with ⟨-, hverdict, -⟩ | ⟨-, hq, hverdict⟩
  · cases hverdict
  split at hverdict
  · cases hverdict
  · next hok =>
    have hone : 1 ≤ n := by
      rw [Verdict.tooManyRequests.inj hverdict]
      exact one_le_retryAfter _
    refine ⟨hone, ?_⟩
    intro es r' v w hrun hkey hes hlater
    obtain ⟨m, hes', hlast⟩ := runWhen_append_iff.mp hrun
    obtain ⟨w', -, hlast, -⟩ := runWhen_cons_iff.mp hlast
    obtain ⟨hm, -, -⟩ := timed_next_iff.mp hlast
    obtain ⟨x, hx, hbucket⟩ := hsound.bucketFor hR hle r.key
    -- a second is enough, and that is what the client is told at least
    have hpos : 0 ≤ second := by decide
    have hsecond : r.now + second ≤ r'.now :=
      (Int.add_le_add_left (le_mul_of_one_le_left hpos hone) _).trans hlater
    have htoken : 1 ≤ Bucket.level cfg.limit ⟨x, r.now⟩ (r'.now : ℚ) := by
      apply Bucket.one_le_level (t := (r.now : ℚ))
      have hcast : (r.now : ℚ) + second ≤ r'.now := by exact_mod_cast hsecond
      have hwait : Bucket.wait cfg.limit ⟨x, r.now⟩ (r.now : ℚ) ≤ second := wait_le_second hx
      linarith
    have hrefills := Refills.of_refused hR hsound.configured hbucket htoken
      ((Int.le_add_of_nonneg_right hpos).trans hsecond) (Bool.eq_false_iff.mpr hok)
    have hend := Refills.run hR hes' (hq ▸ hclock ▸ hrefills) hm hes
    exact hend.admitted hR hkey hlast

def strict : AcceptedConfig := ⟨⟨1, 1, 60 * second⟩, by decide, by decide⟩

def visit (t : ℤ) : Arrival := ⟨"/api/v1/calculate".toList, ['k'], t⟩

def spent : BucketStore exactLimiter × WithBot ℤ :=
  ((rateLimit strict.toRateLimitConfig (newBucketStore _ strict.toRateLimitConfig) (visit 0)).1,
    (0 : ℤ))

def refused : BucketStore exactLimiter × WithBot ℤ :=
  ((rateLimit strict.toRateLimitConfig spent.1 (visit 1)).1, (1 : ℤ))

theorem next_spent : (inOrder exactLimiter strict.toRateLimitConfig).next
    (inOrder exactLimiter strict.toRateLimitConfig).start (visit 0, .next) = some spent := by
  refine timed_next_iff.mpr ⟨bot_le, if_pos ?_, rfl⟩
  decide +kernel

theorem next_refused : (inOrder exactLimiter strict.toRateLimitConfig).next spent
    (visit 1, .tooManyRequests 1) = some refused := by
  refine timed_next_iff.mpr ⟨by decide, if_pos ?_, rfl⟩
  decide +kernel

theorem retryAfter_is_honest_visit : 1 ≤ (1 : ℤ) ∧ ∀ es r' v w,
    (inOrder exactLimiter strict.toRateLimitConfig).Run refused (es ++ [(r', v)]) w →
      r'.key = ['k'] → (∀ e ∈ es, ¬ Exchange.Admits ['k'] e) →
      1 + 1 * second ≤ r'.now → v = .next :=
  retryAfter_is_honest (exactTokenBucket strict) (Reachable.start.next next_spent) next_refused

end Calculator.RateLimit
