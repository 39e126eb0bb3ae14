import Calculator.RateLimit.BucketStore

/-! # Eviction

A store that evicts answers like one that keeps every bucket, if a bucket fills
up within the idle time after which it may be dropped. Both then follow the
reference, in which each client has a token bucket of its own. If a bucket does
not fill up in time, a client that is forgotten while it waits gets its whole
burst back.
-/

namespace Calculator.RateLimit

open TokenBucket

/-- The requests arrive in order. -/
def Ordered (reqs : List Request) : Prop := reqs.Pairwise fun r r' => r.2 ≤ r'.2

def answersTo (k : ClientKey) (reqs : List Request) (replies : List Answer) : List Answer :=
  ((reqs.zip replies).filter (·.1.1 = k)).map Prod.snd

/-- The requests of one client that are admitted from time `u` to time `v`. -/
def admittedTo (k : ClientKey) (u v : ℤ) (reqs : List Request) (replies : List Answer) : ℕ :=
  (reqs.zip replies).countP fun x => x.1.1 = k ∧ u ≤ x.1.2 ∧ x.1.2 ≤ v ∧ x.2.ok = true

def reference (L : Limit ℚ) (σ : ClientKey → TokenBucket.Bucket ℚ) : List Request → List Answer
  | [] => []
  | (k, t) :: reqs =>
    answerOf ((σ k).wait L t) :: reference L (Function.update σ k ((σ k).take L t)) reqs

def times (k : ClientKey) (reqs : List Request) : List ℚ :=
  (reqs.filter (·.1 = k)).map fun r => (r.2 : ℚ)

section Reference

variable {L : Limit ℚ} {σ : ClientKey → TokenBucket.Bucket ℚ} {k : ClientKey} {u v : ℤ}
  {reqs : List Request}

theorem answerOf_ok_iff {w : ℚ} (hw : 0 ≤ w) : (answerOf w).ok = true ↔ w = 0 := by
  unfold answerOf
  split
  · next h => simp [h.ne']
  · next h => simp [le_antisymm (not_lt.mp h) hw]

theorem times_cons_self {t : ℤ} : times k ((k, t) :: reqs) = (t : ℚ) :: times k reqs := by
  simp [times]

theorem times_cons_of_ne {r : Request} (h : r.1 ≠ k) : times k (r :: reqs) = times k reqs := by
  simp [times, h]

theorem length_reference : (reference L σ reqs).length = reqs.length := by
  induction reqs generalizing σ with
  | nil => rfl
  | cons r reqs ih => simp [reference, ih]

theorem answersTo_reference : answersTo k reqs (reference L σ reqs) =
    ((σ k).waits L (times k reqs)).map answerOf := by
  induction reqs generalizing σ with
  | nil => rfl
  | cons r reqs ih =>
    obtain ⟨k', t⟩ := r
    have hrest := ih (σ := Function.update σ k' ((σ k').take L t))
    rw [answersTo] at hrest ⊢
    by_cases hk : k' = k
    · subst hk
      rw [Function.update_self] at hrest
      rw [times_cons_self, Bucket.waits, List.map_cons, ← hrest]
      simp [reference]
    · rw [Function.update_of_ne (Ne.symm hk)] at hrest
      rw [times_cons_of_ne hk, ← hrest]
      simp [reference, hk]

theorem admittedTo_reference : admittedTo k u v reqs (reference L σ reqs) =
    Bucket.admitted (u : ℚ) v ((times k reqs).zip ((σ k).waits L (times k reqs))) := by
  induction reqs generalizing σ with
  | nil => rfl
  | cons r reqs ih =>
    obtain ⟨k', t⟩ := r
    have hrest := ih (σ := Function.update σ k' ((σ k').take L t))
    rw [admittedTo] at hrest ⊢
    by_cases hk : k' = k
    · subst hk
      rw [Function.update_self] at hrest
      rw [times_cons_self, Bucket.admitted_cons, ← hrest, reference, List.zip_cons_cons,
        List.countP_cons]
      simp [answerOf_ok_iff Bucket.wait_nonneg]
    · rw [Function.update_of_ne (Ne.symm hk)] at hrest
      rw [times_cons_of_ne hk, ← hrest, reference, List.zip_cons_cons,
        List.countP_cons_of_neg (by simp [hk])]

theorem admittedTo_reference_le (huv : u ≤ v) (hb : 0 ≤ (σ k).tokens)
    (hs : ∀ r ∈ reqs, (σ k).since ≤ r.2) (hreqs : Ordered reqs) :
    (admittedTo k u v reqs (reference L σ reqs) : ℚ) ≤ L.burst + L.rate * (v - u) := by
  rw [admittedTo_reference]
  refine Bucket.admitted_le (by exact_mod_cast huv) hb ?_ ?_
  · intro t ht
    obtain ⟨r, hr, rfl⟩ := List.mem_map.mp ht
    exact hs r (List.mem_of_mem_filter hr)
  · refine List.pairwise_map.mpr ((hreqs.sublist List.filter_sublist).imp ?_)
    intro r r' h
    exact_mod_cast h

end Reference

variable {R : RateLimiter} {cfg : AcceptedConfig} {evicts : Bool} {s : BucketStore R}
  {σ : ClientKey → TokenBucket.Bucket ℚ} {k : ClientKey} {now t : ℤ} {reqs : List Request}

/-- A bucket that is idle for longer than the TTL is full again. -/
def FillsInTime (cfg : AcceptedConfig) : Prop := second * cfg.burst ≤ cfg.rps * (cfg.ttl + 1)

/-- What the store holds for a client is its bucket in the reference; a client
it does not know has a full one. -/
structure Tracks (cfg : AcceptedConfig) (s : BucketStore R)
    (σ : ClientKey → TokenBucket.Bucket ℚ) (now : ℤ) : Prop where
  configured : s.Configured cfg.toRateLimitConfig
  tokens : ∀ k, 0 ≤ (σ k).tokens
  since : ∀ k, (σ k).since ≤ now
  present : ∀ k b, s.buckets k = some b →
    IsBucket cfg b.limiter (σ k).tokens b.lastSeen ∧ (b.lastSeen : ℚ) = (σ k).since
  absent : ∀ k, s.buckets k = none → (σ k).level cfg.limit now = cfg.limit.burst

def fullBuckets (cfg : AcceptedConfig) (t : ℤ) : ClientKey → TokenBucket.Bucket ℚ :=
  fun _ => ⟨cfg.burst, t⟩

theorem burst_pos (cfg : AcceptedConfig) : 0 < cfg.limit.burst :=
  zero_lt_one.trans_le cfg.limit.one_le_burst

theorem level_fullBuckets : (fullBuckets cfg t k).level cfg.limit t = cfg.limit.burst :=
  min_eq_left (by simp [fullBuckets, AcceptedConfig.limit])

theorem tracks_new (R : RateLimiter) (cfg : AcceptedConfig) (t : ℤ) :
    Tracks cfg (newBucketStore R cfg.toRateLimitConfig) (fullBuckets cfg t) t where
  configured := BucketStore.configured_new R cfg.toRateLimitConfig
  tokens _ := (burst_pos cfg).le
  since _ := le_rfl
  present _ _ h := by cases h
  absent _ _ := level_fullBuckets

theorem FillsInTime.burst_le (h : FillsInTime cfg) {d : ℤ} (hd : cfg.ttl < d) :
    cfg.limit.burst ≤ cfg.limit.rate * d := by
  have hsecond : (0 : ℚ) < second := by norm_num [second]
  have hrps : (0 : ℤ) ≤ cfg.rps := zero_le_one.trans cfg.one_le_rps
  have hint : second * cfg.burst ≤ cfg.rps * d :=
    h.trans (mul_le_mul_of_nonneg_left (by omega) hrps)
  have hrat : (second : ℚ) * cfg.burst ≤ cfg.rps * d := by exact_mod_cast hint
  change (cfg.burst : ℚ) ≤ cfg.rps / second * d
  rw [div_mul_eq_mul_div, le_div_iff₀ hsecond]
  linarith

namespace Tracks

theorem bucketFor (hR : ExactTokenBucket R cfg) (h : Tracks cfg s σ now) (ht : now ≤ t)
    (k : ClientKey) : ∃ x, IsBucket cfg (s.bucketFor k t).limiter x t ∧
      Bucket.level cfg.limit ⟨x, t⟩ t = (σ k).level cfg.limit t := by
  have hcast : (now : ℚ) ≤ t := by exact_mod_cast ht
  unfold BucketStore.bucketFor
  rcases hk : s.buckets k with - | b
  · refine ⟨cfg.burst, ?_, ?_⟩
    · rw [h.configured.rps, h.configured.burst]
      exact hR.newLimiter t
    · rw [Bucket.level_eq_burst_of_le (h.absent k hk) hcast]
      exact level_fullBuckets (k := k)
  · obtain ⟨hb, hsince⟩ := h.present k b hk
    have hle : (b.lastSeen : ℚ) ≤ t := hsince ▸ (h.since k).trans hcast
    refine ⟨_, hb.later (by exact_mod_cast hle), ?_⟩
    rw [Bucket.level_level le_rfl, hsince]

theorem step (hR : ExactTokenBucket R cfg) (hfill : evicts = true → FillsInTime cfg)
    (h : Tracks cfg s σ now) (ht : now ≤ t) (k : ClientKey) :
    (s.allowWith evicts k t).2 = answerOf ((σ k).wait cfg.limit t) ∧
      Tracks cfg (s.allowWith evicts k t).1 (Function.update σ k ((σ k).take cfg.limit t)) t := by
  have hcast : (now : ℚ) ≤ t := by exact_mod_cast ht
  obtain ⟨x, hx, hlevel⟩ := h.bucketFor hR ht k
  obtain ⟨hlimiter, hanswer⟩ := reserve_spec hR hx
  rw [Bucket.take_congr hlevel] at hlimiter
  rw [Bucket.wait_congr hlevel] at hanswer
  have httl : 0 ≤ s.ttl := h.configured.ttl ▸ cfg.ttl_pos.le
  refine ⟨hanswer, h.configured.allowWith evicts k t, ?_, ?_, ?_, ?_⟩
  · refine (Function.forall_update_iff σ fun _ b => 0 ≤ b.tokens).mpr ⟨?_, ?_⟩
    · exact Bucket.take_tokens_nonneg (Bucket.level_nonneg (h.tokens k) ((h.since k).trans hcast))
    · exact fun k' _ => h.tokens k'
  · refine (Function.forall_update_iff σ fun _ b => b.since ≤ t).mpr ⟨?_, ?_⟩
    · exact le_rfl
    · exact fun k' _ => (h.since k').trans hcast
  · intro k' b hb
    rcases BucketStore.allowWith_cases httl hb with ⟨rfl, rfl⟩ | ⟨hk, hb⟩
    · rw [Function.update_self]
      exact ⟨hlimiter, rfl⟩
    · rw [Function.update_of_ne hk]
      exact h.present k' b hb
  · intro k' hnone
    obtain ⟨hk, hnone | ⟨hevicts, b, hb, hidle⟩⟩ := BucketStore.allowWith_eq_none_cases httl hnone
    · rw [Function.update_of_ne hk]
      exact Bucket.level_eq_burst_of_le (h.absent k' hnone) hcast
    · -- dropped for being idle, by which time it is full
      rw [Function.update_of_ne hk]
      apply Bucket.level_eq_burst (h.tokens k')
      rw [← (h.present k' b hb).2, ← Int.cast_sub]
      exact (hfill hevicts).burst_le (h.configured.ttl ▸ hidle)

theorem answers_eq (hR : ExactTokenBucket R cfg) (hfill : evicts = true → FillsInTime cfg)
    (h : Tracks cfg s σ now) (hle : ∀ r ∈ reqs, now ≤ r.2) (hreqs : Ordered reqs) :
    answers (BucketStore.allowWith evicts) s reqs = reference cfg.limit σ reqs := by
  induction reqs generalizing s σ now with
  | nil => rfl
  | cons r reqs ih =>
    obtain ⟨k, t⟩ := r
    obtain ⟨hanswer, htracks⟩ := h.step hR hfill (hle _ List.mem_cons_self) k
    rw [answers, reference, hanswer]
    refine congrArg _ (ih htracks ?_ hreqs.of_cons)
    exact fun r hr => List.rel_of_pairwise_cons hreqs hr

end Tracks

end Calculator.RateLimit
