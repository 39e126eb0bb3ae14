import Calculator.RateLimit.Invisibility

/-! # The rate that is enforced

Whether or not eviction is invisible, a client is bounded. One that is dropped for
being idle comes back to a full bucket, and being idle takes its time: all in all it
gets no more than a bucket that fills up within the idle time, if that is faster than
its own. Other clients can let it have that much.
-/

namespace Calculator.RateLimit

open TokenBucket

variable {R : RateLimiter} {cfg : AcceptedConfig} {s : BucketStore R} {k : ClientKey}
  {β : TokenBucket.Bucket ℚ} {now t u v : ℤ} {reqs : List Request}

def AcceptedConfig.sustained (cfg : AcceptedConfig) : Limit ℚ where
  rate := max cfg.limit.rate (cfg.burst / (cfg.ttl + 1))
  burst := cfg.burst
  rate_pos := lt_max_of_lt_left cfg.limit.rate_pos
  one_le_burst := cfg.limit.one_le_burst

theorem burst_le_sustained (cfg : AcceptedConfig) {d : ℤ} (hd : cfg.ttl < d) :
    cfg.sustained.burst ≤ cfg.sustained.rate * d := by
  have hidle : (0 : ℚ) < cfg.ttl + 1 := by
    have := cfg.ttl_pos
    exact_mod_cast (by omega : 0 < cfg.ttl + 1)
  have hd : (cfg.ttl + 1 : ℚ) ≤ d := by exact_mod_cast hd
  calc cfg.sustained.burst = cfg.burst / (cfg.ttl + 1) * (cfg.ttl + 1) :=
        (div_mul_cancel₀ _ hidle.ne').symm
    _ ≤ cfg.sustained.rate * (cfg.ttl + 1) :=
        mul_le_mul_of_nonneg_right (le_max_right _ _) hidle.le
    _ ≤ cfg.sustained.rate * d := mul_le_mul_of_nonneg_left hd cfg.sustained.rate_pos.le

def grants (k : ClientKey) (reqs : List Request) (replies : List Answer) : List ℚ :=
  ((reqs.zip replies).filter fun x => x.1.1 = k ∧ x.2.ok = true).map fun x => (x.1.2 : ℚ)

theorem grants_cons {r : Request} {a : Answer} {replies : List Answer} :
    grants k (r :: reqs) (a :: replies) =
      if r.1 = k ∧ a.ok = true then (r.2 : ℚ) :: grants k reqs replies
      else grants k reqs replies := by
  rw [grants, List.zip_cons_cons, List.filter_cons]
  simp only [decide_eq_true_eq]
  split
  · rfl
  · rfl

theorem exists_of_mem_grants {replies : List Answer} {x : ℚ} (h : x ∈ grants k reqs replies) :
    ∃ r ∈ reqs, (r.2 : ℚ) = x := by
  obtain ⟨y, hy, rfl⟩ := List.mem_map.mp h
  exact ⟨y.1, (List.of_mem_zip (List.mem_of_mem_filter hy)).1, rfl⟩

theorem pairwise_grants {replies : List Answer} (hreqs : Ordered reqs) :
    (grants k reqs replies).Pairwise (· ≤ ·) := by
  induction reqs generalizing replies with
  | nil => exact List.Pairwise.nil
  | cons r reqs ih =>
    cases replies with
    | nil => exact List.Pairwise.nil
    | cons a replies =>
      rw [grants_cons]
      split
      · refine List.Pairwise.cons ?_ (ih hreqs.of_cons)
        intro x hx
        obtain ⟨r', hr', rfl⟩ := exists_of_mem_grants hx
        exact_mod_cast List.rel_of_pairwise_cons hreqs hr'
      · exact ih hreqs.of_cons

theorem admittedTo_eq_admitted {L : Limit ℚ} {replies : List Answer}
    (h : ∀ w ∈ β.waits L (grants k reqs replies), w = 0) : admittedTo k u v reqs replies =
      Bucket.admitted (u : ℚ) v
        ((grants k reqs replies).zip (β.waits L (grants k reqs replies))) := by
  induction reqs generalizing replies β with
  | nil => rfl
  | cons r reqs ih =>
    cases replies with
    | nil => rfl
    | cons a replies =>
      rw [admittedTo, List.zip_cons_cons, List.countP_cons, ← admittedTo]
      rw [grants_cons] at h ⊢
      by_cases hr : r.1 = k ∧ a.ok = true
      · rw [if_pos hr] at h ⊢
        rw [Bucket.waits] at h
        obtain ⟨hzero, h⟩ := List.forall_mem_cons.mp h
        rw [Bucket.admitted_cons, ih h]
        simp [hr, hzero]
      · rw [if_neg hr] at h
        rw [if_neg hr, ih h]
        have hnot : ¬ (r.1 = k ∧ u ≤ r.2 ∧ r.2 ≤ v ∧ a.ok = true) := fun hall =>
          hr ⟨hall.1, hall.2.2.2⟩
        simp [hnot]

/-- A bucket that fills within the idle time and gives a token only for a grant holds
at least what the store holds for the client. -/
structure Within (cfg : AcceptedConfig) (k : ClientKey) (s : BucketStore R)
    (β : TokenBucket.Bucket ℚ) (now : ℤ) : Prop where
  configured : s.Configured cfg.toRateLimitConfig
  tokens : 0 ≤ β.tokens
  since : β.since ≤ now
  present : ∀ b, s.buckets k = some b → β.since ≤ b.lastSeen ∧ b.lastSeen ≤ now ∧
    ∃ x, IsBucket cfg b.limiter x b.lastSeen ∧
      Bucket.level cfg.limit ⟨x, b.lastSeen⟩ b.lastSeen ≤ β.level cfg.sustained b.lastSeen
  absent : s.buckets k = none → β.level cfg.sustained now = cfg.sustained.burst

theorem within_new (R : RateLimiter) (cfg : AcceptedConfig) (k : ClientKey) (t : ℤ) :
    Within cfg k (newBucketStore R cfg.toRateLimitConfig) ⟨cfg.burst, t⟩ t where
  configured := BucketStore.configured_new R cfg.toRateLimitConfig
  tokens := (burst_pos cfg).le
  since := le_rfl
  present _ h := by cases h
  absent _ := min_eq_left (by simp [AcceptedConfig.sustained])

namespace Within

theorem bucketFor (hR : ExactTokenBucket R cfg) (h : Within cfg k s β now) (ht : now ≤ t) :
    ∃ x, IsBucket cfg (s.bucketFor k t).limiter x t ∧
      Bucket.level cfg.limit ⟨x, t⟩ t ≤ β.level cfg.sustained t := by
  have hcast : (now : ℚ) ≤ t := by exact_mod_cast ht
  unfold BucketStore.bucketFor
  rcases hk : s.buckets k with - | b
  · refine ⟨cfg.burst, ?_, ?_⟩
    · rw [h.configured.rps, h.configured.burst]
      exact hR.newLimiter t
    · rw [Bucket.level_eq_burst_of_le (h.absent hk) hcast]
      exact Bucket.level_le_burst
  · obtain ⟨-, hseen, x, hx, hle⟩ := h.present b hk
    have hbt : b.lastSeen ≤ t := hseen.trans ht
    refine ⟨_, hx.later hbt, ?_⟩
    rw [Bucket.level_level le_rfl]
    exact Bucket.level_le_level rfl (le_max_left _ _) hle (by exact_mod_cast hbt)

theorem other {key : ClientKey} (h : Within cfg k s β now) (ht : now ≤ t) (hk : k ≠ key) :
    Within cfg k (s.allow key t).1 β t where
  configured := h.configured.allowWith true key t
  tokens := h.tokens
  since := h.since.trans (by exact_mod_cast ht)
  present b hb := by
    have httl : 0 ≤ s.ttl := h.configured.ttl ▸ cfg.ttl_pos.le
    rcases BucketStore.allowWith_cases httl hb with ⟨rfl, -⟩ | ⟨-, hb⟩
    · exact absurd rfl hk
    · obtain ⟨hsince, hseen, hx⟩ := h.present b hb
      exact ⟨hsince, hseen.trans ht, hx⟩
  absent hnone := by
    have httl : 0 ≤ s.ttl := h.configured.ttl ▸ cfg.ttl_pos.le
    obtain ⟨-, hnone | ⟨-, b, hb, hidle⟩⟩ := BucketStore.allowWith_eq_none_cases httl hnone
    · exact Bucket.level_eq_burst_of_le (h.absent hnone) (by exact_mod_cast ht)
    · -- dropped for being idle, by which time this one is full
      apply Bucket.level_eq_burst h.tokens
      have hfull := burst_le_sustained cfg (d := t - b.lastSeen) (h.configured.ttl ▸ hidle)
      refine hfull.trans (mul_le_mul_of_nonneg_left ?_ cfg.sustained.rate_pos.le)
      rw [Int.cast_sub]
      exact sub_le_sub_left (h.present b hb).1 _

theorem self (hR : ExactTokenBucket R cfg) (h : Within cfg k s β now) (ht : now ≤ t) :
    ((s.allow k t).2.ok = true → β.wait cfg.sustained t = 0) ∧
      Within cfg k (s.allow k t).1
        (if (s.allow k t).2.ok = true then β.take cfg.sustained t else β) t := by
  have hcast : (now : ℚ) ≤ t := by exact_mod_cast ht
  obtain ⟨x, hx, hle⟩ := h.bucketFor hR ht
  obtain ⟨hlimiter, hanswer⟩ := reserve_spec hR hx
  have hok : (s.allow k t).2.ok = true ↔ Bucket.wait cfg.limit ⟨x, t⟩ (t : ℚ) = 0 := by
    rw [BucketStore.allow, BucketStore.allowWith_answer, hanswer]
    exact answerOf_ok_iff Bucket.wait_nonneg
  have hwait : (s.allow k t).2.ok = true → β.wait cfg.sustained t = 0 := by
    rw [hok, Bucket.wait_eq_zero_iff, Bucket.wait_eq_zero_iff]
    exact fun hone => hone.trans hle
  have hself := BucketStore.allowWith_self (s := s) true
    (h.configured.ttl ▸ cfg.ttl_pos.le) k t
  have hlevel := Bucket.level_take (L := cfg.limit) (b := ⟨x, t⟩) (t := (t : ℚ))
  rw [Bucket.take_tokens] at hlevel
  refine ⟨hwait, h.configured.allowWith true k t, ?_, ?_, ?_, ?_⟩
  · split
    · exact Bucket.take_tokens_nonneg (Bucket.level_nonneg h.tokens (h.since.trans hcast))
    · exact h.tokens
  · split
    · exact le_rfl
    · exact h.since.trans hcast
  · intro b hb
    obtain rfl := Option.some.inj (hself.symm.trans hb)
    refine ⟨?_, le_rfl, _, hlimiter, hlevel.trans_le ?_⟩
    · split
      · exact le_rfl
      · exact h.since.trans hcast
    · by_cases hgrant : (s.allow k t).2.ok = true
      · rw [if_pos hgrant, if_pos (hok.mp hgrant), Bucket.level_take, Bucket.take_tokens,
          if_pos (hwait hgrant)]
        exact sub_le_sub_right hle 1
      · rw [if_neg hgrant, if_neg fun hzero => hgrant (hok.mpr hzero), sub_zero]
        exact hle
  · intro hnone
    rw [BucketStore.allow, hself] at hnone
    cases hnone

theorem waits_grants (hR : ExactTokenBucket R cfg) (h : Within cfg k s β now)
    (hle : ∀ r ∈ reqs, now ≤ r.2) (hreqs : Ordered reqs) :
    ∀ w ∈ β.waits cfg.sustained (grants k reqs (answers BucketStore.allow s reqs)), w = 0 := by
  induction reqs generalizing s β now with
  | nil => exact nofun
  | cons r reqs ih =>
    obtain ⟨key, t⟩ := r
    have ht : now ≤ t := hle _ List.mem_cons_self
    have hlater : ∀ r ∈ reqs, t ≤ r.2 := fun r hr => List.rel_of_pairwise_cons hreqs hr
    rw [answers, grants_cons]
    by_cases hk : key = k
    · subst hk
      obtain ⟨hwait, hwithin⟩ := h.self hR ht
      by_cases hgrant : (s.allow key t).2.ok = true
      · rw [if_pos hgrant] at hwithin
        rw [if_pos ⟨rfl, hgrant⟩, Bucket.waits]
        exact List.forall_mem_cons.mpr ⟨hwait hgrant, ih hwithin hlater hreqs.of_cons⟩
      · rw [if_neg hgrant] at hwithin
        rw [if_neg fun h => hgrant h.2]
        exact ih hwithin hlater hreqs.of_cons
    · rw [if_neg fun h => hk h.1]
      exact ih (h.other ht (Ne.symm hk)) hlater hreqs.of_cons

end Within

/-- In any window, a client gets its burst and what a rate allows. -/
def BoundedBy (R : RateLimiter) (cfg : AcceptedConfig) (rate : ℚ) : Prop :=
  ∀ reqs k (u v : ℤ), Ordered reqs → u ≤ v →
    (admittedTo k u v reqs
      (answers BucketStore.allow (newBucketStore R cfg.toRateLimitConfig) reqs) : ℚ) ≤
      cfg.burst + rate * (v - u)

theorem boundedBy_sustained (hR : ExactTokenBucket R cfg) :
    BoundedBy R cfg cfg.sustained.rate := by
  intro reqs k u v hreqs huv
  obtain ⟨t, ht⟩ := hreqs.exists_start
  have hwaits := (within_new R cfg k t).waits_grants hR ht hreqs
  rw [admittedTo_eq_admitted hwaits]
  refine Bucket.admitted_le (by exact_mod_cast huv) (burst_pos cfg).le ?_ (pairwise_grants hreqs)
  intro x hx
  obtain ⟨r, hr, rfl⟩ := exists_of_mem_grants hx
  exact Int.cast_le.mpr (ht r hr)

/-- A forgotten client gets its burst twice within little more than the idle time. -/
theorem BoundedBy.burst_div_le (hR : ExactTokenBucket R cfg) {rate : ℚ}
    (h : BoundedBy R cfg rate) : (cfg.burst : ℚ) / (cfg.ttl + 1) ≤ rate := by
  have hpos := cfg.ttl_pos
  have hidle : (0 : ℚ) < cfg.ttl + 1 := by exact_mod_cast (by omega : 0 < cfg.ttl + 1)
  have hbound := h (forgotten cfg) (client 0) 0 (cfg.ttl + 1) (ordered_forgotten cfg) (by omega)
  have htwice : (2 * cfg.burst.toNat : ℚ) ≤ admittedTo (client 0) 0 (cfg.ttl + 1) (forgotten cfg)
      (answers BucketStore.allow (newBucketStore R cfg.toRateLimitConfig) (forgotten cfg)) := by
    exact_mod_cast two_mul_burst_le hR
  have hboth := htwice.trans hbound
  rw [natCast_burst] at hboth
  push_cast at hboth
  rw [div_le_iff₀ hidle]
  linarith

theorem sustained_rate_of_not_fillsInTime (h : ¬ FillsInTime cfg) :
    cfg.sustained.rate = cfg.burst / (cfg.ttl + 1) := by
  have hpos := cfg.ttl_pos
  have hidle : (0 : ℚ) < cfg.ttl + 1 := by exact_mod_cast (by omega : 0 < cfg.ttl + 1)
  have hsecond : (0 : ℚ) < second := by norm_num [second]
  apply max_eq_right
  change (cfg.rps : ℚ) / second ≤ _
  rw [div_le_div_iff₀ hsecond hidle, mul_comm (cfg.burst : ℚ)]
  have hlt : cfg.rps * (cfg.ttl + 1) < second * cfg.burst := not_le.mp h
  exact_mod_cast hlt.le

/-- Whatever others do, a client gets in any window no more than its burst and what
flows in at its rate or, if that is faster, at the rate that fills a bucket within the
idle time. In the second case no slower rate bounds it. -/
theorem sustained_rate (hR : ExactTokenBucket R cfg) : BoundedBy R cfg cfg.sustained.rate ∧
    (¬ FillsInTime cfg → ∀ rate, BoundedBy R cfg rate → cfg.sustained.rate ≤ rate) := by
  constructor
  · exact boundedBy_sustained hR
  · intro hfill rate hbound
    rw [sustained_rate_of_not_fillsInTime hfill]
    exact hbound.burst_div_le hR

/-- A burst of 601 takes a second longer to fill than the idle time. -/
theorem sustained_rate_generous : BoundedBy exactLimiter generous generous.sustained.rate ∧
    ∀ rate, BoundedBy exactLimiter generous rate → generous.sustained.rate ≤ rate :=
  (sustained_rate (exactTokenBucket generous)).imp_right fun h => h (by
    unfold FillsInTime
    decide)

end Calculator.RateLimit
