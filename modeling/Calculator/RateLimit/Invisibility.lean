import Calculator.RateLimit.Eviction
import Calculator.RateLimit.ExactLimiter

/-! # When eviction is invisible

Eviction is invisible exactly if a bucket fills up within the idle time. If it
does not, a client spends its burst, is forgotten as soon as enough others
arrive after the idle time, and spends its whole burst again.
-/

namespace Calculator.RateLimit

open TokenBucket

variable {R : RateLimiter} {cfg : AcceptedConfig} {s : BucketStore R} {k : ClientKey}
  {u v t : ℤ} {n : ℕ} {reqs : List Request}

/-- Each request is answered as by a store that never evicts a bucket. -/
def SameAnswers (R : RateLimiter) (cfg : AcceptedConfig) : Prop :=
  ∀ reqs, Ordered reqs →
    answers BucketStore.allow (newBucketStore R cfg.toRateLimitConfig) reqs =
      answers BucketStore.allowForever (newBucketStore R cfg.toRateLimitConfig) reqs

/-- A client is answered as if it were the only one. -/
def Isolated (R : RateLimiter) (cfg : AcceptedConfig) : Prop :=
  ∀ reqs k, Ordered reqs →
    answersTo k reqs (answers BucketStore.allow (newBucketStore R cfg.toRateLimitConfig) reqs) =
      answers BucketStore.allow (newBucketStore R cfg.toRateLimitConfig) (reqs.filter (·.1 = k))

/-- In any window, a client gets its burst and what the rate allows. -/
def Bounded (R : RateLimiter) (cfg : AcceptedConfig) : Prop :=
  ∀ reqs k (u v : ℤ), Ordered reqs → u ≤ v →
    (admittedTo k u v reqs
      (answers BucketStore.allow (newBucketStore R cfg.toRateLimitConfig) reqs) : ℚ) ≤
      cfg.burst + cfg.rps / second * (v - u)

theorem Ordered.exists_start (h : Ordered reqs) : ∃ t, ∀ r ∈ reqs, t ≤ r.2 := by
  cases reqs with
  | nil => exact ⟨0, nofun⟩
  | cons r reqs =>
    exact ⟨r.2, List.forall_mem_cons.mpr ⟨le_rfl, fun _ hr => List.rel_of_pairwise_cons h hr⟩⟩

theorem answers_new (evicts : Bool) (hR : ExactTokenBucket R cfg)
    (hfill : evicts = true → FillsInTime cfg) (ht : ∀ r ∈ reqs, t ≤ r.2)
    (hreqs : Ordered reqs) :
    answers (BucketStore.allowWith evicts) (newBucketStore R cfg.toRateLimitConfig) reqs =
      reference cfg.limit (fullBuckets cfg t) reqs :=
  (tracks_new R cfg t).answers_eq hR hfill ht hreqs

theorem admittedTo_new_le (evicts : Bool) (hR : ExactTokenBucket R cfg)
    (hfill : evicts = true → FillsInTime cfg) (hreqs : Ordered reqs) (huv : u ≤ v) :
    (admittedTo k u v reqs (answers (BucketStore.allowWith evicts)
      (newBucketStore R cfg.toRateLimitConfig) reqs) : ℚ) ≤
      cfg.burst + cfg.rps / second * (v - u) := by
  obtain ⟨t, ht⟩ := hreqs.exists_start
  rw [answers_new evicts hR hfill ht hreqs]
  refine admittedTo_reference_le huv (burst_pos cfg).le ?_ hreqs
  intro r hr
  exact Int.cast_le.mpr (ht r hr)

theorem answersTo_of_forall {replies : List Answer} (hreqs : ∀ r ∈ reqs, r.1 = k)
    (hlength : replies.length = reqs.length) : answersTo k reqs replies = replies := by
  have hfilter : (reqs.zip replies).filter (·.1.1 = k) = reqs.zip replies := by
    apply List.filter_eq_self.mpr
    rintro ⟨r, a⟩ h
    simpa using hreqs r (List.of_mem_zip h).1
  rw [answersTo, hfilter]
  exact List.map_snd_zip hlength.le

theorem FillsInTime.sameAnswers (hR : ExactTokenBucket R cfg) (h : FillsInTime cfg) :
    SameAnswers R cfg := by
  intro reqs hreqs
  obtain ⟨t, ht⟩ := hreqs.exists_start
  exact (answers_new true hR (fun _ => h) ht hreqs).trans
    (answers_new false hR Bool.noConfusion ht hreqs).symm

theorem FillsInTime.isolated (hR : ExactTokenBucket R cfg) (h : FillsInTime cfg) :
    Isolated R cfg := by
  intro reqs k hreqs
  obtain ⟨t, ht⟩ := hreqs.exists_start
  have hall := answers_new true hR (fun _ => h) ht hreqs
  have hown := answers_new true hR (fun _ => h)
    (fun r hr => ht r (List.mem_of_mem_filter (p := (·.1 = k)) hr))
    (hreqs.sublist List.filter_sublist)
  have htimes : times k (reqs.filter (·.1 = k)) = times k reqs := by
    simp [times, List.filter_filter]
  rw [BucketStore.allow, hall, hown, answersTo_reference, ← htimes, ← answersTo_reference]
  refine answersTo_of_forall ?_ length_reference
  intro r hr
  simpa using (List.mem_filter.mp hr).2

theorem FillsInTime.bounded (hR : ExactTokenBucket R cfg) (h : FillsInTime cfg) :
    Bounded R cfg := by
  intro reqs k u v hreqs huv
  exact admittedTo_new_le true hR (fun _ => h) hreqs huv

def client (i : ℕ) : ClientKey := List.replicate (i + 1) 'x'

theorem client_inj {i j : ℕ} : client i = client j ↔ i = j := by
  constructor
  · intro h
    simpa [client] using congrArg List.length h
  · rintro rfl
    rfl

/-- One client spends its burst, others arrive once it has been idle for long
enough, and it comes back. -/
def forgotten (cfg : AcceptedConfig) : List Request :=
  List.replicate cfg.burst.toNat (client 0, 0) ++
    ((List.range (sweepEvery - 1)).map (fun i => (client (i + 1), cfg.ttl + 1)) ++
      List.replicate cfg.burst.toNat (client 0, cfg.ttl + 1))

theorem ordered_forgotten (cfg : AcceptedConfig) : Ordered (forgotten cfg) := by
  have hlater : ∀ r ∈ (List.range (sweepEvery - 1)).map (fun i => (client (i + 1), cfg.ttl + 1)) ++
      List.replicate cfg.burst.toNat (client 0, cfg.ttl + 1), r.2 = cfg.ttl + 1 := by
    intro r hr
    rcases List.mem_append.mp hr with hr | hr
    · obtain ⟨i, -, rfl⟩ := List.mem_map.mp hr
      rfl
    · rw [List.eq_of_mem_replicate hr]
  refine List.pairwise_append.mpr ⟨?_, ?_, ?_⟩
  · exact List.pairwise_replicate.mpr (Or.inr le_rfl)
  · refine List.pairwise_of_forall_mem_list fun r hr r' hr' => ?_
    rw [hlater r hr, hlater r' hr']
  · intro r hr r' hr'
    rw [List.eq_of_mem_replicate hr, hlater r' hr']
    exact cfg.ttl_pos.le.trans (Int.le_add_of_nonneg_right Int.one_nonneg)

theorem natCast_burst (cfg : AcceptedConfig) : (cfg.burst.toNat : ℚ) = cfg.burst := by
  exact_mod_cast Int.toNat_of_nonneg (zero_le_one.trans cfg.one_le_burst)

/-- The next `n` requests of a client at time `t` will be admitted. -/
structure HasTokens (cfg : AcceptedConfig) (s : BucketStore R) (k : ClientKey) (n : ℕ) (t : ℤ) :
    Prop where
  configured : s.Configured cfg.toRateLimitConfig
  limiter : ∃ x, IsBucket cfg (s.bucketFor k t).limiter x t ∧
    (n : ℚ) ≤ Bucket.level cfg.limit ⟨x, t⟩ t

theorem hasTokens_of_none (hR : ExactTokenBucket R cfg) (hs : s.Configured cfg.toRateLimitConfig)
    (hk : s.buckets k = none) (t : ℤ) : HasTokens cfg s k cfg.burst.toNat t where
  configured := hs
  limiter := by
    refine ⟨cfg.burst, ?_, ?_⟩
    · rw [BucketStore.bucketFor, hk, Option.getD_none, hs.rps, hs.burst]
      exact hR.newLimiter t
    · apply (natCast_burst cfg).le.trans
      exact (level_fullBuckets (k := k)).ge

theorem HasTokens.step (hR : ExactTokenBucket R cfg) (h : HasTokens cfg s k (n + 1) t) :
    (s.allow k t).2 = ⟨0, true⟩ ∧ HasTokens cfg (s.allow k t).1 k n t := by
  obtain ⟨hs, x, hx, hn⟩ := h
  obtain ⟨hlimiter, hanswer⟩ := reserve_spec hR hx
  have hone : 1 ≤ Bucket.level cfg.limit ⟨x, t⟩ (t : ℚ) := by
    push_cast at hn
    linarith [n.cast_nonneg (α := ℚ)]
  have hwait := Bucket.wait_eq_zero_iff.mpr hone
  refine ⟨?_, hs.allowWith true k t, (Bucket.take cfg.limit ⟨x, t⟩ t).tokens, ?_, ?_⟩
  · rw [BucketStore.allow, BucketStore.allowWith_answer, hanswer, hwait, answerOf,
      if_neg (lt_irrefl 0)]
  · rw [BucketStore.allow, BucketStore.bucketFor,
      BucketStore.allowWith_self true (hs.ttl ▸ cfg.ttl_pos.le), Option.getD_some]
    exact hlimiter
  · have hlevel := Bucket.level_take (L := cfg.limit) (b := ⟨x, t⟩) (t := (t : ℚ))
    rw [Bucket.take_tokens, if_pos hwait] at hlevel
    refine le_of_le_of_eq ?_ hlevel.symm
    push_cast at hn
    linarith

theorem HasTokens.replicate (hR : ExactTokenBucket R cfg) (h : HasTokens cfg s k n t) :
    answers BucketStore.allow s (List.replicate n (k, t)) = List.replicate n ⟨0, true⟩ := by
  induction n generalizing s with
  | zero => rfl
  | succ n ih =>
    obtain ⟨hanswer, hrest⟩ := h.step hR
    rw [List.replicate_succ, answers, hanswer, ih hrest, List.replicate_succ]

/-- The first client is known since time 0, and `j` others have followed. -/
structure Joined (cfg : AcceptedConfig) (s : BucketStore R) (j : ℕ) : Prop where
  configured : s.Configured cfg.toRateLimitConfig
  inserts : s.inserts = j + 1
  first : ∃ b, s.buckets (client 0) = some b ∧ b.lastSeen = 0
  others : ∀ i, j < i → s.buckets (client i) = none

theorem joined_first (R : RateLimiter) (cfg : AcceptedConfig) :
    Joined cfg ((newBucketStore R cfg.toRateLimitConfig).allow (client 0) 0).1 0 where
  configured := (BucketStore.configured_new R _).allowWith true _ _
  inserts := (BucketStore.allowWith_frame true _ _ _).2.2.2
  first := ⟨_, BucketStore.allowWith_self true cfg.ttl_pos.le _ _, rfl⟩
  others i hi := by
    have hne : client i ≠ client 0 := fun h => hi.ne' (client_inj.mp h)
    rw [BucketStore.allow, BucketStore.allowWith_of_ne hne, if_neg fun h => ?_]
    · rfl
    · exact absurd h.2.2 (by decide : ¬ (0 + 1) % sweepEvery = 0)

theorem Joined.again {j : ℕ} (h : Joined cfg s j) : Joined cfg (s.allow (client 0) 0).1 j where
  configured := h.configured.allowWith true _ _
  inserts := by
    obtain ⟨b, hb, -⟩ := h.first
    rw [BucketStore.allow, (BucketStore.allowWith_frame true s _ _).2.2.2, hb, h.inserts]
    rfl
  first := ⟨_, BucketStore.allowWith_self true (h.configured.ttl ▸ cfg.ttl_pos.le) _ _, rfl⟩
  others i hi := by
    obtain ⟨b, hb, -⟩ := h.first
    have hne : client i ≠ client 0 := fun hi' => (Nat.zero_lt_of_lt hi).ne' (client_inj.mp hi')
    rw [BucketStore.allow, BucketStore.allowWith_of_ne hne, if_neg fun hn => ?_]
    · exact h.others i hi
    · rw [hb] at hn
      cases hn.1

theorem Joined.next {j : ℕ} (h : Joined cfg s j) (hj : j + 2 < sweepEvery) (t : ℤ) :
    Joined cfg (s.allow (client (j + 1)) t).1 (j + 1) := by
  have hkeep : ∀ k, k ≠ client (j + 1) →
      (s.allow (client (j + 1)) t).1.buckets k = s.buckets k := by
    intro k hk
    rw [BucketStore.allow, BucketStore.allowWith_of_ne hk, if_neg fun hn => ?_]
    have hmod := hn.2.2
    rw [h.inserts, Nat.mod_eq_of_lt hj] at hmod
    cases hmod
  refine ⟨h.configured.allowWith true _ _, ?_, ?_, ?_⟩
  · rw [BucketStore.allow, (BucketStore.allowWith_frame true s _ _).2.2.2,
      h.others (j + 1) (Nat.lt_succ_self j), h.inserts]
    rfl
  · obtain ⟨b, hb, hseen⟩ := h.first
    refine ⟨b, ?_, hseen⟩
    rwa [hkeep _ fun h => Nat.succ_ne_zero j (client_inj.mp h).symm]
  · intro i hi
    rw [hkeep _ fun h => hi.ne' (client_inj.mp h)]
    exact h.others i ((Nat.lt_succ_self j).trans hi)

theorem Joined.swept {j : ℕ} (h : Joined cfg s j) (hj : j + 2 = sweepEvery) :
    (s.allow (client (j + 1)) (cfg.ttl + 1)).1.buckets (client 0) = none := by
  have hne : client 0 ≠ client (j + 1) := fun h => Nat.succ_ne_zero j (client_inj.mp h).symm
  obtain ⟨b, hb, hseen⟩ := h.first
  rw [BucketStore.allow, BucketStore.allowWith_of_ne hne, if_pos,
    BucketStore.sweepLocked_some hb, if_pos]
  · rw [h.configured.ttl, hseen]
    omega
  · refine ⟨h.others (j + 1) (Nat.lt_succ_self j), rfl, ?_⟩
    rw [h.inserts, hj, Nat.mod_self]

theorem Joined.replicate {j : ℕ} (h : Joined cfg s j) (n : ℕ) :
    Joined cfg (after BucketStore.allow s (List.replicate n (client 0, 0))) j := by
  induction n generalizing s with
  | zero => exact h
  | succ n ih => exact ih h.again

theorem Joined.range (h : Joined cfg s 0) {m : ℕ} (hm : m + 1 < sweepEvery) (t : ℤ) :
    Joined cfg (after BucketStore.allow s ((List.range m).map fun i => (client (i + 1), t))) m := by
  induction m with
  | zero => exact h
  | succ m ih =>
    rw [List.range_succ, List.map_append, after_append]
    exact (ih (Nat.lt_of_succ_lt hm)).next hm t

theorem configured_after (hs : s.Configured cfg.toRateLimitConfig) (reqs : List Request) :
    (after BucketStore.allow s reqs).Configured cfg.toRateLimitConfig := by
  induction reqs generalizing s with
  | nil => exact hs
  | cons r reqs ih => exact ih (hs.allowWith true r.1 r.2)

/-- When the client comes back, the store has forgotten it. -/
theorem forgotten_client (R : RateLimiter) (cfg : AcceptedConfig) :
    (after BucketStore.allow (newBucketStore R cfg.toRateLimitConfig)
      (List.replicate cfg.burst.toNat (client 0, 0) ++
        (List.range (sweepEvery - 1)).map fun i => (client (i + 1), cfg.ttl + 1))).buckets
      (client 0) = none := by
  obtain ⟨n, hn⟩ : ∃ n, cfg.burst.toNat = n + 1 := by
    have := cfg.one_le_burst
    exact Nat.exists_eq_succ_of_ne_zero (by omega)
  obtain ⟨m, hm⟩ : ∃ m, m + 2 = sweepEvery := ⟨62, rfl⟩
  have hlast : sweepEvery - 1 = m + 1 := by omega
  have hspent := (joined_first R cfg).replicate n
  have hothers := hspent.range (m := m) (by omega) (cfg.ttl + 1)
  rw [after_append, hn, hlast, List.range_succ, List.map_append, after_append]
  exact hothers.swept hm

theorem admittedTo_append {reqs' : List Request} {replies replies' : List Answer}
    (h : replies.length = reqs.length) :
    admittedTo k u v (reqs ++ reqs') (replies ++ replies') =
      admittedTo k u v reqs replies + admittedTo k u v reqs' replies' := by
  rw [admittedTo, List.zip_append h.symm, List.countP_append]
  rfl

theorem admittedTo_replicate (hu : u ≤ t) (hv : t ≤ v) :
    admittedTo k u v (List.replicate n (k, t)) (List.replicate n ⟨0, true⟩) = n := by
  rw [admittedTo, List.zip_replicate', List.countP_replicate]
  simp [hu, hv]

/-- The forgotten client gets its burst twice. -/
theorem two_mul_burst_le (hR : ExactTokenBucket R cfg) :
    2 * cfg.burst.toNat ≤ admittedTo (client 0) 0 (cfg.ttl + 1) (forgotten cfg)
      (answers BucketStore.allow (newBucketStore R cfg.toRateLimitConfig) (forgotten cfg)) := by
  have hnew := BucketStore.configured_new R cfg.toRateLimitConfig
  have hfirst := (hasTokens_of_none (k := client 0) hR hnew rfl 0).replicate hR
  have hagain := (hasTokens_of_none hR (configured_after hnew _) (forgotten_client R cfg)
    (cfg.ttl + 1)).replicate hR
  have hT := cfg.ttl_pos
  rw [after_append] at hagain
  rw [forgotten, answers_append, answers_append, hfirst, hagain,
    admittedTo_append (by simp), admittedTo_append length_answers,
    admittedTo_replicate le_rfl (by omega), admittedTo_replicate (by omega) le_rfl]
  omega

theorem SameAnswers.fillsInTime (hR : ExactTokenBucket R cfg) (h : SameAnswers R cfg) :
    FillsInTime cfg := by
  have hordered := ordered_forgotten cfg
  have hpos := cfg.ttl_pos
  have hT : (0 : ℤ) ≤ cfg.ttl + 1 := by omega
  have htwice := two_mul_burst_le hR
  have hbound := admittedTo_new_le (k := client 0) false hR Bool.noConfusion hordered hT
  rw [h _ hordered] at htwice
  have hburst : 2 * (cfg.burst : ℚ) ≤
      cfg.burst + cfg.rps / second * ((cfg.ttl + 1 : ℤ) - (0 : ℤ)) := by
    rw [← natCast_burst cfg] at hbound ⊢
    exact le_trans (by exact_mod_cast htwice) hbound
  have hsecond : (0 : ℚ) < second := by norm_num [second]
  have hfill : (second : ℚ) * cfg.burst ≤ cfg.rps * ((cfg.ttl + 1 : ℤ) : ℚ) := by
    rw [Int.cast_zero, sub_zero, div_mul_eq_mul_div] at hburst
    have hle : (cfg.burst : ℚ) ≤ cfg.rps * ((cfg.ttl + 1 : ℤ) : ℚ) / second := by linarith
    rw [le_div_iff₀ hsecond] at hle
    linarith
  exact_mod_cast hfill

/-- Eviction is invisible, clients do not affect each other and each is bounded
by its rate exactly if a bucket fills up within the idle time. -/
theorem eviction_is_invisible_iff (hR : ExactTokenBucket R cfg) :
    SameAnswers R cfg ∧ Isolated R cfg ∧ Bounded R cfg ↔ FillsInTime cfg := by
  constructor
  · rintro ⟨h, -, -⟩
    exact h.fillsInTime hR
  · intro h
    exact ⟨h.sameAnswers hR, h.isolated hR, h.bounded hR⟩

def moderate : AcceptedConfig := ⟨⟨5, 10, 0⟩, by decide, by decide⟩

theorem eviction_is_invisible_iff_moderate :
    SameAnswers exactLimiter moderate ∧ Isolated exactLimiter moderate ∧
      Bounded exactLimiter moderate ↔ FillsInTime moderate :=
  eviction_is_invisible_iff (exactTokenBucket moderate)

/-- A burst that takes longer to fill than the idle time. -/
def generous : AcceptedConfig := ⟨⟨1, 601, 0⟩, by decide, by decide⟩

theorem eviction_is_visible :
    ¬ ∀ cfg : AcceptedConfig, cfg.idleTTL = 0 → SameAnswers exactLimiter cfg := by
  intro h
  have hfill := (h generous rfl).fillsInTime (exactTokenBucket generous)
  revert hfill
  unfold FillsInTime
  decide

end Calculator.RateLimit
