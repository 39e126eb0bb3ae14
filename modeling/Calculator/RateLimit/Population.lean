import Calculator.RateLimit.BucketStore
import Mathlib.Data.Set.Card

/-! # How many buckets are live

Buckets are dropped only by a sweep, and every 64th insertion sweeps. What is
live was in use at the last sweep or has been inserted since, and there are
fewer than 64 of the latter. The requests up to the last sweep are recorded
next to the store. The times may come in any order.
-/

namespace Calculator.RateLimit

variable {R : RateLimiter} {cfg : RateLimitConfig} {s : BucketStore R} {key k : ClientKey}
  {b : Bucket R} {now t : ℤ} {reqs : List Request}

namespace BucketStore

def sweeps (s : BucketStore R) (key : ClientKey) : Bool :=
  (s.buckets key).isNone && (s.inserts + 1) % sweepEvery = 0

def live (s : BucketStore R) : Set ClientKey := {k | (s.buckets k).isSome}

theorem sweeps_iff : s.sweeps key = true ↔
    s.buckets key = none ∧ (s.inserts + 1) % sweepEvery = 0 := by
  rw [sweeps, Bool.and_eq_true, Option.isNone_iff_eq_none, decide_eq_true_eq]

theorem allow_of_ne (hk : k ≠ key) : (s.allow key now).1.buckets k =
    if s.sweeps key then (s.sweepLocked now).buckets k else s.buckets k := by
  simp only [allow, allowWith_of_ne hk, sweeps_iff, true_and]

theorem allow_inserts : (s.allow key now).1.inserts =
    s.inserts + if s.buckets key = none then 1 else 0 :=
  (allowWith_frame true s key now).2.2.2

theorem allow_keeps (hk : k ≠ key) (hb : s.buckets k = some b)
    (hidle : now - b.lastSeen ≤ s.ttl) : (s.allow key now).1.buckets k = some b := by
  rw [allow_of_ne hk]
  split
  · rw [sweepLocked_some hb, if_neg (not_lt.mpr hidle)]
  · exact hb

/-- A sweep leaves the buckets that are not idle, the new one among them. -/
theorem allow_of_sweeps (httl : 0 ≤ s.ttl) (hsweeps : s.sweeps key = true)
    (hb : (s.allow key now).1.buckets k = some b) : now - b.lastSeen ≤ s.ttl := by
  by_cases hk : k = key
  · subst hk
    rw [allow, allowWith_self true httl, Option.some.injEq] at hb
    subst hb
    rwa [sub_self]
  · rw [allow_of_ne hk, if_pos hsweeps] at hb
    simp only [sweepLocked, Option.filter_eq_some_iff, decide_eq_true_eq, not_lt] at hb
    exact hb.2

end BucketStore

def latest (k : ClientKey) (reqs : List Request) : Option ℤ :=
  ((reqs.filter (·.1 = k)).getLast?).map Prod.snd

/-- The clients whose latest request is within the TTL of the last one. -/
def recent (ttl : ℤ) (reqs : List Request) : Finset ClientKey :=
  match reqs.getLast? with
  | none => ∅
  | some r => (reqs.map Prod.fst).toFinset.filter fun k => (latest k reqs).any (r.2 - · ≤ ttl)

structure Traced (R : RateLimiter) where
  store : BucketStore R
  past : List Request
  /-- The requests up to the last sweep, the one that triggered it included. -/
  swept : List Request

namespace Traced

def allow (s : Traced R) (r : Request) : Traced R where
  store := (s.store.allow r.1 r.2).1
  past := s.past ++ [r]
  swept := if s.store.sweeps r.1 then s.past ++ [r] else s.swept

end Traced

/-- The store and what it has answered, after requests to a new one. -/
def trace (R : RateLimiter) (cfg : RateLimitConfig) (reqs : List Request) : Traced R :=
  reqs.foldl Traced.allow ⟨newBucketStore R cfg, [], []⟩

theorem latest_self : latest k (reqs ++ [(k, t)]) = some t := by
  simp [latest]

theorem latest_of_ne {r : Request} (hr : r.1 ≠ k) : latest k (reqs ++ [r]) = latest k reqs := by
  simp [latest, hr]

theorem mem_of_latest (h : latest k reqs = some t) : (k, t) ∈ reqs := by
  obtain ⟨r, hr, rfl⟩ := Option.map_eq_some_iff.mp h
  obtain ⟨hmem, hk⟩ := List.mem_filter.mp (List.mem_of_getLast? hr)
  rwa [← of_decide_eq_true hk]

theorem mem_recent {ttl : ℤ} {r : Request} (hlatest : latest k (reqs ++ [r]) = some t)
    (ht : r.2 - t ≤ ttl) : k ∈ recent ttl (reqs ++ [r]) := by
  rw [recent, List.getLast?_concat]
  refine Finset.mem_filter.mpr ⟨?_, ?_⟩
  · exact List.mem_toFinset.mpr (List.mem_map_of_mem (mem_of_latest hlatest))
  · rw [hlatest]
    exact decide_eq_true ht

theorem trace_snoc {r : Request} : trace R cfg (reqs ++ [r]) = (trace R cfg reqs).allow r := by
  rw [trace, List.foldl_concat]
  rfl

theorem trace_store :
    (trace R cfg reqs).store = after BucketStore.allow (newBucketStore R cfg) reqs := by
  induction reqs using List.reverseRecOn with
  | nil => rfl
  | append_singleton reqs r ih =>
    rw [trace_snoc, after_append, ← ih]
    rfl

/-- A bucket is as old as its client's latest request, and a live one has been
inserted since the last sweep or was recent then. -/
structure Counted (cfg : RateLimitConfig) (s : Traced R) : Prop where
  configured : s.store.Configured cfg
  latest : ∀ k b, s.store.buckets k = some b → latest k s.past = some b.lastSeen
  live : ∃ fresh : Finset ClientKey, fresh.card ≤ s.store.inserts % sweepEvery ∧
    ∀ k ∈ s.store.live, k ∈ fresh ∨ k ∈ recent cfg.ttl s.swept

namespace Counted

theorem new (R : RateLimiter) (cfg : RateLimitConfig) :
    Counted cfg (trace R cfg []) where
  configured := BucketStore.configured_new R cfg
  latest k b hb := by cases hb
  live := ⟨∅, Nat.zero_le _, fun k hk => by cases hk⟩

variable {s : Traced R} {r : Request}

theorem ttl_nonneg (h : Counted cfg s) : 0 ≤ s.store.ttl := h.configured.ttl ▸ cfg.ttl_pos.le

theorem latest_allow (h : Counted cfg s) {b : Bucket R}
    (hb : (s.allow r).store.buckets k = some b) :
    RateLimit.latest k (s.allow r).past = some b.lastSeen := by
  rcases BucketStore.allowWith_cases h.ttl_nonneg hb with ⟨rfl, rfl⟩ | ⟨hk, hb⟩
  · exact latest_self
  · exact (latest_of_ne (Ne.symm hk)).trans (h.latest k b hb)

theorem live_allow (h : Counted cfg s) (hk : k ∈ (s.allow r).store.live) :
    k = r.1 ∨ k ∈ s.store.live := by
  obtain ⟨b, hb⟩ := Option.isSome_iff_exists.mp hk
  rcases BucketStore.allowWith_cases h.ttl_nonneg hb with ⟨rfl, -⟩ | ⟨-, hb⟩
  · exact Or.inl rfl
  · exact Or.inr (Option.isSome_iff_exists.mpr ⟨b, hb⟩)

theorem allow (h : Counted cfg s) (r : Request) : Counted cfg (s.allow r) where
  configured := h.configured.allowWith true r.1 r.2
  latest k b hb := h.latest_allow hb
  live := by
    obtain ⟨fresh, hcard, hlive⟩ := h.live
    by_cases hsweeps : s.store.sweeps r.1 = true
    · -- nothing is new any more, and what is left is recent
      refine ⟨∅, Nat.zero_le _, ?_⟩
      intro k hk
      obtain ⟨b, hb⟩ := Option.isSome_iff_exists.mp hk
      have hidle := BucketStore.allow_of_sweeps h.ttl_nonneg hsweeps hb
      rw [h.configured.ttl] at hidle
      rw [Traced.allow, if_pos hsweeps]
      exact Or.inr (mem_recent (h.latest_allow hb) hidle)
    · rw [Traced.allow, if_neg hsweeps]
      rcases hr : s.store.buckets r.1 with - | b
      · -- one more insertion, and not the last before a sweep
        refine ⟨insert r.1 fresh, ?_, ?_⟩
        · have hnext : (s.store.inserts + 1) % sweepEvery ≠ 0 :=
            fun hmod => hsweeps (BucketStore.sweeps_iff.mpr ⟨hr, hmod⟩)
          have hinsert := Finset.card_insert_le r.1 fresh
          rw [BucketStore.allow_inserts, if_pos hr]
          unfold sweepEvery at hnext hcard ⊢
          omega
        · intro k hk
          rcases h.live_allow hk with rfl | hk
          · exact Or.inl (Finset.mem_insert_self _ _)
          · exact (hlive k hk).imp_left (Finset.mem_insert_of_mem ·)
      · refine ⟨fresh, ?_, ?_⟩
        · rwa [BucketStore.allow_inserts, if_neg (by simp [hr])]
        · intro k hk
          rcases h.live_allow hk with rfl | hk
          · exact hlive _ (Option.isSome_iff_exists.mpr ⟨b, hr⟩)
          · exact hlive k hk

theorem of_trace (R : RateLimiter) (cfg : RateLimitConfig) (reqs : List Request) :
    Counted cfg (trace R cfg reqs) := by
  induction reqs using List.reverseRecOn with
  | nil => exact new R cfg
  | append_singleton reqs r ih =>
    rw [trace_snoc]
    exact ih.allow r

theorem encard_live_le (h : Counted cfg s) : s.store.live.encard ≤
    ((s.store.inserts % sweepEvery + (recent cfg.ttl s.swept).card : ℕ) : ℕ∞) := by
  obtain ⟨fresh, hcard, hlive⟩ := h.live
  calc s.store.live.encard
      ≤ ((fresh ∪ recent cfg.ttl s.swept : Finset ClientKey) : Set ClientKey).encard := by
        apply Set.encard_le_encard
        intro k hk
        exact Finset.mem_coe.mpr (Finset.mem_union.mpr (hlive k hk))
    _ = ((fresh ∪ recent cfg.ttl s.swept).card : ℕ∞) := Set.encard_coe_eq_coe_finsetCard _
    _ ≤ ((s.store.inserts % sweepEvery + (recent cfg.ttl s.swept).card : ℕ) : ℕ∞) := by
        apply Nat.cast_le.mpr
        exact (Finset.card_union_le _ _).trans (Nat.add_le_add_right hcard _)

end Counted

theorem after_keeps (hs : s.Configured cfg) (hb : s.buckets k = some b)
    (hreqs : ∀ r ∈ reqs, r.1 ≠ k ∧ r.2 - b.lastSeen ≤ cfg.ttl) :
    (after BucketStore.allow s reqs).buckets k = some b := by
  induction reqs generalizing s with
  | nil => exact hb
  | cons r reqs ih =>
    obtain ⟨⟨hk, hidle⟩, hreqs⟩ := List.forall_mem_cons.mp hreqs
    rw [← hs.ttl] at hidle
    exact ih (hs.allowWith true r.1 r.2) (BucketStore.allow_keeps hk.symm hb hidle) hreqs

/-- At every moment, what is live has been inserted since the last sweep, which
is true of 63 buckets at most, or was in use at the last sweep; and until a
client has been idle for longer than the TTL, its bucket is what its latest
request has left. -/
theorem buckets_are_bounded (R : RateLimiter) (cfg : RateLimitConfig) (reqs : List Request) :
    (trace R cfg reqs).store.live.encard ≤ (((trace R cfg reqs).store.inserts % sweepEvery +
        (recent cfg.ttl (trace R cfg reqs).swept).card : ℕ) : ℕ∞) ∧
      (trace R cfg reqs).store.inserts % sweepEvery ≤ 63 ∧
      ∀ k t later, (∀ r ∈ later, r.1 ≠ k ∧ r.2 - t ≤ cfg.ttl) →
        (trace R cfg (reqs ++ (k, t) :: later)).store.buckets k =
          some ⟨(reserve ((trace R cfg reqs).store.bucketFor k t).limiter t).1, t⟩ := by
  have hcounted := Counted.of_trace R cfg reqs
  refine ⟨hcounted.encard_live_le, ?_, ?_⟩
  · exact Nat.le_of_lt_succ (Nat.mod_lt _ (by decide))
  · intro k t later hlater
    rw [trace_store, after_append, ← trace_store]
    change (after _ ((trace R cfg reqs).store.allow k t).1 later).buckets k = _
    refine after_keeps (hcounted.configured.allowWith true k t) ?_ hlater
    exact BucketStore.allowWith_self true hcounted.ttl_nonneg k t

end Calculator.RateLimit
