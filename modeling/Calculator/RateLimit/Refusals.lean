import Calculator.RateLimit.LedgerLimiter
import Calculator.Runs.Machine

/-! # Refused requests under concurrency

The calls of one client, each in three steps that other calls can come between:
the lookup of the bucket, the reservation, and its cancellation if the call is
refused. Refused calls leave no trace as long as the steps come in the order of
time and the newest reservation is cancelled first.
-/

namespace Calculator.RateLimit

open TokenBucket Runs

variable {R : RateLimiter} {cfg : AcceptedConfig}

structure Calls (R : RateLimiter) where
  bucket : Option (Bucket R)
  /-- The calls that have looked up the bucket. -/
  lookedUp : List ℤ
  /-- The refused calls that have not cancelled, those that reserved last first. -/
  refused : List (R.Reservation × ℤ)
  /-- The calls that have returned, and their answers, newest first. -/
  returned : List (ℤ × Answer)

/-- The step of a call, which comes with its place in the list of its likes. -/
inductive CallStep where
  | lookup (now : ℤ)
  | reserve (place : ℕ)
  | cancel (place : ℕ)
  deriving DecidableEq

namespace Calls

/-- The client's limiter, which is a new one if the client is not known. -/
def limiter (cfg : AcceptedConfig) (s : Calls R) : R.Limiter :=
  (s.bucket.map Bucket.limiter).getD (R.newLimiter cfg.rps cfg.burst)

/-- Of the bucket only the limiter is used once it is looked up. -/
def setLimiter (s : Calls R) (l : R.Limiter) : Calls R :=
  { s with bucket := s.bucket.map fun b => { b with limiter := l } }

def lookup (cfg : AcceptedConfig) (s : Calls R) (now : ℤ) : Calls R :=
  { s with
    bucket := some ⟨s.limiter cfg, now⟩
    lookedUp := now :: s.lookedUp }

def reserve (s : Calls R) (l : R.Limiter) (place : ℕ) (now : ℤ) : Calls R :=
  let (l, res) := R.reserveN l now 1
  let s := { s.setLimiter l with lookedUp := s.lookedUp.eraseIdx place }
  if !R.ok res then { s with returned := (now, ⟨second, false⟩) :: s.returned }
  else
    let d := R.delayFrom res now
    if 0 < d then { s with refused := (res, now) :: s.refused }
    else { s with returned := (now, ⟨0, true⟩) :: s.returned }

def cancel (s : Calls R) (l : R.Limiter) (place : ℕ) (res : R.Reservation) (now : ℤ) : Calls R :=
  { s.setLimiter (R.cancelAt l res now) with
    refused := s.refused.eraseIdx place
    returned := (now, ⟨R.delayFrom res now, false⟩) :: s.returned }

def next (cfg : AcceptedConfig) (s : Calls R) : CallStep → Option (Calls R)
  | .lookup now => some (s.lookup cfg now)
  | .reserve place => do
    let b ← s.bucket
    let now ← s.lookedUp[place]?
    return s.reserve b.limiter place now
  | .cancel place => do
    let b ← s.bucket
    let (res, now) ← s.refused[place]?
    return s.cancel b.limiter place res now

/-- All calls have returned. -/
def Returned (s : Calls R) : Prop := s.lookedUp = [] ∧ s.refused = []

def admitted (s : Calls R) : List ℤ := (s.returned.filter (·.2.ok)).map Prod.fst

end Calls

/-- The calls of one client, who may have a bucket to start with. -/
def calls (cfg : AcceptedConfig) (bucket : Option (Bucket R)) : Machine (Calls R) CallStep where
  start := ⟨bucket, [], [], []⟩
  next := Calls.next cfg

/-- A limiter after requests that all reserve and never cancel, newest first. -/
def afterReserving (l : R.Limiter) (nows : List ℤ) : R.Limiter :=
  nows.foldr (fun now l => (R.reserveN l now 1).1) l

namespace Calls

variable {s t u : Calls R} {l : R.Limiter} {b : Bucket R} {place : ℕ} {now : ℤ}
  {res : R.Reservation} {d : CallStep}

theorem next_reserve_iff : s.next cfg (.reserve place) = some t ↔
    ∃ b now, s.bucket = some b ∧ s.lookedUp[place]? = some now ∧
      s.reserve b.limiter place now = t := by
  simp [next, Option.bind_eq_some_iff]

theorem next_cancel_iff : s.next cfg (.cancel place) = some t ↔
    ∃ b res now, s.bucket = some b ∧ s.refused[place]? = some (res, now) ∧
      s.cancel b.limiter place res now = t := by
  simp [next, Option.bind_eq_some_iff]

@[simp] theorem setLimiter_refused : (s.setLimiter l).refused = s.refused := rfl
@[simp] theorem setLimiter_returned : (s.setLimiter l).returned = s.returned := rfl

theorem limiter_of_bucket (cfg : AcceptedConfig) (hb : s.bucket = some b) :
    s.limiter cfg = b.limiter := by
  simp [limiter, hb]

theorem limiter_of_setLimiter (hb : s.bucket = some b)
    (ht : t.bucket = (s.setLimiter l).bucket) : t.limiter cfg = l := by
  simp [limiter, ht, setLimiter, hb]

/-- A reservation that can be met, but not at once. -/
def Refuses (l : R.Limiter) (now : ℤ) : Prop :=
  R.ok (R.reserveN l now 1).2 = true ∧ 0 < R.delayFrom (R.reserveN l now 1).2 now

instance (l : R.Limiter) (now : ℤ) : Decidable (Refuses l now) :=
  inferInstanceAs (Decidable (_ ∧ _))

theorem reserve_of_refuses (h : Refuses l now) : s.reserve l place now =
    { s.setLimiter (R.reserveN l now 1).1 with
      lookedUp := s.lookedUp.eraseIdx place
      refused := ((R.reserveN l now 1).2, now) :: s.refused } := by
  simp [Calls.reserve, h.1, h.2]

theorem not_delayed (h : ¬ Refuses l now) (hok : R.ok (R.reserveN l now 1).2 = true) :
    ¬ 0 < R.delayFrom (R.reserveN l now 1).2 now := fun hd => h ⟨hok, hd⟩

theorem reserve_of_not_refuses (h : ¬ Refuses l now) : s.reserve l place now =
    { s.setLimiter (R.reserveN l now 1).1 with
      lookedUp := s.lookedUp.eraseIdx place
      returned := (now, (RateLimit.reserve l now).2) :: s.returned } := by
  cases hok : R.ok (R.reserveN l now 1).2 with
  | false => simp [Calls.reserve, RateLimit.reserve, hok]
  | true => simp [Calls.reserve, RateLimit.reserve, hok, not_delayed h hok]

theorem fst_reserve_of_not_refuses (h : ¬ Refuses l now) :
    (RateLimit.reserve l now).1 = (R.reserveN l now 1).1 := by
  unfold RateLimit.reserve
  cases hok : R.ok (R.reserveN l now 1).2 with
  | false => simp [hok]
  | true => simp [hok, not_delayed h hok]

/-- A call that is not interrupted does what `allow` does. -/
theorem run_uninterrupted {store : BucketStore R} (hstore : store.Configured cfg.toRateLimitConfig)
    (key : ClientKey) (now : ℤ) :
    ∃ ds s, (calls cfg (store.buckets key)).Run (calls cfg (store.buckets key)).start ds s ∧
      s.Returned ∧ s.bucket = (store.allow key now).1.buckets key ∧
      s.returned = [(now, (store.allow key now).2)] := by
  have httl : 0 ≤ store.ttl := hstore.ttl ▸ cfg.ttl_pos.le
  have hlimiter : (store.bucketFor key now).limiter =
      (calls cfg (store.buckets key)).start.limiter cfg := by
    unfold BucketStore.bucketFor limiter
    rw [hstore.rps, hstore.burst]
    cases store.buckets key <;> simp [calls]
  rw [BucketStore.allow, store.allowWith_self true httl, BucketStore.allowWith_answer, hlimiter]
  generalize hl : (calls cfg (store.buckets key)).start.limiter cfg = l
  have hlookup : (calls cfg (store.buckets key)).next (calls cfg (store.buckets key)).start
      (.lookup now) = some ⟨some ⟨l, now⟩, [now], [], []⟩ := by
    rw [← hl]
    rfl
  have hreserve : (calls cfg (store.buckets key)).next ⟨some ⟨l, now⟩, [now], [], []⟩
      (.reserve 0) = some (Calls.reserve ⟨some ⟨l, now⟩, [now], [], []⟩ l 0 now) := rfl
  by_cases hrefuses : Refuses l now
  · rw [reserve_of_refuses hrefuses] at hreserve
    refine ⟨[.lookup now, .reserve 0, .cancel 0], _,
      .cons trivial hlookup (.cons trivial hreserve (.cons trivial rfl (.nil _))), ⟨rfl, rfl⟩, ?_⟩
    simp [Calls.cancel, setLimiter, RateLimit.reserve, hrefuses.1, hrefuses.2]
  · rw [reserve_of_not_refuses hrefuses] at hreserve
    refine ⟨[.lookup now, .reserve 0], _,
      .cons trivial hlookup (.cons trivial hreserve (.nil _)), ⟨rfl, rfl⟩, ?_, rfl⟩
    rw [fst_reserve_of_not_refuses hrefuses]
    rfl

variable {A : KeepsAccount R cfg} {l₀ : R.Limiter}

/-- The steps reach the limiter in the order of time, and only the last
reservation is cancelled. -/
def InOrder (A : KeepsAccount R cfg) (s : Calls R) : CallStep → Prop
  | .lookup _ => True
  | .reserve place =>
    ∀ now ∈ s.lookedUp[place]?, (A.account (s.limiter cfg)).since ≤ now
  | .cancel place =>
    ∀ r ∈ s.refused[place]?, (A.account (s.limiter cfg)).since ≤ r.2 ∧
      (A.account (s.limiter cfg)).lastEvent = A.timeToAct r.1

instance (A : KeepsAccount R cfg) (s : Calls R) : (d : CallStep) → Decidable (InOrder A s d)
  | .lookup _ => inferInstanceAs (Decidable True)
  | .reserve _ => inferInstanceAs (Decidable (∀ _ ∈ _, _ ≤ _))
  | .cancel _ => inferInstanceAs (Decidable (∀ _ ∈ _, _ ≤ _ ∧ _ = _))

def ideal (l₀ : R.Limiter) (s : Calls R) : R.Limiter := afterReserving l₀ s.admitted

structure WellUsed (A : KeepsAccount R cfg) (s : Calls R) : Prop where
  limited : Limited cfg (s.limiter cfg)
  refused : ∀ r ∈ s.refused, IsReservation cfg r.1 ∧ r.2 ≤ A.timeToAct r.1

/-- A refused call that can no longer cancel in order. -/
def Overtaken (A : KeepsAccount R cfg) (s : Calls R) : Prop :=
  ∃ r ∈ s.refused, r.2 < (A.account (s.limiter cfg)).since

/-- But for the reservations that are still to be cancelled, the limiter is the
one that only the admitted calls have used. -/
structure Traceless (A : KeepsAccount R cfg) (l₀ : R.Limiter) (s : Calls R) : Prop where
  limited : Limited cfg (s.ideal l₀)
  now : ∀ r ∈ s.refused, r.2 = (A.account (s.limiter cfg)).since
  held : Held cfg.limit (A.account (s.ideal l₀)).toBucket (A.account (s.limiter cfg))
    (s.refused.map fun r => A.timeToAct r.1)

theorem refuses_iff (hl : Limited cfg l) (hnow : (A.account l).since ≤ now) :
    Refuses l now ↔ (A.account l).level cfg.limit now < 1 := by
  have hres : IsReservation cfg (R.reserveN l now 1).2 := ⟨l, now, hl, rfl⟩
  rw [Refuses, A.ok hres, A.delayFrom hres, (A.reserveN hl hnow).2, Account.timeToAct,
    add_sub_cancel_left, max_eq_right Bucket.wait_nonneg, Bucket.wait_pos_iff]
  exact and_iff_right rfl

theorem answer_ok (A : KeepsAccount R cfg) (hl : Limited cfg l) (hrefuses : ¬ Refuses l now) :
    (RateLimit.reserve l now).2.ok = true := by
  have hok : R.ok (R.reserveN l now 1).2 = true := A.ok ⟨l, now, hl, rfl⟩
  simp [RateLimit.reserve, hok, not_delayed hrefuses hok]

/-- What is kept in runs whose steps are in order. -/
def Kept (A : KeepsAccount R cfg) (l₀ : R.Limiter) (s : Calls R) : Prop :=
  WellUsed A s ∧ (Overtaken A s ∨ Traceless A l₀ s)

theorem ideal_congr (h : t.admitted = s.admitted) : t.ideal l₀ = s.ideal l₀ := by
  rw [ideal, ideal, h]

theorem admitted_congr (h : t.returned = s.returned) : t.admitted = s.admitted := by
  rw [admitted, admitted, h]

/-- A call that is overtaken stays so until it cancels. -/
theorem Overtaken.mono (h : Overtaken A s)
    (hsince : (A.account (s.limiter cfg)).since ≤ (A.account (t.limiter cfg)).since)
    (hrefused : ∀ r ∈ s.refused, r.2 < (A.account (s.limiter cfg)).since → r ∈ t.refused) :
    Overtaken A t := by
  obtain ⟨r, hr, hover⟩ := h
  exact ⟨r, hrefused r hr hover, hover.trans_le hsince⟩

theorem Traceless.overtaken (h : Traceless A l₀ s) (hne : s.refused ≠ [])
    (hsince : (A.account (s.limiter cfg)).since < (A.account (t.limiter cfg)).since)
    (hrefused : ∀ r ∈ s.refused, r ∈ t.refused) : Overtaken A t := by
  obtain ⟨r, hr⟩ := List.exists_mem_of_ne_nil _ hne
  refine ⟨r, hrefused r hr, ?_⟩
  rw [h.now r hr]
  exact hsince

theorem Kept.of_eq (h : Kept A l₀ s) (hl : t.limiter cfg = s.limiter cfg)
    (hrefused : t.refused = s.refused) (hreturned : t.returned = s.returned) : Kept A l₀ t := by
  have hideal : t.ideal l₀ = s.ideal l₀ := ideal_congr (admitted_congr hreturned)
  obtain ⟨⟨hlimited, hres⟩, h⟩ := h
  refine ⟨⟨hl ▸ hlimited, hrefused ▸ hres⟩, ?_⟩
  rcases h with hover | ⟨hlim, hnow, hheld⟩
  · exact Or.inl (hover.mono (by rw [hl]) fun r hr _ => hrefused ▸ hr)
  · exact Or.inr ⟨hideal ▸ hlim, by rwa [hl, hrefused], by rwa [hideal, hl, hrefused]⟩

theorem Kept.refuse (h : Kept A l₀ s) (hnow : (A.account (s.limiter cfg)).since ≤ now)
    (hrefuses : Refuses (s.limiter cfg) now)
    (hl : t.limiter cfg = (R.reserveN (s.limiter cfg) now 1).1)
    (hrefused : t.refused = ((R.reserveN (s.limiter cfg) now 1).2, now) :: s.refused)
    (hreturned : t.returned = s.returned) : Kept A l₀ t := by
  obtain ⟨⟨hlimited, hres⟩, h⟩ := h
  obtain ⟨haccount, hact⟩ := A.reserveN hlimited hnow
  have hlt := (refuses_iff hlimited hnow).mp hrefuses
  have hideal : t.ideal l₀ = s.ideal l₀ := ideal_congr (admitted_congr hreturned)
  have hsince : (A.account (t.limiter cfg)).since = now := by
    rw [hl, haccount, Account.since_reserve]
  have hsub : ∀ r ∈ s.refused, r ∈ t.refused := fun r hr => hrefused ▸ List.mem_cons_of_mem _ hr
  refine ⟨⟨hl ▸ A.limited_reserveN hlimited, ?_⟩, ?_⟩
  · rw [hrefused]
    refine List.forall_mem_cons.mpr ⟨⟨⟨_, _, hlimited, rfl⟩, ?_⟩, hres⟩
    rw [hact]
    exact le_add_of_nonneg_right Bucket.wait_nonneg
  rcases h with hover | htrace
  · exact Or.inl (hover.mono (hnow.trans_eq hsince.symm) fun r hr _ => hsub r hr)
  by_cases hempty : s.refused = []
  · right
    have hheld := htrace.held
    rw [hempty] at hheld
    refine ⟨hideal ▸ htrace.limited, ?_, ?_⟩
    · rw [hrefused, hempty, hsince]
      exact List.forall_mem_singleton.mpr rfl
    · rw [hrefused, hempty, hl, haccount, hideal, List.map_cons, hact]
      exact hheld.refuse hnow hlt
  rcases hnow.lt_or_eq with hlater | hsame
  · exact Or.inl (htrace.overtaken hempty (hlater.trans_eq hsince.symm) hsub)
  · right
    refine ⟨hideal ▸ htrace.limited, ?_, ?_⟩
    · rw [hrefused, hsince]
      refine List.forall_mem_cons.mpr ⟨rfl, fun r hr => ?_⟩
      rw [htrace.now r hr, hsame]
    · rw [hrefused, hl, haccount, hideal, List.map_cons, hact, ← hsame]
      exact (htrace.held.refuse_again (by simpa using hempty)).2

/-- An admitted call is one that the ideal limiter admits as well. -/
theorem Kept.allow (h : Kept A l₀ s) (hnow : (A.account (s.limiter cfg)).since ≤ now)
    (hrefuses : ¬ Refuses (s.limiter cfg) now)
    (hl : t.limiter cfg = (R.reserveN (s.limiter cfg) now 1).1)
    (hrefused : t.refused = s.refused) (hadmitted : t.admitted = now :: s.admitted) :
    Kept A l₀ t := by
  obtain ⟨⟨hlimited, hres⟩, h⟩ := h
  have haccount := (A.reserveN hlimited hnow).1
  have hle := (refuses_iff hlimited hnow).not.mp hrefuses
  have hsince : (A.account (t.limiter cfg)).since = now := by
    rw [hl, haccount, Account.since_reserve]
  have hsub : ∀ r ∈ s.refused, r ∈ t.refused := fun r hr => hrefused ▸ hr
  refine ⟨⟨hl ▸ A.limited_reserveN hlimited, hrefused ▸ hres⟩, ?_⟩
  rcases h with hover | htrace
  · exact Or.inl (hover.mono (hnow.trans_eq hsince.symm) fun r hr _ => hsub r hr)
  by_cases hempty : s.refused = []
  · right
    have hideal : t.ideal l₀ = (R.reserveN (s.ideal l₀) now 1).1 := by
      rw [ideal, hadmitted]
      rfl
    have hheld := htrace.held
    have hideal' := (A.reserveN htrace.limited (hheld.since_le.trans hnow)).1
    refine ⟨hideal ▸ A.limited_reserveN htrace.limited, by simp [hrefused, hempty], ?_⟩
    rw [hempty] at hheld
    rw [hl, haccount, hideal, hideal', hrefused, hempty]
    exact hheld.allow hnow rfl
  · left
    refine htrace.overtaken hempty ?_ hsub
    rw [hsince]
    -- at the same time there would be no token
    refine lt_of_le_of_ne hnow fun hsame => hle ?_
    rw [← hsame]
    exact (htrace.held.refuse_again (by simpa using hempty)).1

theorem Kept.cancel (h : Kept A l₀ s) (hplace : s.refused[place]? = some (res, now))
    (hnow : (A.account (s.limiter cfg)).since ≤ now)
    (hlast : (A.account (s.limiter cfg)).lastEvent = A.timeToAct res)
    (hl : t.limiter cfg = R.cancelAt (s.limiter cfg) res now)
    (hrefused : t.refused = s.refused.eraseIdx place) (hadmitted : t.admitted = s.admitted) :
    Kept A l₀ t := by
  obtain ⟨⟨hlimited, hres⟩, h⟩ := h
  obtain ⟨hisRes, hact⟩ := hres (res, now) (List.mem_of_getElem? hplace)
  have haccount := A.cancelAt hlimited hisRes hnow hact
  have hideal : t.ideal l₀ = s.ideal l₀ := ideal_congr hadmitted
  have hsince : (A.account (t.limiter cfg)).since = now := by
    rw [hl, haccount]
    exact (Account.cancel_last hlast).2.1
  refine ⟨⟨hl ▸ A.limited_cancelAt hlimited, ?_⟩, ?_⟩
  · rw [hrefused]
    exact fun r hr => hres r (List.mem_of_mem_eraseIdx hr)
  rcases h with hover | htrace
  · left
    refine hover.mono (hnow.trans_eq hsince.symm) fun r hr hover => ?_
    obtain ⟨k, hk⟩ := List.getElem?_of_mem hr
    rw [hrefused]
    refine List.mem_eraseIdx_iff_getElem?.mpr ⟨k, ?_, hk⟩
    rintro rfl
    cases hplace.symm.trans hk
    exact absurd hnow (not_le.mpr hover)
  · right
    have hzero : place = 0 := by
      refine htrace.held.eq_zero ?_ hlast
      rw [List.getElem?_map, hplace]
      rfl
    subst hzero
    obtain ⟨rs, hrs⟩ := List.head?_eq_some_iff.mp (List.head?_eq_getElem?.trans hplace)
    have hrest : t.refused = rs := by rw [hrefused, hrs, List.eraseIdx_cons_zero]
    have hsame : (now : ℚ) = (A.account (s.limiter cfg)).since :=
      htrace.now (res, now) (List.mem_of_getElem? hplace)
    have hheld := htrace.held
    rw [hrs] at hheld
    refine ⟨hideal ▸ htrace.limited, ?_, ?_⟩
    · rw [hrest, hsince, hsame]
      exact fun r hr => htrace.now r (hrs ▸ List.mem_cons_of_mem _ hr)
    · rw [hrest, hl, haccount, hideal, hsame]
      exact hheld.cancel

theorem Kept.step {d : CallStep} (h : Kept A l₀ s) (hd : InOrder A s d)
    (hn : s.next cfg d = some t) : Kept A l₀ t := by
  cases d with
  | lookup now =>
    cases hn
    exact h.of_eq rfl rfl rfl
  | reserve place =>
    obtain ⟨b, now, hb, hplace, rfl⟩ := next_reserve_iff.mp hn
    have hnow := hd now hplace
    rw [← limiter_of_bucket cfg hb]
    by_cases hrefuses : Refuses (s.limiter cfg) now
    · rw [reserve_of_refuses hrefuses]
      exact h.refuse hnow hrefuses (limiter_of_setLimiter hb rfl) rfl rfl
    · rw [reserve_of_not_refuses hrefuses]
      refine h.allow hnow hrefuses (limiter_of_setLimiter hb rfl) rfl ?_
      simp [admitted, answer_ok A h.1.limited hrefuses]
  | cancel place =>
    obtain ⟨b, res, now, hb, hplace, rfl⟩ := next_cancel_iff.mp hn
    obtain ⟨hnow, hlast⟩ := hd (res, now) hplace
    rw [← limiter_of_bucket cfg hb]
    exact h.cancel hplace hnow hlast (limiter_of_setLimiter hb rfl) rfl rfl

theorem Kept.of_run {bucket : Option (Bucket R)} (hbucket : ∀ b ∈ bucket, Limited cfg b.limiter)
    {ds : List CallStep}
    (h : (calls cfg bucket).RunWhen (InOrder A) (calls cfg bucket).start ds s) :
    Kept A ((calls cfg bucket).start.limiter cfg) s := by
  refine h.preserves (fun hs hd hn => hs.step hd hn) ?_
  have hlimited : Limited cfg ((calls cfg bucket).start.limiter cfg) := by
    cases bucket with
    | none => exact A.limited_newLimiter
    | some b => exact hbucket b rfl
  exact ⟨⟨hlimited, nofun⟩, Or.inr ⟨hlimited, nofun, Held.refl _⟩⟩

/-- Once all calls have returned, the refused ones have left no trace. -/
theorem refusals_cost_nothing (A : KeepsAccount R cfg) {bucket : Option (Bucket R)}
    (hbucket : ∀ b ∈ bucket, Limited cfg b.limiter) {ds : List CallStep}
    (h : (calls cfg bucket).RunWhen (InOrder A) (calls cfg bucket).start ds s)
    (hreturned : s.Returned) {t : ℤ} (ht : (A.account (s.limiter cfg)).since ≤ t) :
    R.tokensAt (s.limiter cfg) t =
      R.tokensAt (s.ideal ((calls cfg bucket).start.limiter cfg)) t := by
  obtain ⟨⟨hlimited, -⟩, h⟩ := Kept.of_run hbucket h
  rcases h with ⟨r, hr, -⟩ | ⟨hlim, -, hheld⟩
  · simp [hreturned.2] at hr
  · rw [hreturned.2] at hheld
    rw [A.tokensAt hlimited ht, A.tokensAt hlim (hheld.since_le.trans ht)]
    exact hheld.level_eq ht

def oneToken : AcceptedConfig := ⟨⟨1, 1, 0⟩, by decide, by decide⟩

/-- Three calls in the course of two nanoseconds, of which two are refused. -/
def threeCalls : List CallStep :=
  [.lookup 0, .reserve 0, .lookup 1, .reserve 0, .lookup 2, .reserve 0]

/-- A refused call that cancels before the next one comes. -/
theorem refusals_cost_nothing_oneRefused :
    ∃ s, (calls oneToken none).RunWhen (InOrder (ledgerLimiterKeepsAccount oneToken))
        (calls oneToken none).start (threeCalls.take 4 ++ [.cancel 0]) s ∧ s.Returned ∧
      ledgerLimiter.tokensAt (s.limiter oneToken) 1 =
        ledgerLimiter.tokensAt (s.ideal (ledgerLimiter.newLimiter 1 1)) 1 := by
  have h : (calls oneToken none).RunWhen (InOrder (ledgerLimiterKeepsAccount oneToken))
      (calls oneToken none).start (threeCalls.take 4 ++ [.cancel 0]) _ :=
    Machine.runWhen_replayWhen_get (by decide +kernel)
  refine ⟨_, h, ⟨by decide +kernel, by decide +kernel⟩, ?_⟩
  apply refusals_cost_nothing _ _ h ⟨by decide +kernel, by decide +kernel⟩
  · decide +kernel
  · simp

/-- If the older of two refused calls cancels first, a token is lost, and a later
request is refused that would have been admitted. -/
theorem refusal_costs_token :
    ∃ s, (calls oneToken none).Run (calls oneToken none).start
        (threeCalls ++ [.cancel 1, .cancel 0]) s ∧ s.Returned ∧
      ledgerLimiter.tokensAt (s.limiter oneToken) 2 =
        ledgerLimiter.tokensAt (s.ideal (ledgerLimiter.newLimiter 1 1)) 2 - 1 ∧
      Refuses (s.limiter oneToken) second ∧
      ¬ Refuses (s.ideal (ledgerLimiter.newLimiter 1 1)) second := by
  have h : (calls (R := ledgerLimiter) oneToken none).Run (calls oneToken none).start
      (threeCalls ++ [.cancel 1, .cancel 0]) _ :=
    Machine.runWhen_replayWhen_get (by decide +kernel)
  refine ⟨_, h, ⟨by decide +kernel, by decide +kernel⟩, ?_, ?_, ?_⟩
  · decide +kernel
  · decide +kernel
  · decide +kernel

end Calls

end Calculator.RateLimit
