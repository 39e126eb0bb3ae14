import Calculator.RateLimit.ExactLimiter
import Calculator.RateLimit.Reservations

/-! # Limiters that keep account of reservations

What the rate package documents of reservations that are not cancelled at once.
It is a hypothesis about the package, which a limiter with exact arithmetic
meets.
-/

namespace Calculator.RateLimit

open TokenBucket

section Hypothesis

variable {R : RateLimiter} {cfg : AcceptedConfig}

def Limited (cfg : AcceptedConfig) (l : R.Limiter) : Prop :=
  R.limit l = cfg.rps ∧ R.burst l = cfg.burst

def IsReservation (cfg : AcceptedConfig) (res : R.Reservation) : Prop :=
  ∃ l t, Limited cfg l ∧ (R.reserveN l t 1).2 = res

/-- Limiters that are accounts, with exact arithmetic, as long as they are used
in the order of time. -/
structure KeepsAccount (R : RateLimiter) (cfg : AcceptedConfig) where
  account : R.Limiter → Account ℚ
  timeToAct : R.Reservation → ℚ
  limited_newLimiter : Limited cfg (R.newLimiter cfg.rps cfg.burst)
  limited_reserveN : ∀ {l : R.Limiter} {t}, Limited cfg l → Limited cfg (R.reserveN l t 1).1
  limited_cancelAt : ∀ {l : R.Limiter} {res t}, Limited cfg l → Limited cfg (R.cancelAt l res t)
  tokensAt : ∀ {l : R.Limiter} {t : ℤ}, Limited cfg l → (account l).since ≤ t →
    R.tokensAt l t = (account l).level cfg.limit t
  ok : ∀ {res}, IsReservation cfg res → R.ok res = true
  delayFrom : ∀ {res t}, IsReservation cfg res → R.delayFrom res t = max 0 (timeToAct res - t)
  reserveN : ∀ {l : R.Limiter} {t : ℤ}, Limited cfg l → (account l).since ≤ t →
    account (R.reserveN l t 1).1 = (account l).reserve cfg.limit t ∧
      timeToAct (R.reserveN l t 1).2 = (account l).timeToAct cfg.limit t
  cancelAt : ∀ {l : R.Limiter} {res} {t : ℤ}, Limited cfg l → IsReservation cfg res →
    (account l).since ≤ t → t ≤ timeToAct res →
    account (R.cancelAt l res t) = (account l).cancel cfg.limit (timeToAct res) t

end Hypothesis

structure LedgerLimiter extends ExactLimiter where
  lastEvent : ℚ

namespace LedgerLimiter

def reserveN (l : LedgerLimiter) (t n : ℤ) : LedgerLimiter × ExactReservation :=
  let (exact, res) := l.toExactLimiter.reserveN t n
  (⟨exact, if res.ok then res.timeToAct else l.lastEvent⟩, res)

def restored (l : LedgerLimiter) (res : ExactReservation) : ℚ :=
  res.tokens - l.limit / second * (l.lastEvent - res.timeToAct)

def cancelAt (l : LedgerLimiter) (res : ExactReservation) (t : ℤ) : LedgerLimiter :=
  let prevEvent := res.timeToAct - res.tokens / (l.limit / second)
  if !res.ok || res.timeToAct < t || l.restored res ≤ 0 then l
  else
    { l with
      tokens := min l.burst (l.tokensAt t + l.restored res)
      last := t
      lastEvent := if res.timeToAct = l.lastEvent ∧ t ≤ prevEvent then prevEvent
        else l.lastEvent }

end LedgerLimiter

def ledgerLimiter : RateLimiter where
  Limiter := LedgerLimiter
  Reservation := ExactReservation
  newLimiter limit burst := ⟨⟨limit, burst, burst, 0⟩, 0⟩
  limit l := l.limit
  burst l := l.burst
  tokensAt l := l.tokensAt
  reserveN := LedgerLimiter.reserveN
  ok := ExactReservation.ok
  delayFrom res t := max 0 (res.timeToAct - t)
  cancelAt := LedgerLimiter.cancelAt

namespace LedgerLimiter

variable {cfg : AcceptedConfig} {l : LedgerLimiter} {res : ExactReservation} {t : ℤ}

def account (l : LedgerLimiter) : Account ℚ := ⟨⟨l.tokens, l.last⟩, l.lastEvent⟩

theorem tokensAt_eq (h : Limited (R := ledgerLimiter) cfg l) (ht : l.account.since ≤ t) :
    l.tokensAt t = l.account.level cfg.limit t := by
  obtain ⟨hlimit, hburst⟩ : l.limit = cfg.rps ∧ l.burst = cfg.burst := h
  have hle : l.last ≤ t := Int.cast_le.mp ht
  rw [ExactLimiter.tokensAt, hlimit, hburst, max_eq_right (by omega), Int.cast_sub]
  rfl

theorem reserveN_of_limited (h : Limited (R := ledgerLimiter) cfg l) : l.reserveN t 1 =
    (⟨{ l with tokens := l.tokensAt t - 1, last := t },
        t + max 0 ((1 - l.tokensAt t) / (cfg.rps / second))⟩,
      ⟨true, 1, t + max 0 ((1 - l.tokensAt t) / (cfg.rps / second))⟩) := by
  obtain ⟨hlimit, hburst⟩ : l.limit = cfg.rps ∧ l.burst = cfg.burst := h
  rw [reserveN, ExactLimiter.reserveN, hburst, if_pos cfg.one_le_burst, hlimit, Int.cast_one]
  rfl

theorem eq_of_isReservation (h : IsReservation (R := ledgerLimiter) cfg res) :
    res = ⟨true, 1, res.timeToAct⟩ := by
  obtain ⟨l, t, hl, rfl⟩ := h
  have hres := reserveN_of_limited hl (t := t)
  change (LedgerLimiter.reserveN l t 1).2 = ⟨true, 1, (LedgerLimiter.reserveN l t 1).2.timeToAct⟩
  rw [hres]

theorem cancelAt_frame (l : LedgerLimiter) (res : ExactReservation) (t : ℤ) :
    (l.cancelAt res t).limit = l.limit ∧ (l.cancelAt res t).burst = l.burst := by
  unfold cancelAt
  dsimp only
  split <;> exact ⟨rfl, rfl⟩

theorem account_cancelAt (h : Limited (R := ledgerLimiter) cfg l)
    (hres : IsReservation (R := ledgerLimiter) cfg res) (ht : l.account.since ≤ t)
    (hact : t ≤ res.timeToAct) :
    (l.cancelAt res t).account = l.account.cancel cfg.limit res.timeToAct t := by
  have hlevel := tokensAt_eq h ht
  obtain ⟨hlimit, hburst⟩ : l.limit = cfg.rps ∧ l.burst = cfg.burst := h
  have hok : res.ok = true := by rw [eq_of_isReservation hres]
  have htokens : res.tokens = 1 := by rw [eq_of_isReservation hres]
  have hrestored : l.restored res = l.account.restored cfg.limit res.timeToAct := by
    unfold restored
    rw [htokens, hlimit, Int.cast_one]
    rfl
  unfold cancelAt Account.cancel
  simp only [hok, hrestored, not_lt.mpr hact, Bool.not_true, decide_false, Bool.or_self,
    Bool.false_or, decide_eq_true_eq, htokens, hlimit, hburst, Int.cast_one, hlevel]
  split
  · rfl
  · rfl

end LedgerLimiter

open LedgerLimiter in
def ledgerLimiterKeepsAccount (cfg : AcceptedConfig) : KeepsAccount ledgerLimiter cfg where
  account := LedgerLimiter.account
  timeToAct := ExactReservation.timeToAct
  limited_newLimiter := ⟨rfl, rfl⟩
  limited_reserveN {l t} h := by
    change Limited (R := ledgerLimiter) cfg (l.reserveN t 1).1
    rw [reserveN_of_limited h]
    exact h
  limited_cancelAt {l res t} h := by
    obtain ⟨hlimit, hburst⟩ := cancelAt_frame l res t
    exact ⟨hlimit.trans h.1, hburst.trans h.2⟩
  tokensAt h ht := tokensAt_eq h ht
  ok {res} h := by
    rw [eq_of_isReservation h]
    rfl
  delayFrom _ := rfl
  reserveN {l t} h ht := by
    change account (l.reserveN t 1).1 = _ ∧ (l.reserveN t 1).2.timeToAct = _
    rw [reserveN_of_limited h, tokensAt_eq h ht]
    exact ⟨rfl, rfl⟩
  cancelAt := account_cancelAt

end Calculator.RateLimit
