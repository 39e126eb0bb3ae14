import Calculator.Store.Session

/-! # The journal

What the journal of a session says about its requests, and how the store keeps
in step with it: the store is pending exactly while the request sent last is
awaited, and never awaits another one.
-/

namespace Calculator.Store

open Engine

/-- The tickets of the requests that have neither settled nor been cancelled. -/
def awaited : List Mark → List ℕ
  | [] => []
  | .sent t _ :: j => t :: awaited j
  | .settled t _ :: j => (awaited j).filter (· ≠ t)
  | .cleared :: _ => []

def newest : List Mark → Option (ℕ × CalculateRequest)
  | [] => none
  | .sent t r :: _ => some (t, r)
  | .settled _ _ :: j => newest j
  | .cleared :: j => newest j

/-- How the request sent with ticket `t` settled last, if it did. -/
def outcomeOf (t : ℕ) : List Mark → Option Outcome
  | [] => none
  | .sent _ _ :: j => outcomeOf t j
  | .settled u o :: j => if u = t then some o else outcomeOf t j
  | .cleared :: j => outcomeOf t j

def requests : List Mark → List CalculateRequest
  | [] => []
  | .sent _ r :: j => r :: requests j
  | .settled _ _ :: j => requests j
  | .cleared :: j => requests j

/-- The store keeps in step with its journal. -/
structure Tracked (s : Session) : Prop where
  awaited : awaited s.journal = if s.pending then [s.ticket] else []
  newest : s.pending = true → (newest s.journal).map Prod.fst = some s.ticket
  lastSent : s.lastSentRequest = (Store.newest s.journal).map Prod.snd
  ticket : ∀ t ∈ s.inFlight.map Prod.fst, 0 < t ∧ t ≤ s.ticket
  pending_iff : s.pending = true ↔ s.ticket ∈ s.inFlight.map Prod.fst
  /-- A request settles at most once. -/
  unsettled : ∀ t, t ∈ s.inFlight.map Prod.fst ∨ s.ticket < t → outcomeOf t s.journal = none

theorem tracked_fresh (evaluator : Bool) : Tracked (fresh evaluator) := by
  constructor <;> simp [fresh, Store.awaited, Store.newest, outcomeOf]

namespace Tracked

variable {s t : Session} {e : Event}

theorem mem_filter_inFlight {t u : ℕ} {l : List (ℕ × CalculateRequest)} :
    t ∈ (l.filter (·.1 ≠ u)).map Prod.fst ↔ t ∈ l.map Prod.fst ∧ t ≠ u := by
  simp only [List.mem_map, List.mem_filter, decide_eq_true_eq]
  constructor
  · rintro ⟨x, ⟨hx, hu⟩, rfl⟩
    exact ⟨⟨x, hx, rfl⟩, hu⟩
  · rintro ⟨⟨x, hx, rfl⟩, hu⟩
    exact ⟨x, ⟨hx, hu⟩, rfl⟩

theorem sending (h : Tracked s) (hp : s.pending = false) (c : CalcState) (r : CalculateRequest) :
    Tracked (s.sending c r) where
  awaited := by simp [Session.sending, Store.awaited, h.awaited, hp]
  newest _ := rfl
  lastSent := rfl
  ticket t ht := by
    rcases List.mem_cons.mp ht with rfl | ht
    · exact ⟨Nat.succ_pos _, le_rfl⟩
    · exact ⟨(h.ticket t ht).1, (h.ticket t ht).2.trans (Nat.le_succ _)⟩
  pending_iff := by simp [Session.sending]
  unsettled t ht := by
    show outcomeOf t s.journal = none
    apply h.unsettled t
    rcases ht with ht | ht
    · rcases List.mem_cons.mp ht with rfl | ht
      · exact Or.inr (Nat.lt_succ_self _)
      · exact Or.inl ht
    · exact Or.inr ((Nat.lt_succ_self _).trans ht)

theorem succ_not_mem (h : Tracked s) : s.ticket + 1 ∉ s.inFlight.map Prod.fst := by
  intro hm
  have := (h.ticket _ hm).2
  omega

theorem unanswered (h : Tracked s) (hp : s.pending = false) (c : CalcState)
    (r : CalculateRequest) : Tracked (s.unanswered c r) where
  awaited := by simp [Session.unanswered, Store.awaited, h.awaited, hp]
  newest hp' := by cases hp'
  lastSent := rfl
  ticket t ht := ⟨(h.ticket t ht).1, (h.ticket t ht).2.trans (Nat.le_succ _)⟩
  pending_iff := ⟨by rintro ⟨⟩, fun hm => absurd hm h.succ_not_mem⟩
  unsettled t ht := by
    have hne : s.ticket + 1 ≠ t := by
      rcases ht with ht | ht
      · rintro rfl
        exact h.succ_not_mem ht
      · exact ht.ne
    have hold : outcomeOf t s.journal = none :=
      h.unsettled t (ht.imp_right (Nat.lt_succ_self _).trans)
    simpa [Session.unanswered, outcomeOf, hne] using hold

theorem clearAll (h : Tracked s) : Tracked s.clearAll where
  awaited := rfl
  newest hp' := by cases hp'
  lastSent := h.lastSent
  ticket t ht := ⟨(h.ticket t ht).1, (h.ticket t ht).2.trans (Nat.le_succ _)⟩
  pending_iff := ⟨by rintro ⟨⟩, fun hm => absurd hm h.succ_not_mem⟩
  unsettled t ht := h.unsettled t (ht.imp_right (Nat.lt_succ_self _).trans)

theorem unsettled_settle (h : Tracked s) {u : ℕ} (hu : u ∈ s.inFlight.map Prod.fst) (o : Outcome)
    (t : ℕ) (ht : t ∈ (s.inFlight.filter (·.1 ≠ u)).map Prod.fst ∨ s.ticket < t) :
    outcomeOf t (.settled u o :: s.journal) = none := by
  have hne : u ≠ t := by
    rintro rfl
    rcases ht with ht | ht
    · exact (mem_filter_inFlight.mp ht).2 rfl
    · exact absurd (h.ticket u hu).2 (Nat.not_le.mpr ht)
  rw [outcomeOf, if_neg hne]
  exact h.unsettled t (ht.imp_left fun hm => (mem_filter_inFlight.mp hm).1)

theorem outcomeOf_settle (h : Tracked s) {t u : ℕ} (hu : u ∈ s.inFlight.map Prod.fst)
    {o o' : Outcome} (ho : outcomeOf t s.journal = some o') :
    outcomeOf t (.settled u o :: s.journal) = some o' := by
  have hne : u ≠ t := by
    rintro rfl
    rw [h.unsettled u (Or.inl hu)] at ho
    cases ho
  rw [outcomeOf, if_neg hne]
  exact ho

theorem settled (h : Tracked s) (hm : s.ticket ∈ s.inFlight.map Prod.fst) (c : CalcState)
    (errorRequestId : Option Decimal.Text) (canRetry : Bool) (o : Outcome) :
    Tracked (s.settledAs c errorRequestId canRetry o) where
  awaited := by simp [Session.settledAs, Store.awaited, h.awaited, h.pending_iff.mpr hm]
  newest hp := by cases hp
  lastSent := h.lastSent
  ticket t ht := h.ticket t (mem_filter_inFlight.mp ht).1
  pending_iff := by
    rw [Session.settledAs, mem_filter_inFlight]
    simp
  unsettled := h.unsettled_settle hm o

theorem ignored (h : Tracked s) {t : ℕ} (hm : t ∈ s.inFlight.map Prod.fst) (ht : t ≠ s.ticket)
    (o : Outcome) : Tracked (s.ignored t o) where
  awaited := by
    show (Store.awaited s.journal).filter (· ≠ t) = if s.pending then [s.ticket] else []
    rw [h.awaited]
    cases s.pending <;> simp [ht.symm]
  newest := h.newest
  lastSent := h.lastSent
  ticket u hu := h.ticket u (mem_filter_inFlight.mp hu).1
  pending_iff := by
    show s.pending = true ↔ _
    rw [Session.ignored, mem_filter_inFlight, h.pending_iff]
    exact (and_iff_left ht.symm).symm
  unsettled := h.unsettled_settle hm o

theorem step (h : Tracked s) (hstep : Step s e t) : Tracked t := by
  cases hstep with
  | busy he hp => exact h
  | edit hp _ => exact { h with }
  | send hp _ _ => exact h.sending hp _ _
  | sendUnanswered hp _ _ => exact h.unanswered hp _ _
  | noRetry hp _ => exact h
  | retry hp _ _ _ => exact h.sending hp _ _
  | retryUnanswered hp _ _ _ => exact h.unanswered hp _ _
  | recallValue hp => exact { h with }
  | clearAll => exact h.clearAll
  | setEvaluator wired => exact { h with }
  | answer hm => exact h.settled hm _ _ _ _
  | fail hm => exact h.settled hm _ _ _ _
  | stale hm ht => exact h.ignored hm ht _

/-- While an answer is awaited it is that to the request sent last. -/
theorem newest_eq (h : Tracked s) (hp : s.pending = true) {r : CalculateRequest}
    (hr : s.lastSentRequest = some r) : Store.newest s.journal = some (s.ticket, r) := by
  obtain ⟨⟨t, r'⟩, hn, rfl⟩ := Option.map_eq_some_iff.mp (h.newest hp)
  rw [h.lastSent, hn] at hr
  cases hr
  exact hn

/-- Every reachable session is tracked. -/
theorem of_reachable (h : store.Reachable s) : Tracked s :=
  h.induction (tracked_fresh false) fun hs hn => hs.step (step_of_next hn)

end Tracked

end Calculator.Store
