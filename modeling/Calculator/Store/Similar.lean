import Calculator.Store.Journal

/-! # Sessions that look alike

Two sessions look alike if they show the same and wait for the same request,
although one of them has sent more requests before. They stay alike if the
other one is given the same events, with the tickets of its own requests, and
is spared settlements that nobody waits for.
-/

namespace Calculator.Store

open Engine Runs

/-- The event as the other session sees it: `keep` says which settlements it gets. -/
def translate (base : ℕ) (keep : Session → ℕ → Bool) (s : Session) : Event → Option Event
  | .settle t o => if keep s t then some (.settle (t - base) o) else none
  | e => some e

/-- Of the settlements in flight, the awaited one is kept, and only own ones are. -/
structure Keeps (base : ℕ) (keep : Session → ℕ → Bool) : Prop where
  own : ∀ {s t}, Tracked s → t ∈ s.inFlight.map Prod.fst → keep s t = true → base < t
  awaited : ∀ {s}, Tracked s → s.pending = true → base < s.ticket → keep s s.ticket = true

/-- The first session has used the tickets up to `base` for the requests `old`. -/
structure Similar (base : ℕ) (old : List CalculateRequest) (s t : Session) : Prop where
  calcState : s.calcState = t.calcState
  pending : s.pending = t.pending
  errorRequestId : s.errorRequestId = t.errorRequestId
  canRetry : s.canRetry = t.canRetry
  evaluator : s.evaluator = t.evaluator
  ticket : s.ticket = t.ticket + base
  lastSent : s.pending = true ∨ s.canRetry = true → s.lastSentRequest = t.lastSentRequest
  inFlight : ∀ u ∈ s.inFlight.map Prod.fst, base < u → u - base ∈ t.inFlight.map Prod.fst
  requests : requests s.journal = requests t.journal ++ old
  left : Tracked s
  right : Tracked t

namespace Similar

variable {base : ℕ} {old : List CalculateRequest} {s t s' : Session} {e : Event}
  {keep : Session → ℕ → Bool}

theorem toCalculatorStore (h : Similar base old s t) :
    s.toCalculatorStore = t.toCalculatorStore := by
  obtain ⟨⟨_, _, _, _⟩, _⟩ := s
  obtain ⟨⟨_, _, _, _⟩, _⟩ := t
  obtain ⟨rfl, rfl, rfl, rfl⟩ := h
  rfl

theorem base_lt (h : Similar base old s t) (hp : s.pending = true) : base < s.ticket := by
  have hmem : t.ticket ∈ t.inFlight.map Prod.fst := h.right.pending_iff.mp (h.pending ▸ hp)
  have hpos := (h.right.ticket _ hmem).1
  rw [h.ticket]
  omega

theorem run_one {e : Event} (h : Step s e s') : store.Run s [e] s' :=
  .cons trivial h.next (.nil s')

theorem sending (h : Similar base old s t) (hp : s.pending = false) (c : CalcState)
    (r : CalculateRequest) : Similar base old (s.sending c r) (t.sending c r) where
  calcState := rfl
  pending := rfl
  errorRequestId := rfl
  canRetry := rfl
  evaluator := h.evaluator
  ticket := by
    show s.ticket + 1 = t.ticket + 1 + base
    rw [h.ticket]
    omega
  lastSent _ := rfl
  inFlight u hu hb := by
    rcases List.mem_cons.mp hu with rfl | hu
    · refine List.mem_cons.mpr (Or.inl ?_)
      show s.ticket + 1 - base = t.ticket + 1
      rw [h.ticket]
      omega
    · exact List.mem_cons_of_mem _ (h.inFlight u hu hb)
  requests := congrArg (r :: ·) h.requests
  left := h.left.sending hp c r
  right := h.right.sending (h.pending ▸ hp) c r

theorem unanswered (h : Similar base old s t) (hp : s.pending = false) (c : CalcState)
    (r : CalculateRequest) : Similar base old (s.unanswered c r) (t.unanswered c r) where
  calcState := rfl
  pending := rfl
  errorRequestId := rfl
  canRetry := rfl
  evaluator := h.evaluator
  ticket := by
    show s.ticket + 1 = t.ticket + 1 + base
    rw [h.ticket]
    omega
  lastSent _ := rfl
  inFlight := h.inFlight
  requests := congrArg (r :: ·) h.requests
  left := h.left.unanswered hp c r
  right := h.right.unanswered (h.pending ▸ hp) c r

theorem mem_inFlight (h : Similar base old s t) (hm : s.ticket ∈ s.inFlight.map Prod.fst) :
    t.ticket ∈ t.inFlight.map Prod.fst := by
  rw [← h.right.pending_iff, ← h.pending]
  exact h.left.pending_iff.mpr hm

theorem inFlight_filter (h : Similar base old s t) {v : ℕ} (u : ℕ)
    (hu : u ∈ (s.inFlight.filter (·.1 ≠ v)).map Prod.fst) (hb : base < u) (hv : base < v) :
    u - base ∈ (t.inFlight.filter (·.1 ≠ v - base)).map Prod.fst := by
  rw [Tracked.mem_filter_inFlight] at hu ⊢
  exact ⟨h.inFlight u hu.1 hb, by omega⟩

theorem ticket_sub (h : Similar base old s t) : s.ticket - base = t.ticket := by
  rw [h.ticket]
  omega

theorem recalled (h : Similar base old s t) (hp : s.pending = false) (value : Binary.Float64) :
    Similar base old (s.recalled value) (t.recalled value) :=
  { h with
    calcState := rfl
    errorRequestId := rfl
    canRetry := rfl
    lastSent := fun hor => h.lastSent (Or.inl (hor.resolve_right Bool.false_ne_true))
    left := h.left.step (.recallValue hp)
    right := h.right.step (.recallValue (h.pending ▸ hp)) }

theorem clearAll (h : Similar base old s t) : Similar base old s.clearAll t.clearAll :=
  { h with
    calcState := by simp [Session.clearAll]
    pending := rfl
    errorRequestId := rfl
    canRetry := rfl
    ticket := by
      show s.ticket + 1 = t.ticket + 1 + base
      rw [h.ticket]
      omega
    lastSent := by rintro (⟨⟨⟩⟩ | ⟨⟨⟩⟩)
    left := h.left.clearAll
    right := h.right.clearAll }

/-- A settlement that the other session is spared. -/
theorem ignored (h : Similar base old s t) {u : ℕ} (hm : u ∈ s.inFlight.map Prod.fst)
    (hu : u ≠ s.ticket) (o : Outcome) : Similar base old (s.ignored u o) t :=
  { h with
    inFlight := fun v hv => h.inFlight v (Tracked.mem_filter_inFlight.mp hv).1
    left := h.left.ignored hm hu o }

theorem ticket_ne (h : Similar base old s t) {u : ℕ} (hm : u ∈ s.inFlight.map Prod.fst)
    (hu : u ≠ s.ticket) (hb : base < u) : u - base ≠ t.ticket := by
  rw [← h.ticket_sub]
  have := (h.left.ticket u hm).2
  omega

theorem ignored_both (h : Similar base old s t) {u : ℕ} (hm : u ∈ s.inFlight.map Prod.fst)
    (hu : u ≠ s.ticket) (hb : base < u) (o : Outcome) :
    Similar base old (s.ignored u o) (t.ignored (u - base) o) :=
  { h with
    inFlight := fun v hv hbv => h.inFlight_filter v hv hbv hb
    left := h.left.ignored hm hu o
    right := h.right.ignored (h.inFlight u hm hb) (h.ticket_ne hm hu hb) o }

theorem settled (h : Similar base old s t) (hm : s.ticket ∈ s.inFlight.map Prod.fst)
    (c : CalcState) (errorRequestId : Option Decimal.Text) (canRetry : Bool) (o : Outcome) :
    Similar base old (s.settledAs c errorRequestId canRetry o)
      (t.settledAs c errorRequestId canRetry o) where
  calcState := rfl
  pending := rfl
  errorRequestId := rfl
  canRetry := rfl
  evaluator := h.evaluator
  ticket := h.ticket
  lastSent _ := h.lastSent (Or.inl (h.left.pending_iff.mpr hm))
  inFlight u hu hb := by
    have hfilter := h.inFlight_filter u hu hb (h.base_lt (h.left.pending_iff.mpr hm))
    rwa [h.ticket_sub] at hfilter
  requests := h.requests
  left := h.left.settled hm c errorRequestId canRetry o
  right := h.right.settled (h.mem_inFlight hm) c errorRequestId canRetry o

theorem translate_awaited (hk : Keeps base keep) (h : Similar base old s t)
    (hm : s.ticket ∈ s.inFlight.map Prod.fst) (o : Outcome) :
    translate base keep s (.settle s.ticket o) = some (.settle t.ticket o) := by
  have hp := h.left.pending_iff.mpr hm
  rw [translate, hk.awaited h.left hp (h.base_lt hp), h.ticket_sub]
  rfl

theorem step (hk : Keeps base keep) (h : Similar base old s t) (hstep : Step s e s') :
    ∃ t', store.Run t (translate base keep s e).toList t' ∧ Similar base old s' t' := by
  cases hstep with
  | busy he hp =>
    refine ⟨t, ?_, h⟩
    cases e with
    | key k => exact run_one (.busy rfl (h.pending ▸ hp))
    | retry => exact run_one (.busy rfl (h.pending ▸ hp))
    | recallValue v => exact run_one (.busy rfl (h.pending ▸ hp))
    | clearAll | setEvaluator _ | settle _ _ => cases he
  | edit hp he =>
    refine ⟨_, run_one (.edit (h.pending ▸ hp) (h.calcState ▸ he)), ?_⟩
    exact { h with
      calcState := by rw [h.calcState]
      left := h.left.step (.edit hp he)
      right := h.right.step (.edit (h.pending ▸ hp) (h.calcState ▸ he)) }
  | send hp he hw =>
    refine ⟨_, run_one (.send (h.pending ▸ hp) (h.calcState ▸ he) (h.evaluator ▸ hw)), ?_⟩
    rw [h.calcState]
    exact h.sending hp _ _
  | sendUnanswered hp he hw =>
    refine ⟨_, run_one (.sendUnanswered (h.pending ▸ hp) (h.calcState ▸ he) (h.evaluator ▸ hw)), ?_⟩
    rw [h.calcState]
    exact h.unanswered hp _ _
  | noRetry hp hno =>
    refine ⟨t, run_one (.noRetry (h.pending ▸ hp) ?_), h⟩
    rcases hc : s.canRetry with - | -
    · exact Or.inl (h.canRetry ▸ hc)
    · have hl := hno.resolve_left (by simp [hc])
      exact Or.inr (h.lastSent (Or.inr hc) ▸ hl)
  | retry hp hc hl hw =>
    have hl' := h.lastSent (Or.inr hc) ▸ hl
    refine ⟨_, run_one (.retry (h.pending ▸ hp) (h.canRetry ▸ hc) hl' (h.evaluator ▸ hw)), ?_⟩
    rw [h.calcState]
    exact h.sending hp _ _
  | retryUnanswered hp hc hl hw =>
    have hl' := h.lastSent (Or.inr hc) ▸ hl
    refine ⟨_, run_one (.retryUnanswered (h.pending ▸ hp) (h.canRetry ▸ hc) hl'
      (h.evaluator ▸ hw)), ?_⟩
    rw [h.calcState]
    exact h.unanswered hp _ _
  | recallValue hp =>
    exact ⟨_, run_one (.recallValue (h.pending ▸ hp)), h.recalled hp _⟩
  | clearAll => exact ⟨_, run_one .clearAll, h.clearAll⟩
  | setEvaluator wired =>
    refine ⟨_, run_one (.setEvaluator wired), ?_⟩
    exact { h with
      evaluator := rfl
      left := h.left.step (.setEvaluator wired)
      right := h.right.step (.setEvaluator wired) }
  | answer hm =>
    rw [translate_awaited hk h hm]
    refine ⟨_, run_one (.answer (h.mem_inFlight hm)), ?_⟩
    rw [Session.answered_eq, Session.answered_eq, h.calcState]
    exact h.settled hm _ _ _ _
  | fail hm =>
    rw [translate_awaited hk h hm]
    refine ⟨_, run_one (.fail (h.mem_inFlight hm)), ?_⟩
    rw [Session.failed_eq, Session.failed_eq, h.calcState]
    exact h.settled hm _ _ _ _
  | @stale u o hm ht =>
    rcases hu : keep s u with - | -
    · exact ⟨t, by simp [translate, hu], h.ignored hm ht o⟩
    · have hb := hk.own h.left hm hu
      rw [translate, hu]
      exact ⟨_, run_one (.stale (h.inFlight u hm hb) (h.ticket_ne hm ht hb)),
        h.ignored_both hm ht hb o⟩

/-- Alike sessions stay alike over whole runs. -/
theorem run (hk : Keeps base keep) (h : Similar base old s t) {es : List Event}
    (hrun : store.Run s es s') :
    ∃ t', store.Run t (store.project (translate base keep) s es) t' ∧ Similar base old s' t' :=
  hrun.simulate (fun hR _ hn => hR.step hk (step_of_next hn)) h

end Similar

end Calculator.Store
