import Calculator.Store.Similar

/-! # Reset

After `AC` the store cannot be told from a fresh one, although it has used some
tickets, remembers the request it sent last and may have requests in flight.
-/

namespace Calculator.Store

open Engine Runs

/-- The events as a fresh store sees them: settlements of the requests up to a
ticket are not its own, and its own have tickets that start from one. -/
def ownEvents (base : ℕ) (_ : Session) : Event → Option Event
  | .settle t o => if base < t then some (.settle (t - base) o) else none
  | e => some e

theorem ownEvents_eq (base : ℕ) : ownEvents base = translate base fun _ t => decide (base < t) := by
  funext s e
  cases e <;> simp [ownEvents, translate]

theorem keeps_own (base : ℕ) : Keeps base fun _ t => decide (base < t) where
  own _ _ h := of_decide_eq_true h
  awaited _ _ h := decide_eq_true h

variable {s t : Session} {es fs : List Event}

theorem similar_clearAll (h : Tracked s) :
    Similar s.clearAll.ticket (requests s.journal) s.clearAll (fresh s.evaluator) where
  calcState := by simp [Session.clearAll, fresh]
  pending := rfl
  errorRequestId := rfl
  canRetry := rfl
  evaluator := rfl
  ticket := (Nat.zero_add _).symm
  lastSent := by rintro (⟨⟨⟩⟩ | ⟨⟨⟩⟩)
  inFlight u hu hlt := by
    have : u ≤ s.ticket := (h.ticket u hu).2
    have : s.ticket + 1 < u := hlt
    omega
  requests := rfl
  left := h.clearAll
  right := tracked_fresh s.evaluator

/-- After a run that ends with `AC`, a later run shows and sends at every point
what a fresh store with the same evaluator does on the same keys and on the
settlements of its own requests. -/
theorem clearAll_is_complete_reset (h : store.Run (fresh false) (es ++ [.clearAll]) s)
    {p : List Event} (hp : p <+: fs) (hrun : store.Run s p t) :
    store.project (ownEvents s.ticket) s p <+: store.project (ownEvents s.ticket) s fs ∧
    ∃ u, store.Run (fresh s.evaluator) (store.project (ownEvents s.ticket) s p) u ∧
      u.toCalculatorStore = t.toCalculatorStore ∧
      requests t.journal = requests u.journal ++ requests s.journal := by
  obtain ⟨s₀, h₀, -, hn⟩ := Machine.runWhen_snoc_iff.mp h
  cases hn
  refine ⟨Machine.project_prefix hp, ?_⟩
  rw [ownEvents_eq]
  obtain ⟨u, hu, hsim⟩ :=
    (similar_clearAll (Tracked.of_reachable ⟨es, h₀⟩)).run (keeps_own _) hrun
  exact ⟨u, hu, hsim.toCalculatorStore.symm, hsim.requests⟩

def beforeReset : List Event :=
  [.setEvaluator true, .key (.digit 9), .key (.unary .sqrt)]

/-- The request from before the reset settles while the one from after it is awaited. -/
def afterReset : List Event :=
  [.key (.digit 4), .key (.unary .sqrt), .settle 1 (.failure .other), .settle 3 (.answer ⟨one⟩)]

theorem beforeReset_isSome :
    (store.replay (fresh false) (beforeReset ++ [.clearAll])).isSome := by decide +kernel

theorem afterReset_isSome : (store.replay
    ((store.replay (fresh false) (beforeReset ++ [.clearAll])).get beforeReset_isSome)
      afterReset).isSome := by decide +kernel

theorem clearAll_is_complete_reset_afterReset :
    let s := (store.replay (fresh false) (beforeReset ++ [.clearAll])).get beforeReset_isSome
    let t := (store.replay s afterReset).get afterReset_isSome
    store.project (ownEvents s.ticket) s afterReset <+:
      store.project (ownEvents s.ticket) s afterReset ∧
    ∃ u, store.Run (fresh s.evaluator) (store.project (ownEvents s.ticket) s afterReset) u ∧
      u.toCalculatorStore = t.toCalculatorStore ∧
      requests t.journal = requests u.journal ++ requests s.journal :=
  clearAll_is_complete_reset (Machine.runWhen_replayWhen_get beforeReset_isSome) List.prefix_rfl
    (Machine.runWhen_replayWhen_get afterReset_isSome)

end Calculator.Store
