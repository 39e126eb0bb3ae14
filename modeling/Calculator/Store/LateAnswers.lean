import Calculator.Store.Similar

/-! # Late answers

A request that was cancelled may still settle, at any later time and in any
order. Its settlement never shows: a run looks the same without it.
-/

namespace Calculator.Store

open Engine Runs

/-- The events but for the settlements of requests that are not awaited. -/
def withoutStale (s : Session) : Event → Option Event
  | .settle t o => if t ∈ awaited s.journal then some (.settle t o) else none
  | e => some e

theorem withoutStale_eq :
    withoutStale = translate 0 fun s t => decide (t ∈ awaited s.journal) := by
  funext s e
  cases e <;> simp [withoutStale, translate]

theorem keeps_awaited : Keeps 0 fun s t => decide (t ∈ awaited s.journal) where
  own h hm _ := (h.ticket _ hm).1
  awaited h hp _ := by simp [h.awaited, hp]

theorem similar_fresh (evaluator : Bool) : Similar 0 [] (fresh evaluator) (fresh evaluator) where
  calcState := rfl
  pending := rfl
  errorRequestId := rfl
  canRetry := rfl
  evaluator := rfl
  ticket := rfl
  lastSent _ := rfl
  inFlight := by simp [fresh]
  requests := rfl
  left := tracked_fresh evaluator
  right := tracked_fresh evaluator

variable {s t : Session} {es : List Event}

theorem pending_iff_newest_awaited (h : Tracked s) :
    s.pending = true ↔ ∃ t r, newest s.journal = some (t, r) ∧ t ∈ awaited s.journal := by
  rw [h.awaited]
  constructor
  · intro hp
    obtain ⟨⟨t, r⟩, hn, ht⟩ := Option.map_eq_some_iff.mp (h.newest hp)
    exact ⟨t, r, hn, by simpa [hp] using ht⟩
  · rintro ⟨t, r, -, ht⟩
    by_contra hp
    simp [hp] at ht

theorem next_of_pending (hp : s.pending = true) {e : Event} (he : e.isInput = true) :
    store.next s e = some s :=
  (Step.busy he hp).next

/-- In every run: the store is pending exactly while the request sent last has
neither settled nor been cancelled; at most one request is awaited, and no key
but `AC` does anything meanwhile; and at every point the run shows what it
shows without the settlements of requests that are no longer awaited. -/
theorem late_answers_are_ignored (h : store.Run (fresh false) es s) :
    (s.pending = true ↔ ∃ t r, newest s.journal = some (t, r) ∧ t ∈ awaited s.journal) ∧
    (awaited s.journal).length ≤ 1 ∧
    (s.pending = true → ∀ e : Event, e.isInput = true → store.next s e = some s) ∧
    ∀ p s₁, p <+: es → store.Run (fresh false) p s₁ →
      store.project withoutStale (fresh false) p <+:
        store.project withoutStale (fresh false) es ∧
      ∃ t₁, store.Run (fresh false) (store.project withoutStale (fresh false) p) t₁ ∧
        t₁.toCalculatorStore = s₁.toCalculatorStore := by
  have htracked := Tracked.of_reachable (s := s) ⟨es, h⟩
  refine ⟨pending_iff_newest_awaited htracked, ?_, fun hp e he => next_of_pending hp he, ?_⟩
  · rw [htracked.awaited]
    split <;> simp
  · intro p s₁ hp h₁
    refine ⟨Machine.project_prefix hp, ?_⟩
    rw [withoutStale_eq]
    obtain ⟨t₁, ht₁, hsim⟩ := (similar_fresh false).run keeps_awaited h₁
    exact ⟨t₁, ht₁, hsim.toCalculatorStore.symm⟩

/-- The second request is pending when the answer to the first one arrives. -/
def lateAnswer : List Event :=
  [.setEvaluator true, .key (.digit 9), .key (.unary .sqrt), .clearAll, .key (.digit 4),
    .key (.unary .sqrt), .settle 1 (.answer ⟨one⟩)]

theorem lateAnswer_isSome : (store.replay (fresh false) lateAnswer).isSome := by decide +kernel

theorem late_answers_are_ignored_lateAnswer :
    let s := (store.replay (fresh false) lateAnswer).get lateAnswer_isSome
    (s.pending = true ↔ ∃ t r, newest s.journal = some (t, r) ∧ t ∈ awaited s.journal) ∧
    (awaited s.journal).length ≤ 1 ∧
    (s.pending = true → ∀ e : Event, e.isInput = true → store.next s e = some s) ∧
    ∀ p s₁, p <+: lateAnswer → store.Run (fresh false) p s₁ →
      store.project withoutStale (fresh false) p <+:
        store.project withoutStale (fresh false) lateAnswer ∧
      ∃ t₁, store.Run (fresh false) (store.project withoutStale (fresh false) p) t₁ ∧
        t₁.toCalculatorStore = s₁.toCalculatorStore :=
  late_answers_are_ignored (Machine.runWhen_replayWhen_get lateAnswer_isSome)

end Calculator.Store
