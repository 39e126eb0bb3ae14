import Calculator.Store.Journal
import Calculator.Store.States

/-! # Retry

A failure that can be retried leaves flags behind: the request id to quote and
the permission to send the same request again. They fit the error on the
display until a key is pressed that sends nothing, and a retried request lands
where the first attempt would have landed only if nothing was recorded.
-/

namespace Calculator.Store

open Binary Decimal Ecma Engine Runs

/-- The failure of the request sent last is on the display, and set the flags. -/
structure FailureShown (s : Session) : Prop where
  pending : s.pending = false
  phase : s.calcState.phase = .error
  failure : ∃ t r f, newest s.journal = some (t, r) ∧ outcomeOf t s.journal = some (.failure f) ∧
    s.calcState.error = some (messageForError f) ∧ s.errorRequestId = f.requestId ∧
    s.canRetry = f.canRetry ∧ s.lastSentRequest = some r

def Flagged (s : Session) : Prop := s.canRetry = true ∨ s.errorRequestId ≠ none

instance (s : Session) : Decidable (Flagged s) := inferInstanceAs (Decidable (_ ∨ _))

/-- Flags are only set while the failure that set them is on the display. -/
def FlagsFit (s : Session) : Prop := Flagged s → FailureShown s

def isUnary : Key → Bool
  | .unary _ => true
  | _ => false

/-- No key but `√` and `%`, which send a request, is pressed while flags are set. -/
def LeavesFlags (s : Session) : Event → Prop
  | .key k => isUnary k = true ∨ ¬ Flagged s
  | _ => True

variable {s t u v : Session} {e : Event} {es : List Event} {k : Key} {r : CalculateRequest}

theorem flagsFit_of_clear (hc : s.canRetry = false) (hi : s.errorRequestId = none) :
    FlagsFit s := by
  rintro (h | h)
  · rw [hc] at h
    cases h
  · exact absurd hi h

theorem effect_ne_none_of_isUnary (c : CalcState) (hk : isUnary k = true) :
    (press c k).effect ≠ none := by
  cases k with
  | unary op =>
    rw [press, applyUnary]
    cases c.phase <;> simp
  | _ => cases hk

theorem flagsFit_step (h : FlagsFit s) (ht : Tracked s) (hl : LeavesFlags s e)
    (hstep : Step s e t) : FlagsFit t := by
  cases hstep with
  | busy _ _ => exact h
  | edit hp he =>
    intro hf
    exact absurd hf (hl.resolve_left fun hk => effect_ne_none_of_isUnary _ hk he)
  | send _ _ _ => exact flagsFit_of_clear rfl rfl
  | sendUnanswered _ _ _ => exact flagsFit_of_clear rfl rfl
  | noRetry _ _ => exact h
  | retry _ _ _ _ => exact flagsFit_of_clear rfl rfl
  | retryUnanswered _ _ _ _ => exact flagsFit_of_clear rfl rfl
  | recallValue _ => exact flagsFit_of_clear rfl rfl
  | clearAll => exact flagsFit_of_clear rfl rfl
  | setEvaluator wired => exact fun hf => ⟨(h hf).pending, (h hf).phase, (h hf).failure⟩
  | answer _ => exact flagsFit_of_clear rfl rfl
  | @fail f hm =>
    intro _
    obtain ⟨⟨_, r⟩, hn, rfl⟩ := Option.map_eq_some_iff.mp (ht.newest (ht.pending_iff.mpr hm))
    have hlast : s.lastSentRequest = some r := by rw [ht.lastSent, hn]; rfl
    exact ⟨rfl, by simp [Session.failed], _, r, f, hn, if_pos rfl, by simp [Session.failed],
      rfl, rfl, hlast⟩
  | stale hm _ =>
    intro hf
    obtain ⟨hp, hph, t, r, f, hn, ho, hrest⟩ := h hf
    exact ⟨hp, hph, t, r, f, hn, ht.outcomeOf_settle hm ho, hrest⟩

theorem flagsFit_of_runWhen (h : store.RunWhen LeavesFlags (fresh false) es s) : FlagsFit s := by
  refine (h.preserves (I := fun s => FlagsFit s ∧ Tracked s) ?_ ?_).1
  · intro s e t hs hl hn
    have hstep := step_of_next hn
    exact ⟨flagsFit_step hs.1 hs.2 hl hstep, hs.2.step hstep⟩
  · exact ⟨flagsFit_of_clear rfl rfl, tracked_fresh false⟩

theorem press_error_phase {c : CalcState} (hc : c.phase = .error) (hk : isUnary k = false) :
    (press c k).effect = none ∧ (press c k).state.phase ≠ .error := by
  cases k with
  | unary op => cases hk
  | _ =>
    simp [press, inputDigit, inputDecimal, toggleSign, backspace, clearEntry, setOperator,
      requestEvaluate, hc, initialState]

/-- Where the flags fit before and after a step, the step leaves them. -/
theorem leavesFlags_of_flagsFit (hs : FlagsFit s) (ht : FlagsFit t)
    (hn : store.next s e = some t) : LeavesFlags s e := by
  cases e with
  | key k =>
    cases hk : isUnary k with
    | true => exact Or.inl hk
    | false =>
      refine Or.inr fun hf => ?_
      have hshown := hs hf
      obtain ⟨he, hphase⟩ := press_error_phase hshown.phase hk
      have hedit := (Step.edit hshown.pending he).next
      rw [hn] at hedit
      cases hedit
      exact hphase (ht hf).phase
  | clearAll | retry | recallValue _ | setEvaluator _ | settle _ _ => trivial

/-- Along a run, set flags always belong to the failure on the display, exactly
if no key that sends nothing is pressed while they are set. -/
theorem flags_fit_iff (h : store.Run (fresh false) es s) :
    (∀ p t, p <+: es → store.Run (fresh false) p t → FlagsFit t) ↔
      store.RunWhen LeavesFlags (fresh false) es s :=
  Machine.forall_prefix_iff_runWhen flagsFit_of_runWhen
    (fun _ hs ht hn => leavesFlags_of_flagsFit hs ht hn) h

def network : Failure := .apiError "NETWORK".toList none

def failedRoot : List Event :=
  [.setEvaluator true, .key (.digit 9), .key (.unary .sqrt), .settle 1 (.failure network)]

theorem failedRoot_isSome : (store.replay (fresh false) failedRoot).isSome := by decide +kernel

theorem flags_fit_iff_failedRoot :
    let s := (store.replay (fresh false) failedRoot).get failedRoot_isSome
    (∀ p t, p <+: failedRoot → store.Run (fresh false) p t → FlagsFit t) ↔
      store.RunWhen LeavesFlags (fresh false) failedRoot s :=
  flags_fit_iff (Machine.runWhen_replayWhen_get failedRoot_isSome)

/-- A digit after the failure starts a new entry, and leaves the retry flag. -/
theorem flags_outlive_failure : ¬ ∀ s, store.Reachable s → FlagsFit s := by
  intro h
  obtain ⟨s, hrun, hp⟩ : ∃ s, store.Run (fresh false) (failedRoot ++ [.key (.digit 5)]) s ∧
      (s.canRetry && s.calcState.phase == .enteringA) = true :=
    Machine.exists_run_of_replay (by decide +kernel)
  rw [Bool.and_eq_true, beq_iff_eq] at hp
  have hphase := (h s ⟨_, hrun⟩ (Or.inl hp.1)).phase
  rw [hp.2] at hphase
  cases hphase

/-- The request sent with ticket `t` fails, is retried after each failure, and
is answered in the end. -/
def attempts (t : ℕ) (response : CalculateResponse) : List Failure → List Event
  | [] => [.settle t (.answer response)]
  | f :: fs => .settle t (.failure f) :: .retry :: attempts (t + 1) response fs

def freshResult (value : Float64) : CalcState :=
  { initialState with phase := .result, a := some value, display := toDisplay value }

/-- The key is `√` or `%`, and no operator is recorded that it leaves in place. -/
def NothingRecorded (c : CalcState) (k : Key) : Prop :=
  isUnary k = true ∧ (c.phase = .error ∨ c.operator = none)

theorem applyResult_eq_freshResult_iff {c : CalcState} (h : Settled c)
    (hk : (press c k).effect ≠ none) (response : CalculateResponse) :
    (applyResult (press c k).state response).state = freshResult response.result ↔
      NothingRecorded c k := by
  unfold NothingRecorded freshResult
  cases h with
  | idle =>
    cases k with
    | unary op => exact iff_of_true rfl ⟨rfl, Or.inr rfl⟩
    | _ => exact absurd rfl hk
  | enteringA display =>
    cases k with
    | unary op => exact iff_of_true rfl ⟨rfl, Or.inr rfl⟩
    | _ => exact absurd rfl hk
  | operatorSelected a op last =>
    cases k with
    | evaluate | unary op' => exact iff_of_false (by rintro ⟨⟩) (by simp [isUnary])
    | _ => exact absurd rfl hk
  | enteringB display a op last =>
    cases k with
    | operator op' | evaluate | unary op' => exact iff_of_false (by rintro ⟨⟩) (by simp [isUnary])
    | _ => exact absurd rfl hk
  | frozen a =>
    cases k with
    | unary op => exact iff_of_true rfl ⟨rfl, Or.inr rfl⟩
    | _ => exact absurd rfl hk
  | evaluated a op last =>
    cases k with
    | evaluate | unary op' => exact iff_of_false (by rintro ⟨⟩) (by simp [isUnary])
    | _ => exact absurd rfl hk
  | error display a b op message last =>
    cases k with
    | unary op' => exact iff_of_true rfl ⟨rfl, Or.inl rfl⟩
    | _ => exact absurd rfl hk

theorem next_settle_failure {f : Failure}
    (h : store.next s (.settle s.ticket (.failure f)) = some t) : t = s.failed f := by
  simp only [store, next, Option.ite_none_right_eq_some, Session.deliver_failure] at h
  exact (Option.some.inj h.2).symm

theorem next_settle_answer {response : CalculateResponse}
    (h : store.next s (.settle s.ticket (.answer response)) = some t) :
    t = s.answered response := by
  simp only [store, next, Option.ite_none_right_eq_some, Session.deliver_answer] at h
  exact (Option.some.inj h.2).symm

theorem run_failed_attempt {f : Failure} (hw : s.evaluator = true) (hl : s.lastSentRequest = some r)
    (hf : f.canRetry = true)
    (h : store.Run s (.settle s.ticket (.failure f) :: .retry :: es) u) :
    store.Run ((s.failed f).sending (s.failed f).calcState r) es u := by
  obtain ⟨s₁, -, hn₁, h⟩ := Machine.runWhen_cons_iff.mp h
  obtain ⟨s₂, -, hn₂, h⟩ := Machine.runWhen_cons_iff.mp h
  obtain rfl := next_settle_failure hn₁
  have hretry : Step (s.failed f) .retry _ := .retry rfl hf hl hw
  rw [hretry.next] at hn₂
  cases hn₂
  exact h

/-- After at least one failure the answer lands as if nothing had been recorded. -/
theorem run_attempts {response : CalculateResponse} {f : Failure} {fs : List Failure}
    (hw : s.evaluator = true) (hl : s.lastSentRequest = some r)
    (hf : ∀ g ∈ f :: fs, g.canRetry = true)
    (h : store.Run s (attempts s.ticket response (f :: fs)) u) :
    u.calcState = freshResult response.result := by
  induction fs generalizing s f with
  | nil =>
    have h' := run_failed_attempt hw hl (hf f List.mem_cons_self) h
    obtain ⟨t, -, hn, ht⟩ := Machine.runWhen_cons_iff.mp h'
    obtain rfl := next_settle_answer hn
    rw [← Machine.runWhen_nil_iff.mp ht]
    simp only [Session.answered, Session.sending, Session.failed, applyError_eq, stay_state]
    rfl
  | cons g gs ih =>
    have h' := run_failed_attempt hw hl (hf f List.mem_cons_self) h
    exact ih (s := (s.failed f).sending (s.failed f).calcState r) hw rfl
      (fun x hx => hf x (List.mem_cons_of_mem f hx)) h'

/-- A retried request lands as the first attempt would have exactly if the key
is `√` or `%` and no operator is recorded. -/
theorem retry_is_transparent_iff (h : store.Reachable s) (hp : s.pending = false)
    (hk : (press s.calcState k).effect ≠ none) {response : CalculateResponse} {f : Failure}
    {fs : List Failure} (hf : ∀ g ∈ f :: fs, g.canRetry = true)
    (hu : store.Run s (.key k :: attempts (s.ticket + 1) response (f :: fs)) u)
    (hv : store.Run s (.key k :: attempts (s.ticket + 1) response []) v) :
    u.calcState = v.calcState ↔ NothingRecorded s.calcState k := by
  obtain ⟨r, hr⟩ := Option.ne_none_iff_exists'.mp hk
  obtain ⟨s₁, -, hn, hu⟩ := Machine.runWhen_cons_iff.mp hu
  obtain ⟨s₂, -, hn', hv⟩ := Machine.runWhen_cons_iff.mp hv
  rw [hn] at hn'
  cases hn'
  cases hw : s.evaluator with
  | false =>
    -- without an evaluator the request is never in flight, and cannot settle
    rw [(Step.sendUnanswered hp hr hw).next] at hn
    cases hn
    obtain ⟨t, -, hn, -⟩ := Machine.runWhen_cons_iff.mp hv
    have hmem := (Option.ite_none_right_eq_some.mp hn).1
    exact absurd hmem (Tracked.of_reachable h).succ_not_mem
  | true =>
    rw [(Step.send hp hr hw).next] at hn
    cases hn
    have hu' := run_attempts (s := s.sending (press s.calcState k).state r) hw rfl hf hu
    obtain ⟨t, -, hn, ht⟩ := Machine.runWhen_cons_iff.mp hv
    obtain rfl := next_settle_answer hn
    rw [hu', ← Machine.runWhen_nil_iff.mp ht, eq_comm]
    exact applyResult_eq_freshResult_iff ((Coherent.of_reachable h).settled hp) hk response

def firstOperand : List Event := [.setEvaluator true, .key (.digit 9)]

theorem firstOperand_isSome : (store.replay (fresh false) firstOperand).isSome := by decide +kernel

def retriedRoot : List Event := .key (.unary .sqrt) :: attempts 1 ⟨one⟩ [network]

def answeredRoot : List Event := .key (.unary .sqrt) :: attempts 1 ⟨one⟩ []

theorem roots_isSome : ∀ es ∈ [retriedRoot, answeredRoot], (store.replay
    ((store.replay (fresh false) firstOperand).get firstOperand_isSome) es).isSome := by
  decide +kernel

theorem retriedRoot_isSome : (store.replay
    ((store.replay (fresh false) firstOperand).get firstOperand_isSome) retriedRoot).isSome :=
  roots_isSome _ List.mem_cons_self

theorem answeredRoot_isSome : (store.replay
    ((store.replay (fresh false) firstOperand).get firstOperand_isSome) answeredRoot).isSome :=
  roots_isSome _ (List.mem_cons_of_mem _ List.mem_cons_self)

theorem retry_is_transparent_iff_retriedRoot :
    let s := (store.replay (fresh false) firstOperand).get firstOperand_isSome
    ((store.replay s retriedRoot).get retriedRoot_isSome).calcState =
        ((store.replay s answeredRoot).get answeredRoot_isSome).calcState ↔
      NothingRecorded s.calcState (.unary .sqrt) :=
  retry_is_transparent_iff ⟨_, Machine.runWhen_replayWhen_get firstOperand_isSome⟩
    (by decide +kernel) (by decide +kernel)
    (by decide +kernel : ∀ g ∈ [network], g.canRetry = true)
    (Machine.runWhen_replayWhen_get retriedRoot_isSome)
    (Machine.runWhen_replayWhen_get answeredRoot_isSome)

/-- The operands of `2 + 3`, before the key that evaluates them. -/
def sum : List Event :=
  [.setEvaluator true, .key (.digit 2), .key (.operator .add), .key (.digit 3)]

theorem sum_isSome : (store.replay (fresh false) sum).isSome := by decide +kernel

def sumState : Session := (store.replay (fresh false) sum).get sum_isSome

def sumAttempts (fs : List Failure) : List Event :=
  .key .evaluate :: attempts 1 ⟨.ofRat false 5⟩ fs

theorem sumAttempts_isSome : ∀ fs ∈ [[network], []],
    (store.replay sumState (sumAttempts fs)).isSome := by
  decide +kernel

theorem retriedSum_isSome : (store.replay sumState (sumAttempts [network])).isSome :=
  sumAttempts_isSome _ List.mem_cons_self

theorem answeredSum_isSome : (store.replay sumState (sumAttempts [])).isSome :=
  sumAttempts_isSome _ (List.mem_cons_of_mem _ List.mem_cons_self)

/-- A retried sum lands without its operator and without the request to repeat. -/
theorem retry_loses_operator :
    ¬ ∀ (s u v : Session) (k : Key) (response : CalculateResponse) (fs : List Failure),
      store.Reachable s → s.pending = false → (press s.calcState k).effect ≠ none → fs ≠ [] →
      (∀ f ∈ fs, f.canRetry = true) →
      store.Run s (.key k :: attempts (s.ticket + 1) response fs) u →
      store.Run s (.key k :: attempts (s.ticket + 1) response []) v →
      u.calcState = v.calcState := by
  intro h
  have heq := h sumState ((store.replay sumState (sumAttempts [network])).get retriedSum_isSome)
    ((store.replay sumState (sumAttempts [])).get answeredSum_isSome) .evaluate ⟨.ofRat false 5⟩
    [network] ⟨sum, Machine.runWhen_replayWhen_get sum_isSome⟩ (by decide +kernel)
    (by decide +kernel) (by simp) (by decide +kernel)
    (Machine.runWhen_replayWhen_get retriedSum_isSome)
    (Machine.runWhen_replayWhen_get answeredSum_isSome)
  exact absurd heq (by decide +kernel)

end Calculator.Store
