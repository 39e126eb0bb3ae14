import Calculator.Engine.Transitions
import Calculator.Runs.Machine
import Calculator.Store.Failure

/-! # The store and its runs

The store is the engine plus a request in flight. A session is a store together
with the world it talks to: the requests that are still to be answered, in any
order, and a journal of what was sent, settled and cancelled. Its events are
the keys, the other actions of the store, and the settlements.
-/

namespace Calculator.Store

open Binary Decimal Engine Runs

inductive Outcome where
  | answer (response : CalculateResponse)
  | failure (error : Failure)
  deriving DecidableEq

/-- What happened to requests, each known by the ticket it was sent with. -/
inductive Mark where
  | sent (ticket : ℕ) (request : CalculateRequest)
  | settled (ticket : ℕ) (outcome : Outcome)
  | cleared
  deriving DecidableEq

structure CalculatorStore where
  calcState : CalcState
  pending : Bool
  errorRequestId : Option Text
  canRetry : Bool
  deriving DecidableEq

structure Session extends CalculatorStore where
  /-- Whether an evaluator is wired in. -/
  evaluator : Bool
  /-- Identity of the request the store is waiting for. -/
  ticket : ℕ
  lastSentRequest : Option CalculateRequest
  /-- The requests that have not settled yet. -/
  inFlight : List (ℕ × CalculateRequest)
  /-- The journal, newest mark first. -/
  journal : List Mark
  deriving DecidableEq

/-- The store before any key, with or without an evaluator. -/
def fresh (evaluator : Bool) : Session where
  calcState := initialState
  pending := false
  errorRequestId := none
  canRetry := false
  evaluator := evaluator
  ticket := 0
  lastSentRequest := none
  inFlight := []
  journal := []

namespace Session

/-- Apply an answer, unless it belongs to a request nobody is waiting for. -/
def settle (s : Session) (sent : ℕ) (resolve : CalcState → Transition) : Session :=
  if sent ≠ s.ticket then s
  else { s with
    calcState := (resolve s.calcState).state
    pending := false
    errorRequestId := none
    canRetry := false }

def settleError (s : Session) (sent : ℕ) (error : Failure) : Session :=
  if sent ≠ s.ticket then s
  else { s with
    calcState := (applyError s.calcState (messageForError error)).state
    pending := false
    errorRequestId := error.requestId
    canRetry := error.canRetry }

def send (s : Session) (state : CalcState) (request : CalculateRequest) : Session :=
  let sent := s.ticket + 1
  let s := { s with
    ticket := sent
    lastSentRequest := some request
    calcState := state
    pending := true
    errorRequestId := none
    canRetry := false
    journal := .sent sent request :: s.journal }
  if !s.evaluator then
    -- nothing is wired up to answer, so the request fails at once
    settleError { s with journal := .settled sent (.failure .other) :: s.journal } sent .other
  else { s with inFlight := (sent, request) :: s.inFlight }

def apply (s : Session) (t : Transition) : Session :=
  match t.effect with
  | none => { s with calcState := t.state }
  | some request => s.send t.state request

def input (s : Session) (transition : CalcState → Transition) : Session :=
  if s.pending then s else s.apply (transition s.calcState)

def clearAll (s : Session) : Session :=
  { s with
    ticket := s.ticket + 1
    calcState := (Engine.clearAll s.calcState).state
    pending := false
    errorRequestId := none
    canRetry := false
    journal := .cleared :: s.journal }

def retry (s : Session) : Session :=
  if s.pending || !s.canRetry then s
  else match s.lastSentRequest with
    | none => s
    | some request => s.send s.calcState request

def recallValue (s : Session) (value : Float64) : Session :=
  if s.pending then s
  else { s with
    calcState := { initialState with phase := .enteringA, display := Ecma.string value }
    errorRequestId := none
    canRetry := false }

/-- The settlement of the request sent with a ticket reaches the store. -/
def deliver (s : Session) (sent : ℕ) (outcome : Outcome) : Session :=
  let s := { s with
    inFlight := s.inFlight.filter (·.1 ≠ sent)
    journal := .settled sent outcome :: s.journal }
  match outcome with
  | .answer response => s.settle sent fun state => applyResult state response
  | .failure error => s.settleError sent error

end Session

inductive Event where
  | key (key : Key)
  | clearAll
  | retry
  | recallValue (value : Float64)
  | setEvaluator (wired : Bool)
  | settle (ticket : ℕ) (outcome : Outcome)

/-- Every event can always occur, except that only a request in flight settles. -/
def next (s : Session) : Event → Option Session
  | .key key => some (s.input (press · key))
  | .clearAll => some s.clearAll
  | .retry => some s.retry
  | .recallValue value => some (s.recallValue value)
  | .setEvaluator wired => some { s with evaluator := wired }
  | .settle ticket outcome =>
    if ticket ∈ s.inFlight.map Prod.fst then some (s.deliver ticket outcome) else none

/-- The store's runs, from its initial state on. -/
def store : Machine Session Event := ⟨fresh false, next⟩

namespace Session

variable {s : Session}

/-- The state in which a request has just been sent. -/
def sending (s : Session) (state : CalcState) (request : CalculateRequest) : Session :=
  { s with
    ticket := s.ticket + 1
    lastSentRequest := some request
    calcState := state
    pending := true
    errorRequestId := none
    canRetry := false
    inFlight := (s.ticket + 1, request) :: s.inFlight
    journal := .sent (s.ticket + 1) request :: s.journal }

/-- The state in which a request has failed for want of an evaluator. -/
def unanswered (s : Session) (state : CalcState) (request : CalculateRequest) : Session :=
  { s with
    ticket := s.ticket + 1
    lastSentRequest := some request
    calcState := (applyError state fallbackErrorMessage).state
    pending := false
    errorRequestId := none
    canRetry := false
    journal := .settled (s.ticket + 1) (.failure .other) :: .sent (s.ticket + 1) request ::
      s.journal }

def answered (s : Session) (response : CalculateResponse) : Session :=
  { s with
    calcState := (applyResult s.calcState response).state
    pending := false
    errorRequestId := none
    canRetry := false
    inFlight := s.inFlight.filter (·.1 ≠ s.ticket)
    journal := .settled s.ticket (.answer response) :: s.journal }

def failed (s : Session) (error : Failure) : Session :=
  { s with
    calcState := (applyError s.calcState (messageForError error)).state
    pending := false
    errorRequestId := error.requestId
    canRetry := error.canRetry
    inFlight := s.inFlight.filter (·.1 ≠ s.ticket)
    journal := .settled s.ticket (.failure error) :: s.journal }

/-- The state in which the awaited request has settled, whatever is made of it. -/
def settledAs (s : Session) (state : CalcState) (errorRequestId : Option Text) (canRetry : Bool)
    (outcome : Outcome) : Session :=
  { s with
    calcState := state
    pending := false
    errorRequestId := errorRequestId
    canRetry := canRetry
    inFlight := s.inFlight.filter (·.1 ≠ s.ticket)
    journal := .settled s.ticket outcome :: s.journal }

/-- The state in which a recalled value is the entry. -/
def recalled (s : Session) (value : Float64) : Session :=
  { s with
    calcState := { initialState with phase := .enteringA, display := Ecma.string value }
    errorRequestId := none
    canRetry := false }

/-- The state in which a request nobody waits for has settled. -/
def ignored (s : Session) (ticket : ℕ) (outcome : Outcome) : Session :=
  { s with
    inFlight := s.inFlight.filter (·.1 ≠ ticket)
    journal := .settled ticket outcome :: s.journal }

theorem answered_eq (s : Session) (response : CalculateResponse) : s.answered response =
    s.settledAs (applyResult s.calcState response).state none false (.answer response) := rfl

theorem failed_eq (s : Session) (error : Failure) : s.failed error =
    s.settledAs (applyError s.calcState (messageForError error)).state error.requestId
      error.canRetry (.failure error) := rfl

theorem send_of_evaluator (h : s.evaluator = true) (state : CalcState) (r : CalculateRequest) :
    s.send state r = s.sending state r := by
  simp [send, sending, h]

theorem send_of_not_evaluator (h : s.evaluator = false) (state : CalcState)
    (r : CalculateRequest) : s.send state r = s.unanswered state r := by
  simp [send, unanswered, settleError, h, messageForError, Failure.requestId, Failure.canRetry]

theorem deliver_answer (s : Session) (response : CalculateResponse) :
    s.deliver s.ticket (.answer response) = s.answered response := by
  simp [deliver, settle, answered]

theorem deliver_failure (s : Session) (error : Failure) :
    s.deliver s.ticket (.failure error) = s.failed error := by
  simp [deliver, settleError, failed]

theorem deliver_stale {t : ℕ} (h : t ≠ s.ticket) (o : Outcome) :
    s.deliver t o = s.ignored t o := by
  cases o <;> simp [deliver, settle, settleError, ignored, h]

end Session

/-- The keys, recall and retry: the events that are inert while one is pending. -/
def Event.isInput : Event → Bool
  | .key _ | .retry | .recallValue _ => true
  | _ => false

/-- Everything a step can do. -/
inductive Step (s : Session) : Event → Session → Prop
  | busy {e : Event} (he : e.isInput = true) (hp : s.pending = true) : Step s e s
  | edit {k : Key} (hp : s.pending = false) (h : (press s.calcState k).effect = none) :
    Step s (.key k) { s with calcState := (press s.calcState k).state }
  | send {k : Key} {r : CalculateRequest} (hp : s.pending = false)
      (h : (press s.calcState k).effect = some r) (hw : s.evaluator = true) :
    Step s (.key k) (s.sending (press s.calcState k).state r)
  | sendUnanswered {k : Key} {r : CalculateRequest} (hp : s.pending = false)
      (h : (press s.calcState k).effect = some r) (hw : s.evaluator = false) :
    Step s (.key k) (s.unanswered (press s.calcState k).state r)
  | noRetry (hp : s.pending = false) (h : s.canRetry = false ∨ s.lastSentRequest = none) :
    Step s .retry s
  | retry {r : CalculateRequest} (hp : s.pending = false) (hc : s.canRetry = true)
      (h : s.lastSentRequest = some r) (hw : s.evaluator = true) :
    Step s .retry (s.sending s.calcState r)
  | retryUnanswered {r : CalculateRequest} (hp : s.pending = false) (hc : s.canRetry = true)
      (h : s.lastSentRequest = some r) (hw : s.evaluator = false) :
    Step s .retry (s.unanswered s.calcState r)
  | recallValue {value : Float64} (hp : s.pending = false) :
    Step s (.recallValue value) (s.recalled value)
  | clearAll : Step s .clearAll s.clearAll
  | setEvaluator (wired : Bool) : Step s (.setEvaluator wired) { s with evaluator := wired }
  | answer {response : CalculateResponse} (h : s.ticket ∈ s.inFlight.map Prod.fst) :
    Step s (.settle s.ticket (.answer response)) (s.answered response)
  | fail {error : Failure} (h : s.ticket ∈ s.inFlight.map Prod.fst) :
    Step s (.settle s.ticket (.failure error)) (s.failed error)
  | stale {t : ℕ} {o : Outcome} (h : t ∈ s.inFlight.map Prod.fst) (ht : t ≠ s.ticket) :
    Step s (.settle t o) (s.ignored t o)

theorem step_input (s : Session) (k : Key) : Step s (.key k) (s.input (press · k)) := by
  unfold Session.input
  split
  · next hp => exact .busy rfl hp
  · next hp =>
    rw [Bool.not_eq_true] at hp
    unfold Session.apply
    cases he : (press s.calcState k).effect with
    | none => exact .edit hp he
    | some r =>
      dsimp only
      cases hw : s.evaluator with
      | true => rw [Session.send_of_evaluator hw]; exact .send hp he hw
      | false => rw [Session.send_of_not_evaluator hw]; exact .sendUnanswered hp he hw

theorem step_retry (s : Session) : Step s .retry s.retry := by
  unfold Session.retry
  rcases hp : s.pending with - | -
  · rcases hc : s.canRetry with - | -
    · exact .noRetry hp (Or.inl hc)
    · rcases hl : s.lastSentRequest with - | r
      · exact .noRetry hp (Or.inr hl)
      · simp only [Bool.false_or, Bool.not_true, Bool.false_eq_true, if_false]
        cases hw : s.evaluator with
        | true => rw [Session.send_of_evaluator hw]; exact .retry hp hc hl hw
        | false => rw [Session.send_of_not_evaluator hw]; exact .retryUnanswered hp hc hl hw
  · exact .busy rfl hp

/-- A step does one of the things listed. -/
theorem step_of_next {s t : Session} {e : Event} (h : store.next s e = some t) : Step s e t := by
  cases e with
  | key k =>
    cases h
    exact step_input s k
  | clearAll =>
    cases h
    exact .clearAll
  | retry =>
    cases h
    exact step_retry s
  | recallValue value =>
    cases h
    unfold Session.recallValue
    split
    · next hp => exact .busy rfl hp
    · next hp => exact .recallValue (Bool.not_eq_true _ ▸ hp)
  | setEvaluator wired =>
    cases h
    exact .setEvaluator wired
  | settle ticket outcome =>
    simp only [store, next, Option.ite_none_right_eq_some] at h
    obtain ⟨hmem, h⟩ := h
    cases h
    by_cases ht : ticket = s.ticket
    · subst ht
      cases outcome with
      | answer response => rw [Session.deliver_answer]; exact .answer hmem
      | failure error => rw [Session.deliver_failure]; exact .fail hmem
    · rw [Session.deliver_stale ht]
      exact .stale hmem ht

theorem Step.next {s t : Session} {e : Event} (h : Step s e t) : store.next s e = some t := by
  cases h with
  | busy he hp =>
    cases e with
    | key k => simp [store, Store.next, Session.input, hp]
    | retry => simp [store, Store.next, Session.retry, hp]
    | recallValue value => simp [store, Store.next, Session.recallValue, hp]
    | clearAll | setEvaluator _ | settle _ _ => cases he
  | edit hp h => simp [store, Store.next, Session.input, Session.apply, hp, h]
  | send hp h hw =>
    simp [store, Store.next, Session.input, Session.apply, hp, h, Session.send_of_evaluator hw]
  | sendUnanswered hp h hw =>
    simp [store, Store.next, Session.input, Session.apply, hp, h, Session.send_of_not_evaluator hw]
  | noRetry hp h => rcases h with h | h <;> simp [store, Store.next, Session.retry, h]
  | retry hp hc h hw =>
    simp [store, Store.next, Session.retry, hp, hc, h, Session.send_of_evaluator hw]
  | retryUnanswered hp hc h hw =>
    simp [store, Store.next, Session.retry, hp, hc, h, Session.send_of_not_evaluator hw]
  | recallValue hp => simp [store, Store.next, Session.recallValue, Session.recalled, hp]
  | clearAll => rfl
  | setEvaluator wired => rfl
  | answer h => simp only [store, Store.next, if_pos h, Session.deliver_answer]
  | fail h => simp only [store, Store.next, if_pos h, Session.deliver_failure]
  | stale h ht => simp only [store, Store.next, if_pos h, Session.deliver_stale ht]

theorem step_iff {s t : Session} {e : Event} : store.next s e = some t ↔ Step s e t :=
  ⟨step_of_next, Step.next⟩

end Calculator.Store
