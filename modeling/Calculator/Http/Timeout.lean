import Calculator.Http.Writer
import Calculator.Runs.Machine

/-! # Handlers with a deadline

A handler runs on a goroutine of its own, with a writer that can be closed, and
the goroutine of the request selects between its panic, its return and the end
of the context. What is around the middleware is a parameter: it gets the writer
when the middleware has returned or panicked.
-/

namespace Calculator.Http

open Decimal Backend Runs

mutual

/-- An error, as `errors.Is` sees it when it looks for `http.ErrAbortHandler`. -/
inductive GoError where
  | errAbortHandler
  /-- A text, what the error's own `Is` says, and the errors that it wraps. -/
  | value (text : Text) (is : Bool) (wrapped : GoErrors)
  deriving DecidableEq

inductive GoErrors where
  | nil
  | cons (err : GoError) (errs : GoErrors)
  deriving DecidableEq

end

def GoError.text : GoError → Text
  | .errAbortHandler => "net/http: abort Handler".toList
  | .value text _ _ => text

mutual

/-- `errors.Is`, down the tree of what is wrapped. -/
def GoError.isAbort : GoError → Bool
  | .errAbortHandler => true
  | .value _ is wrapped => is || wrapped.isAbort

def GoErrors.isAbort : GoErrors → Bool
  | .nil => false
  | .cons err errs => err.isAbort || errs.isAbort

end

/-- What a handler panics with: an error, or any other value as the log shows it. -/
inductive PanicValue where
  | error (err : GoError)
  | value (text : Text)
  deriving DecidableEq

namespace PanicValue

def abortHandler : PanicValue := .error .errAbortHandler

def text : PanicValue → Text
  | .error err => err.text
  | .value text => text

/-- Whether the panic goes on, so that the server gives up the connection. -/
def isAbort : PanicValue → Bool
  | .error err => err.isAbort
  | .value _ => false

end PanicValue

inductive HandlerState where
  | running
  | returned
  | panicked (v : PanicValue)
  deriving DecidableEq

inductive ContextErr where
  | deadlineExceeded
  | canceled
  deriving DecidableEq

inductive Exit where
  /-- The handler returned in time. -/
  | complete
  /-- The deadline came when the response had been started. -/
  | alreadyStarted
  /-- The deadline came and was answered. -/
  | timedOut
  /-- The client hung up. -/
  | disconnected
  | panicked (v : PanicValue)
  deriving DecidableEq

inductive Phase where
  | selecting
  | finishing
  | stopping
  | answering
  /-- The middleware around this one has the writer. -/
  | unwinding (exit : Exit)
  | finished (exit : Exit)
  deriving DecidableEq

inductive Branch where
  | panicked
  | done
  | ctxDone
  deriving DecidableEq

inductive LogLine where
  | panicRecovered (requestID method path panic : Text)
  | request (requestID method path : Text) (status : FinalStatus) (bytes : ℕ)
  deriving DecidableEq

structure Serving (W : Type) where
  writer : TimeoutWriter W
  handler : HandlerState
  ctx : Option ContextErr
  phase : Phase
  log : List LogLine
  /-- Everything the handler has done with its writer. -/
  ops : List Op

/-- The middleware around a handler with a deadline, for one request. -/
structure Around (W : Type) where
  request : Request
  unwind : Exit → W → W × List LogLine

/-- The handler does something, the context ends, one ready branch is selected,
or the goroutine of the request takes its next step. -/
inductive Event where
  | op (o : Op)
  | returns
  | panics (v : PanicValue)
  | ends (err : ContextErr)
  | select (branch : Branch)
  | step
  deriving DecidableEq

def timeoutProblem : CatalogProblem :=
  catalogProblem .timeout "the server took too long to produce a response".toList []

namespace Around

variable {W : Type} [ResponseWriter W] (A : Around W)

def select (s : Serving W) : Branch → Option Phase
  | .panicked =>
    match s.handler with
    | .panicked v => some (.unwinding (.panicked v))
    | _ => none
  | .done => if s.handler = .returned then some .finishing else none
  | .ctxDone => s.ctx.map fun _ => .stopping

def step (s : Serving W) : Option (Serving W) :=
  match s.phase with
  | .selecting => none
  | .finishing => some { s with writer := s.writer.finish, phase := .unwinding .complete }
  | .stopping =>
    let (writer, started) := s.writer.stop
    let phase : Phase :=
      -- someone who is no longer there is not answered
      if s.ctx ≠ some .deadlineExceeded then .unwinding .disconnected
      else if started then .unwinding .alreadyStarted
      else .answering
    some { s with writer := writer, phase := phase }
  | .answering =>
    let inner := Httpapi.write s.writer.inner A.request timeoutProblem
    some { s with writer := { s.writer with inner := inner }, phase := .unwinding .timedOut }
  | .unwinding exit =>
    let (inner, lines) := A.unwind exit s.writer.inner
    some { s with
      writer := { s.writer with inner := inner }
      phase := .finished exit
      log := s.log ++ lines }
  | .finished _ => none

def next (s : Serving W) : Event → Option (Serving W)
  | .op o =>
    if s.handler = .running then some { s with writer := o.apply s.writer, ops := s.ops ++ [o] }
    else none
  | .returns => if s.handler = .running then some { s with handler := .returned } else none
  | .panics v => if s.handler = .running then some { s with handler := .panicked v } else none
  | .ends err => if s.ctx = none then some { s with ctx := some err } else none
  | .select branch =>
    if s.phase = .selecting then (select s branch).map fun phase => { s with phase := phase }
    else none
  | .step => A.step s

inductive Occurs (s : Serving W) : Event → Serving W → Prop
  | op (hrun : s.handler = .running) (o : Op) :
    Occurs s (.op o) { s with writer := o.apply s.writer, ops := s.ops ++ [o] }
  | returns (hrun : s.handler = .running) : Occurs s .returns { s with handler := .returned }
  | panics (hrun : s.handler = .running) (v : PanicValue) :
    Occurs s (.panics v) { s with handler := .panicked v }
  | ends (hctx : s.ctx = none) (err : ContextErr) :
    Occurs s (.ends err) { s with ctx := some err }
  | select (hphase : s.phase = .selecting) {branch : Branch} {phase : Phase}
    (hselect : select s branch = some phase) : Occurs s (.select branch) { s with phase := phase }
  | step {t : Serving W} (hstep : A.step s = some t) : Occurs s .step t

variable {A} {s t : Serving W} {e : Event}

theorem occurs_of_next (h : A.next s e = some t) : A.Occurs s e t := by
  cases e with
  | op o =>
    obtain ⟨hrun, h⟩ := Option.ite_none_right_eq_some.mp h
    cases h
    exact .op hrun o
  | returns =>
    obtain ⟨hrun, h⟩ := Option.ite_none_right_eq_some.mp h
    cases h
    exact .returns hrun
  | panics v =>
    obtain ⟨hrun, h⟩ := Option.ite_none_right_eq_some.mp h
    cases h
    exact .panics hrun v
  | ends err =>
    obtain ⟨hctx, h⟩ := Option.ite_none_right_eq_some.mp h
    cases h
    exact .ends hctx err
  | select branch =>
    obtain ⟨hphase, h⟩ := Option.ite_none_right_eq_some.mp h
    obtain ⟨phase, hselect, rfl⟩ := Option.map_eq_some_iff.mp h
    exact .select hphase hselect
  | step => exact .step h

inductive Selects (s : Serving W) : Branch → Phase → Prop
  | panicked {v : PanicValue} (hhandler : s.handler = .panicked v) :
    Selects s .panicked (.unwinding (.panicked v))
  | done (hhandler : s.handler = .returned) : Selects s .done .finishing
  | ctxDone (hctx : s.ctx ≠ none) : Selects s .ctxDone .stopping

omit [ResponseWriter W] in
theorem selects_of_select {branch : Branch} {phase : Phase} (h : select s branch = some phase) :
    Selects s branch phase := by
  cases branch with
  | panicked =>
    rcases hhandler : s.handler with - | - | v <;> simp only [select, hhandler] at h <;> cases h
    exact .panicked hhandler
  | done =>
    obtain ⟨hhandler, h⟩ := Option.ite_none_right_eq_some.mp h
    cases h
    exact .done hhandler
  | ctxDone =>
    obtain ⟨err, hctx, rfl⟩ := Option.map_eq_some_iff.mp h
    exact .ctxDone (by simp [hctx])

/-- What the goroutine of the request does next, by its phase. -/
inductive Steps (s : Serving W) : Serving W → Prop
  | finish (hphase : s.phase = .finishing) :
    Steps s { s with writer := s.writer.finish, phase := .unwinding .complete }
  | hangUp (hphase : s.phase = .stopping) (hctx : s.ctx ≠ some .deadlineExceeded) :
    Steps s { s with writer := s.writer.stop.1, phase := .unwinding .disconnected }
  | cutOff (hphase : s.phase = .stopping) (hctx : s.ctx = some .deadlineExceeded)
    (hwrote : s.writer.wroteHeader = true) :
    Steps s { s with writer := s.writer.stop.1, phase := .unwinding .alreadyStarted }
  | timeUp (hphase : s.phase = .stopping) (hctx : s.ctx = some .deadlineExceeded)
    (hwrote : s.writer.wroteHeader = false) :
    Steps s { s with writer := s.writer.stop.1, phase := .answering }
  | answer (hphase : s.phase = .answering) :
    Steps s { s with
      writer :=
        { s.writer with inner := Httpapi.write s.writer.inner A.request timeoutProblem }
      phase := .unwinding .timedOut }
  | unwind {exit : Exit} (hphase : s.phase = .unwinding exit) :
    Steps s { s with
      writer := { s.writer with inner := (A.unwind exit s.writer.inner).1 }
      phase := .finished exit
      log := s.log ++ (A.unwind exit s.writer.inner).2 }

theorem steps_of_step (h : A.step s = some t) : A.Steps s t := by
  cases hphase : s.phase with
  | selecting | finished exit => simp [step, hphase] at h
  | finishing =>
    obtain rfl := by simpa [step, hphase] using h
    exact .finish hphase
  | stopping =>
    simp only [step, hphase, Option.some.injEq] at h
    subst h
    split_ifs with hctx hwrote
    · exact .hangUp hphase hctx
    · exact .cutOff hphase (not_not.mp hctx) hwrote
    · exact .timeUp hphase (not_not.mp hctx) (Bool.not_eq_true _ ▸ hwrote)
  | answering =>
    obtain rfl := by simpa [step, hphase] using h
    exact .answer hphase
  | unwinding exit =>
    obtain rfl := by simpa [step, hphase] using h
    exact .unwind hphase

section Keeps

variable {H : Header → Prop} {P : Payload → Prop} {I : W → Prop}

theorem staged_of_step (h : Keeps H P I)
    (hproblem : ∀ {w}, I w → I (Httpapi.write w A.request timeoutProblem))
    (hunwind : ∀ {w exit}, I w → I (A.unwind exit w).1) (hs : Keeps.Staged H I s.writer)
    (hstep : A.step s = some t) : Keeps.Staged H I t.writer := by
  cases steps_of_step hstep with
  | finish => exact h.finish hs
  | hangUp | cutOff | timeUp => exact hs
  | answer => exact ⟨hproblem hs.1, hs.2⟩
  | unwind => exact ⟨hunwind hs.1, hs.2⟩

theorem staged_of_next (h : Keeps H P I)
    (hproblem : ∀ {w}, I w → I (Httpapi.write w A.request timeoutProblem))
    (hunwind : ∀ {w exit}, I w → I (A.unwind exit w).1) (hs : Keeps.Staged H I s.writer)
    (he : ∀ o, e = .op o → o.Within H P) (hn : A.next s e = some t) :
    Keeps.Staged H I t.writer := by
  cases occurs_of_next hn with
  | op hrun o => exact h.apply_staged hs (he o rfl)
  | returns | panics | ends | select => exact hs
  | step hstep => exact staged_of_step h hproblem hunwind hs hstep

end Keeps

variable (A)

def machine (w : W) : Machine (Serving W) Event where
  start := ⟨newTimeoutWriter w, .running, none, .selecting, [], []⟩
  next := A.next

end Around

section Recover

variable {W : Type} [ResponseWriter W]

/-- The ID in the context, or else the one that is set on the response. -/
def requestIDOf (w : W) (r : Request) : Text :=
  if r.contextID ≠ [] then r.contextID else (ResponseWriter.header w).get headerRequestID

def internalProblem : CatalogProblem :=
  catalogProblem .internal "an unexpected error occurred".toList []

/-- A panic is logged, and answered if nothing was sent yet. -/
def recover (r : Request) (exit : Exit) (rec : Recorder W) : Recorder W × List LogLine :=
  match exit with
  | .panicked v =>
    -- an error that wraps the sentinel is passed on as well
    if v.isAbort then (rec, [])
    else
      let line := LogLine.panicRecovered (requestIDOf rec.inner r) r.method r.path v.text
      if rec.wroteHeader then (rec, [line]) else (Httpapi.write rec r internalProblem, [line])
  | _ => (rec, [])

theorem recover_of_isAbort {v : PanicValue} (h : v.isAbort = true) (r : Request)
    (rec : Recorder W) : recover r (.panicked v) rec = (rec, []) := if_pos h

theorem recover_of_not_isAbort {v : PanicValue} (h : v.isAbort = false) (r : Request)
    (rec : Recorder W) : recover r (.panicked v) rec =
      (if rec.wroteHeader then rec else Httpapi.write rec r internalProblem,
        [.panicRecovered (requestIDOf rec.inner r) r.method r.path v.text]) := by
  simp only [recover, h, Bool.false_eq_true, if_false]
  split <;> rfl

theorem recover_preserves {I : Recorder W → Prop} {r : Request} {rec : Recorder W} (h : I rec)
    (hwrite : I (Httpapi.write rec r internalProblem)) (exit : Exit) :
    I (recover r exit rec).1 := by
  cases exit with
  | panicked v =>
    cases hv : v.isAbort with
    | true => rwa [recover_of_isAbort hv]
    | false =>
      rw [recover_of_not_isAbort hv]
      dsimp only
      split
      · exact h
      · exact hwrite
  | complete | alreadyStarted | timedOut | disconnected => exact h

theorem eq_of_mem_recover {r : Request} {exit : Exit} {rec : Recorder W} {line : LogLine}
    (h : line ∈ (recover r exit rec).2) : ∃ panic,
    line = .panicRecovered (requestIDOf rec.inner r) r.method r.path panic := by
  cases exit with
  | panicked v =>
    cases hv : v.isAbort with
    | true =>
      rw [recover_of_isAbort hv] at h
      cases h
    | false =>
      rw [recover_of_not_isAbort hv] at h
      exact ⟨v.text, List.mem_singleton.mp h⟩
  | complete | alreadyStarted | timedOut | disconnected => cases h

def recoverAroundTimeout (r : Request) : Around (Recorder W) := ⟨r, recover r⟩

end Recover

end Calculator.Http
