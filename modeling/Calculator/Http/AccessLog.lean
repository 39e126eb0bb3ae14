import Calculator.Http.RequestID

/-! # The access log

The line of a request has the status and the number of body bytes that the server
received, in any order of the handler and the deadline. A request that is left with a
panic has the line of the panic instead, or none if the panic goes on to the server.
-/

namespace Calculator.Http

open Decimal Backend Runs

def Call.status : Call → Option FinalStatus
  | .writeHeader status _ => some status
  | .write _ | .flush => none

def Call.bytes : Call → ℕ
  | .write payload => payload.length
  | .writeHeader _ _ | .flush => 0

def statusOf (calls : List Call) : FinalStatus := (calls.findSome? Call.status).getD statusOK

def bodyBytes (calls : List Call) : ℕ := (calls.map Call.bytes).sum

section Accounts

variable {calls : List Call} {c : Call} {w : Wire}

theorem statusOf_concat (hc : c.status = none) : statusOf (calls ++ [c]) = statusOf calls := by
  simp [statusOf, List.findSome?_append, hc]

theorem bodyBytes_concat : bodyBytes (calls ++ [c]) = bodyBytes calls + c.bytes := by
  simp [bodyBytes]

theorem statusOf_sent : statusOf w.sent = statusOf w.log := by
  unfold Wire.sent
  split
  · next h =>
    rw [h]
    rfl
  · rfl

theorem bodyBytes_sent : bodyBytes w.sent = bodyBytes w.log := by
  unfold Wire.sent
  split
  · next h =>
    rw [h]
    rfl
  · rfl

end Accounts

structure Counted (w : Recorder (Recorder Wire)) : Prop where
  wroteHeader : w.inner.wroteHeader = w.wroteHeader
  idle : w.wroteHeader = false → w.inner.inner.log = []
  status : statusOf w.inner.inner.log = w.status
  bytes : bodyBytes w.inner.inner.log = w.bytes

namespace Counted

variable {w : Recorder (Recorder Wire)} {status : FinalStatus} {c : Call}

theorem new (wire : Wire) (h : wire.log = []) : Counted (newRecorder (newRecorder wire)) where
  wroteHeader := rfl
  idle _ := h
  status := congrArg statusOf h
  bytes := congrArg bodyBytes h

theorem writeHeader (h : Counted w) : Counted (w.writeHeader status) := by
  cases hw : w.wroteHeader with
  | true =>
    unfold Recorder.writeHeader
    rwa [hw]
  | false =>
    have hinner : w.inner.writeHeader status = _ :=
      Recorder.writeHeader_of_idle (h.wroteHeader.trans hw)
    have hlog := h.idle hw
    have hbytes := h.bytes
    rw [hlog] at hinner hbytes
    have heq : w.writeHeader status = ⟨status, w.bytes, true, w.inner.writeHeader status⟩ := by
      unfold Recorder.writeHeader
      rw [hw]
      rfl
    rw [heq, hinner]
    exact ⟨rfl, nofun, rfl, hbytes⟩

theorem ensure (h : Counted w) :
    Counted (if !w.wroteHeader then w.writeHeader statusOK else w) ∧
      (if !w.wroteHeader then w.writeHeader statusOK else w).wroteHeader = true := by
  cases hw : w.wroteHeader with
  | true => exact ⟨h, hw⟩
  | false =>
    refine ⟨h.writeHeader, ?_⟩
    simp [Recorder.writeHeader, hw]

theorem concat (h : Counted w) (hw : w.wroteHeader = true) (hc : c.status = none)
    (bytes : ℕ) (header : Header) : Counted { w with
      bytes := w.bytes + c.bytes
      inner := { w.inner with bytes := bytes, inner := ⟨header, w.inner.inner.log ++ [c]⟩ } } where
  wroteHeader := h.wroteHeader
  idle hidle := by simp [hw] at hidle
  status := (statusOf_concat hc).trans h.status
  bytes := bodyBytes_concat.trans (congrArg (· + c.bytes) h.bytes)

theorem write (h : Counted w) (payload : Payload) : Counted (w.write payload).1 := by
  obtain ⟨hhead, hwrote⟩ := h.ensure
  unfold Recorder.write
  generalize (if !w.wroteHeader then w.writeHeader statusOK else w) = w' at hhead hwrote ⊢
  have hinner : (w'.inner.write payload).1 =
      { w'.inner with
        bytes := w'.inner.bytes + payload.length
        inner := ⟨w'.inner.inner.header, w'.inner.inner.log ++ [.write payload]⟩ } := by
    rw [Recorder.write_eq, Recorder.writeHeader_of_wrote (hhead.wroteHeader.trans hwrote)]
  have hlength : (w'.inner.write payload).2 = payload.length := by rw [Recorder.write_eq]
  change Counted { w' with
    bytes := w'.bytes + (w'.inner.write payload).2
    inner := (w'.inner.write payload).1 }
  rw [hinner, hlength]
  exact hhead.concat (c := .write payload) hwrote rfl _ _

theorem flush (h : Counted w) : Counted w.flush := by
  obtain ⟨hhead, hwrote⟩ := h.ensure
  unfold Recorder.flush
  generalize (if !w.wroteHeader then w.writeHeader statusOK else w) = w' at hhead hwrote ⊢
  have hinner : w'.inner.flush =
      { w'.inner with
        inner := ⟨w'.inner.inner.header, w'.inner.inner.log ++ [.flush]⟩ } := by
    rw [Recorder.flush_eq, Recorder.writeHeader_of_wrote (hhead.wroteHeader.trans hwrote)]
  change Counted { w' with inner := w'.inner.flush }
  rw [hinner]
  exact hhead.concat (c := .flush) hwrote rfl _ _

theorem keeps : Keeps (fun _ => True) (fun _ => True) Counted where
  header _ := trivial
  withHeader h _ := ⟨h.wroteHeader, h.idle, h.status, h.bytes⟩
  writeHeader h := h.writeHeader
  write h _ := h.write _
  flush h := h.flush

end Counted

/-- What is logged of a request, by the way in which it was left. -/
def Line (q : Incoming) (wire : Wire) (log : List LogLine) : Exit → Prop
  | .panicked v =>
    if v.isAbort then log = []
    else ∃ id, log = [.panicRecovered id q.method q.path v.text]
  | .complete | .alreadyStarted | .timedOut | .disconnected => ∃ id,
    log = [.request id q.method q.path (statusOf wire.sent) (bodyBytes wire.sent)]

variable {q : Incoming} {entropy : Entropy} {h₀ : Header} {exit : Exit}
  {w : Recorder (Recorder Wire)} {s t : Serving (Recorder (Recorder Wire))} {e : Event}
  {es : List Event}

theorem line_unwind (h : Counted w) (exit : Exit) :
    Line q ((chain q entropy).unwind exit w).1.inner.inner
      ((chain q entropy).unwind exit w).2 exit := by
  cases exit with
  | panicked v =>
    have hlines : ((chain q entropy).unwind (.panicked v) w).2 =
      (recover ⟨q, []⟩ (.panicked v) w.inner).2 := rfl
    rw [Line, hlines]
    cases hv : v.isAbort with
    | true => rw [if_pos rfl, recover_of_isAbort hv]
    | false =>
      rw [if_neg Bool.false_ne_true, recover_of_not_isAbort hv]
      exact ⟨_, rfl⟩
  | complete | alreadyStarted | timedOut | disconnected =>
    refine ⟨requestIDOf w.inner (withRequestID q entropy), ?_⟩
    rw [statusOf_sent, bodyBytes_sent]
    change [LogLine.request _ q.method q.path w.status w.bytes] =
      [.request _ q.method q.path (statusOf w.inner.inner.log) (bodyBytes w.inner.inner.log)]
    rw [h.status, h.bytes]

def Phase.isOpen : Phase → Bool
  | .selecting | .finishing | .stopping => true
  | .answering | .unwinding _ | .finished _ => false

/-- Before the end nothing is logged, and the line is right at the end. -/
structure Accounted (q : Incoming) (s : Serving (Recorder (Recorder Wire))) : Prop where
  pending : (∀ exit, s.phase ≠ .finished exit) → Counted s.writer.inner ∧ s.log = []
  shut : s.phase.isOpen = false → s.handler ≠ .running ∨ s.writer.closed = true
  line : ∀ exit, s.phase = .finished exit → Line q s.writer.inner.inner.inner s.log exit

namespace Accounted

theorem start (q : Incoming) (entropy : Entropy) (h₀ : Header) :
    Accounted q (serverChain q entropy h₀).start where
  pending _ := ⟨Counted.new ⟨h₀.set headerRequestID [requestID q entropy], []⟩ rfl, rfl⟩
  shut := nofun
  line := nofun

theorem of_eq (h : Accounted q s) (hinner : t.writer.inner = s.writer.inner)
    (hphase : t.phase = s.phase) (hlog : t.log = s.log)
    (hshut : s.handler ≠ .running ∨ s.writer.closed = true →
      t.handler ≠ .running ∨ t.writer.closed = true) : Accounted q t where
  pending hpending := by
    rw [hinner, hlog]
    exact h.pending (hphase ▸ hpending)
  shut hopen := hshut (h.shut (hphase ▸ hopen))
  line exit hexit := by
    rw [hinner, hlog]
    exact h.line exit (hphase ▸ hexit)

theorem of_op (h : Accounted q s) (hrun : s.handler = .running) (o : Op) :
    Accounted q { s with writer := o.apply s.writer, ops := s.ops ++ [o] } := by
  by_cases hc : s.writer.closed = true
  · obtain ⟨hinner, hclosed⟩ := TimeoutWriter.apply_of_closed hc o
    exact h.of_eq hinner rfl rfl fun _ => Or.inr hclosed
  · have hopen : s.phase.isOpen ≠ false := fun hnot =>
      (h.shut hnot).elim (fun hend => hend hrun) hc
    constructor
    · intro hpending
      obtain ⟨hcounted, hlog⟩ := h.pending hpending
      have hstaged : Keeps.Staged (fun _ => True) Counted s.writer := ⟨hcounted, fun _ _ => trivial⟩
      exact ⟨(Counted.keeps.apply_staged hstaged o.within_true).1, hlog⟩
    · exact fun hnot => absurd hnot hopen
    · intro exit hexit
      exact absurd (congrArg Phase.isOpen hexit) hopen

theorem of_select (h : Accounted q s) (hphase : s.phase = .selecting) {branch : Branch}
    {phase : Phase} (hselect : Around.select s branch = some phase) :
    Accounted q { s with phase := phase } := by
  have hpending := h.pending (by simp [hphase])
  cases Around.selects_of_select hselect with
  | panicked hhandler => exact ⟨fun _ => hpending, fun _ => Or.inl (by simp [hhandler]), nofun⟩
  | done _ | ctxDone _ => exact ⟨fun _ => hpending, nofun, nofun⟩

theorem of_step (h : Accounted q s) (hstep : (chain q entropy).step s = some t) :
    Accounted q t := by
  cases Around.steps_of_step hstep with
  | finish hphase =>
    obtain ⟨hcounted, hlog⟩ := h.pending (by simp [hphase])
    have hstaged : Keeps.Staged (fun _ => True) Counted s.writer := ⟨hcounted, fun _ _ => trivial⟩
    exact ⟨fun _ => ⟨(Counted.keeps.finish hstaged).1, hlog⟩, fun _ => Or.inr rfl, nofun⟩
  | hangUp hphase | cutOff hphase | timeUp hphase =>
    exact ⟨fun _ => h.pending (by simp [hphase]), fun _ => Or.inr rfl, nofun⟩
  | answer hphase =>
    obtain ⟨hcounted, hlog⟩ := h.pending (by simp [hphase])
    have hshut := h.shut (by rw [hphase]; rfl)
    refine ⟨fun _ => ⟨?_, hlog⟩, fun _ => hshut, nofun⟩
    exact Counted.keeps.applyAll hcounted fun o _ => o.within_true
  | @unwind exit hphase =>
    obtain ⟨hcounted, hlog⟩ := h.pending (by simp [hphase])
    have hshut := h.shut (by rw [hphase]; rfl)
    refine ⟨fun hpending => absurd rfl (hpending exit), fun _ => hshut, ?_⟩
    rintro _ ⟨⟩
    change Line q _ (s.log ++ _) exit
    rw [hlog, List.nil_append]
    exact line_unwind hcounted exit

theorem next (h : Accounted q s) (hn : (chain q entropy).next s e = some t) : Accounted q t := by
  cases Around.occurs_of_next hn with
  | op hrun o => exact h.of_op hrun o
  | returns | panics => exact h.of_eq rfl rfl rfl fun _ => Or.inl nofun
  | ends => exact h.of_eq rfl rfl rfl id
  | select hphase hselect => exact h.of_select hphase hselect
  | step hstep => exact h.of_step hstep

end Accounted

end Calculator.Http
