import Calculator.Http.Timeout
import Calculator.Http.Trailers

/-! # One response, from one author

What reaches the writer of the server is the handler's response as it would be
without a deadline, a prefix of it, one of the problems of the middleware, or
nothing, whatever the order in which the handler and the deadline come.
-/

namespace Calculator.Http

open Decimal Backend Runs

namespace Recorder

variable {r : Recorder Wire} {status : FinalStatus} {payload : Payload} {op : Op} {ops : List Op}

/-- Nothing was received before the recorder wrote a header, and no other header
after that. -/
structure Tidy (r : Recorder Wire) : Prop where
  idle : r.wroteHeader = false → r.inner.log = []
  started : r.wroteHeader = true → ∃ status header body,
    r.inner.log = .writeHeader status header :: body ∧ ∀ c ∈ body, c.isWriteHeader = false

@[simp] theorem wroteHeader_writeHeader : (r.writeHeader status).wroteHeader = true := by
  unfold writeHeader
  split
  · assumption
  · rfl

theorem writeHeader_of_wrote (h : r.wroteHeader = true) : r.writeHeader status = r := if_pos h

theorem writeHeader_of_idle (h : r.wroteHeader = false) : r.writeHeader status =
    ⟨status, r.bytes, true,
      ⟨r.inner.header, r.inner.log ++ [.writeHeader status r.inner.header]⟩⟩ := by
  rw [writeHeader, if_neg (by simp [h])]
  rfl

theorem ensure_eq (r : Recorder Wire) :
    (if !r.wroteHeader then r.writeHeader statusOK else r) = r.writeHeader statusOK := by
  cases h : r.wroteHeader with
  | false => rfl
  | true => exact (writeHeader_of_wrote h).symm

theorem write_eq : r.write payload =
    ({ r.writeHeader statusOK with
        bytes := (r.writeHeader statusOK).bytes + payload.length
        inner := ⟨(r.writeHeader statusOK).inner.header,
          (r.writeHeader statusOK).inner.log ++ [.write payload]⟩ }, payload.length) := by
  rw [write, ensure_eq]
  rfl

theorem flush_eq : r.flush =
    { r.writeHeader statusOK with
      inner := ⟨(r.writeHeader statusOK).inner.header,
        (r.writeHeader statusOK).inner.log ++ [.flush]⟩ } := by
  rw [flush, ensure_eq]
  rfl

theorem tidy_new (h : Header) : Tidy (newRecorder ⟨h, []⟩) := ⟨fun _ => rfl, nofun⟩

theorem Tidy.writeHeader (h : Tidy r) : Tidy (r.writeHeader status) := by
  cases hw : r.wroteHeader with
  | true => rwa [writeHeader_of_wrote hw]
  | false =>
    rw [writeHeader_of_idle hw, h.idle hw]
    exact ⟨nofun, fun _ => ⟨_, _, [], rfl, nofun⟩⟩

theorem Tidy.concat (h : Tidy r) (hw : r.wroteHeader = true) {c : Call}
    (hc : c.isWriteHeader = false) (header : Header) (bytes : ℕ) :
    Tidy { r with bytes := bytes, inner := ⟨header, r.inner.log ++ [c]⟩ } where
  idle h := by simp [hw] at h
  started _ := by
    obtain ⟨status, head, body, hlog, hbody⟩ := h.started hw
    refine ⟨status, head, body ++ [c], by simp [hlog], ?_⟩
    exact List.forall_mem_append.mpr ⟨hbody, List.forall_mem_singleton.mpr hc⟩

theorem Tidy.apply (h : Tidy r) (op : Op) : Tidy (op.apply r) := by
  cases op with
  | set name values => exact ⟨h.idle, h.started⟩
  | writeHeader status => exact h.writeHeader
  | write payload =>
    change Tidy (r.write payload).1
    rw [write_eq]
    exact h.writeHeader.concat wroteHeader_writeHeader rfl _ _
  | flush =>
    change Tidy r.flush
    rw [flush_eq]
    exact h.writeHeader.concat wroteHeader_writeHeader rfl _ _

theorem keeps_tidy : Keeps (fun _ => True) (fun _ => True) Tidy where
  header _ := trivial
  withHeader h _ := ⟨h.idle, h.started⟩
  writeHeader h := h.writeHeader
  write h _ := h.apply (.write _)
  flush h := h.apply .flush

theorem Tidy.applyAll (h : Tidy r) : Tidy (Op.applyAll r ops) :=
  keeps_tidy.applyAll h fun o _ => o.within_true

theorem log_prefix_writeHeader : r.inner.log <+: (r.writeHeader status).inner.log := by
  cases hw : r.wroteHeader with
  | true => rw [writeHeader_of_wrote hw]
  | false =>
    rw [writeHeader_of_idle hw]
    exact List.prefix_append _ _

theorem log_prefix_apply (op : Op) : r.inner.log <+: (op.apply r).inner.log := by
  cases op with
  | set name values => exact List.prefix_rfl
  | writeHeader status => exact log_prefix_writeHeader
  | write payload =>
    change _ <+: (r.write payload).1.inner.log
    rw [write_eq]
    exact log_prefix_writeHeader.trans (List.prefix_append _ _)
  | flush =>
    change _ <+: r.flush.inner.log
    rw [flush_eq]
    exact log_prefix_writeHeader.trans (List.prefix_append _ _)

theorem Tidy.exists_sent (h : Tidy r) :
    ∃ status header body, r.inner.sent = .writeHeader status header :: body := by
  cases hw : r.wroteHeader with
  | false => exact ⟨statusOK, r.inner.header, [], if_pos (h.idle hw)⟩
  | true =>
    obtain ⟨status, header, body, hlog, -⟩ := h.started hw
    refine ⟨status, header, body, ?_⟩
    rw [Wire.sent, if_neg (by simp [hlog]), hlog]

theorem Tidy.count_le_one (h : Tidy r) : r.inner.log.countP Call.isWriteHeader ≤ 1 := by
  cases hw : r.wroteHeader with
  | false => simp [h.idle hw]
  | true =>
    obtain ⟨status, header, body, hlog, hbody⟩ := h.started hw
    rw [hlog, List.countP_cons, List.countP_eq_zero.mpr fun c hc => by simp [hbody c hc]]
    simp [Call.isWriteHeader]

end Recorder

/-- The response as the handler would give it without a deadline. -/
def direct (h₀ : Header) (ops : List Op) : Recorder Wire :=
  Op.applyAll (newRecorder ⟨h₀, []⟩) ops

/-- An open writer stands for a writer that is used directly. -/
structure Mirrors (h₀ : Header) (tw : TimeoutWriter (Recorder Wire)) (d : Recorder Wire) :
    Prop where
  notClosed : tw.closed = false
  wroteHeader : tw.wroteHeader = d.wroteHeader
  idle : d.wroteHeader = false →
    tw.inner = newRecorder ⟨h₀, []⟩ ∧ d = newRecorder ⟨h₀.commit tw.staged, []⟩
  started : d.wroteHeader = true →
    tw.inner.wroteHeader = true ∧ tw.inner.inner.log = d.inner.log
  isSealed : tw.inner.inner.Sealed

namespace Mirrors

variable {h₀ : Header} {tw : TimeoutWriter (Recorder Wire)} {d : Recorder Wire}
  {status : FinalStatus} {op : Op}

theorem new (h₀ : Header) : Mirrors h₀ (newTimeoutWriter (newRecorder ⟨h₀, []⟩))
    (newRecorder ⟨h₀, []⟩) :=
  ⟨rfl, rfl, fun _ => ⟨rfl, rfl⟩, nofun, Wire.sealed_of_log_eq_nil rfl⟩

theorem set (h : Mirrors h₀ tw d) (name : Text) (values : List Text) :
    Mirrors h₀ ((Op.set name values).apply tw) ((Op.set name values).apply d) where
  notClosed := h.notClosed
  wroteHeader := h.wroteHeader
  idle hd := by
    obtain ⟨hinner, rfl⟩ := h.idle hd
    refine ⟨hinner, ?_⟩
    change _ = newRecorder (Wire.mk (h₀.commit (tw.staged.set name values)) [])
    rw [Header.commit_set]
    rfl
  started := h.started
  isSealed := h.isSealed

theorem writeHeader (h : Mirrors h₀ tw d) (status : FinalStatus) :
    Mirrors h₀ (tw.writeHeaderLocked status) (d.writeHeader status) := by
  cases hd : d.wroteHeader with
  | true =>
    have htw : tw.writeHeaderLocked status = tw := by
      simp [TimeoutWriter.writeHeaderLocked, h.wroteHeader, hd]
    rwa [htw, Recorder.writeHeader_of_wrote hd]
  | false =>
    obtain ⟨hinner, rfl⟩ := h.idle hd
    have htw : tw.writeHeaderLocked status =
        { tw with
          wroteHeader := true
          inner := (newRecorder ⟨h₀.commit tw.staged, []⟩).writeHeader status } := by
      simp only [TimeoutWriter.writeHeaderLocked, h.notClosed, h.wroteHeader, hd, hinner]
      rfl
    rw [htw]
    refine ⟨h.notClosed, rfl, by simp [Recorder.writeHeader, newRecorder],
      fun _ => ⟨rfl, rfl⟩, ?_⟩
    intro status' header hmem
    cases List.mem_singleton.mp hmem
    rfl

theorem concat (h : Mirrors h₀ tw d) (hd : d.wroteHeader = true) {c : Call}
    (hc : c.isWriteHeader = false) (header : Header) (bytes bytes' : ℕ) : Mirrors h₀
      { tw with inner :=
        { tw.inner with
          bytes := bytes
          inner := { tw.inner.inner with log := tw.inner.inner.log ++ [c] } } }
      { d with bytes := bytes', inner := ⟨header, d.inner.log ++ [c]⟩ } where
  notClosed := h.notClosed
  wroteHeader := h.wroteHeader
  idle h := by simp [hd] at h
  started _ := ⟨(h.started hd).1, congrArg (· ++ [c]) (h.started hd).2⟩
  isSealed := h.isSealed.concat hc

theorem inner_writeHeader (h : Mirrors h₀ tw d) (status status' : FinalStatus) :
    (tw.writeHeaderLocked status).inner.writeHeader status' =
      (tw.writeHeaderLocked status).inner := by
  apply Recorder.writeHeader_of_wrote
  exact ((h.writeHeader status).started Recorder.wroteHeader_writeHeader).1

theorem apply (h : Mirrors h₀ tw d) (op : Op) : Mirrors h₀ (op.apply tw) (op.apply d) := by
  have hhead := h.writeHeader statusOK
  cases op with
  | set name values => exact h.set name values
  | writeHeader status => exact h.writeHeader status
  | write payload =>
    change Mirrors h₀ (tw.write payload).1 (d.write payload).1
    rw [TimeoutWriter.write, h.notClosed, Recorder.write_eq]
    change Mirrors h₀ { tw.writeHeaderLocked statusOK with
      inner := ((tw.writeHeaderLocked statusOK).inner.write payload).1 } _
    rw [Recorder.write_eq, h.inner_writeHeader]
    exact hhead.concat Recorder.wroteHeader_writeHeader rfl _ _ _
  | flush =>
    change Mirrors h₀ tw.flush d.flush
    rw [TimeoutWriter.flush, h.notClosed, Recorder.flush_eq]
    change Mirrors h₀ { tw.writeHeaderLocked statusOK with
      inner := (tw.writeHeaderLocked statusOK).inner.flush } _
    rw [Recorder.flush_eq, h.inner_writeHeader]
    exact hhead.concat Recorder.wroteHeader_writeHeader rfl _ _ _

end Mirrors

theorem direct_concat (h₀ : Header) (ops : List Op) (op : Op) :
    direct h₀ (ops ++ [op]) = op.apply (direct h₀ ops) := by
  simp [direct, Op.applyAll]

theorem tidy_direct (h₀ : Header) (ops : List Op) : (direct h₀ ops).Tidy :=
  (Recorder.tidy_new h₀).applyAll

/-- What the server receives when a problem is all that is sent. -/
def problemResponse (h₀ : Header) (r : Request) (p : CatalogProblem) : List Call :=
  let d := Httpapi.document (Wire.mk h₀ []) r p
  let header := (h₀.set "Content-Type".toList ["application/problem+json".toList]).set
    "Content-Length".toList [Nat.toDigits 10 (byteLength d.json)]
  [.writeHeader (finalStatus p) header, .write (.document d)]

theorem write_eq_problemResponse (h₀ : Header) (r : Request) (p : CatalogProblem) :
    (Httpapi.write (newRecorder (Wire.mk h₀ [])) r p).inner.log = problemResponse h₀ r p := rfl

namespace Serving

variable {h₀ : Header} {r : Request} {s t : Serving (Recorder Wire)} {e : Event} {exit : Exit}
  {op : Op}

def wire (s : Serving (Recorder Wire)) : Wire := s.writer.inner.inner

/-- A prefix of the handler's response, which had been started. -/
def Started (h₀ : Header) (s : Serving (Recorder Wire)) : Prop :=
  s.wire.log ≠ [] ∧ s.wire.log <+: (direct h₀ s.ops).inner.log

def Untouched (h₀ : Header) (s : Serving (Recorder Wire)) : Prop := s.wire = ⟨h₀, []⟩

/-- What the server has received, by the way in which the middleware was left. -/
def Authored (h₀ : Header) (r : Request) (s : Serving (Recorder Wire)) : Exit → Prop
  | .complete => s.handler = .returned ∧ s.wire.sent = (direct h₀ s.ops).inner.sent ∧
    s.wire.trailers = (direct h₀ s.ops).inner.earlyTrailers
  | .alreadyStarted => s.ctx = some .deadlineExceeded ∧ Started h₀ s
  | .timedOut =>
    s.ctx = some .deadlineExceeded ∧ s.wire.log = problemResponse h₀ r timeoutProblem
  | .disconnected => s.ctx = some .canceled ∧ (Started h₀ s ∨ Untouched h₀ s)
  | .panicked v => s.handler = .panicked v ∧ (Started h₀ s ∨
    if v.isAbort then Untouched h₀ s else s.wire.log = problemResponse h₀ r internalProblem)

/-- The writer and the handler's response, by the phase of the middleware. -/
def Sound (h₀ : Header) (r : Request) (s : Serving (Recorder Wire)) : Prop :=
  match s.phase with
  | .selecting => Mirrors h₀ s.writer (direct h₀ s.ops)
  | .finishing => s.handler = .returned ∧ Mirrors h₀ s.writer (direct h₀ s.ops)
  | .stopping => s.ctx ≠ none ∧ Mirrors h₀ s.writer (direct h₀ s.ops)
  | .answering => s.writer.closed = true ∧ s.ctx = some .deadlineExceeded ∧
    s.writer.inner = newRecorder ⟨h₀, []⟩
  | .unwinding (.panicked v) =>
    s.handler = .panicked v ∧ Mirrors h₀ s.writer (direct h₀ s.ops)
  | .unwinding exit => s.writer.closed = true ∧ s.wire.Sealed ∧ Authored h₀ r s exit
  | .finished exit => (s.handler = .running → s.writer.closed = true) ∧ s.wire.Sealed ∧
    Authored h₀ r s exit

theorem Authored.of_op (h : Authored h₀ r s exit) (hrun : s.handler = .running)
    (hinner : t.writer.inner = s.writer.inner) (hctx : t.ctx = s.ctx)
    (hops : t.ops = s.ops ++ [op]) : Authored h₀ r t exit := by
  have hwire : t.wire = s.wire := congrArg Recorder.inner hinner
  have hstarted : Started h₀ s → Started h₀ t := by
    rintro ⟨hne, hpre⟩
    rw [Started, hwire, hops, direct_concat]
    exact ⟨hne, hpre.trans (Recorder.log_prefix_apply op)⟩
  have huntouched : Untouched h₀ s → Untouched h₀ t := fun hu => hwire.trans hu
  cases exit with
  | complete => simp [h.1] at hrun
  | alreadyStarted => exact ⟨hctx.trans h.1, hstarted h.2⟩
  | timedOut => exact ⟨hctx.trans h.1, hwire ▸ h.2⟩
  | disconnected => exact ⟨hctx.trans h.1, h.2.imp hstarted huntouched⟩
  | panicked v => simp [h.1] at hrun

theorem Authored.of_running (h : Authored h₀ r s exit) (hrun : s.handler = .running)
    (handler : HandlerState) : Authored h₀ r { s with handler := handler } exit := by
  cases exit with
  | complete => simp [h.1] at hrun
  | alreadyStarted => exact h
  | timedOut => exact h
  | disconnected => exact h
  | panicked v => simp [h.1] at hrun

theorem Authored.of_ctx (h : Authored h₀ r s exit) (hctx : s.ctx = none)
    (err : ContextErr) : Authored h₀ r { s with ctx := some err } exit := by
  cases exit with
  | complete => exact h
  | alreadyStarted => simp [h.1] at hctx
  | timedOut => simp [h.1] at hctx
  | disconnected => simp [h.1] at hctx
  | panicked v => exact h

theorem started_congr (hwire : t.wire = s.wire) (hops : t.ops = s.ops) :
    Started h₀ t ↔ Started h₀ s := by
  rw [Started, Started, hwire, hops]

theorem sealed_of_inner (hinner : t.writer.inner = s.writer.inner) (h : s.wire.Sealed) :
    t.wire.Sealed := by
  have hwire : t.wire = s.wire := congrArg Recorder.inner hinner
  rwa [hwire]

theorem Sound.of_op (h : Sound h₀ r s) (hrun : s.handler = .running) (op : Op) :
    Sound h₀ r { s with writer := op.apply s.writer, ops := s.ops ++ [op] } := by
  unfold Sound at *
  have hclosed (hc : s.writer.closed = true) := TimeoutWriter.apply_of_closed hc op
  rcases hphase : s.phase with - | - | - | - | exit | exit <;> simp only [hphase] at h ⊢
  case selecting =>
    rw [direct_concat]
    exact h.apply op
  case finishing => simp [h.1] at hrun
  case stopping =>
    rw [direct_concat]
    exact ⟨h.1, h.2.apply op⟩
  case answering =>
    obtain ⟨hc, hctx, hinner⟩ := h
    exact ⟨(hclosed hc).2, hctx, (hclosed hc).1.trans hinner⟩
  case unwinding =>
    cases exit with
    | panicked v => simp [h.1] at hrun
    | complete | alreadyStarted | timedOut | disconnected =>
      obtain ⟨hc, hsealed, hauth⟩ := h
      exact ⟨(hclosed hc).2, sealed_of_inner (hclosed hc).1 hsealed,
        hauth.of_op hrun (hclosed hc).1 rfl rfl⟩
  case finished =>
    obtain ⟨hc, hsealed, hauth⟩ := h
    have hc := hc hrun
    exact ⟨fun _ => (hclosed hc).2, sealed_of_inner (hclosed hc).1 hsealed,
      hauth.of_op hrun (hclosed hc).1 rfl rfl⟩

theorem Sound.of_running (h : Sound h₀ r s) (hrun : s.handler = .running)
    {handler : HandlerState} (hend : handler ≠ .running) :
    Sound h₀ r { s with handler := handler } := by
  unfold Sound at *
  rcases hphase : s.phase with - | - | - | - | exit | exit <;> simp only [hphase] at h ⊢
  case selecting | stopping | answering => exact h
  case finishing => simp [h.1] at hrun
  case unwinding =>
    cases exit with
    | panicked v => simp [h.1] at hrun
    | complete | alreadyStarted | timedOut | disconnected =>
      exact ⟨h.1, h.2.1, h.2.2.of_running hrun handler⟩
  case finished => exact ⟨fun hrun' => absurd hrun' hend, h.2.1, h.2.2.of_running hrun handler⟩

theorem Sound.of_ctx (h : Sound h₀ r s) (hctx : s.ctx = none) (err : ContextErr) :
    Sound h₀ r { s with ctx := some err } := by
  unfold Sound at *
  rcases hphase : s.phase with - | - | - | - | exit | exit <;> simp only [hphase] at h ⊢
  case selecting | finishing => exact h
  case stopping => exact absurd hctx h.1
  case answering => simp [h.2.1] at hctx
  case unwinding =>
    cases exit with
    | panicked v => exact h
    | complete | alreadyStarted | timedOut | disconnected =>
      exact ⟨h.1, h.2.1, h.2.2.of_ctx hctx err⟩
  case finished => exact ⟨h.1, h.2.1, h.2.2.of_ctx hctx err⟩

theorem Sound.of_select (h : Sound h₀ r s) (hphase : s.phase = .selecting) {branch : Branch}
    {phase : Phase} (hselect : Around.select s branch = some phase) :
    Sound h₀ r { s with phase := phase } := by
  unfold Sound at h
  simp only [hphase] at h
  cases Around.selects_of_select hselect with
  | panicked hhandler => exact ⟨hhandler, h⟩
  | done hhandler => exact ⟨hhandler, h⟩
  | ctxDone hctx => exact ⟨hctx, h⟩

/-- An open writer has passed on all of the handler's response, or nothing. -/
theorem cases_of_mirrors (h : Mirrors h₀ s.writer (direct h₀ s.ops)) :
    s.writer.wroteHeader = true ∧ s.writer.inner.wroteHeader = true ∧ Started h₀ s ∨
      s.writer.wroteHeader = false ∧ s.writer.inner = newRecorder ⟨h₀, []⟩ := by
  cases hd : (direct h₀ s.ops).wroteHeader with
  | true =>
    obtain ⟨hwrote, hlog⟩ := h.started hd
    obtain ⟨status, header, body, hdirect, -⟩ := (tidy_direct h₀ s.ops).started hd
    refine Or.inl ⟨h.wroteHeader.trans hd, hwrote, ?_, ?_⟩
    · rw [wire, hlog, hdirect]
      exact List.cons_ne_nil _ _
    · rw [wire, hlog]
  | false => exact Or.inr ⟨h.wroteHeader.trans hd, (h.idle hd).1⟩

theorem started_or_untouched (h : Mirrors h₀ s.writer (direct h₀ s.ops)) :
    Started h₀ s ∨ Untouched h₀ s := by
  rcases cases_of_mirrors h with ⟨-, -, hstarted⟩ | ⟨-, hinner⟩
  · exact Or.inl hstarted
  · exact Or.inr (congrArg Recorder.inner hinner)

theorem sent_finish (h : Mirrors h₀ s.writer (direct h₀ s.ops)) :
    s.writer.finish.inner.inner.sent = (direct h₀ s.ops).inner.sent ∧
      s.writer.finish.inner.inner.Sealed := by
  cases hd : (direct h₀ s.ops).wroteHeader with
  | true =>
    obtain ⟨status, header, body, hdirect, -⟩ := (tidy_direct h₀ s.ops).started hd
    have hlog := (h.started hd).2
    have hfinish : s.writer.finish.inner = s.writer.inner := by
      simp [TimeoutWriter.finish, h.wroteHeader, hd]
    rw [hfinish]
    refine ⟨?_, h.isSealed⟩
    simp [Wire.sent, hlog, hdirect]
  | false =>
    obtain ⟨hinner, hdirect⟩ := h.idle hd
    have hfinish : s.writer.finish.inner = newRecorder ⟨h₀.commit s.writer.staged, []⟩ := by
      simp only [TimeoutWriter.finish, TimeoutWriter.commitHeaderLocked, h.wroteHeader, hd, hinner]
      rfl
    rw [hfinish, ← hdirect]
    refine ⟨rfl, Wire.sealed_of_log_eq_nil ?_⟩
    rw [hdirect]
    rfl

/-- The trailers of a whole response are those that its header went out with. -/
theorem trailers_finish (h : Mirrors h₀ s.writer (direct h₀ s.ops)) :
    s.writer.finish.inner.inner.trailers = (direct h₀ s.ops).inner.earlyTrailers := by
  obtain ⟨hsent, hsealed⟩ := sent_finish h
  obtain ⟨status, header, body, hdirect⟩ := (tidy_direct h₀ s.ops).exists_sent
  rw [hsealed.trailers_eq (hsent.trans hdirect), Wire.earlyTrailers_congr hsent]

theorem sealed_write (h₀ : Header) (r : Request) (p : CatalogProblem) :
    (Httpapi.write (newRecorder (Wire.mk h₀ [])) r p).inner.Sealed := by
  intro status header hmem
  rw [write_eq_problemResponse] at hmem
  rcases List.mem_cons.mp hmem with hmem | hmem
  · cases hmem
    rfl
  · cases List.mem_singleton.mp hmem

theorem authored_of_panic {v : PanicValue} (hhandler : s.handler = .panicked v)
    (h : Mirrors h₀ s.writer (direct h₀ s.ops))
    (ht : t.writer.inner = (recover r (.panicked v) s.writer.inner).1)
    (hsame : t.handler = s.handler ∧ t.ops = s.ops) :
    t.wire.Sealed ∧ Authored h₀ r t (.panicked v) := by
  obtain ⟨hsame, hops⟩ := hsame
  have hstarted (hinner : t.writer.inner = s.writer.inner) : Started h₀ t ↔ Started h₀ s :=
    started_congr (congrArg Recorder.inner hinner) hops
  cases hv : v.isAbort with
  | true =>
    rw [recover_of_isAbort hv] at ht
    refine ⟨sealed_of_inner ht h.isSealed, hsame.trans hhandler, ?_⟩
    rw [hv, if_pos rfl]
    exact (started_or_untouched h).imp (hstarted ht).mpr (congrArg Recorder.inner ht).trans
  | false =>
    rw [recover_of_not_isAbort hv] at ht
    rcases cases_of_mirrors h with ⟨-, hwrote, hs⟩ | ⟨-, hinner⟩
    · rw [if_pos hwrote] at ht
      exact ⟨sealed_of_inner ht h.isSealed, hsame.trans hhandler, Or.inl ((hstarted ht).mpr hs)⟩
    · rw [hinner] at ht
      have hwire : t.wire = _ := congrArg Recorder.inner ht
      refine ⟨?_, hsame.trans hhandler, Or.inr ?_⟩
      · rw [hwire]
        exact sealed_write h₀ r internalProblem
      · rw [hv, if_neg Bool.false_ne_true, hwire]
        exact write_eq_problemResponse h₀ r internalProblem

theorem Sound.of_step (h : Sound h₀ r s) (hstep : (recoverAroundTimeout r).step s = some t) :
    Sound h₀ r t := by
  unfold Sound at h
  cases Around.steps_of_step hstep with
  | finish hphase =>
    simp only [hphase] at h
    obtain ⟨hsent, hsealed⟩ := sent_finish h.2
    exact ⟨rfl, hsealed, h.1, hsent, trailers_finish h.2⟩
  | hangUp hphase hctx =>
    simp only [hphase] at h
    have hcanceled : s.ctx = some .canceled := by
      rcases hwhy : s.ctx with - | - | -
      · exact absurd hwhy h.1
      · exact absurd hwhy hctx
      · rfl
    have hopen := started_or_untouched h.2
    exact ⟨rfl, h.2.isSealed, hcanceled, hopen⟩
  | cutOff hphase hctx hwrote =>
    simp only [hphase] at h
    rcases cases_of_mirrors h.2 with ⟨-, -, hstarted⟩ | ⟨hidle, -⟩
    · exact ⟨rfl, h.2.isSealed, hctx, hstarted⟩
    · simp [hidle] at hwrote
  | timeUp hphase hctx hwrote =>
    simp only [hphase] at h
    rcases cases_of_mirrors h.2 with ⟨hstarted, -⟩ | ⟨-, hinner⟩
    · simp [hstarted] at hwrote
    · exact ⟨rfl, hctx, hinner⟩
  | answer hphase =>
    simp only [hphase] at h
    obtain ⟨hc, hctx, hinner⟩ := h
    have hwire : Httpapi.write s.writer.inner r timeoutProblem = _ :=
      congrArg (Httpapi.write · r timeoutProblem) hinner
    refine ⟨hc, ?_, hctx, ?_⟩
    · exact hwire ▸ sealed_write h₀ r timeoutProblem
    · exact (congrArg (fun rec : Recorder Wire => rec.inner.log) hwire).trans
        (write_eq_problemResponse h₀ r timeoutProblem)
  | @unwind exit hphase =>
    simp only [hphase] at h
    cases exit with
    | panicked v =>
      exact ⟨fun hrun => by simp [h.1] at hrun, authored_of_panic h.1 h.2 rfl ⟨rfl, rfl⟩⟩
    | complete | alreadyStarted | timedOut | disconnected => exact ⟨fun _ => h.1, h.2⟩

theorem Sound.isSealed (h : Sound h₀ r s) : s.wire.Sealed := by
  unfold Sound at h
  rcases hphase : s.phase with - | - | - | - | exit | exit <;> simp only [hphase] at h
  case selecting => exact h.isSealed
  case finishing | stopping => exact h.2.isSealed
  case answering =>
    rw [wire, h.2.2]
    exact Wire.sealed_of_log_eq_nil rfl
  case unwinding =>
    cases exit with
    | panicked v => exact h.2.isSealed
    | complete | alreadyStarted | timedOut | disconnected => exact h.2.1
  case finished => exact h.2.1

theorem Sound.next (h : Sound h₀ r s) (hn : (recoverAroundTimeout r).next s e = some t) :
    Sound h₀ r t := by
  cases Around.occurs_of_next hn with
  | op hrun o => exact h.of_op hrun o
  | returns hrun => exact h.of_running hrun nofun
  | panics hrun v => exact h.of_running hrun nofun
  | ends hctx err => exact h.of_ctx hctx err
  | select hphase hselect => exact h.of_select hphase hselect
  | step hstep => exact h.of_step hstep

end Serving

open Serving

def recoverTimeout (r : Request) (h₀ : Header) : Machine (Serving (Recorder Wire)) Event :=
  (recoverAroundTimeout r).machine (newRecorder ⟨h₀, []⟩)

def Event.byHandler : Event → Bool
  | .op _ | .returns | .panics _ => true
  | .ends _ | .select _ | .step => false

variable {r : Request} {h₀ : Header} {es : List Event} {s t : Serving (Recorder Wire)}

theorem sound_of_run (h : (recoverTimeout r h₀).Run (recoverTimeout r h₀).start es s) :
    s.Sound h₀ r :=
  h.preserves (fun hs _ hn => hs.next hn) (Mirrors.new h₀)

theorem tidy_of_run (h : (recoverTimeout r h₀).Run (recoverTimeout r h₀).start es s) :
    s.writer.inner.Tidy := by
  refine (h.preserves (I := fun s => Keeps.Staged (fun _ => True) Recorder.Tidy s.writer)
    (fun hs _ hn => ?_) (Keeps.staged_new (Recorder.tidy_new h₀))).1
  exact Around.staged_of_next Recorder.keeps_tidy (fun hw => hw.applyAll)
    (fun hw => recover_preserves hw hw.applyAll _) hs (fun o _ => o.within_true) hn

/-- Nothing that the handler does passes a closed writer. -/
theorem wire_of_closed (h : (recoverTimeout r h₀).Run s es t) (hc : s.writer.closed = true)
    (hes : ∀ e ∈ es, e.byHandler = true) : t.wire = s.wire := by
  have hkept : t.writer.closed = true ∧ t.wire = s.wire := by
    refine (h.and_mem hes).preserves (I := fun t => t.writer.closed = true ∧ t.wire = s.wire)
      ?_ ⟨hc, rfl⟩
    rintro t e u ⟨hc, hwire⟩ ⟨-, he⟩ hn
    cases Around.occurs_of_next hn with
    | op _ op =>
      obtain ⟨hinner, hc⟩ := TimeoutWriter.apply_of_closed hc op
      exact ⟨hc, (congrArg Recorder.inner hinner).trans hwire⟩
    | returns | panics => exact ⟨hc, hwire⟩
    | ends | select | step => cases he
  exact hkept.2

/-- The server receives at most one header and no field after it, and a response with a
single author, and nothing from the handler once its writer is closed. -/
theorem one_response (h : (recoverTimeout r h₀).Run (recoverTimeout r h₀).start es s) :
    s.wire.log.countP Call.isWriteHeader ≤ 1 ∧ s.wire.Sealed ∧
    (∀ exit, s.phase = .finished exit → s.Authored h₀ r exit) ∧
    (s.writer.closed = true → ∀ {fs t}, (recoverTimeout r h₀).Run s fs t →
      (∀ e ∈ fs, e.byHandler = true) → t.wire = s.wire) := by
  have hsound := sound_of_run h
  refine ⟨(tidy_of_run h).count_le_one, hsound.isSealed, ?_,
    fun hc _ _ hrun hfs => wire_of_closed hrun hc hfs⟩
  intro exit hphase
  unfold Sound at hsound
  rw [hphase] at hsound
  exact hsound.2.2

/-- A deadline in the middle of a response, and a write that comes after it. -/
theorem one_response_cutOff : ∃ s, (recoverTimeout ⟨⟨[], [], .empty⟩, []⟩ .empty).Run
      (recoverTimeout ⟨⟨[], [], .empty⟩, []⟩ .empty).start
      [.op (.write (.bytes [1])), .ends .deadlineExceeded, .select .ctxDone, .step,
        .op (.write (.bytes [2])), .step] s ∧
    s.wire.log.countP Call.isWriteHeader ≤ 1 ∧
    s.Authored .empty ⟨⟨[], [], .empty⟩, []⟩ .alreadyStarted ∧
    s.wire.log = [.writeHeader statusOK .empty, .write (.bytes [1])] := by
  have h : (recoverTimeout ⟨⟨[], [], .empty⟩, []⟩ .empty).Run
      (recoverTimeout ⟨⟨[], [], .empty⟩, []⟩ .empty).start
      [.op (.write (.bytes [1])), .ends .deadlineExceeded, .select .ctxDone, .step,
        .op (.write (.bytes [2])), .step] _ :=
    .cons trivial rfl <| .cons trivial rfl <| .cons trivial rfl <| .cons trivial rfl <|
      .cons trivial rfl <| .cons trivial rfl <| .nil _
  obtain ⟨hcount, -, hauthored, -⟩ := one_response h
  exact ⟨_, h, hcount, hauthored _ rfl, rfl⟩

/-- A sum of the body that is sent behind it. -/
def summed : List Op := [.set "Trailer".toList ["X-Sum".toList], .write (.bytes [1]),
  .set "X-Sum".toList [['1']]]

def wrappedAbort : PanicValue :=
  .error (.value "gone: net/http: abort Handler".toList false (.cons .errAbortHandler .nil))

/-- A trailer that is set behind the body is not sent, and a panic with an error that
wraps `http.ErrAbortHandler` is not answered. -/
theorem late_trailer_and_wrapped_abort :
    (∃ s, (recoverTimeout ⟨⟨[], [], .empty⟩, []⟩ .empty).Run
        (recoverTimeout ⟨⟨[], [], .empty⟩, []⟩ .empty).start
        (summed.map .op ++ [.returns, .select .done, .step, .step]) s ∧
      s.phase = .finished .complete ∧ s.wire.trailers "X-Sum".toList = [] ∧
      (direct .empty summed).inner.trailers "X-Sum".toList = [['1']]) ∧
    ∃ s, (recoverTimeout ⟨⟨[], [], .empty⟩, []⟩ .empty).Run
        (recoverTimeout ⟨⟨[], [], .empty⟩, []⟩ .empty).start
        [.panics wrappedAbort, .select .panicked, .step] s ∧
      s.phase = .finished (.panicked wrappedAbort) ∧ wrappedAbort ≠ .abortHandler ∧
      s.wire = ⟨.empty, []⟩ := by
  have htrailer : (recoverTimeout ⟨⟨[], [], .empty⟩, []⟩ .empty).Run
      (recoverTimeout ⟨⟨[], [], .empty⟩, []⟩ .empty).start
      (summed.map .op ++ [.returns, .select .done, .step, .step]) _ :=
    .cons trivial rfl <| .cons trivial rfl <| .cons trivial rfl <| .cons trivial rfl <|
      .cons trivial rfl <| .cons trivial rfl <| .cons trivial rfl <| .nil _
  have hpanic : (recoverTimeout ⟨⟨[], [], .empty⟩, []⟩ .empty).Run
      (recoverTimeout ⟨⟨[], [], .empty⟩, []⟩ .empty).start
      [.panics wrappedAbort, .select .panicked, .step] _ :=
    .cons trivial rfl <| .cons trivial rfl <| .cons trivial rfl <| .nil _
  exact ⟨⟨_, htrailer, rfl, by decide +kernel, by decide +kernel⟩,
    _, hpanic, rfl, by decide, rfl⟩

end Calculator.Http
