import Calculator.Http.Responses

/-! # Lost panics

A panic is carried to the goroutine of the request, which reads it only if the
select has not taken another branch. The panics that are logged are those the
select still waits for, and that it then prefers to the end of the context, unless
the panic is with an error that wraps `http.ErrAbortHandler`.
-/

namespace Calculator.Http

open Decimal Runs

def LogLine.reports (v : Text) : LogLine → Bool
  | .panicRecovered _ _ _ panic => panic = v
  | .request .. => false

/-- The panic with which the middleware is left, if any. -/
def Phase.panic : Phase → Option PanicValue
  | .unwinding (.panicked v) | .finished (.panicked v) => some v
  | _ => none

namespace Serving

variable {r : Request} {h₀ : Header} {s t : Serving (Recorder Wire)} {e : Event} {es : List Event}

/-- Both goroutines are through with the request. -/
def Done (s : Serving (Recorder Wire)) : Prop :=
  s.handler ≠ .running ∧ ∃ exit, s.phase = .finished exit

/-- A panic of the handler with anything but `http.ErrAbortHandler` is logged exactly
once. -/
def LoggedOnce (s : Serving (Recorder Wire)) : Prop :=
  ∀ v, v ≠ .abortHandler → s.handler = .panicked v → s.log.countP (LogLine.reports v.text) = 1

/-- A panic comes while the select waits and is not with an error that wraps
`http.ErrAbortHandler`, and the end of the context is not selected when there is one. -/
def PanicsInTime (s : Serving (Recorder Wire)) : Event → Prop
  | .panics v => v ≠ .abortHandler → v.isAbort = false ∧ s.phase = .selecting
  | .select .ctxDone => ∀ v, v ≠ .abortHandler → s.handler ≠ .panicked v
  | _ => True

/-- The log has the line of the panic that has reached the end of the chain. -/
structure Carried (s : Serving (Recorder Wire)) : Prop where
  handler : ∀ v ∈ s.phase.panic, s.handler = .panicked v
  reported : ∀ v, s.phase = .finished (.panicked v) → v.isAbort = false →
    s.log.countP (LogLine.reports v.text) = 1
  silent : (∀ v, s.phase = .finished (.panicked v) → v.isAbort = true) → s.log = []

/-- A panic that is to be logged is still to be selected, or has been. -/
def Awaited (s : Serving (Recorder Wire)) : Prop :=
  ∀ v, v ≠ .abortHandler → s.handler = .panicked v →
    v.isAbort = false ∧ (s.phase = .selecting ∨ s.phase.panic = some v)

theorem carried_of_silent (hpanic : s.phase.panic = none) (hlog : s.log = []) : Carried s where
  handler := by simp [hpanic]
  reported v hv := by
    rw [hv] at hpanic
    cases hpanic
  silent _ := hlog

theorem Carried.log_eq_nil (h : Carried s) (hphase : ∀ exit, s.phase ≠ .finished exit) :
    s.log = [] := h.silent fun _ hv => absurd hv (hphase _)

theorem Carried.of_running (h : Carried s) (hrun : s.handler = .running)
    (handler : HandlerState) : Carried { s with handler := handler } where
  handler v hv := by
    rw [h.handler v hv] at hrun
    cases hrun
  reported := h.reported
  silent := h.silent

theorem Carried.of_select (h : Carried s) (hphase : s.phase = .selecting) {branch : Branch}
    {phase : Phase} (hselect : Around.select s branch = some phase) :
    Carried { s with phase := phase } := by
  have hlog : s.log = [] := h.log_eq_nil (by simp [hphase])
  cases Around.selects_of_select hselect with
  | panicked hhandler =>
    refine ⟨?_, nofun, fun _ => hlog⟩
    rintro _ ⟨⟩
    exact hhandler
  | done | ctxDone => exact carried_of_silent rfl hlog

theorem Carried.of_step (h : Carried s) (hstep : (recoverAroundTimeout r).step s = some t) :
    Carried t := by
  cases Around.steps_of_step hstep with
  | finish hphase | hangUp hphase | cutOff hphase | timeUp hphase | answer hphase =>
    exact carried_of_silent rfl (h.log_eq_nil (by simp [hphase]))
  | @unwind exit hphase =>
    have hlog : s.log = [] := h.log_eq_nil (by simp [hphase])
    have hhandler := h.handler
    rw [hphase] at hhandler
    cases exit with
    | panicked v =>
      simp only [hlog, List.nil_append, recoverAroundTimeout]
      cases hv : v.isAbort with
      | true =>
        refine ⟨hhandler, ?_, fun _ => by rw [recover_of_isAbort hv]⟩
        rintro _ ⟨⟩ hv'
        exact absurd (hv.symm.trans hv') (by decide)
      | false =>
        refine ⟨hhandler, ?_, fun habort => absurd (hv.symm.trans (habort v rfl)) (by decide)⟩
        rintro _ ⟨⟩ -
        simp [recover_of_not_isAbort hv, LogLine.reports]
    | complete | alreadyStarted | timedOut | disconnected =>
      exact carried_of_silent rfl (by simp [hlog, recoverAroundTimeout, recover])

theorem Carried.next (h : Carried s) (hn : (recoverAroundTimeout r).next s e = some t) :
    Carried t := by
  cases Around.occurs_of_next hn with
  | op hrun o => exact ⟨h.handler, h.reported, h.silent⟩
  | returns hrun => exact h.of_running hrun _
  | panics hrun v => exact h.of_running hrun _
  | ends hctx err => exact ⟨h.handler, h.reported, h.silent⟩
  | select hphase hselect => exact h.of_select hphase hselect
  | step hstep => exact h.of_step hstep

theorem panic_of_step (hstep : (recoverAroundTimeout r).step s = some t) :
    s.phase ≠ .selecting ∧ t.phase ≠ .selecting ∧ t.phase.panic = s.phase.panic ∧
      t.handler = s.handler := by
  cases Around.steps_of_step hstep with
  | finish hphase | hangUp hphase | cutOff hphase | timeUp hphase | answer hphase =>
    simp [hphase, Phase.panic]
  | @unwind exit hphase => cases exit <;> simp [hphase, Phase.panic]

/-- A panic is awaited after a step exactly if it was before, and the step is in
time. -/
theorem awaited_next_iff (hs : Carried s) (hn : (recoverAroundTimeout r).next s e = some t) :
    Awaited t ↔ Awaited s ∧ PanicsInTime s e := by
  cases Around.occurs_of_next hn with
  | op hrun o => exact (and_iff_left trivial).symm
  | returns hrun =>
    exact iff_of_true (fun v _ hv => by cases hv) ⟨fun v _ hv => by simp [hrun] at hv, trivial⟩
  | panics hrun v =>
    have hawaited : Awaited s := fun v _ hv => by simp [hrun] at hv
    have hpanic : ∀ w, s.phase.panic ≠ some w := fun w hw => by simp [hs.handler w hw] at hrun
    rw [and_iff_right hawaited]
    constructor
    · intro h hne
      obtain ⟨hv, hwaits⟩ := h v hne rfl
      exact ⟨hv, hwaits.resolve_right (hpanic v)⟩
    · rintro h _ hne ⟨⟩
      obtain ⟨hv, hwaits⟩ := h hne
      exact ⟨hv, Or.inl hwaits⟩
  | ends hctx err => exact (and_iff_left trivial).symm
  | @select hphase branch phase hselect =>
    cases Around.selects_of_select hselect with
    | @panicked v hhandler =>
      refine Iff.trans ?_ (and_iff_left trivial).symm
      refine forall_congr' fun w => imp_congr_right fun _ => ⟨?_, ?_⟩
      · exact fun h hw => ⟨(h hw).1, Or.inl hphase⟩
      · intro h hw
        cases hhandler.symm.trans hw
        exact ⟨(h hw).1, Or.inr rfl⟩
    | done hreturned =>
      have hnone (u : Serving (Recorder Wire)) (hu : u.handler = .returned) : Awaited u :=
        fun v _ hv => by simp [hu] at hv
      exact iff_of_true (hnone _ hreturned) ⟨hnone s hreturned, trivial⟩
    | ctxDone =>
      constructor
      · intro h
        have hlost : ∀ v, v ≠ .abortHandler → s.handler ≠ .panicked v := by
          intro v hne hv
          rcases (h v hne hv).2 with hphase | hpanic
          · cases hphase
          · cases hpanic
        exact ⟨fun v hne hv => absurd hv (hlost v hne), hlost⟩
      · exact fun h v hne hv => absurd hv (h.2 v hne)
  | step hstep =>
    obtain ⟨hs, ht, hpanic, hhandler⟩ := panic_of_step hstep
    rw [Awaited, Awaited, hhandler, hpanic]
    simp [hs, ht, PanicsInTime]

theorem carried_of_reachable (h : (recoverTimeout r h₀).Reachable s) : Carried s :=
  h.induction (carried_of_silent rfl rfl) fun hs hn => hs.next hn

/-- At the end the awaited panics are those that have been logged. -/
theorem Carried.loggedOnce_iff (h : Carried s) (hdone : s.Done) : LoggedOnce s ↔ Awaited s := by
  obtain ⟨-, exit, hphase⟩ := hdone
  constructor
  · intro hlogged v hne hv
    have hcount := hlogged v hne hv
    have hline : s.log ≠ [] := by
      intro hlog
      rw [hlog] at hcount
      cases hcount
    obtain ⟨w, hw, hlogs⟩ : ∃ w, s.phase = .finished (.panicked w) ∧ w.isAbort = false := by
      by_contra hsilent
      refine hline (h.silent fun w hw => ?_)
      by_contra hlogs
      exact hsilent ⟨w, hw, Bool.eq_false_of_not_eq_true hlogs⟩
    have hpanic : s.phase.panic = some w := by rw [hw]; rfl
    cases hv.symm.trans (h.handler w hpanic)
    exact ⟨hlogs, Or.inr hpanic⟩
  · intro hawaited v hne hv
    obtain ⟨hlogs, hsel | hpanic⟩ := hawaited v hne hv
    · simp [hphase] at hsel
    · rw [hphase] at hpanic
      cases exit with
      | panicked w =>
        cases hpanic
        exact h.reported v hphase hlogs
      | complete | alreadyStarted | timedOut | disconnected => cases hpanic

/-- In a run to the end, a panic with anything but `http.ErrAbortHandler` is logged
exactly once if and only if it came while the select waited, the select has preferred
it, and it is not with an error that wraps `http.ErrAbortHandler`. -/
theorem panic_is_logged_iff (h : (recoverTimeout r h₀).Run (recoverTimeout r h₀).start es s)
    (hdone : s.Done) :
    LoggedOnce s ↔ (recoverTimeout r h₀).RunWhen PanicsInTime (recoverTimeout r h₀).start es s := by
  rw [(carried_of_reachable ⟨es, h⟩).loggedOnce_iff hdone]
  refine Machine.iff_runWhen ?_ ?_ h
  · rintro v - ⟨⟩
  · exact fun hs hn => awaited_next_iff (carried_of_reachable hs) hn

def someRequest : Request := ⟨⟨"GET".toList, ['/'], .empty⟩, []⟩

def boom : PanicValue := .value "boom".toList

/-- A panic that is selected. -/
theorem panic_is_logged_iff_selected : ∃ s, (recoverTimeout someRequest .empty).Run
      (recoverTimeout someRequest .empty).start [.panics boom, .select .panicked, .step] s ∧
    s.Done ∧ s.handler = .panicked boom ∧ LoggedOnce s := by
  have h : (recoverTimeout someRequest .empty).RunWhen PanicsInTime
      (recoverTimeout someRequest .empty).start [.panics boom, .select .panicked, .step] _ :=
    .cons (fun _ => ⟨rfl, rfl⟩) rfl (.cons trivial rfl (.cons trivial rfl (.nil _)))
  refine ⟨_, h.run, ⟨nofun, _, rfl⟩, rfl, ?_⟩
  exact (panic_is_logged_iff h.run ⟨nofun, _, rfl⟩).mpr h

/-- A panic that came first is lost if the select takes the deadline, which came
after it. -/
theorem panic_is_lost : ∃ s, (recoverTimeout someRequest .empty).Run
      (recoverTimeout someRequest .empty).start
      [.panics boom, .ends .deadlineExceeded, .select .ctxDone, .step, .step, .step] s ∧
    s.Done ∧ s.handler = .panicked boom ∧ s.log = [] ∧ ¬ LoggedOnce s := by
  have h : (recoverTimeout someRequest .empty).Run (recoverTimeout someRequest .empty).start
      [.panics boom, .ends .deadlineExceeded, .select .ctxDone, .step, .step, .step] _ :=
    .cons trivial rfl <| .cons trivial rfl <| .cons trivial rfl <| .cons trivial rfl <|
      .cons trivial rfl <| .cons trivial rfl <| .nil _
  refine ⟨_, h, ⟨nofun, _, rfl⟩, rfl, rfl, fun hlogged => ?_⟩
  have hcount := hlogged boom (by decide) rfl
  cases hcount

end Serving

end Calculator.Http
