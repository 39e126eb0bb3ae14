import Calculator.Store.States
import Calculator.Wire.Exchange

/-! # Sessions against the server

A session whose requests are answered by the server, turned away before it, or
lost on the way. Whatever the order in which they settle, a settlement tells the
truth about the request that was sent with its ticket.
-/

namespace Calculator.Wire

open Api Backend Decimal Http Runs
open Store (Coherent Mark Outcome Session Step Tracked fresh step_of_next store)

/-- The problems that a request can meet before it reaches the handler, or while it
is there. -/
def middlewareCodes : List Code := [.rateLimited, .timeout, .internal]

/-- How a request can settle. -/
inductive Settles (h : Handler) (D : Reports) (r : Engine.CalculateRequest) : Outcome → Prop
  | exchanged (T : Transport) {o : Outcome} (ho : exchange h D T r = some o) : Settles h D r o
  | refused (T : Transport) {p : CatalogProblem} (hp : p.1.code ∈ middlewareCodes) {o : Outcome}
      (ho : T.outcome (.response (T.response (.problem p.1))) = some o) : Settles h D r o
  | lost (T : Transport) (timedOut : Bool) {o : Outcome}
      (ho : T.outcome (.failed timedOut) = some o) : Settles h D r o

/-- The codes of failures that are not about the calculation. -/
def transientCodes : List Text :=
  ["RATE_LIMITED".toList, "TIMEOUT".toList, "INTERNAL".toList, "NETWORK".toList]

/-- What an outcome says about the request. -/
inductive Truth (P : Primitives) (r : Engine.CalculateRequest) : Outcome → Prop
  | computed {x : Binary.Float64} (hr : r.Sendable) (h : compute P r = .ok x) :
    Truth P r (.answer ⟨x⟩)
  | rejected {c : Code} (id : Option Text) (hr : r.Sendable) (h : compute P r = .error c) :
    Truth P r (.failure (.apiError c.text id))
  /-- An operand is not finite. -/
  | invalid (id : Option Text) (hr : ¬ r.Sendable) :
    Truth P r (.failure (.apiError Code.validationFailed.text id))
  | unavailable {code : Text} (id : Option Text) (h : code ∈ transientCodes) :
    Truth P r (.failure (.apiError code id))
  /-- Nothing was there to answer. -/
  | unwired : Truth P r (.failure .other)

variable {P : Primitives} {h : Handler} {D : Reports} {r : Engine.CalculateRequest} {o : Outcome}

theorem text_mem_transientCodes {c : Code} (hc : c ∈ middlewareCodes) :
    c.text ∈ transientCodes := by
  revert hc c
  decide

theorem outcome_failed (T : Transport) (timedOut : Bool) :
    ∃ code ∈ transientCodes, T.outcome (.failed timedOut) =
      some (.failure (.apiError code none)) := by
  cases timedOut with
  | true => exact ⟨"TIMEOUT".toList, by decide, rfl⟩
  | false => exact ⟨"NETWORK".toList, by decide, rfl⟩

theorem Settles.truth (hreg : h.registry = newRegistry P) (harity : r.FitsArity)
    (hs : Settles h D r o) : Truth P r o := by
  cases hs with
  | exchanged T ho =>
    by_cases hr : r.Sendable
    · rw [exchange_eq hreg D T hr] at ho
      cases ho
      cases hc : compute P r with
      | ok x => exact .computed hr hc
      | error c => exact .rejected T.errorID hr hc
    · rw [exchange_of_not_sendable hreg D T harity hr] at ho
      cases ho
      exact .invalid T.errorID hr
  | @refused T p hp _ ho =>
    have hproblem : p.1 = newProblem p.1.code p.1.detail p.1.errors := p.2
    rw [hproblem, outcome_problem] at ho
    cases ho
    exact .unavailable T.errorID (text_mem_transientCodes hp)
  | lost T timedOut ho =>
    obtain ⟨code, hcode, hlost⟩ := outcome_failed T timedOut
    rw [hlost] at ho
    cases ho
    exact .unavailable none hcode

/-- Every request settles in one of those ways. Anything else may happen. -/
def Served (h : Handler) (D : Reports) (s : Session) : Store.Event → Prop
  | .settle ticket o => ∃ r, (ticket, r) ∈ s.inFlight ∧ Settles h D r o
  | .key _ | .clearAll | .retry | .recallValue _ | .setEvaluator _ => True

/-- Every mark of the journal is about a request that was sent. -/
structure Truthful (P : Primitives) (s : Session) : Prop where
  sent : ∀ ticket r, Mark.sent ticket r ∈ s.journal → r.FitsArity
  inFlight : ∀ q ∈ s.inFlight, Mark.sent q.1 q.2 ∈ s.journal
  settled : ∀ ticket o, Mark.settled ticket o ∈ s.journal →
    ∃ r, Mark.sent ticket r ∈ s.journal ∧ Truth P r o

variable {s t : Session} {e : Store.Event} {es : List Store.Event}

theorem sent_of_newest {j : List Mark} {q : ℕ × Engine.CalculateRequest}
    (hn : Store.newest j = some q) : Mark.sent q.1 q.2 ∈ j := by
  induction j with
  | nil => cases hn
  | cons m j ih =>
    cases m with
    | sent ticket r =>
      cases hn
      exact List.mem_cons_self
    | settled _ _ | cleared => exact List.mem_cons_of_mem _ (ih hn)

theorem fitsArity_of_key (hs : store.Reachable s) (hp : s.pending = false) {k : Engine.Key}
    (he : (Engine.press s.calcState k).effect = some r) : r.FitsArity := by
  have hwell := ((Coherent.of_reachable hs).settled hp).wellFormed
  exact Engine.fitsArity_press hwell.fitsArity_lastRequest k r he

namespace Truthful

theorem fresh (P : Primitives) (evaluator : Bool) : Truthful P (fresh evaluator) :=
  ⟨nofun, nofun, nofun⟩

theorem fitsArity_lastSent (hreach : store.Reachable s) (hs : Truthful P s)
    (hl : s.lastSentRequest = some r) : r.FitsArity := by
  rw [(Tracked.of_reachable hreach).lastSent] at hl
  obtain ⟨q, hq, rfl⟩ := Option.map_eq_some_iff.mp hl
  exact hs.sent q.1 q.2 (sent_of_newest hq)

theorem grow (hs : Truthful P s) (news : List Mark) (hj : t.journal = news ++ s.journal)
    (hsent : ∀ ticket r, Mark.sent ticket r ∈ news → r.FitsArity)
    (hin : ∀ q ∈ t.inFlight, Mark.sent q.1 q.2 ∈ news ∨ q ∈ s.inFlight)
    (hnews : ∀ ticket o, Mark.settled ticket o ∈ news →
      ∃ r, Mark.sent ticket r ∈ news ++ s.journal ∧ Truth P r o) : Truthful P t where
  sent ticket r hm := by
    rw [hj] at hm
    exact (List.mem_append.mp hm).elim (hsent ticket r) (hs.sent ticket r)
  inFlight q hq := by
    rw [hj, List.mem_append]
    exact (hin q hq).imp_right (hs.inFlight q)
  settled ticket o hm := by
    rw [hj] at hm ⊢
    rcases List.mem_append.mp hm with hm | hm
    · exact hnews ticket o hm
    · obtain ⟨r, hsent, htruth⟩ := hs.settled ticket o hm
      exact ⟨r, List.mem_append_right _ hsent, htruth⟩

theorem sending (hs : Truthful P s) (hr : r.FitsArity) (c : Engine.CalcState) :
    Truthful P (s.sending c r) := by
  apply hs.grow [.sent (s.ticket + 1) r] rfl
  · intro ticket r' hm
    obtain ⟨rfl, rfl⟩ : ticket = s.ticket + 1 ∧ r' = r := by simpa using hm
    exact hr
  · intro q hq
    rcases List.mem_cons.mp hq with rfl | hq
    · exact Or.inl List.mem_cons_self
    · exact Or.inr hq
  · intro ticket o hm
    simp at hm

theorem unanswered (hs : Truthful P s) (hr : r.FitsArity) (c : Engine.CalcState) :
    Truthful P (s.unanswered c r) := by
  apply hs.grow [.settled (s.ticket + 1) (.failure .other), .sent (s.ticket + 1) r] rfl
  · intro ticket r' hm
    obtain ⟨rfl, rfl⟩ : ticket = s.ticket + 1 ∧ r' = r := by simpa using hm
    exact hr
  · exact fun q hq => Or.inr hq
  · intro ticket o hm
    obtain ⟨rfl, rfl⟩ : ticket = s.ticket + 1 ∧ o = .failure .other := by simpa using hm
    exact ⟨r, by simp, .unwired⟩

theorem settle (hreg : h.registry = newRegistry P) (hs : Truthful P s) {ticket : ℕ}
    (hserved : Served h D s (.settle ticket o)) (hj : t.journal = .settled ticket o :: s.journal)
    (hin : t.inFlight ⊆ s.inFlight) : Truthful P t := by
  obtain ⟨r, hmem, hsettles⟩ := hserved
  have hsent : Mark.sent ticket r ∈ s.journal := hs.inFlight (ticket, r) hmem
  apply hs.grow [.settled ticket o] hj
  · intro ticket' r' hm
    simp at hm
  · exact fun q hq => Or.inr (hin hq)
  · intro ticket' o' hm
    obtain ⟨rfl, rfl⟩ : ticket' = ticket ∧ o' = o := by simpa using hm
    exact ⟨r, List.mem_cons_of_mem _ hsent, hsettles.truth hreg (hs.sent ticket' r hsent)⟩

theorem step (hreg : h.registry = newRegistry P) (hreach : store.Reachable s)
    (hs : Truthful P s) (hserved : Served h D s e) (hstep : Step s e t) : Truthful P t := by
  cases hstep with
  | busy _ _ | noRetry _ _ => exact hs
  | edit _ _ | recallValue _ | setEvaluator _ => exact ⟨hs.sent, hs.inFlight, hs.settled⟩
  | send hp he _ => exact hs.sending (fitsArity_of_key hreach hp he) _
  | sendUnanswered hp he _ => exact hs.unanswered (fitsArity_of_key hreach hp he) _
  | retry _ _ hl _ => exact hs.sending (hs.fitsArity_lastSent hreach hl) _
  | retryUnanswered _ _ hl _ => exact hs.unanswered (hs.fitsArity_lastSent hreach hl) _
  | clearAll => exact hs.grow [.cleared] rfl (by simp) (fun _ => Or.inr) (by simp)
  | answer _ | fail _ | stale _ _ => exact hs.settle hreg hserved rfl List.filter_sublist.subset

theorem of_run (hreg : h.registry = newRegistry P)
    (hrun : store.RunWhen (Served h D) (Store.fresh false) es s) : Truthful P s := by
  have hstart : store.Reachable (Store.fresh false) ∧ Truthful P (Store.fresh false) :=
    ⟨Machine.Reachable.start, fresh P false⟩
  refine (hrun.preserves (I := fun s => store.Reachable s ∧ Truthful P s) ?_ hstart).2
  rintro s e t ⟨hreach, hs⟩ hserved hn
  exact ⟨hreach.next hn, hs.step hreg hreach hserved (step_of_next hn)⟩

end Truthful

/-- In every run against the server, whatever the keys and in whatever order the
requests settle, a settlement says the truth about a request that was sent with its
ticket. -/
theorem settlements_are_true (hreg : h.registry = newRegistry P)
    (hrun : store.RunWhen (Served h D) (fresh false) es s) :
    ∀ ticket o, Mark.settled ticket o ∈ s.journal →
      ∃ r, Mark.sent ticket r ∈ s.journal ∧ Truth P r o :=
  (Truthful.of_run hreg hrun).settled

/-- Primitives whose every result is 1, as those of `√1` and `0 + 1` are. -/
def unit : Primitives :=
  ⟨fun _ _ => Engine.one, fun _ _ => Engine.one, fun _ _ => Engine.one, fun _ _ => Engine.one,
    fun _ _ => Engine.one, fun _ => Engine.one⟩

def unitHandler : Handler := ⟨newRegistry unit, fun _ => true, true⟩

def rootOfOne : Engine.CalculateRequest := ⟨.sqrt, Engine.one, none⟩

theorem settles_rootOfOne : Settles unitHandler terse rootOfOne (.answer ⟨Engine.one⟩) := by
  have hsend : rootOfOne.Sendable := Engine.sendable_sqrtRequest Engine.isFinite_one
  have hvalue : compute unit rootOfOne = .ok Engine.one := by decide +kernel
  apply Settles.exchanged bare
  rw [exchange_eq rfl terse bare hsend, hvalue]

def rootRun : List Store.Event :=
  [.setEvaluator true, .key (.digit 1), .key (.unary .sqrt), .settle 1 (.answer ⟨Engine.one⟩)]

theorem rootRun_isSome : (store.replay (fresh false) rootRun).isSome := by decide +kernel

theorem served_rootRun : store.RunWhen (Served unitHandler terse) (fresh false) rootRun
    ((store.replay (fresh false) rootRun).get rootRun_isSome) := by
  refine .cons trivial rfl (.cons trivial rfl (.cons trivial rfl (.cons ?_ rfl (.nil _))))
  exact ⟨rootOfOne, by decide +kernel, settles_rootOfOne⟩

theorem settlements_are_true_rootRun :
    let s := (store.replay (fresh false) rootRun).get rootRun_isSome
    ∃ r, Mark.sent 1 r ∈ s.journal ∧ Truth unit r (.answer ⟨Engine.one⟩) :=
  settlements_are_true rfl served_rootRun 1 _ (by decide +kernel)

end Calculator.Wire
