import Calculator.Engine.Grammar
import Calculator.Store.Evaluation
import Calculator.Wire.Session

/-! # Programs against the server

Keys typed at the calculator, with the server behind it: the requests and the
value are those of the reference evaluator over the operations of the server.
-/

namespace Calculator.Wire

open Api Backend Binary Decimal Engine.Reference Http Runs
open Engine (BinaryOperation Proper UnaryKey parseEntry)
open Store (Answered AnsweredBy Mark Outcome Session Shows Step fresh requests step_of_next
  store)

theorem isEntry_of_isLiteral {entry : Text} (h : Engine.IsLiteral entry) :
    Engine.IsEntry entry := by
  obtain ⟨l, rfl⟩ := h
  rw [l.text_eq_signed]
  refine Engine.isEntry_of_plain rfl ?_
  calc l.whole.length ≤ Engine.maxEntryDigits := (Nat.le_add_right _ _).trans l.length_le
    _ ≤ 21 := by decide

theorem isLiteral_entry (o : Operand) : Engine.IsLiteral o.entry := by
  have hstart : Engine.IsLiteral o.start.entry := by
    cases o.start with
    | digit d =>
      rw [Start.entry, Engine.appendDigit_zero]
      exact Engine.isLiteral_digit d
    | decimal => exact Engine.isLiteral_zero_point
  rw [Operand.entry]
  induction o.edits using List.reverseRecOn with
  | nil => exact hstart
  | append_singleton es e ih =>
    rw [List.foldl_append]
    exact ih.apply e

/-- The value is finite, and no request had an operand that is not. -/
structure Fit (t : Tally) : Prop where
  value : t.value.isFinite = true
  sent : ∀ r ∈ t.sent, r.Sendable

structure FitTotal (t : Total) : Prop extends Fit t.toTally where
  last : ∀ q ∈ t.last, q.2.isFinite = true

section Requests

variable {f : Engine.CalculateRequest → Float64} {x : Float64} {t : Tally} {total : Total}

theorem sendable_binary (op : BinaryOperation) {x y : Float64} (hx : x.isFinite = true)
    (hy : y.isFinite = true) : (Engine.CalculateRequest.mk op.name x (some y)).Sendable :=
  Engine.sendable_binaryRequest (some op) (a := some x) (by simpa using hx) hy

theorem Fit.ask (hf : Proper f) (h : Fit t) {r : Engine.CalculateRequest} (hr : r.Sendable) :
    Fit (t.ask f r) where
  value := hf.isFinite r
  sent := List.forall_mem_append.mpr ⟨h.sent, List.forall_mem_singleton.mpr hr⟩

theorem Fit.unary (hf : Proper f) (h : Fit t) {percent : Float64 → Engine.CalculateRequest}
    (hp : ∀ w : Float64, w.isFinite = true → (percent w).Sendable) (u : UnaryKey) :
    Fit (t.unary f percent u) := by
  cases u with
  | sqrt => exact h.ask hf (Engine.sendable_sqrtRequest h.value)
  | percent => exact h.ask hf (hp _ h.value)

theorem fit_operand (hf : Proper f) {percent : Float64 → Engine.CalculateRequest}
    (hp : ∀ w : Float64, w.isFinite = true → (percent w).Sendable)
    {sent : List Engine.CalculateRequest} (hsent : ∀ r ∈ sent, r.Sendable) (o : Operand) :
    Fit (o.evaluate f parseEntry percent sent) := by
  have hstart : Fit ⟨sent, parseEntry o.entry⟩ :=
    ⟨(isEntry_of_isLiteral (isLiteral_entry o)).isFinite_parseEntry, hsent⟩
  rw [Operand.evaluate]
  induction o.unaries using List.reverseRecOn with
  | nil => exact hstart
  | append_singleton us u ih =>
    rw [List.foldl_append]
    exact ih.unary hf hp u

theorem fit_combine (hf : Proper f) (hx : x.isFinite = true) (op : BinaryOperation) (h : Fit t) :
    FitTotal (combine f x op t) where
  toFit := h.ask hf (sendable_binary op hx h.value)
  last := by
    rintro _ ⟨⟩
    exact h.value

theorem FitTotal.step (hf : Proper f) (h : FitTotal total) (next : OperatorRun × Operand) :
    FitTotal (total.step f parseEntry next) := by
  have hpercent : ∀ w : Float64, w.isFinite = true → (percentOf total.value w).Sendable :=
    fun w hw => Engine.sendable_percentRequest h.value hw
  exact fit_combine hf h.value _ (fit_operand hf hpercent h.sent next.2)

theorem FitTotal.close (hf : Proper f) (h : FitTotal total) (run : Option OperatorRun) :
    FitTotal (total.close f run) := by
  cases run with
  | none => exact h
  | some run => exact fit_combine hf h.value _ h.toFit

theorem FitTotal.again (hf : Proper f) (h : FitTotal total) : FitTotal (total.again f) := by
  unfold Total.again
  split
  · exact h
  · next op w hlast =>
    have hw : w.isFinite = true := h.last (op, w) hlast
    refine ⟨h.toFit.ask hf (sendable_binary op h.value hw), ?_⟩
    rintro _ ⟨⟩
    exact hw

theorem fitTotal_evaluate (hf : Proper f) (p : Program) :
    FitTotal (p.evaluate f parseEntry) := by
  have hhead : Fit (p.head.evaluate f parseEntry percentOfOne []) :=
    fit_operand hf (fun w hw => Engine.sendable_percentRequest hw Engine.isFinite_one) (by simp)
      p.head
  have htail : FitTotal (p.tail.foldl (Total.step f parseEntry)
      ⟨p.head.evaluate f parseEntry percentOfOne [], none⟩) := by
    induction p.tail using List.reverseRecOn with
    | nil => exact ⟨hhead, nofun⟩
    | append_singleton tail next ih =>
      rw [List.foldl_append]
      exact ih.step hf next
  rw [Program.evaluate]
  induction p.repeats with
  | zero => exact htail.close hf p.trailing
  | succ n ih =>
    rw [Function.iterate_succ_apply']
    exact ih.again hf

end Requests

def computed (P : Primitives) (r : Engine.CalculateRequest) : Float64 :=
  match compute P r with
  | .ok x => x
  | .error _ => .zero

/-- The server answers each request with a result before the next key. -/
def AnsweredByServer (h : Handler) (D : Reports) (s : Session) : Store.Event → Prop
  | .key _ => s.inFlight = []
  | .settle ticket o => ∃ r, (ticket, r) ∈ s.inFlight ∧
      ∃ T response, o = .answer response ∧ exchange h D T r = some o
  | .clearAll | .retry | .recallValue _ | .setEvaluator _ => False

/-- A run on the keys, each request answered by the server before the next one and
the last one answered too. -/
structure Computes (h : Handler) (D : Reports) (ks : List Engine.Key) (es : List Store.Event)
    (s : Session) : Prop where
  run : store.RunWhen (AnsweredByServer h D) (fresh true) es s
  keys : es.filterMap Store.Event.pressed = ks
  inFlight : s.inFlight = []

variable {P : Primitives} {h : Handler} {D : Reports} {r : Engine.CalculateRequest}
  {s t : Session} {e : Store.Event} {es : List Store.Event} {ks : List Engine.Key}

theorem computed_of_ok {x : Float64} (hx : compute P r = .ok x) : computed P r = x := by
  rw [computed, hx]

theorem proper_computed (P : Primitives) : Proper (computed P) := by
  have hvalue : ∀ r, (computed P r).isFinite = true ∧ computed P r ≠ .negZero := by
    intro r
    unfold computed
    split
    · next x hx => exact compute_ok hx
    · exact ⟨rfl, nofun⟩
  exact ⟨fun r => (hvalue r).1, fun r => (hvalue r).2⟩

theorem reachable_fresh : store.Reachable (fresh true) :=
  ⟨[.setEvaluator true], .cons trivial rfl (.nil _)⟩

theorem AnsweredByServer.served (he : AnsweredByServer h D s e) : Served h D s e := by
  cases e with
  | settle ticket o =>
    obtain ⟨r, hmem, T, response, -, ho⟩ := he
    exact ⟨r, hmem, .exchanged T ho⟩
  | key _ | clearAll | retry | recallValue _ | setEvaluator _ => trivial

theorem Truthful.compute_of_answered (hreg : h.registry = newRegistry P) (hs : Truthful P s)
    {ticket : ℕ} {o : Outcome} (he : AnsweredByServer h D s (.settle ticket o)) :
    ∃ r x, (ticket, r) ∈ s.inFlight ∧ compute P r = .ok x ∧ o = .answer ⟨x⟩ := by
  obtain ⟨r, hmem, T, response, rfl, ho⟩ := he
  have harity := hs.sent ticket r (hs.inFlight (ticket, r) hmem)
  cases (Settles.exchanged T ho).truth hreg harity with
  | computed _ hx => exact ⟨r, _, hmem, hx, rfl⟩

theorem answeredBy_of_answeredByServer (hreg : h.registry = newRegistry P) (hs : Truthful P s)
    (he : AnsweredByServer h D s e) : AnsweredBy (computed P) s e := by
  cases e with
  | key k => exact he
  | settle ticket o =>
    obtain ⟨r, x, hmem, hx, rfl⟩ := hs.compute_of_answered hreg he
    exact ⟨(ticket, r), hmem, rfl, by rw [computed_of_ok hx]⟩
  | clearAll | retry | recallValue _ | setEvaluator _ => exact he

theorem truthful_step (hreg : h.registry = newRegistry P)
    (hs : store.Reachable s ∧ Truthful P s) (he : AnsweredByServer h D s e)
    (hn : store.next s e = some t) : store.Reachable t ∧ Truthful P t :=
  ⟨hs.1.next hn, hs.2.step hreg hs.1 he.served (step_of_next hn)⟩

theorem truthful_start (P : Primitives) : store.Reachable (fresh true) ∧ Truthful P (fresh true) :=
  ⟨reachable_fresh, Truthful.fresh P true⟩

theorem Computes.answered (hreg : h.registry = newRegistry P) (hrun : Computes h D ks es s) :
    Answered (computed P) ks es s where
  run := hrun.run.mono_of_invariant (truthful_step hreg)
    (fun hs he => answeredBy_of_answeredByServer hreg hs.2 he) (truthful_start P)
  keys := hrun.keys
  inFlight := hrun.inFlight

/-- At most one request is in flight, and every other one had a value. -/
structure Progress (P : Primitives) (s : Session) : Prop where
  evaluator : s.evaluator = true
  inFlight : s.inFlight = [] ∨ ∃ q, s.inFlight = [q]
  computed : ∀ r ∈ requests s.journal,
    (∃ x, compute P r = .ok x) ∨ ∃ q ∈ s.inFlight, q.2 = r

theorem Progress.settle (hreg : h.registry = newRegistry P) (hs : Truthful P s)
    (hprog : Progress P s) {ticket : ℕ} {o : Outcome}
    (he : AnsweredByServer h D s (.settle ticket o)) (hw : t.evaluator = s.evaluator)
    (hj : t.journal = .settled ticket o :: s.journal)
    (hin : t.inFlight = s.inFlight.filter (·.1 ≠ ticket)) : Progress P t := by
  obtain ⟨r, x, hmem, hx, -⟩ := hs.compute_of_answered hreg he
  obtain ⟨q, hq⟩ : ∃ q, s.inFlight = [q] := by
    rcases hprog.inFlight with hnil | hq
    · rw [hnil] at hmem
      cases hmem
    · exact hq
  obtain rfl : (ticket, r) = q := by simpa [hq] using hmem
  have hnil : t.inFlight = [] := by simp [hin, hq]
  refine ⟨hw.trans hprog.evaluator, Or.inl hnil, ?_⟩
  intro r' hr'
  rw [hj] at hr'
  rcases hprog.computed r' hr' with hvalue | ⟨q, hmem', rfl⟩
  · exact Or.inl hvalue
  · rw [hq, List.mem_singleton] at hmem'
    cases hmem'
    exact Or.inl ⟨x, hx⟩

theorem Progress.step (hreg : h.registry = newRegistry P) (hs : Truthful P s)
    (hprog : Progress P s) (he : AnsweredByServer h D s e) (hstep : Step s e t) :
    Progress P t := by
  cases hstep with
  | busy _ _ | noRetry _ _ => exact hprog
  | edit _ _ => exact ⟨hprog.evaluator, hprog.inFlight, hprog.computed⟩
  | @send k r _ _ _ =>
    have hnil : s.inFlight = [] := he
    have hin : (s.sending (Engine.press s.calcState k).state r).inFlight = [(s.ticket + 1, r)] := by
      rw [Session.sending, hnil]
    refine ⟨hprog.evaluator, Or.inr ⟨_, hin⟩, ?_⟩
    intro r' hr'
    rcases List.mem_cons.mp hr' with rfl | hr'
    · exact Or.inr ⟨(s.ticket + 1, r'), by rw [hin]; exact List.mem_cons_self, rfl⟩
    · rcases hprog.computed r' hr' with hvalue | ⟨q, hmem, -⟩
      · exact Or.inl hvalue
      · rw [hnil] at hmem
        cases hmem
  | sendUnanswered _ _ hw =>
    rw [hprog.evaluator] at hw
    cases hw
  | recallValue _ | retry _ _ _ _ | retryUnanswered _ _ _ _ | clearAll | setEvaluator _ =>
    exact he.elim
  | answer _ | fail _ | stale _ _ => exact hprog.settle hreg hs he rfl rfl rfl

theorem Computes.computed (hreg : h.registry = newRegistry P) (hrun : Computes h D ks es s) :
    ∀ r ∈ requests s.journal, ∃ x, compute P r = .ok x := by
  have hprog : Progress P s := by
    refine (hrun.run.preserves (I := fun s => (store.Reachable s ∧ Truthful P s) ∧ Progress P s)
      ?_ ⟨truthful_start P, rfl, Or.inl rfl, nofun⟩).2
    rintro s e t ⟨hs, hprog⟩ he hn
    exact ⟨truthful_step hreg hs he hn, hprog.step hreg hs.2 he (step_of_next hn)⟩
  intro r hr
  rcases hprog.computed r hr with hvalue | ⟨q, hmem, -⟩
  · exact hvalue
  · rw [hrun.inFlight] at hmem
    cases hmem

theorem requests_subset_of_next (hn : store.next s e = some t) :
    requests s.journal ⊆ requests t.journal := by
  cases step_of_next hn with
  | busy _ _ | noRetry _ _ | edit _ _ | recallValue _ | setEvaluator _ => exact fun _ h => h
  | send _ _ _ | sendUnanswered _ _ _ | retry _ _ _ _ | retryUnanswered _ _ _ _ =>
    exact fun _ h => List.mem_cons_of_mem _ h
  | clearAll | answer _ | fail _ | stale _ _ => exact fun _ h => h

def InFlightSent (s : Session) : Prop := ∀ q ∈ s.inFlight, q.2 ∈ requests s.journal

theorem InFlightSent.step (hs : InFlightSent s) (hn : store.next s e = some t) :
    InFlightSent t := by
  have hsub := requests_subset_of_next hn
  cases step_of_next hn with
  | busy _ _ | noRetry _ _ | edit _ _ | recallValue _ | setEvaluator _ => exact hs
  | send _ _ _ | retry _ _ _ _ =>
    intro q hq
    rcases List.mem_cons.mp hq with rfl | hq
    · exact List.mem_cons_self
    · exact List.mem_cons_of_mem _ (hs q hq)
  | sendUnanswered _ _ _ | retryUnanswered _ _ _ _ | clearAll => exact fun q hq => hsub (hs q hq)
  | answer _ | fail _ | stale _ _ => exact fun q hq => hs q (List.mem_of_mem_filter hq)

/-- A run whose requests all have a value is one against the server. -/
theorem computes_of_answered (hreg : h.registry = newRegistry P) (D : Reports) (T : Transport)
    (hrun : Answered (computed P) ks es s)
    (hall : ∀ r ∈ requests s.journal, r.Sendable ∧ ∃ x, compute P r = .ok x) :
    Computes h D ks es s := by
  refine ⟨?_, hrun.keys, hrun.inFlight⟩
  have hfinal := (hrun.run.and_final
    (R := fun s t => requests s.journal ⊆ requests t.journal) (fun _ _ h => h)
    fun hn h _ hr => h (requests_subset_of_next hn hr)).2
  refine hfinal.mono_of_invariant (fun hs _ hn => hs.step hn) ?_ (I := InFlightSent) nofun
  intro u e hu he
  obtain ⟨he, hsub⟩ := he
  cases e with
  | key k => exact he
  | settle ticket o =>
    obtain ⟨q, hmem, rfl, rfl⟩ := he
    obtain ⟨hsend, x, hx⟩ := hall q.2 (hsub (hu q hmem))
    refine ⟨q.2, hmem, T, _, rfl, ?_⟩
    rw [exchange_eq hreg D T hsend, hx, computed_of_ok hx]
  | clearAll | retry | recallValue _ | setEvaluator _ => exact he

/-- A program runs through against the server exactly if every request of its
reference evaluation has a value, and then the calculator shows that evaluation. -/
theorem programs_compute (hreg : h.registry = newRegistry P) (D : Reports) (p : Program) :
    ((∃ es s, Computes h D p.keys es s) ↔
      ∀ r ∈ (p.evaluate (computed P) parseEntry).sent, ∃ x, compute P r = .ok x) ∧
    ∀ es s, Computes h D p.keys es s → Shows s (p.evaluate (computed P) parseEntry) := by
  have hshows : ∀ es s, Answered (computed P) p.keys es s →
      Shows s (p.evaluate (computed P) parseEntry) := by
    intro es s hrun
    have hfinished := Engine.Finished.of_keys (proper_computed P) p
    rw [hrun.dialogue] at hfinished
    exact Shows.of_finished hfinished
  refine ⟨⟨?_, ?_⟩, fun es s hrun => hshows es s (hrun.answered hreg)⟩
  · rintro ⟨es, s, hrun⟩ r hr
    rw [← (hshows es s (hrun.answered hreg)).sent, List.mem_reverse] at hr
    exact hrun.computed hreg r hr
  · intro hall
    obtain ⟨es, s, hrun⟩ := Store.exists_answered (computed P) p.keys
    refine ⟨es, s, computes_of_answered hreg D bare hrun ?_⟩
    intro r hr
    rw [← List.mem_reverse, (hshows es s hrun).sent] at hr
    exact ⟨(fitTotal_evaluate (proper_computed P) p).sent r hr, hall r hr⟩

theorem programs_compute_negatedPoint :
    ((∃ es s, Computes unitHandler terse Store.negatedPoint.keys es s) ↔
      ∀ r ∈ (Store.negatedPoint.evaluate (computed unit) parseEntry).sent,
        ∃ x, compute unit r = .ok x) ∧
    ∀ es s, Computes unitHandler terse Store.negatedPoint.keys es s →
      Shows s (Store.negatedPoint.evaluate (computed unit) parseEntry) :=
  programs_compute rfl terse Store.negatedPoint

end Calculator.Wire
