import Calculator.Backend.Validate
import Calculator.Display.FormatNumber
import Calculator.Engine.Spoiled
import Calculator.Store.Journal

/-! # What is sent and shown

As long as no key spoils an entry in exponent form, every request that the
store sends is one the server accepts, and the main line of the display can
always be formatted.
-/

namespace Calculator.Store

open Binary Decimal Ecma Engine Runs Display

def operationText : OperationName → Text
  | .add => "add".toList
  | .subtract => "subtract".toList
  | .multiply => "multiply".toList
  | .divide => "divide".toList
  | .power => "power".toList
  | .sqrt => "sqrt".toList
  | .percent => "percent".toList

/-- An operand as the server decodes it: numbers that are not finite are written
as `null`, which is a missing operand. -/
def wireOperand (x : Float64) : Option Float64 :=
  if x.isFinite then some (number (string x)) else none

def onWire (r : Engine.CalculateRequest) : Backend.CalculateRequest where
  operation := operationText r.operation
  a := wireOperand r.a
  b := r.b.bind wireOperand

variable {P : Backend.Primitives} {isPrint : Char → Bool}

theorem lookup_operationText (P : Backend.Primitives) (op : OperationName) :
    operationText op ≠ [] ∧ ∃ spec,
      Backend.lookup (Backend.newRegistry P) (operationText op) = some spec ∧
      (op = .sqrt → spec.arity = 1) ∧ (op ≠ .sqrt → spec.arity = 2) := by
  cases op <;> exact ⟨nofun, _, rfl, by simp⟩

theorem wireOperand_of_isFinite {x : Float64} (hx : x.isFinite = true) :
    ∃ y, wireOperand x = some y ∧ y.isFinite = true :=
  ⟨number (string x), if_pos hx, (isEntry_string hx).isFinite⟩

theorem validate_onWire {r : Engine.CalculateRequest} (hr : r.Sendable) :
    ∃ spec, Backend.validate (Backend.newRegistry P) isPrint (onWire r) = .ok spec := by
  obtain ⟨hne, spec, hl, h1, h2⟩ := lookup_operationText P r.operation
  refine ⟨spec, Backend.validate_ok_iff.mpr ⟨hne, hl, wireOperand_of_isFinite hr.a, ?_, ?_, ?_⟩⟩
  · intro y hy
    obtain ⟨x, hx, hy⟩ := Option.bind_eq_some_iff.mp hy
    obtain ⟨z, hz, hfin⟩ := wireOperand_of_isFinite (hr.b x hx)
    rw [hz] at hy
    cases hy
    exact hfin
  · intro har
    have hop : r.operation ≠ .sqrt := fun hop => by rw [h1 hop] at har; cases har
    obtain ⟨x, hx⟩ := Option.ne_none_iff_exists'.mp (mt hr.arity.mp hop)
    obtain ⟨y, hy, -⟩ := wireOperand_of_isFinite (hr.b x hx)
    simp [onWire, hx, hy]
  · intro har
    have hop : r.operation = .sqrt := by
      by_contra hop
      rw [h2 hop] at har
      cases har
    simp [onWire, hr.arity.mpr hop]

/-- Recalled values and answers are finite. -/
def FiniteEvent : Event → Prop
  | .recallValue value => value.isFinite = true
  | .settle _ (.answer response) => response.result.isFinite = true
  | _ => True

instance : (e : Event) → Decidable (FiniteEvent e)
  | .recallValue value => inferInstanceAs (Decidable (value.isFinite = true))
  | .settle _ (.answer response) => inferInstanceAs (Decidable (response.result.isFinite = true))
  | .key _ | .clearAll | .retry | .setEvaluator _ | .settle _ (.failure _) =>
    inferInstanceAs (Decidable True)

/-- No key spoils an entry in exponent form. -/
def KeysFit (s : Session) : Event → Prop
  | .key k => s.pending = false → KeyFits s.calcState k
  | _ => True

instance (s : Session) : (e : Event) → Decidable (KeysFit s e)
  | .key k => inferInstanceAs (Decidable (_ → KeyFits s.calcState k))
  | .clearAll | .retry | .recallValue _ | .setEvaluator _ | .settle _ _ =>
    inferInstanceAs (Decidable True)

/-- Every number the store holds, and every one it has sent, is finite. -/
structure Finite (s : Session) : Prop where
  calcState : Readable s.calcState
  lastSent : ∀ r ∈ s.lastSentRequest, r.Sendable
  requests : ∀ r ∈ requests s.journal, r.Sendable

variable {s t : Session} {e : Event} {es : List Event}

theorem finite_fresh (evaluator : Bool) : Finite (fresh evaluator) :=
  ⟨readable_initialState, nofun, nofun⟩

namespace Finite

theorem sending (h : Finite s) {c : CalcState} (hc : Readable c) {r : Engine.CalculateRequest}
    (hr : r.Sendable) : Finite (s.sending c r) :=
  ⟨hc, by simpa [Session.sending] using hr, List.forall_mem_cons.mpr ⟨hr, h.requests⟩⟩

theorem unanswered (h : Finite s) {c : CalcState} (hc : Readable c) {r : Engine.CalculateRequest}
    (hr : r.Sendable) : Finite (s.unanswered c r) :=
  ⟨hc.applyError _, by simpa [Session.unanswered] using hr,
    List.forall_mem_cons.mpr ⟨hr, h.requests⟩⟩

theorem step (h : Finite s) (hfit : KeysFit s e) (hfin : FiniteEvent e) (hstep : Step s e t) :
    Finite t := by
  cases hstep with
  | busy _ _ => exact h
  | edit hp _ => exact ⟨(h.calcState.press (hfit hp)).state, h.lastSent, h.requests⟩
  | send hp he _ =>
    have hpress := h.calcState.press (hfit hp)
    exact h.sending hpress.state (hpress.effect _ he)
  | sendUnanswered hp he _ =>
    have hpress := h.calcState.press (hfit hp)
    exact h.unanswered hpress.state (hpress.effect _ he)
  | noRetry _ _ => exact h
  | retry _ _ hl _ => exact h.sending h.calcState (h.lastSent _ hl)
  | retryUnanswered _ _ hl _ => exact h.unanswered h.calcState (h.lastSent _ hl)
  | recallValue _ => exact ⟨readable_initial (isEntry_string hfin) _, h.lastSent, h.requests⟩
  | clearAll =>
    refine ⟨?_, h.lastSent, h.requests⟩
    simpa [Session.clearAll] using readable_initialState
  | setEvaluator _ => exact ⟨h.calcState, h.lastSent, h.requests⟩
  | answer _ => exact ⟨h.calcState.applyResult hfin, h.lastSent, h.requests⟩
  | fail _ => exact ⟨h.calcState.applyError _, h.lastSent, h.requests⟩
  | stale _ _ => exact ⟨h.calcState, h.lastSent, h.requests⟩

theorem of_run (hfin : ∀ e ∈ es, FiniteEvent e) (h : store.RunWhen KeysFit (fresh false) es s) :
    Finite s :=
  (h.and_mem hfin).preserves (fun hs hp hn => hs.step hp.1 hp.2 (step_of_next hn))
    (finite_fresh false)

end Finite

/-- With finite values, the numbers stay finite all along exactly if the keys fit. -/
theorem readable_iff_keysFit (hfin : ∀ e ∈ es, FiniteEvent e)
    (h : store.Run (fresh false) es s) :
    (∀ p t, p <+: es → store.Run (fresh false) p t → Readable t.calcState) ↔
      store.RunWhen KeysFit (fresh false) es s := by
  refine Machine.forall_prefix_iff_runWhen_of_mem hfin ?_ ?_ h
  · intro es s hfin h
    exact (Finite.of_run hfin h).calcState
  · intro s e t _ _ hs ht hn
    cases e with
    | key k =>
      intro hp
      rw [keyFits_iff_readable hs]
      cases step_of_next hn with
      | busy _ hb => rw [hp] at hb; cases hb
      | edit _ _ => exact ht
      | send _ _ _ => exact ht
      | sendUnanswered _ _ _ =>
        rw [Session.unanswered, applyError_eq] at ht
        exact ⟨ht.display, ht.a, ht.lastRequest⟩
    | clearAll | retry | recallValue _ | setEvaluator _ | settle _ _ => trivial

/-- In a run with finite values in which no key spoils an entry in exponent
form, the server accepts every request that was sent. -/
theorem requests_are_accepted (P : Backend.Primitives) (isPrint : Char → Bool)
    (hfin : ∀ e ∈ es, FiniteEvent e) (h : store.RunWhen KeysFit (fresh false) es s) :
    ∀ r ∈ requests s.journal, r.Sendable ∧
      ∃ spec, Backend.validate (Backend.newRegistry P) isPrint (onWire r) = .ok spec := by
  intro r hr
  have hsend := (Finite.of_run hfin h).requests r hr
  exact ⟨hsend, validate_onWire hsend⟩

/-- In such a run the main line is always formatted, and what is not being
typed reads as a finite number. -/
theorem main_line_is_formatted (hfin : ∀ e ∈ es, FiniteEvent e)
    (h : store.RunWhen KeysFit (fresh false) es s) :
    (∃ t, formatMainValue s.calcState.display s.calcState.phase.entering = .ok t) ∧
      (s.calcState.phase.entering = false → (number s.calcState.display).isFinite = true) := by
  have hdisplay := (Finite.of_run hfin h).calcState.display
  refine ⟨formatMainValue_ok_iff.mpr (Or.inr ?_), fun _ => hdisplay.isFinite⟩
  rw [hdisplay.filter_comma]
  exact hdisplay.isFinite

def tenBillionth : Float64 := .ofRat false (1 / 10 ^ 10)

/-- An entry in exponent form that is still readable after one deletion. -/
def editedRecall : List Event :=
  [.setEvaluator true, .recallValue tenBillionth, .key .backspace, .key (.unary .sqrt),
    .settle 1 (.answer ⟨one⟩)]

theorem editedRecall_finite : ∀ e ∈ editedRecall, FiniteEvent e := by decide +kernel

theorem editedRecall_isSome : (store.replayWhen KeysFit (fresh false) editedRecall).isSome := by
  decide +kernel

def noPrimitives : Backend.Primitives :=
  ⟨fun _ _ => .nan, fun _ _ => .nan, fun _ _ => .nan, fun _ _ => .nan, fun _ _ => .nan,
    fun _ => .nan⟩

theorem requests_are_accepted_editedRecall :
    let r : Engine.CalculateRequest := ⟨.sqrt, .ofRat false (1 / 10), none⟩
    r.Sendable ∧ ∃ spec, Backend.validate (Backend.newRegistry noPrimitives) (fun _ => true)
      (onWire r) = .ok spec :=
  requests_are_accepted noPrimitives (fun _ => true) editedRecall_finite
    (Machine.runWhen_replayWhen_get editedRecall_isSome) _ (by decide +kernel)

theorem main_line_is_formatted_editedRecall :
    let s := (store.replayWhen KeysFit (fresh false) editedRecall).get editedRecall_isSome
    (∃ t, formatMainValue s.calcState.display s.calcState.phase.entering = .ok t) ∧
      (s.calcState.phase.entering = false → (number s.calcState.display).isFinite = true) :=
  main_line_is_formatted editedRecall_finite (Machine.runWhen_replayWhen_get editedRecall_isSome)

def tenMillionth : Float64 := .ofRat false (1 / 10 ^ 7)

/-- The deletion leaves `1e-`, which is not a number. -/
theorem spoiled_entry_is_sent :
    ¬ ∀ (es : List Event) (s : Session), (∀ e ∈ es, FiniteEvent e) →
      store.Run (fresh false) es s → ∀ r ∈ requests s.journal,
        ∃ spec, Backend.validate (Backend.newRegistry noPrimitives) (fun _ => true) (onWire r) =
          .ok spec := by
  intro h
  obtain ⟨s, hs, hp⟩ : ∃ s, store.Run (fresh false)
      [.setEvaluator true, .recallValue tenMillionth, .key .backspace, .key (.unary .sqrt)] s ∧
      (requests s.journal == [⟨.sqrt, .nan, none⟩]) = true :=
    Machine.exists_run_of_replay (by decide +kernel)
  have hreq : requests s.journal = [⟨.sqrt, .nan, none⟩] := by simpa using hp
  obtain ⟨spec, hspec⟩ := h _ s (by decide +kernel) hs ⟨.sqrt, .nan, none⟩ (by simp [hreq])
  obtain ⟨-, -, ⟨a, ha, -⟩, -⟩ := Backend.validate_ok_iff.mp hspec
  cases ha

/-- After `=` the display is the text of a number that is not finite. -/
theorem spoiled_entry_is_shown :
    ¬ ∀ (es : List Event) (s : Session), (∀ e ∈ es, FiniteEvent e) →
      store.Run (fresh false) es s →
        ∃ t, formatMainValue s.calcState.display s.calcState.phase.entering = .ok t := by
  intro h
  obtain ⟨s, hs, hp⟩ : ∃ s, store.Run (fresh false)
      [.setEvaluator true, .recallValue tenMillionth, .key .backspace, .key .evaluate] s ∧
      decide (s.calcState.phase.entering = false ∧
        (number (s.calcState.display.filter (· ≠ ','))).isFinite = false) = true :=
    Machine.exists_run_of_replay (by decide +kernel)
  obtain ⟨hphase, hnan⟩ := of_decide_eq_true hp
  rcases formatMainValue_ok_iff.mp (h _ s (by decide +kernel) hs) with h' | h'
  · rw [hphase] at h'
    cases h'
  · rw [hnan] at h'
    cases h'

end Calculator.Store
