import Calculator.Engine.Transitions

/-! # Finite operands

The display of the engine reads as a finite number and every operand it holds
is finite, as long as no key makes an unreadable text of an entry in exponent
form. Every request then has finite operands, as many as its operation takes.
-/

namespace Calculator.Engine

open Binary Decimal Ecma

/-- Two operands for every operation but `sqrt`, and no operand that is not finite. -/
structure CalculateRequest.Sendable (r : CalculateRequest) : Prop where
  a : r.a.isFinite = true
  b : ∀ x ∈ r.b, x.isFinite = true
  arity : r.b = none ↔ r.operation = .sqrt

/-- The key does not spoil an entry in exponent form. -/
def KeyFits (c : CalcState) (k : Key) : Prop :=
  c.phase.entering = true → match k with
    | .digit d => DigitFits c.display d
    | .decimal => PointFits c.display
    | .backspace => BackspaceFits c.display
    | _ => True

instance (c : CalcState) : (k : Key) → Decidable (KeyFits c k)
  | .digit d => inferInstanceAs (Decidable (_ → DigitFits c.display d))
  | .decimal => inferInstanceAs (Decidable (_ → PointFits c.display))
  | .backspace => inferInstanceAs (Decidable (_ → BackspaceFits c.display))
  | .toggleSign | .clearEntry | .operator _ | .evaluate | .unary _ =>
    inferInstanceAs (Decidable (_ → True))

structure Readable (c : CalcState) : Prop where
  display : IsEntry c.display
  a : ∀ x ∈ c.a, x.isFinite = true
  lastRequest : ∀ r ∈ c.lastRequest, r.Sendable

structure Transition.Readable (t : Transition) : Prop where
  state : Engine.Readable t.state
  effect : ∀ r ∈ t.effect, r.Sendable

theorem readable_stay {c : CalcState} (h : Readable c) : (stay c).Readable :=
  ⟨h, by simp⟩

theorem readable_emit {c : CalcState} {r : CalculateRequest} (h : Readable c) (hr : r.Sendable) :
    (emit c r).Readable :=
  ⟨h, by simpa using hr⟩

theorem readable_initial {display : Text} (h : IsEntry display) (p : Phase) :
    Readable { initialState with phase := p, display := display } :=
  ⟨h, by simp [initialState], by simp [initialState]⟩

theorem readable_initialState : Readable initialState := readable_initial isEntry_zero .idle

theorem sendable_sqrtRequest {x : Float64} (hx : x.isFinite = true) : (sqrtRequest x).Sendable :=
  ⟨hx, by simp [sqrtRequest], by simp [sqrtRequest]⟩

theorem sendable_percentRequest {x y : Float64} (hx : x.isFinite = true) (hy : y.isFinite = true) :
    (percentRequest x y).Sendable :=
  ⟨hx, by simpa [percentRequest] using hy, by simp [percentRequest]⟩

theorem isFinite_one : one.isFinite = true := by decide +kernel

theorem sendable_unaryRequest (op : UnaryKey) {x : Float64} (hx : x.isFinite = true) :
    (unaryRequest op x).Sendable := by
  unfold unaryRequest
  split
  · exact sendable_sqrtRequest hx
  · exact sendable_percentRequest hx isFinite_one

theorem isFinite_getD {a : Option Float64} (ha : ∀ x ∈ a, x.isFinite = true) :
    (a.getD .zero).isFinite = true := by
  cases a with
  | none => rfl
  | some x => exact ha x rfl

theorem sendable_binaryRequest (op : Option BinaryOperation) {a : Option Float64} {b : Float64}
    (ha : ∀ x ∈ a, x.isFinite = true) (hb : b.isFinite = true) :
    (binaryRequest op a b).Sendable :=
  ⟨isFinite_getD ha, by simpa [binaryRequest] using hb, by simp [binaryRequest, name_ne_sqrt]⟩

theorem isFinite_negate {a : Option Float64} (ha : ∀ x ∈ a, x.isFinite = true) :
    (negate a).isFinite = true := by
  rw [negate, Float64.isFinite_withoutNegativeZero, Float64.isFinite_neg]
  exact isFinite_getD ha

theorem CalculateRequest.Sendable.repeat {r : CalculateRequest} (h : r.Sendable) {x : Float64}
    (hx : x.isFinite = true) : CalculateRequest.Sendable { r with a := x } :=
  ⟨hx, h.b, h.arity⟩

variable {c : CalcState}

theorem readable_inputDigit (h : Readable c) {d : Digit} (hfit : KeyFits c (.digit d)) :
    (inputDigit c d).Readable := by
  have h0 : IsEntry (appendDigit ['0'] d) := isEntry_zero.appendDigit fun hp => by simp at hp
  unfold inputDigit
  split
  · exact readable_stay (readable_initial h0 _)
  · exact readable_stay (readable_initial h0 _)
  · exact readable_stay (readable_initial h0 _)
  · next hp =>
    exact readable_stay ⟨h.display.appendDigit (hfit (by rw [hp]; rfl)), h.a, h.lastRequest⟩
  · next hp =>
    exact readable_stay ⟨h.display.appendDigit (hfit (by rw [hp]; rfl)), h.a, h.lastRequest⟩
  · exact readable_stay ⟨h0, h.a, h.lastRequest⟩

theorem readable_inputDecimal (h : Readable c) (hfit : KeyFits c .decimal) :
    (inputDecimal c).Readable := by
  unfold inputDecimal
  split
  · exact readable_stay (readable_initial isEntry_zero_point _)
  · exact readable_stay (readable_initial isEntry_zero_point _)
  · exact readable_stay (readable_initial isEntry_zero_point _)
  · next hp =>
    exact readable_stay ⟨h.display.appendDecimal (hfit (by rw [hp]; rfl)), h.a, h.lastRequest⟩
  · next hp =>
    exact readable_stay ⟨h.display.appendDecimal (hfit (by rw [hp]; rfl)), h.a, h.lastRequest⟩
  · exact readable_stay ⟨isEntry_zero_point, h.a, h.lastRequest⟩

theorem readable_toggleSign (h : Readable c) : (toggleSign c).Readable := by
  have hn := isFinite_negate h.a
  unfold toggleSign
  split
  · exact readable_stay readable_initialState
  · exact readable_stay readable_initialState
  · exact readable_stay ⟨h.display.toggleEntrySign, h.a, h.lastRequest⟩
  · exact readable_stay ⟨h.display.toggleEntrySign, h.a, h.lastRequest⟩
  · exact readable_stay ⟨isEntry_string hn, by simpa using hn, h.lastRequest⟩
  · exact readable_stay ⟨isEntry_string hn, by simpa using hn, h.lastRequest⟩

theorem readable_backspace (h : Readable c) (hfit : KeyFits c .backspace) :
    (backspace c).Readable := by
  unfold backspace
  split
  · exact readable_stay readable_initialState
  · exact readable_stay readable_initialState
  · next hp =>
    exact readable_stay ⟨h.display.dropLastChar (hfit (by rw [hp]; rfl)), h.a, h.lastRequest⟩
  · next hp =>
    exact readable_stay ⟨h.display.dropLastChar (hfit (by rw [hp]; rfl)), h.a, h.lastRequest⟩
  · exact readable_stay h
  · exact readable_stay h

theorem readable_clearEntry (h : Readable c) : (clearEntry c).Readable := by
  unfold clearEntry
  split
  · exact readable_stay readable_initialState
  · exact readable_stay readable_initialState
  · exact readable_stay readable_initialState
  · exact readable_stay readable_initialState
  · exact readable_stay h
  · exact readable_stay ⟨isEntry_string (isFinite_getD h.a), h.a, h.lastRequest⟩

theorem readable_setOperator (h : Readable c) (op : BinaryOperation) :
    (setOperator c op).Readable := by
  have he := h.display.isFinite_parseEntry
  unfold setOperator
  split
  · exact readable_stay ⟨isEntry_zero, by simp, by simp [initialState]⟩
  · exact readable_stay ⟨isEntry_zero, by simp, by simp [initialState]⟩
  · exact readable_stay ⟨isEntry_string he, by simpa using he, h.lastRequest⟩
  · exact readable_stay ⟨h.display, h.a, h.lastRequest⟩
  · exact readable_stay ⟨h.display, h.a, h.lastRequest⟩
  · exact readable_emit ⟨h.display, by simp, h.lastRequest⟩ (sendable_binaryRequest _ h.a he)

theorem readable_requestEvaluate (h : Readable c) : (requestEvaluate c).Readable := by
  have ha := isFinite_getD h.a
  have he := h.display.isFinite_parseEntry
  unfold requestEvaluate
  split
  · exact readable_stay readable_initialState
  · exact readable_stay readable_initialState
  · exact readable_stay ⟨isEntry_string he, by simpa using he, by simp [initialState]⟩
  · have hr := sendable_binaryRequest c.operator (a := some (c.a.getD .zero)) (by simpa using ha) ha
    exact readable_emit ⟨h.display, h.a, by simpa using hr⟩ hr
  · have hr := sendable_binaryRequest c.operator h.a he
    exact readable_emit ⟨h.display, h.a, by simpa using hr⟩ hr
  · split
    · exact readable_stay h
    · next last hlast =>
      have hr := (h.lastRequest last hlast).repeat ha
      exact readable_emit ⟨h.display, h.a, by simpa using hr⟩ hr

theorem readable_applyUnary (h : Readable c) (op : UnaryKey) : (applyUnary c op).Readable := by
  have ha := isFinite_getD h.a
  have he := h.display.isFinite_parseEntry
  unfold applyUnary
  split
  · exact readable_emit (readable_initial isEntry_zero _) (sendable_unaryRequest op rfl)
  · exact readable_emit (readable_initial isEntry_zero _) (sendable_unaryRequest op rfl)
  · exact readable_emit ⟨h.display, h.a, h.lastRequest⟩ (sendable_unaryRequest op he)
  · exact readable_emit h (sendable_unaryRequest op ha)
  · exact readable_emit h (sendable_unaryRequest op ha)
  · apply readable_emit h
    split
    · exact sendable_sqrtRequest he
    · exact sendable_percentRequest ha he

/-- A key that does not spoil an entry keeps every operand finite. -/
theorem Readable.press (h : Readable c) {k : Key} (hfit : KeyFits c k) :
    (press c k).Readable := by
  cases k with
  | digit d => exact readable_inputDigit h hfit
  | decimal => exact readable_inputDecimal h hfit
  | toggleSign => exact readable_toggleSign h
  | backspace => exact readable_backspace h hfit
  | clearEntry => exact readable_clearEntry h
  | operator op => exact readable_setOperator h op
  | evaluate => exact readable_requestEvaluate h
  | unary op => exact readable_applyUnary h op

theorem Readable.applyResult (h : Readable c) {response : CalculateResponse}
    (hr : response.result.isFinite = true) : Readable (applyResult c response).state := by
  unfold Engine.applyResult
  split
  · exact ⟨isEntry_string hr, h.a, h.lastRequest⟩
  · exact ⟨isEntry_string hr, h.a, h.lastRequest⟩
  · exact ⟨isEntry_string hr, by simpa using hr, h.lastRequest⟩
  · exact ⟨isEntry_string hr, by simpa using hr, h.lastRequest⟩
  · exact ⟨isEntry_string hr, by simpa using hr, by simp [initialState]⟩
  · exact ⟨isEntry_string hr, by simpa using hr, by simp [initialState]⟩

theorem Readable.applyError (h : Readable c) (message : Text) :
    Readable (applyError c message).state := by
  rw [applyError_eq]
  exact ⟨h.display, h.a, h.lastRequest⟩

end Calculator.Engine
