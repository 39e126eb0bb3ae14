import Calculator.Engine.Transitions

/-! # The states of the engine

The states the engine can be in while nothing is pending, and those in which it
waits for the answer to a request. Every key leads from a state of the first
kind to one of the two, and every answer or failure leads back.
-/

namespace Calculator.Engine

open Binary Decimal Ecma

structure Evaluation where
  operator : BinaryOperation
  a : Float64
  b : Float64

def Evaluation.request (e : Evaluation) : CalculateRequest := ⟨e.operator.name, e.a, some e.b⟩

inductive Settled : CalcState → Prop
  | idle : Settled initialState
  | enteringA (display : Text) :
    Settled { initialState with phase := .enteringA, display := display }
  | operatorSelected (a : Float64) (op : BinaryOperation) (last : Option Evaluation) :
    Settled ⟨.operatorSelected, toDisplay a, some a, none, some op, none,
      last.map Evaluation.request⟩
  | enteringB (display : Text) (a : Float64) (op : BinaryOperation) (last : Option Evaluation) :
    Settled ⟨.enteringB, display, some a, none, some op, none, last.map Evaluation.request⟩
  /-- A number that no `=` computed. -/
  | frozen (a : Float64) :
    Settled { initialState with phase := .result, a := some a, display := toDisplay a }
  | evaluated (a : Float64) (op : BinaryOperation) (last : Evaluation) :
    Settled ⟨.result, toDisplay a, some a, none, some op, none, some last.request⟩
  | error (display : Text) (a b : Option Float64) (op : Option BinaryOperation) (message : Text)
      (last : Option Evaluation) :
    Settled ⟨.error, display, a, b, op, some message, last.map Evaluation.request⟩

/-- The states in which the answer to a request is awaited. -/
inductive Awaiting : CalcState → Prop
  /-- An operator key finishes the pending operation first. -/
  | chain (display : Text) (op : BinaryOperation) (last : Option Evaluation) :
    Awaiting ⟨.operatorSelected, display, none, none, some op, none,
      last.map Evaluation.request⟩
  | evaluate (display : Text) (a : Float64) (b : Option Float64) (op : BinaryOperation)
      (last : Evaluation) :
    Awaiting ⟨.result, display, some a, b, some op, none, some last.request⟩
  /-- `√` or `%` on a first operand. -/
  | first (display : Text) : Awaiting { initialState with phase := .result, display := display }
  /-- `√` or `%` on another operand, or a request sent again. -/
  | settled {c : CalcState} (h : Settled c) : Awaiting c

/-- A transition without a request ends in a settled state. -/
def Transition.Sound (t : Transition) : Prop :=
  match t.effect with
  | none => Settled t.state
  | some _ => Awaiting t.state

variable {c : CalcState}

theorem Settled.press (h : Settled c) (k : Key) : (press c k).Sound := by
  cases h with
  | idle =>
    cases k with
    | digit d => exact Settled.enteringA _
    | decimal => exact Settled.enteringA _
    | toggleSign | backspace | clearEntry | evaluate => exact Settled.idle
    | operator op => exact Settled.operatorSelected .zero op none
    | unary u => exact Awaiting.first _
  | enteringA display =>
    cases k with
    | digit d => exact Settled.enteringA _
    | decimal | toggleSign | backspace => exact Settled.enteringA _
    | clearEntry => exact Settled.idle
    | evaluate => exact Settled.frozen _
    | operator op => exact Settled.operatorSelected _ op none
    | unary u => exact Awaiting.first _
  | operatorSelected a op last =>
    cases k with
    | digit d => exact Settled.enteringB _ a op last
    | decimal => exact Settled.enteringB _ a op last
    | toggleSign => exact Settled.operatorSelected (negate (some a)) op last
    | backspace | clearEntry => exact Settled.operatorSelected a op last
    | operator op' => exact Settled.operatorSelected a op' last
    | evaluate => exact Awaiting.evaluate _ a (some a) op ⟨op, a, a⟩
    | unary u => exact Awaiting.settled (.operatorSelected a op last)
  | enteringB display a op last =>
    cases k with
    | digit d => exact Settled.enteringB _ a op last
    | decimal | toggleSign | backspace => exact Settled.enteringB _ a op last
    | clearEntry => exact Settled.operatorSelected a op last
    | operator op' => exact Awaiting.chain display op' last
    | evaluate => exact Awaiting.evaluate display a _ op ⟨op, a, parseEntry display⟩
    | unary u => exact Awaiting.settled (.enteringB display a op last)
  | frozen a =>
    cases k with
    | digit d => exact Settled.enteringA _
    | decimal => exact Settled.enteringA _
    | toggleSign => exact Settled.frozen (negate (some a))
    | backspace | evaluate => exact Settled.frozen a
    | clearEntry => exact Settled.idle
    | operator op => exact Settled.operatorSelected a op none
    | unary u => exact Awaiting.settled (.frozen a)
  | evaluated a op last =>
    cases k with
    | digit d => exact Settled.enteringA _
    | decimal => exact Settled.enteringA _
    | toggleSign => exact Settled.evaluated (negate (some a)) op last
    | backspace => exact Settled.evaluated a op last
    | clearEntry => exact Settled.idle
    | operator op' => exact Settled.operatorSelected a op' (some last)
    | evaluate => exact Awaiting.evaluate _ a none op ⟨last.operator, a, last.b⟩
    | unary u => exact Awaiting.settled (.evaluated a op last)
  | error display a b op message last =>
    cases k with
    | digit d => exact Settled.enteringA _
    | decimal => exact Settled.enteringA _
    | toggleSign | backspace | clearEntry | evaluate => exact Settled.idle
    | operator op => exact Settled.operatorSelected .zero op none
    | unary u => exact Awaiting.first _

theorem Settled.applyResult (h : Settled c) (response : CalculateResponse) :
    Settled (applyResult c response).state := by
  cases h with
  | idle => exact Settled.frozen _
  | enteringA display => exact Settled.enteringA _
  | operatorSelected a op last => exact Settled.operatorSelected _ op last
  | enteringB display a op last => exact Settled.enteringB _ a op last
  | frozen a => exact Settled.frozen _
  | evaluated a op last => exact Settled.evaluated _ op last
  | error display a b op message last => exact Settled.frozen _

theorem Awaiting.applyResult (h : Awaiting c) (response : CalculateResponse) :
    Settled (applyResult c response).state := by
  cases h with
  | chain display op last => exact Settled.operatorSelected _ op last
  | evaluate display a b op last => exact Settled.evaluated _ op last
  | first display => exact Settled.frozen _
  | settled h => exact h.applyResult response

theorem Settled.applyError (h : Settled c) (message : Text) :
    Settled (applyError c message).state := by
  rw [applyError_eq]
  cases h with
  | idle | enteringA display | frozen a => exact Settled.error _ _ _ _ message none
  | operatorSelected a op last => exact Settled.error _ _ _ _ message last
  | enteringB display a op last => exact Settled.error _ _ _ _ message last
  | evaluated a op last => exact Settled.error _ _ _ _ message (some last)
  | error display a b op _ last => exact Settled.error _ _ _ _ message last

theorem Awaiting.applyError (h : Awaiting c) (message : Text) :
    Settled (applyError c message).state := by
  cases h with
  | chain display op last => exact Settled.error _ _ _ _ message last
  | evaluate display a b op last => exact Settled.error _ _ _ _ message (some last)
  | first display => exact Settled.error _ _ _ _ message none
  | settled h => exact h.applyError message

structure WellFormed (c : CalcState) : Prop where
  idle : c.phase = .idle → c = initialState
  operator : c.phase = .operatorSelected ∨ c.phase = .enteringB → c.operator ≠ none ∧ c.a ≠ none
  result : c.phase = .result → c.a ≠ none
  display : c.phase = .operatorSelected ∨ c.phase = .result →
    ∃ a, c.a = some a ∧ c.display = toDisplay a
  error : c.error ≠ none ↔ c.phase = .error
  lastRequest : ∀ r ∈ c.lastRequest, (∃ op : BinaryOperation, r.operation = op.name) ∧ r.b ≠ none

theorem binary_of_mem {last : Option Evaluation} {r : CalculateRequest}
    (h : r ∈ last.map Evaluation.request) :
    (∃ op : BinaryOperation, r.operation = op.name) ∧ r.b ≠ none := by
  obtain ⟨e, -, rfl⟩ := Option.map_eq_some_iff.mp h
  exact ⟨⟨e.operator, rfl⟩, by simp [Evaluation.request]⟩

theorem Settled.wellFormed (h : Settled c) : WellFormed c := by
  cases h with
  | idle => constructor <;> simp [initialState]
  | enteringA display => constructor <;> simp [initialState]
  | operatorSelected a op last =>
    exact ⟨nofun, by simp, nofun, fun _ => ⟨a, rfl, rfl⟩, by simp, fun r hr => binary_of_mem hr⟩
  | enteringB display a op last =>
    exact ⟨nofun, by simp, nofun, by simp, by simp, fun r hr => binary_of_mem hr⟩
  | frozen a =>
    exact ⟨nofun, by simp, by simp, fun _ => ⟨a, rfl, rfl⟩, by simp [initialState], nofun⟩
  | evaluated a op last =>
    refine ⟨nofun, by simp, by simp, fun _ => ⟨a, rfl, rfl⟩, by simp, fun r hr => ?_⟩
    have hr' : r ∈ (some last).map Evaluation.request := hr
    exact binary_of_mem hr'
  | error display a b op message last =>
    exact ⟨nofun, by simp, nofun, by simp, by simp, fun r hr => binary_of_mem hr⟩

/-- The state with something in place of a missing operator or operand. -/
def CalcState.fill (c : CalcState) (op : BinaryOperation) (x : Float64) : CalcState :=
  { c with operator := some (c.operator.getD op), a := some (c.a.getD x) }

/-- No request depends on what stands in for a missing operator or operand. -/
theorem Settled.effect_fill (h : Settled c) (op : BinaryOperation) (x : Float64) (k : Key) :
    (Engine.press (c.fill op x) k).effect = (Engine.press c k).effect := by
  cases h with
  | idle => cases k <;> rfl
  | enteringA display => cases k <;> rfl
  | operatorSelected a op' last => cases k <;> rfl
  | enteringB display a op' last => cases k <;> rfl
  | frozen a => cases k <;> rfl
  | evaluated a op' last => cases k <;> rfl
  | error display a b op' message last => cases k <;> rfl

/-- The second operand is missing for `sqrt`, and for nothing else. -/
def CalculateRequest.FitsArity (r : CalculateRequest) : Prop := r.b = none ↔ r.operation = .sqrt

/-- A transition sends no request that has too many or too few operands. -/
def Transition.FitsArity (t : Transition) : Prop := ∀ r ∈ t.effect, r.FitsArity

theorem fitsArity_stay (c : CalcState) : (stay c).FitsArity := nofun

theorem fitsArity_emit (c : CalcState) {r : CalculateRequest} (hr : r.FitsArity) :
    (emit c r).FitsArity := by
  rintro _ ⟨⟩
  exact hr

theorem fitsArity_binaryRequest (op : Option BinaryOperation) (a : Option Float64) (b : Float64) :
    (binaryRequest op a b).FitsArity :=
  ⟨nofun, fun h => absurd h (name_ne_sqrt _)⟩

theorem fitsArity_percentRequest (a b : Float64) : (percentRequest a b).FitsArity := ⟨nofun, nofun⟩

theorem fitsArity_sqrtRequest (a : Float64) : (sqrtRequest a).FitsArity :=
  ⟨fun _ => rfl, fun _ => rfl⟩

theorem fitsArity_unaryRequest (op : UnaryKey) (x : Float64) : (unaryRequest op x).FitsArity := by
  cases op with
  | sqrt => exact fitsArity_sqrtRequest x
  | percent => exact fitsArity_percentRequest x one

theorem WellFormed.fitsArity_lastRequest (h : WellFormed c) :
    ∀ r ∈ c.lastRequest, r.FitsArity := by
  intro r hr
  obtain ⟨⟨op, hop⟩, hb⟩ := h.lastRequest r hr
  exact ⟨fun hnone => absurd hnone hb, fun hsqrt => absurd (hop.symm.trans hsqrt) (name_ne_sqrt op)⟩

theorem fitsArity_press (hl : ∀ r ∈ c.lastRequest, r.FitsArity) (k : Key) :
    (press c k).FitsArity := by
  cases k with
  | digit d =>
    rw [press, inputDigit]
    split <;> exact fitsArity_stay _
  | decimal =>
    rw [press, inputDecimal]
    split <;> exact fitsArity_stay _
  | toggleSign =>
    rw [press, toggleSign]
    split <;> exact fitsArity_stay _
  | backspace =>
    rw [press, backspace]
    split <;> exact fitsArity_stay _
  | clearEntry =>
    rw [press, clearEntry]
    split <;> exact fitsArity_stay _
  | operator op =>
    rw [press, setOperator]
    split
    all_goals first
      | exact fitsArity_stay _
      | exact fitsArity_emit _ (fitsArity_binaryRequest _ _ _)
  | evaluate =>
    rw [press, requestEvaluate]
    split
    · exact fitsArity_stay _
    · exact fitsArity_stay _
    · exact fitsArity_stay _
    · exact fitsArity_emit _ (fitsArity_binaryRequest _ _ _)
    · exact fitsArity_emit _ (fitsArity_binaryRequest _ _ _)
    · cases hlast : c.lastRequest with
      | none => exact fitsArity_stay _
      | some last => exact fitsArity_emit _ (hl last hlast)
  | unary op =>
    rw [press, applyUnary]
    split
    · exact fitsArity_emit _ (fitsArity_unaryRequest op _)
    · exact fitsArity_emit _ (fitsArity_unaryRequest op _)
    · exact fitsArity_emit _ (fitsArity_unaryRequest op _)
    · exact fitsArity_emit _ (fitsArity_unaryRequest op _)
    · exact fitsArity_emit _ (fitsArity_unaryRequest op _)
    · apply fitsArity_emit
      split
      · exact fitsArity_sqrtRequest _
      · exact fitsArity_percentRequest _ _

end Calculator.Engine
