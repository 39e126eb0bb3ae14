import Calculator.Engine.Entry

/-! # The engine

The calculator as a pure state machine. A key gives the next state and, if it
asks for a calculation, the request to perform; the answer or the failure is
fed back in by `applyResult` and `applyError`. The phase says what the next key
means, and while a request is in flight it is the phase the answer lands in.
-/

namespace Calculator.Engine

open Binary Decimal Ecma

inductive OperationName where
  | add | subtract | multiply | divide | power | sqrt | percent
  deriving DecidableEq

inductive BinaryOperation where
  | add | subtract | multiply | divide | power
  deriving DecidableEq

def BinaryOperation.name : BinaryOperation → OperationName
  | .add => .add
  | .subtract => .subtract
  | .multiply => .multiply
  | .divide => .divide
  | .power => .power

theorem name_ne_sqrt (op : BinaryOperation) : op.name ≠ .sqrt := by cases op <;> decide

theorem name_ne_percent (op : BinaryOperation) : op.name ≠ .percent := by cases op <;> decide

/-- Keys that act on the value already on the display. -/
inductive UnaryKey where
  | sqrt | percent
  deriving DecidableEq

structure CalculateRequest where
  operation : OperationName
  a : Float64
  b : Option Float64
  deriving DecidableEq

structure CalculateResponse where
  result : Float64
  deriving DecidableEq

inductive Phase where
  | idle | enteringA | operatorSelected | enteringB | result | error
  deriving DecidableEq

structure CalcState where
  phase : Phase
  display : Text
  a : Option Float64
  b : Option Float64
  operator : Option BinaryOperation
  error : Option Text
  lastRequest : Option CalculateRequest
  deriving DecidableEq

def initialState : CalcState where
  phase := .idle
  display := ['0']
  a := none
  b := none
  operator := none
  error := none
  lastRequest := none

/-- The next state, and the request that the caller must perform, if any. -/
structure Transition where
  state : CalcState
  effect : Option CalculateRequest

def stay (state : CalcState) : Transition := ⟨state, none⟩

def emit (state : CalcState) (request : CalculateRequest) : Transition := ⟨state, some request⟩

def operationSymbol : OperationName → Text
  | .add => ['+']
  | .subtract => ['−']
  | .multiply => ['×']
  | .divide => ['÷']
  | .power => ['^']
  | .sqrt => ['√']
  | .percent => ['%']

def negate (value : Option Float64) : Float64 := (value.getD .zero).neg.withoutNegativeZero

def binaryRequest (operator : Option BinaryOperation) (a : Option Float64) (b : Float64) :
    CalculateRequest :=
  ⟨(operator.getD .add).name, a.getD .zero, some b⟩

def sqrtRequest (a : Float64) : CalculateRequest := ⟨.sqrt, a, none⟩

def percentRequest (a b : Float64) : CalculateRequest := ⟨.percent, a, some b⟩

def one : Float64 := .ofRat false 1

def unaryRequest (op : UnaryKey) (value : Float64) : CalculateRequest :=
  if op = .sqrt then sqrtRequest value else percentRequest value one

def inputDigit (state : CalcState) (digit : Digit) : Transition :=
  match state.phase with
  | .idle | .result | .error =>
    stay { initialState with phase := .enteringA, display := appendDigit ['0'] digit }
  | .enteringA | .enteringB => stay { state with display := appendDigit state.display digit }
  | .operatorSelected =>
    stay { state with phase := .enteringB, display := appendDigit ['0'] digit, b := none }

def inputDecimal (state : CalcState) : Transition :=
  match state.phase with
  | .idle | .result | .error =>
    stay { initialState with phase := .enteringA, display := ['0', '.'] }
  | .enteringA | .enteringB => stay { state with display := appendDecimal state.display }
  | .operatorSelected => stay { state with phase := .enteringB, display := ['0', '.'], b := none }

def toggleSign (state : CalcState) : Transition :=
  match state.phase with
  | .idle | .error => stay initialState
  | .enteringA | .enteringB => stay { state with display := toggleEntrySign state.display }
  | .operatorSelected | .result =>
    let value := negate state.a
    stay { state with a := some value, display := toDisplay value }

def backspace (state : CalcState) : Transition :=
  match state.phase with
  | .idle | .error => stay initialState
  | .enteringA | .enteringB => stay { state with display := dropLastChar state.display }
  | .operatorSelected | .result => stay state

def clearEntry (state : CalcState) : Transition :=
  match state.phase with
  | .idle | .enteringA | .result | .error => stay initialState
  | .operatorSelected => stay state
  | .enteringB =>
    stay { state with
      phase := .operatorSelected, display := toDisplay (state.a.getD .zero), b := none }

def clearAll (state : CalcState) : Transition :=
  match state.phase with
  | .idle | .enteringA | .operatorSelected | .enteringB | .result | .error => stay initialState

def setOperator (state : CalcState) (operator : BinaryOperation) : Transition :=
  match state.phase with
  | .idle | .error =>
    stay { initialState with
      phase := .operatorSelected, a := some .zero, operator := some operator }
  | .enteringA =>
    let a := parseEntry state.display
    stay { state with
      phase := .operatorSelected, a := some a, display := toDisplay a, operator := some operator }
  | .operatorSelected => stay { state with operator := some operator }
  | .result => stay { state with phase := .operatorSelected, operator := some operator, b := none }
  | .enteringB =>
    let b := parseEntry state.display
    -- `a` is unknown until the pending operation comes back
    emit { state with
        phase := .operatorSelected, a := none, b := none, operator := some operator }
      (binaryRequest state.operator state.a b)

def requestEvaluate (state : CalcState) : Transition :=
  match state.phase with
  | .idle | .error => stay initialState
  | .enteringA =>
    let a := parseEntry state.display
    stay { initialState with phase := .result, a := some a, display := toDisplay a }
  | .operatorSelected =>
    let a := state.a.getD .zero
    let request := binaryRequest state.operator (some a) a
    emit { state with phase := .result, b := some a, lastRequest := some request } request
  | .enteringB =>
    let b := parseEntry state.display
    let request := binaryRequest state.operator state.a b
    emit { state with phase := .result, b := some b, lastRequest := some request } request
  | .result =>
    match state.lastRequest with
    | none => stay state
    | some last =>
      let request := { last with a := state.a.getD .zero }
      emit { state with lastRequest := some request } request

def applyUnary (state : CalcState) (op : UnaryKey) : Transition :=
  match state.phase with
  | .idle | .error => emit { initialState with phase := .result } (unaryRequest op .zero)
  | .enteringA =>
    emit { state with phase := .result } (unaryRequest op (parseEntry state.display))
  | .operatorSelected | .result => emit state (unaryRequest op (state.a.getD .zero))
  | .enteringB =>
    let entry := parseEntry state.display
    emit state (if op = .sqrt then sqrtRequest entry
      else percentRequest (state.a.getD .zero) entry)

/-- Feed a successful response back in: it replaces the entry while one is
being typed and becomes `a` everywhere else. -/
def applyResult (state : CalcState) (response : CalculateResponse) : Transition :=
  let value := response.result
  match state.phase with
  | .enteringA | .enteringB => stay { state with display := toDisplay value, error := none }
  | .operatorSelected | .result =>
    stay { state with a := some value, b := none, display := toDisplay value, error := none }
  | .idle | .error =>
    stay { initialState with phase := .result, a := some value, display := toDisplay value }

def applyError (state : CalcState) (message : Text) : Transition :=
  match state.phase with
  | .idle | .enteringA | .operatorSelected | .enteringB | .result | .error =>
    stay { state with phase := .error, error := some message }

def expressionOf (state : CalcState) : Text :=
  match state.phase with
  | .idle | .enteringA | .error => []
  | .operatorSelected | .enteringB =>
    match state.operator with
    | none => []
    | some operator =>
      toDisplay (state.a.getD .zero) ++ ' ' :: operationSymbol operator.name
  | .result =>
    match state.lastRequest with
    | none => []
    | some last =>
      let operand := match last.b with
        | none => []
        | some b => ' ' :: toDisplay b
      toDisplay last.a ++ ' ' :: operationSymbol last.operation ++ operand ++ [' ', '=']

/-- The keys that the store passes on to the engine while nothing is pending. -/
inductive Key where
  | digit (digit : Digit)
  | decimal
  | toggleSign
  | backspace
  | clearEntry
  | operator (operator : BinaryOperation)
  | evaluate
  | unary (op : UnaryKey)
  deriving DecidableEq

def press (state : CalcState) : Key → Transition
  | .digit digit => inputDigit state digit
  | .decimal => inputDecimal state
  | .toggleSign => toggleSign state
  | .backspace => backspace state
  | .clearEntry => clearEntry state
  | .operator operator => setOperator state operator
  | .evaluate => requestEvaluate state
  | .unary op => applyUnary state op

/-- The phases in which the display is the entry being typed. -/
def Phase.entering : Phase → Bool
  | .enteringA | .enteringB => true
  | _ => false

theorem Phase.entering_iff {p : Phase} : p.entering = true ↔ p = .enteringA ∨ p = .enteringB := by
  cases p <;> simp [Phase.entering]

section Entering

variable {state : CalcState}

theorem inputDigit_of_entering (h : state.phase.entering = true) (d : Digit) :
    inputDigit state d = stay { state with display := appendDigit state.display d } := by
  rcases Phase.entering_iff.mp h with hp | hp <;> simp [inputDigit, hp]

theorem inputDecimal_of_entering (h : state.phase.entering = true) :
    inputDecimal state = stay { state with display := appendDecimal state.display } := by
  rcases Phase.entering_iff.mp h with hp | hp <;> simp [inputDecimal, hp]

theorem toggleSign_of_entering (h : state.phase.entering = true) :
    toggleSign state = stay { state with display := toggleEntrySign state.display } := by
  rcases Phase.entering_iff.mp h with hp | hp <;> simp [toggleSign, hp]

theorem backspace_of_entering (h : state.phase.entering = true) :
    backspace state = stay { state with display := dropLastChar state.display } := by
  rcases Phase.entering_iff.mp h with hp | hp <;> simp [backspace, hp]

end Entering

@[simp] theorem clearAll_eq (state : CalcState) : clearAll state = stay initialState := by
  unfold clearAll
  cases state.phase <;> rfl

@[simp] theorem applyError_eq (state : CalcState) (message : Text) :
    applyError state message = stay { state with phase := .error, error := some message } := by
  unfold applyError
  cases state.phase <;> rfl

@[simp] theorem stay_state (state : CalcState) : (stay state).state = state := rfl
@[simp] theorem stay_effect (state : CalcState) : (stay state).effect = none := rfl
@[simp] theorem emit_state (state : CalcState) (r : CalculateRequest) :
    (emit state r).state = state := rfl
@[simp] theorem emit_effect (state : CalcState) (r : CalculateRequest) :
    (emit state r).effect = some r := rfl

end Calculator.Engine
