import Calculator.Backend.Problem

/-! # Errors

Errors as the server passes them on: each either stands for itself or wraps
another one, with a text or an operation in front.
-/

namespace Calculator.Backend

open Decimal

inductive CalcError where
  | unknownOperation | arity | divisionByZero | domain | notFinite
  deriving DecidableEq

inductive Error where
  | sentinel (err : CalcError)
  | problem (p : Problem)
  /-- JSON has no text for a value. -/
  | unsupportedValue
  | wrap (text : Text) (err : Error)
  | evalError (op : Text) (err : Error)

namespace Error

/-- Whether the error is a sentinel or wraps it, as `errors.Is` tells. -/
def is (target : CalcError) : Error → Bool
  | .sentinel err => err = target
  | .wrap _ err | .evalError _ err => err.is target
  | .problem _ | .unsupportedValue => false

def asProblem : Error → Option Problem
  | .problem p => some p
  | .wrap _ err | .evalError _ err => err.asProblem
  | .sentinel _ | .unsupportedValue => none

def asEvalError : Error → Option Text
  | .evalError op _ => some op
  | .wrap _ err => err.asEvalError
  | .sentinel _ | .problem _ | .unsupportedValue => none

@[simp] theorem is_sentinel {err target : CalcError} :
    (sentinel err).is target = true ↔ err = target := by
  simp [is]

@[simp] theorem is_wrap (target : CalcError) (text : Text) (err : Error) :
    (wrap text err).is target = err.is target := rfl

@[simp] theorem is_evalError (target : CalcError) (op : Text) (err : Error) :
    (evalError op err).is target = err.is target := rfl

@[simp] theorem asProblem_sentinel (err : CalcError) : (sentinel err).asProblem = none := rfl
@[simp] theorem asProblem_wrap (text : Text) (err : Error) :
    (wrap text err).asProblem = err.asProblem := rfl
@[simp] theorem asProblem_evalError (op : Text) (err : Error) :
    (evalError op err).asProblem = err.asProblem := rfl

end Error

end Calculator.Backend
