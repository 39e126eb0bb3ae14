import Calculator.Decimal.Numeral

/-! # Failures

What a rejected calculation leaves behind: the sentence to show, the request id
to quote, and whether the same request may be sent again.
-/

namespace Calculator.Store

open Decimal

/-- A caught error: an `ApiError` with its code and request id, or anything else. -/
inductive Failure where
  | apiError (code : Text) (requestId : Option Text)
  | other
  deriving DecidableEq

def fallbackErrorMessage : Text := "Something went wrong. Please try again.".toList

def errorMessages : List (Text × Text) := [
  ("INVALID_BODY".toList, "The calculator sent an invalid request. Please try again.".toList),
  ("VALIDATION_FAILED".toList, "Please enter a number for every field.".toList),
  ("UNSUPPORTED_OPERATION".toList, "That operation is not available.".toList),
  ("UNEXPECTED_OPERAND".toList, "That operation takes a single number.".toList),
  ("DIVISION_BY_ZERO".toList, "Cannot divide by zero.".toList),
  ("DOMAIN_ERROR".toList, "That calculation has no real-number result.".toList),
  ("RESULT_NOT_FINITE".toList, "The result is too large to display.".toList),
  ("UNSUPPORTED_MEDIA_TYPE".toList,
    "The calculator sent an invalid request. Please try again.".toList),
  ("PAYLOAD_TOO_LARGE".toList, "That number is too long.".toList),
  ("NOT_FOUND".toList, "The calculator service could not be reached.".toList),
  ("METHOD_NOT_ALLOWED".toList, "The calculator service could not be reached.".toList),
  ("RATE_LIMITED".toList, "Too many calculations. Please wait a moment and try again.".toList),
  ("INTERNAL".toList, "The calculator service had a problem. Please try again.".toList),
  ("NETWORK".toList, "Cannot reach the calculator service. Check your connection.".toList),
  ("TIMEOUT".toList, "The calculator service took too long to respond. Please try again.".toList),
  ("UNEXPECTED".toList, "The calculator service returned something unexpected.".toList),
  ("INVALID_RESPONSE".toList, "The calculator service returned something unexpected.".toList)]

def messageForError : Failure → Text
  | .apiError code _ => (errorMessages.lookup code).getD fallbackErrorMessage
  | .other => fallbackErrorMessage

def retryableErrorCodes : List Text :=
  ["NETWORK".toList, "TIMEOUT".toList, "RATE_LIMITED".toList]

namespace Failure

def requestId : Failure → Option Text
  | .apiError _ requestId => requestId
  | .other => none

def canRetry : Failure → Bool
  | .apiError code _ => code ∈ retryableErrorCodes
  | .other => false

end Failure

/-- Every error that may be retried has a sentence of its own. -/
theorem lookup_isSome_of_retryable {code : Text} (h : code ∈ retryableErrorCodes) :
    (errorMessages.lookup code).isSome := by
  revert h code
  decide +kernel

end Calculator.Store
