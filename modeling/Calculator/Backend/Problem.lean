import Mathlib.Data.Nat.Notation
import Calculator.Decimal.Numeral

/-! # Problem documents

The error bodies of the server: a stable code, the status and title that belong
to it, a detail, and the request fields at fault.
-/

namespace Calculator.Backend

open Decimal

inductive Code where
  | invalidBody | validationFailed | unsupportedOperation | unexpectedOperand | divisionByZero
  | domainError | resultNotFinite | unsupportedMediaType | payloadTooLarge | notFound | notReady
  | methodNotAllowed | rateLimited | timeout | internal
  deriving DecidableEq

namespace Code

def text : Code → Text
  | .invalidBody => "INVALID_BODY".toList
  | .validationFailed => "VALIDATION_FAILED".toList
  | .unsupportedOperation => "UNSUPPORTED_OPERATION".toList
  | .unexpectedOperand => "UNEXPECTED_OPERAND".toList
  | .divisionByZero => "DIVISION_BY_ZERO".toList
  | .domainError => "DOMAIN_ERROR".toList
  | .resultNotFinite => "RESULT_NOT_FINITE".toList
  | .unsupportedMediaType => "UNSUPPORTED_MEDIA_TYPE".toList
  | .payloadTooLarge => "PAYLOAD_TOO_LARGE".toList
  | .notFound => "NOT_FOUND".toList
  | .notReady => "NOT_READY".toList
  | .methodNotAllowed => "METHOD_NOT_ALLOWED".toList
  | .rateLimited => "RATE_LIMITED".toList
  | .timeout => "TIMEOUT".toList
  | .internal => "INTERNAL".toList

def info : Code → ℕ × Text
  | .invalidBody => (400, "Invalid request body".toList)
  | .validationFailed => (400, "Validation failed".toList)
  | .unsupportedOperation => (422, "Unsupported operation".toList)
  | .unexpectedOperand => (422, "Unexpected operand".toList)
  | .divisionByZero => (422, "Division by zero".toList)
  | .domainError => (422, "Result is not a real number".toList)
  | .resultNotFinite => (422, "Result is not finite".toList)
  | .unsupportedMediaType => (415, "Unsupported media type".toList)
  | .payloadTooLarge => (413, "Payload too large".toList)
  | .notFound => (404, "Not found".toList)
  | .methodNotAllowed => (405, "Method not allowed".toList)
  | .rateLimited => (429, "Too many requests".toList)
  | .timeout => (503, "Request timeout".toList)
  | .notReady => (503, "Not ready".toList)
  | .internal => (500, "Internal server error".toList)

end Code

structure FieldError where
  field : Text
  message : Text
  deriving DecidableEq

structure Problem where
  type : Text
  title : Text
  status : ℕ
  detail : Text
  code : Code
  errors : List FieldError
  deriving DecidableEq

def typeBaseURL : Text :=
  "https://github.com/isasumer/go-react-calculator/blob/main/docs/errors.md#".toList

/-- The problem for a code, with its type, title and status. -/
def newProblem (code : Code) (detail : Text) (errs : List FieldError) : Problem where
  type := typeBaseURL ++ code.text.map Char.toLower
  title := code.info.2
  status := code.info.1
  detail := detail
  code := code
  errors := errs

def hexDigits (k n : ℕ) : Text :=
  (List.range k).reverse.map fun i => Nat.digitChar (n / 16 ^ i % 16)

/-- One character inside a quoted text. Above the ASCII characters it is written
as it is if it is printable. -/
def quoteChar (isPrint : Char → Bool) (c : Char) : Text :=
  let n := c.toNat
  if c = '"' ∨ c = '\\' then ['\\', c]
  else if 0x20 ≤ n ∧ n < 0x7F ∨ 0x7F < n ∧ isPrint c = true then [c]
  else if n = 0x07 then ['\\', 'a']
  else if n = 0x08 then ['\\', 'b']
  else if n = 0x0C then ['\\', 'f']
  else if n = 0x0A then ['\\', 'n']
  else if n = 0x0D then ['\\', 'r']
  else if n = 0x09 then ['\\', 't']
  else if n = 0x0B then ['\\', 'v']
  else if n < 0x20 ∨ n = 0x7F then '\\' :: 'x' :: hexDigits 2 n
  else if n < 0x10000 then '\\' :: 'u' :: hexDigits 4 n
  else '\\' :: 'U' :: hexDigits 8 n

def quote (isPrint : Char → Bool) (t : Text) : Text :=
  '"' :: (t.flatMap (quoteChar isPrint) ++ ['"'])

example : quote (fun _ => true) ['a', '"', '\n', 'é'] = "\"a\\\"\\né\"".toList := by decide +kernel

def join (separator : Text) (ts : List Text) : Text := separator.intercalate ts

end Calculator.Backend
