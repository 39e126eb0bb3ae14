import Calculator.Backend.Validate

/-! # Decoding

The JSON decoder reports what it finds in a body; everything but exactly one
request object becomes a problem that names the field or the offset at fault.
-/

namespace Calculator.Backend

open Decimal

/-- The types of Go, as far as JSON tells them apart. -/
inductive Kind where
  | number | string | boolean | array | object
  deriving DecidableEq

inductive DecodeError where
  | maxBytes (limit : ℕ)
  | eof
  | unexpectedEOF
  | syntaxError (offset : ℕ)
  | unmarshalType (field value : Text) (kind : Kind) (offset : ℕ)
  | unknownField (field : Text)
  | other
  deriving DecidableEq

/-- A request body, as the parser of media types and the decoder report it. -/
structure Body where
  /-- The media type, if the header has one. -/
  mediaType : Option Text
  /-- The first value, which is missing if it is `null`. -/
  first : Except DecodeError (Option CalculateRequest)
  /-- What a second attempt finds after it. -/
  second : Except DecodeError Unit

def jsonTypeName : Kind → Text
  | .number => "a number".toList
  | .string => "a string".toList
  | .boolean => "a boolean".toList
  | .array => "an array".toList
  | .object => "an object".toList

section Decode

variable (isPrint : Char → Bool)

def invalidBody (detail : Text) (errs : List FieldError) : Problem :=
  newProblem .invalidBody detail errs

/-- The problem that names the offending field or byte offset. -/
def decodeProblem : DecodeError → Problem
  | .maxBytes limit =>
    newProblem .payloadTooLarge
      ("request body must not exceed ".toList ++ Nat.toDigits 10 limit ++ " bytes".toList) []
  | .eof => invalidBody "request body is empty".toList []
  | .unexpectedEOF => invalidBody "request body is truncated JSON".toList []
  | .syntaxError offset =>
    invalidBody ("request body is not valid JSON (syntax error at byte ".toList ++
      Nat.toDigits 10 offset ++ [')']) []
  | .unmarshalType field value kind offset =>
    if field = [] then
      invalidBody ("request body must be a JSON object, got ".toList ++ value) []
    else
      let msg := "must be ".toList ++ jsonTypeName kind ++
        -- a number that does not fit, such as 1e400
        if "number".toList.isPrefixOf value then
          " within the 64-bit floating-point range".toList
        else []
      invalidBody ("field ".toList ++ quote isPrint field ++ ' ' :: msg ++ " (byte ".toList ++
        Nat.toDigits 10 offset ++ [')']) [⟨field, msg⟩]
  | .unknownField field =>
    invalidBody ("field ".toList ++ quote isPrint field ++ " is not allowed".toList)
      [⟨field, "is not allowed".toList⟩]
  | .other => invalidBody "request body could not be read".toList []

def decodeJSON (body : Body) : Except Problem CalculateRequest :=
  if body.mediaType ≠ some "application/json".toList then
    .error (newProblem .unsupportedMediaType "Content-Type must be application/json".toList [])
  else match body.first with
    | .error err => .error (decodeProblem isPrint err)
    | .ok none => .error (invalidBody "request body must be a JSON object, got null".toList [])
    | .ok (some v) =>
      match body.second with
      | .error .eof => .ok v
      | .error (.maxBytes limit) => .error (decodeProblem isPrint (.maxBytes limit))
      | _ => .error (invalidBody "request body must contain a single JSON object".toList [])

end Decode

/-- The problem has the status, title and type of its code. -/
def Problem.Catalogued (p : Problem) : Prop := p = newProblem p.code p.detail p.errors

theorem catalogued_newProblem (code : Code) (detail : Text) (errs : List FieldError) :
    (newProblem code detail errs).Catalogued := rfl

theorem Problem.Catalogued.status_eq {p : Problem} (h : p.Catalogued) :
    p.status = p.code.info.1 := by
  rw [h]
  rfl

variable {registry : List Spec} {isPrint : Char → Bool} {p : Problem}

theorem catalogued_decodeProblem (err : DecodeError) :
    (decodeProblem isPrint err).Catalogued := by
  cases err with
  | unmarshalType field value kind offset =>
    simp only [decodeProblem]
    split <;> exact catalogued_newProblem _ _ _
  | maxBytes _ | eof | unexpectedEOF | syntaxError _ | unknownField _ | other =>
    exact catalogued_newProblem _ _ _

theorem catalogued_of_decodeJSON {body : Body} (h : decodeJSON isPrint body = .error p) :
    p.Catalogued := by
  unfold decodeJSON at h
  split at h
  · cases h
    exact catalogued_newProblem _ _ _
  · split at h
    · cases h
      exact catalogued_decodeProblem _
    · cases h
      exact catalogued_newProblem _ _ _
    · split at h
      · cases h
      · cases h
        exact catalogued_decodeProblem _
      · cases h
        exact catalogued_newProblem _ _ _

theorem catalogued_of_validate {req : CalculateRequest}
    (h : validate registry isPrint req = .error p) : p.Catalogued := by
  obtain ⟨code, -, detail, errs, rfl⟩ := validate_error h
  exact catalogued_newProblem _ _ _

end Calculator.Backend
