import Calculator.Api.Errors

/-! # Calculations through the doorway

The schema of a successful answer, and how a request of the store ends: with the
result, or with the code and the request id of the error.
-/

namespace Calculator.Api

open Binary Decimal Engine History

structure CalculateResponse where
  operation : OperationName
  a : FiniteNumber
  /-- Missing for a unary operation. -/
  b : Option FiniteNumber
  result : FiniteNumber
  deriving DecidableEq

def calculateResponseSchema : Schema CalculateResponse := fun j => do
  let operation ← property "operation".toList operationNameSchema j
  let a ← property ['a'] finiteNumber j
  let b ← optionalProperty ['b'] finiteNumber j
  let result ← property "result".toList finiteNumber j
  return ⟨operation, a, b, result⟩

/-- The parsed answer, with the members that the schema names. -/
def CalculateResponse.toJson (r : CalculateResponse) : Json := .object <|
  [("operation".toList, .string (Store.operationText r.operation)), (['a'], r.a.toJson)] ++
    (r.b.map fun b => (['b'], b.toJson)).toList ++ [("result".toList, r.result.toJson)]

/-- `safeParse`: the value in the shape of the schema, or what is wrong with it. -/
def safeParse {α : Type} (issues : Json → List Issue) (schema : Schema α) (toJson : α → Json)
    (j : Json) : Except (List Issue) Json :=
  match schema j with
  | some x => .ok (toJson x)
  | none => .error (issues j)

def defaultTimeoutMs : ℕ := 10000

def useCalculate (P : Platform) (issues : Json → List Issue) (fetched : Fetched) :
    Except ApiError Json :=
  apiFetch P defaultTimeoutMs
    (some (safeParse issues calculateResponseSchema CalculateResponse.toJson)) fetched

/-- How the store's evaluator settles: with the result of the answer, or with the
error that was thrown. -/
def settlement : Except ApiError Json → Option Store.Outcome
  | .ok data => (calculateResponseSchema data).map fun r => .answer ⟨r.result.1⟩
  | .error e => some (.failure (.apiError e.code e.requestId))

variable {P : Platform} {issues : Json → List Issue} {fetched : Fetched}

@[simp] theorem optionalProperty_cons_self {α : Type} {schema : Schema α} (key : Text) (j : Json)
    (members : List (Text × Json)) :
    optionalProperty key schema (.object ((key, j) :: members)) = (schema j).map some := by
  simp [optionalProperty]

@[simp] theorem optionalProperty_cons_of_ne {α : Type} {schema : Schema α} {key other : Text}
    (h : key ≠ other) (j : Json) (members : List (Text × Json)) :
    optionalProperty key schema (.object ((other, j) :: members)) =
      optionalProperty key schema (.object members) := by
  simp only [optionalProperty, List.lookup_cons, beq_false_of_ne h]

@[simp] theorem optionalProperty_nil {α : Type} {schema : Schema α} (key : Text) :
    optionalProperty key schema (.object []) = some none := rfl

theorem calculateResponseSchema_toJson (r : CalculateResponse) :
    calculateResponseSchema r.toJson = some r := by
  obtain ⟨operation, a, b, result⟩ := r
  cases b with
  | none => simp [calculateResponseSchema, CalculateResponse.toJson]
  | some b => simp [calculateResponseSchema, CalculateResponse.toJson]

theorem exists_of_useCalculate {data : Json} (h : useCalculate P issues fetched = .ok data) :
    ∃ r : CalculateResponse, data = r.toJson := by
  unfold useCalculate apiFetch at h
  split at h
  · cases h
  · cases h
  · next response =>
    dsimp only at h
    split at h
    · cases h
    · split at h
      · cases h
      · next value _ =>
        unfold safeParse at h
        cases hschema : calculateResponseSchema value with
        | none => simp [hschema] at h
        | some r =>
          simp only [hschema, Except.ok.injEq] at h
          exact ⟨r, h.symm⟩

theorem exists_settlement (P : Platform) (issues : Json → List Issue) (fetched : Fetched) :
    ∃ outcome, settlement (useCalculate P issues fetched) = some outcome := by
  cases h : useCalculate P issues fetched with
  | error e => exact ⟨_, rfl⟩
  | ok data =>
    obtain ⟨r, rfl⟩ := exists_of_useCalculate h
    exact ⟨.answer ⟨r.result.1⟩, by rw [settlement, calculateResponseSchema_toJson]; rfl⟩

end Calculator.Api
