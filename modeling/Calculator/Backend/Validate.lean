import Calculator.Backend.Calc
import Calculator.Backend.Problem

/-! # Validation

The check that a decoded request passes before it is evaluated: every field at
fault is reported, and an operation the registry does not know or an operand
that the operation does not take is refused.
-/

namespace Calculator.Backend

open Binary Decimal

structure CalculateRequest where
  operation : Text
  a : Option Float64
  b : Option Float64

section Validate

variable (registry : List Spec) (isPrint : Char → Bool)

def unsupportedOperation (op : Text) : Problem :=
  newProblem .unsupportedOperation
    ("operation ".toList ++ quote isPrint op ++
      " is not supported; GET /api/v1/operations lists the supported operations".toList)
    [⟨"operation".toList, "must be one of: ".toList ++ join [',', ' '] (registry.map Spec.name)⟩]

def operationErrors (req : CalculateRequest) : List FieldError :=
  if req.operation = [] then [⟨"operation".toList, "is required".toList⟩] else []

def aErrors (req : CalculateRequest) : List FieldError :=
  match req.a with
  | none => [⟨['a'], "is required".toList⟩]
  | some a => if a.isFinite then [] else [⟨['a'], "must be a finite number".toList⟩]

def bErrors (req : CalculateRequest) : List FieldError :=
  match req.b with
  | none => []
  | some b => if b.isFinite then [] else [⟨['b'], "must be a finite number".toList⟩]

def arityErrors (req : CalculateRequest) : List FieldError :=
  match lookup registry req.operation with
  | none => []
  | some spec =>
    if spec.arity = 2 ∧ req.b = none then
      [⟨['b'], "is required for operation ".toList ++ quote isPrint spec.name⟩]
    else []

def fieldErrors (req : CalculateRequest) : List FieldError :=
  operationErrors req ++ (aErrors req ++ (bErrors req ++ arityErrors registry isPrint req))

/-- Checks a request and returns the operation's entry in the registry. -/
def validate (req : CalculateRequest) : Except Problem Spec :=
  let errs := fieldErrors registry isPrint req
  if errs ≠ [] then
    .error (newProblem .validationFailed
      ("missing or invalid fields: ".toList ++ join [',', ' '] (errs.map FieldError.field)) errs)
  else match lookup registry req.operation with
    | none => .error (unsupportedOperation registry isPrint req.operation)
    | some spec =>
      if spec.arity = 1 ∧ req.b ≠ none then
        .error (newProblem .unexpectedOperand
          ("operation ".toList ++ quote isPrint spec.name ++
            " takes a single operand; omit b".toList)
          [⟨['b'], "must be omitted for operation ".toList ++ quote isPrint spec.name⟩])
      else .ok spec

end Validate

variable {registry : List Spec} {isPrint : Char → Bool} {req : CalculateRequest} {spec : Spec}

theorem operationErrors_eq_nil_iff : operationErrors req = [] ↔ req.operation ≠ [] := by
  unfold operationErrors
  split
  · next h => exact iff_of_false nofun (not_not_intro h)
  · next h => exact iff_of_true rfl h

theorem aErrors_eq_nil_iff : aErrors req = [] ↔ ∃ a, req.a = some a ∧ a.isFinite = true := by
  unfold aErrors
  cases req.a with
  | none => exact iff_of_false nofun nofun
  | some a => cases h : a.isFinite <;> simp [h]

theorem bErrors_eq_nil_iff : bErrors req = [] ↔ ∀ b ∈ req.b, b.isFinite = true := by
  unfold bErrors
  cases req.b with
  | none => exact iff_of_true rfl nofun
  | some b => cases h : b.isFinite <;> simp [h]

theorem arityErrors_eq_nil_iff : arityErrors registry isPrint req = [] ↔
    ∀ spec ∈ lookup registry req.operation, spec.arity = 2 → req.b ≠ none := by
  unfold arityErrors
  cases lookup registry req.operation with
  | none => exact iff_of_true rfl nofun
  | some spec =>
    simp only [Option.mem_some_iff, forall_eq']
    split
    · next h => exact iff_of_false nofun fun hne => hne h.1 h.2
    · next h => exact iff_of_true rfl fun h2 hb => h ⟨h2, hb⟩

theorem fieldErrors_eq_nil_iff : fieldErrors registry isPrint req = [] ↔
    req.operation ≠ [] ∧ (∃ a, req.a = some a ∧ a.isFinite = true) ∧
      (∀ b ∈ req.b, b.isFinite = true) ∧
      ∀ spec ∈ lookup registry req.operation, spec.arity = 2 → req.b ≠ none := by
  simp only [fieldErrors, List.append_eq_nil_iff, operationErrors_eq_nil_iff, aErrors_eq_nil_iff,
    bErrors_eq_nil_iff, arityErrors_eq_nil_iff]

/-- A request is accepted exactly if its operation is in the registry and its
operands are finite and as many as the operation takes. -/
theorem validate_ok_iff : validate registry isPrint req = .ok spec ↔
    req.operation ≠ [] ∧ lookup registry req.operation = some spec ∧
      (∃ a, req.a = some a ∧ a.isFinite = true) ∧ (∀ b ∈ req.b, b.isFinite = true) ∧
      (spec.arity = 2 → req.b ≠ none) ∧ (spec.arity = 1 → req.b = none) := by
  unfold validate
  dsimp only
  by_cases herr : fieldErrors registry isPrint req = []
  · obtain ⟨hop, ha, hb, har⟩ := fieldErrors_eq_nil_iff.mp herr
    rw [if_neg (by simpa using herr)]
    cases hl : lookup registry req.operation with
    | none => simp
    | some spec' =>
      have har' : spec'.arity = 2 → req.b ≠ none := har spec' hl
      dsimp only
      split
      · next h1 =>
        constructor
        · rintro ⟨⟩
        · rintro ⟨-, ⟨⟩, -, -, -, h⟩
          exact absurd (h h1.1) h1.2
      · next h1 =>
        constructor
        · rintro ⟨⟩
          refine ⟨hop, rfl, ha, hb, har', fun h => ?_⟩
          by_contra hne
          exact h1 ⟨h, hne⟩
        · rintro ⟨-, ⟨⟩, -⟩
          rfl
  · rw [if_pos herr]
    constructor
    · rintro ⟨⟩
    · rintro ⟨hop, hl, ha, hb, har, -⟩
      refine absurd (fieldErrors_eq_nil_iff.mpr ⟨hop, ha, hb, ?_⟩) herr
      intro spec' hl'
      rw [hl] at hl'
      cases hl'
      exact har

theorem validate_error {p : Problem} (h : validate registry isPrint req = .error p) :
    ∃ code ∈ [Code.validationFailed, .unsupportedOperation, .unexpectedOperand],
      ∃ detail errs, p = newProblem code detail errs := by
  unfold validate at h
  dsimp only at h
  split at h
  · cases h
    exact ⟨.validationFailed, by simp, _, _, rfl⟩
  · split at h
    · cases h
      exact ⟨.unsupportedOperation, by simp, _, _, rfl⟩
    · split at h
      · cases h
        exact ⟨.unexpectedOperand, by simp, _, _, rfl⟩
      · cases h

end Calculator.Backend
