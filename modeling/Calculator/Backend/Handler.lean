import Calculator.Backend.Validate

/-! # The calculation endpoint

A decoded request is validated, evaluated and answered, and the attempt is
counted. The answer is a finite result or one of six problems, and the count
says which.
-/

namespace Calculator.Backend

open Binary Decimal

structure CalculateResponse where
  operation : Text
  a : Float64
  b : Option Float64
  result : Float64

structure Sample where
  operation : Text
  outcome : Text
  deriving DecidableEq

inductive Answer where
  | json (status : ℕ) (body : CalculateResponse)
  | problem (p : Problem)

structure Handler where
  registry : List Spec
  /-- Which characters a quoted text shows as they are. -/
  isPrint : Char → Bool
  /-- Whether calculations are counted. -/
  metrics : Bool

def unknownOperation : Text := "unknown".toList

def outcomeOK : Text := "ok".toList

namespace Handler

variable (h : Handler)

def mapError (err : Error) : Problem :=
  match err.asProblem with
  | some p => p
  | none =>
    let op := err.asEvalError.getD []
    if err.is .divisionByZero then
      if op = "divide".toList then
        newProblem .divisionByZero
          ("b must be non-zero for operation ".toList ++ quote h.isPrint op)
          [⟨['b'], "must be non-zero".toList⟩]
      else
        newProblem .divisionByZero ("operation ".toList ++ quote h.isPrint op ++
          " divides by zero for these operands".toList) []
    else if err.is .domain then
      newProblem .domainError ("operation ".toList ++ quote h.isPrint op ++
        " has no real-number result for these operands".toList) []
    else if err.is .notFinite then
      newProblem .resultNotFinite ("the result of operation ".toList ++ quote h.isPrint op ++
        " is outside the 64-bit floating-point range".toList) []
    else if err.is .unknownOperation then unsupportedOperation h.registry h.isPrint op
    else newProblem .internal "an unexpected error occurred".toList []

/-- Runs a decoded request, or what decoding it failed with, through validation
and the calculator. The operation is empty until validation has confirmed that
the registry knows it. There is nothing for a missing operand that is used. -/
def evaluate (decoded : Except Problem CalculateRequest) :
    Option (Text × Except Problem CalculateResponse) :=
  match decoded with
  | .error p => some ([], .error (h.mapError (.problem p)))
  | .ok req =>
    match validate h.registry h.isPrint req with
    | .error p => some ([], .error (h.mapError (.problem p)))
    | .ok spec => req.a.map fun a =>
      match Backend.evaluate h.isPrint h.registry spec.name a req.b with
      | .error err => (spec.name, .error (h.mapError (.evalError spec.name err)))
      | .ok result => (spec.name, .ok ⟨spec.name, a, req.b, result⟩)

/-- Counts one attempted calculation, with the outcome or the code it failed with. -/
def record (op : Text) (problem : Option Problem) : List Sample :=
  if h.metrics then
    [⟨if op = [] then unknownOperation else op,
      match problem with
      | some p => p.code.text
      | none => outcomeOK⟩]
  else []

/-- JSON has no text for numbers that are not finite. -/
def marshals (body : CalculateResponse) : Bool :=
  body.a.isFinite && body.b.all Float64.isFinite && body.result.isFinite

def writeJSON (status : ℕ) (body : CalculateResponse) : Answer :=
  if marshals body then .json status body
  else .problem (h.mapError (.wrap "encode response: ".toList .unsupportedValue))

def calculate (decoded : Except Problem CalculateRequest) : Option (Answer × List Sample) :=
  (h.evaluate decoded).map fun (op, outcome) =>
    match outcome with
    | .error p => (.problem p, h.record op (some p))
    | .ok body => (h.writeJSON 200 body, h.record op none)

end Handler

example : (Handler.mk [] (fun _ => true) true).mapError (.evalError ['f'] (.sentinel .arity)) =
    newProblem .internal "an unexpected error occurred".toList [] := by decide +kernel

/-- The answers that a decoded request can get. Only a result can be at fault for
not being finite. -/
inductive Answered (registry : List Spec) (req : CalculateRequest) : Answer → Prop
  | ok {body : CalculateResponse} (hfin : body.result.isFinite = true)
      (hz : body.result ≠ .negZero) : Answered registry req (.json 200 body)
  | invalid {p : Problem} (hs : p.status = 400) (hc : p.code = .validationFailed) :
    Answered registry req (.problem p)
  | refused {p : Problem} (hs : p.status = 422)
      (hc : p.code ∈ [.unsupportedOperation, .unexpectedOperand, .divisionByZero, .domainError]) :
    Answered registry req (.problem p)
  | notFinite {p : Problem} {spec : Spec} {a res : Float64} (hs : p.status = 422)
      (hc : p.code = .resultNotFinite) (hl : lookup registry req.operation = some spec)
      (ha : req.a = some a) (hfin : a.isFinite = true) (hb : ∀ b ∈ req.b, b.isFinite = true)
      (hres : spec.fn a (req.b.getD .zero) = .ok res) (hnot : res.isFinite = false) :
    Answered registry req (.problem p)

def Answer.problem? : Answer → Option Problem
  | .json _ _ => none
  | .problem p => some p

def Answer.outcome : Answer → Text
  | .json _ _ => outcomeOK
  | .problem p => p.code.text

variable {P : Primitives} {h : Handler} {req : CalculateRequest} {spec : Spec}

theorem record_eq {op : Text} (hm : h.metrics = true) (hne : op ≠ []) (answer : Answer) :
    h.record op answer.problem? = [⟨op, answer.outcome⟩] := by
  unfold Handler.record
  rw [if_pos hm, if_neg hne]
  cases answer <;> rfl

theorem answered_of_validate {p : Problem} (hv : validate h.registry h.isPrint req = .error p) :
    Answered h.registry req (.problem p) := by
  obtain ⟨code, hcode, detail, errs, rfl⟩ := validate_error hv
  simp only [List.mem_cons, List.not_mem_nil, or_false] at hcode
  rcases hcode with rfl | rfl | rfl
  · exact .invalid rfl rfl
  · exact .refused rfl (by simp [newProblem])
  · exact .refused rfl (by simp [newProblem])

def codeOf : CalcError → Code
  | .divisionByZero => .divisionByZero
  | .domain => .domainError
  | .notFinite => .resultNotFinite
  | .unknownOperation => .unsupportedOperation
  -- validation leaves no room for it
  | .arity => .internal

theorem mapError_evalError (h : Handler) (op text : Text) (e : CalcError) :
    let p := h.mapError (.evalError op (.wrap text (.sentinel e)))
    p.code = codeOf e ∧ p.status = (codeOf e).info.1 := by
  dsimp only
  unfold Handler.mapError
  cases e with
  | divisionByZero =>
    simp only [Error.asProblem_evalError, Error.asProblem_wrap, Error.asProblem_sentinel]
    rw [if_pos (by simp)]
    split <;> exact ⟨rfl, rfl⟩
  | domain | notFinite | unknownOperation | arity => exact ⟨rfl, rfl⟩

theorem answered_of_valid (hreg : h.registry = newRegistry P)
    (hv : validate h.registry h.isPrint req = .ok spec) :
    ∃ answer, h.calculate (.ok req) = some (answer, h.record spec.name answer.problem?) ∧
      Answered h.registry req answer := by
  obtain ⟨-, hl, ⟨a, ha, hfin⟩, hb, h2, h1⟩ := validate_ok_iff.mp hv
  have hname := name_of_lookup hl
  have heval : Backend.evaluate h.isPrint h.registry spec.name a req.b = _ :=
    evaluate_of_lookup (hname ▸ hl) h2 h1 hfin hb
  unfold Handler.calculate Handler.evaluate
  dsimp only
  rw [hv, ha]
  cases hres : spec.fn a (req.b.getD .zero) with
  | error e =>
    rw [hres] at heval
    obtain ⟨hc, hs⟩ := mapError_evalError h spec.name (spec.name ++ ": ".toList) e
    simp only [heval, Option.map_some]
    refine ⟨_, rfl, ?_⟩
    rcases fn_error_of_mem (hreg ▸ mem_of_lookup hl) hres with rfl | rfl
    · exact .refused hs (by rw [hc]; simp [codeOf])
    · exact .refused hs (by rw [hc]; simp [codeOf])
  | ok res =>
    rw [hres] at heval
    dsimp only at heval
    cases hnot : res.isFinite with
    | false =>
      rw [hnot, if_pos (by rfl)] at heval
      obtain ⟨hc, hs⟩ :=
        mapError_evalError h spec.name (spec.name ++ ": result: ".toList) .notFinite
      simp only [heval, Option.map_some]
      exact ⟨_, rfl, .notFinite hs hc hl ha hfin hb hres hnot⟩
    | true =>
      rw [hnot, if_neg (by simp)] at heval
      obtain ⟨hres', hz⟩ := evaluate_ok heval
      have hmarshals : Handler.marshals ⟨spec.name, a, req.b, res.withoutNegativeZero⟩ = true := by
        rw [Handler.marshals, hfin, hres']
        cases hrb : req.b with
        | none => rfl
        | some b => simp [hb b hrb]
      simp only [heval, Option.map_some, Handler.writeJSON, hmarshals, if_true]
      exact ⟨_, rfl, .ok hres' hz⟩

/-- Every attempt is answered and counted once, under a registered operation or
none. -/
theorem calculate_eq (hreg : h.registry = newRegistry P) (hm : h.metrics = true)
    (req : CalculateRequest) :
    ∃ answer op, h.calculate (.ok req) = some (answer, [⟨op, answer.outcome⟩]) ∧
      Answered h.registry req answer ∧
      (op ∈ h.registry.map Spec.name ∨ op = unknownOperation) := by
  cases hv : validate h.registry h.isPrint req with
  | error p =>
    refine ⟨.problem p, unknownOperation, ?_, answered_of_validate hv, Or.inr rfl⟩
    simp [Handler.calculate, Handler.evaluate, hv, Handler.mapError, Error.asProblem,
      Handler.record, hm, Answer.outcome]
  | ok spec =>
    obtain ⟨answer, hcalc, hans⟩ := answered_of_valid hreg hv
    obtain ⟨hop, hl, -⟩ := validate_ok_iff.mp hv
    have hne : spec.name ≠ [] := by
      rw [name_of_lookup hl]
      exact hop
    refine ⟨answer, spec.name, ?_, hans, Or.inl (List.mem_map_of_mem (mem_of_lookup hl))⟩
    rw [hcalc, record_eq hm hne]

theorem code_text_ne (c : Code) : c.text ≠ outcomeOK := by
  cases c <;> decide

theorem Answered.outcome_eq_iff {registry : List Spec} {answer : Answer}
    (hans : Answered registry req answer) :
    answer.outcome = outcomeOK ↔ ∃ body, answer = .json 200 body := by
  cases hans with
  | ok _ _ => exact iff_of_true rfl ⟨_, rfl⟩
  | invalid _ _ | refused _ _ | notFinite _ _ _ _ _ _ _ _ =>
    exact iff_of_false (code_text_ne _) (by simp)

theorem existsUnique_sentinel {registry : List Spec} {isPrint : Char → Bool} {op : Text}
    {a : Float64} {b : Option Float64} {err : Error}
    (herr : evaluate isPrint registry op a b = .error err) : ∃! e, err.is e = true := by
  obtain ⟨text, e, rfl⟩ := evaluate_error herr
  refine ⟨e, by simp, ?_⟩
  intro e' he'
  have heq : e = e' := by simpa using he'
  exact heq.symm

/-- Every decoded request gets one of the answers, one count with the outcome or
the code that is answered, and never an internal error; and every error of the
calculator wraps exactly one sentinel. -/
theorem calculate_answers (P : Primitives) (isPrint : Char → Bool) (req : CalculateRequest) :
    (∃ answer sample,
      (Handler.mk (newRegistry P) isPrint true).calculate (.ok req) = some (answer, [sample]) ∧
      Answered (newRegistry P) req answer ∧
      (sample.outcome = outcomeOK ↔ ∃ body, answer = .json 200 body) ∧
      (∀ p, answer = .problem p → sample.outcome = p.code.text) ∧
      (sample.operation ∈ (newRegistry P).map Spec.name ∨ sample.operation = unknownOperation)) ∧
    ∀ op a b err, evaluate isPrint (newRegistry P) op a b = .error err →
      ∃! e, err.is e = true := by
  constructor
  · obtain ⟨answer, op, hcalc, hans, hop⟩ :=
      calculate_eq (h := ⟨newRegistry P, isPrint, true⟩) rfl rfl req
    refine ⟨answer, ⟨op, answer.outcome⟩, hcalc, hans, hans.outcome_eq_iff, ?_, hop⟩
    rintro p rfl
    rfl
  · exact fun op a b err herr => existsUnique_sentinel herr

end Calculator.Backend
