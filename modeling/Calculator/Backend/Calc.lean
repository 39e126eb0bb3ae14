import Calculator.Binary.Float64
import Calculator.Backend.Errors

/-! # The operations of the server

The registry of operations and their evaluation, over any implementation of the
floating-point primitives. A result that is not an error is finite and never a
negative zero.
-/

namespace Calculator.Backend

open Binary Decimal

structure Primitives where
  add : Float64 → Float64 → Float64
  sub : Float64 → Float64 → Float64
  mul : Float64 → Float64 → Float64
  div : Float64 → Float64 → Float64
  pow : Float64 → Float64 → Float64
  sqrt : Float64 → Float64

structure Spec where
  name : Text
  symbol : Text
  arity : ℕ
  fn : Float64 → Float64 → Except CalcError Float64

section Operations

variable (P : Primitives)

def hundred : Float64 := .ofRat false 100

def isInf : Float64 → Bool
  | .infinity _ => true
  | _ => false

def add (a b : Float64) : Except CalcError Float64 := .ok (P.add a b)
def subtract (a b : Float64) : Except CalcError Float64 := .ok (P.sub a b)
def multiply (a b : Float64) : Except CalcError Float64 := .ok (P.mul a b)

def divide (a b : Float64) : Except CalcError Float64 :=
  if b.isZero then .error .divisionByZero else .ok (P.div a b)

def power (a b : Float64) : Except CalcError Float64 :=
  if a.isZero && b.lt .zero then .error .divisionByZero
  else
    let res := P.pow a b
    if res = .nan then .error .domain else .ok res

def sqrt (a _b : Float64) : Except CalcError Float64 :=
  if a.lt .zero then .error .domain else .ok (P.sqrt a)

def percent (a b : Float64) : Except CalcError Float64 :=
  let res := P.div (P.mul a b) hundred
  if isInf res then .ok (P.mul a (P.div b hundred)) else .ok res

def newRegistry : List Spec := [
  ⟨"add".toList, ['+'], 2, add P⟩,
  ⟨"subtract".toList, ['−'], 2, subtract P⟩,
  ⟨"multiply".toList, ['×'], 2, multiply P⟩,
  ⟨"divide".toList, ['÷'], 2, divide P⟩,
  ⟨"power".toList, ['^'], 2, power P⟩,
  ⟨"sqrt".toList, ['√'], 1, sqrt P⟩,
  ⟨"percent".toList, ['%'], 2, percent P⟩]

end Operations

def lookup (registry : List Spec) (name : Text) : Option Spec := registry.find? (·.name = name)

section Evaluate

variable (isPrint : Char → Bool) (registry : List Spec)

/-- Applies an operation to `a` and, for binary operations, `b`. -/
def evaluate (op : Text) (a : Float64) (b : Option Float64) : Except Error Float64 :=
  match lookup registry op with
  | none =>
    .error (.wrap ("operation ".toList ++ quote isPrint op ++ ": ".toList)
      (.sentinel .unknownOperation))
  | some spec =>
    if spec.arity = 2 ∧ b = none then
      .error (.wrap (op ++ ": operand b is required: ".toList) (.sentinel .arity))
    else if spec.arity = 1 ∧ b ≠ none then
      .error (.wrap (op ++ ": operand b is not allowed: ".toList) (.sentinel .arity))
    else if !a.isFinite then .error (.wrap (op ++ ": operand a: ".toList) (.sentinel .notFinite))
    else
      let bv := b.getD .zero
      if !bv.isFinite then .error (.wrap (op ++ ": operand b: ".toList) (.sentinel .notFinite))
      else match spec.fn a bv with
        | .error err => .error (.wrap (op ++ ": ".toList) (.sentinel err))
        | .ok res =>
          if !res.isFinite then .error (.wrap (op ++ ": result: ".toList) (.sentinel .notFinite))
          else .ok res.withoutNegativeZero

end Evaluate

section

variable {isPrint : Char → Bool} {registry : List Spec} {op : Text} {a : Float64}
  {b : Option Float64} {spec : Spec}

/-- A result is finite and never negative zero, whatever the primitives return. -/
theorem evaluate_ok {res : Float64} (h : evaluate isPrint registry op a b = .ok res) :
    res.isFinite = true ∧ res ≠ .negZero := by
  unfold evaluate at h
  split at h
  · cases h
  · dsimp only at h
    split_ifs at h
    split at h
    · cases h
    · split_ifs at h with hres
      cases h
      refine ⟨?_, Float64.withoutNegativeZero_ne _⟩
      rw [Float64.isFinite_withoutNegativeZero]
      simpa using hres

theorem evaluate_error {err : Error} (h : evaluate isPrint registry op a b = .error err) :
    ∃ text e, err = .wrap text (.sentinel e) := by
  unfold evaluate at h
  split at h
  · cases h
    exact ⟨_, _, rfl⟩
  · dsimp only at h
    split_ifs at h
    · cases h
      exact ⟨_, _, rfl⟩
    · cases h
      exact ⟨_, _, rfl⟩
    · cases h
      exact ⟨_, _, rfl⟩
    · cases h
      exact ⟨_, _, rfl⟩
    · split at h
      · cases h
        exact ⟨_, _, rfl⟩
      · split_ifs at h
        cases h
        exact ⟨_, _, rfl⟩

theorem evaluate_of_lookup (hl : lookup registry op = some spec) (h2 : spec.arity = 2 → b ≠ none)
    (h1 : spec.arity = 1 → b = none) (ha : a.isFinite = true) (hb : ∀ x ∈ b, x.isFinite = true) :
    evaluate isPrint registry op a b = match spec.fn a (b.getD .zero) with
      | .error err => .error (.wrap (op ++ ": ".toList) (.sentinel err))
      | .ok res =>
        if !res.isFinite then .error (.wrap (op ++ ": result: ".toList) (.sentinel .notFinite))
        else .ok res.withoutNegativeZero := by
  have hb' : (b.getD .zero).isFinite = true := by
    cases b with
    | none => rfl
    | some x => exact hb x rfl
  have h2' : ¬ (spec.arity = 2 ∧ b = none) := fun h => h2 h.1 h.2
  have h1' : ¬ (spec.arity = 1 ∧ b ≠ none) := fun h => h.2 (h1 h.1)
  unfold evaluate
  rw [hl]
  simp only [if_neg h2', if_neg h1', ha, hb', Bool.not_true, Bool.false_eq_true, if_false]

theorem name_of_lookup (h : lookup registry op = some spec) : spec.name = op := by
  simpa using List.find?_some h

theorem mem_of_lookup (h : lookup registry op = some spec) : spec ∈ registry :=
  List.mem_of_find?_eq_some h

end

theorem fn_error_of_mem {P : Primitives} {spec : Spec} (h : spec ∈ newRegistry P) {x y : Float64}
    {err : CalcError} (he : spec.fn x y = .error err) : err = .divisionByZero ∨ err = .domain := by
  simp only [newRegistry, List.mem_cons, List.not_mem_nil, or_false] at h
  rcases h with rfl | rfl | rfl | rfl | rfl | rfl | rfl
  · cases he
  · cases he
  · cases he
  · simp only [divide] at he
    split_ifs at he
    cases he
    exact Or.inl rfl
  · simp only [power] at he
    split_ifs at he
    · cases he
      exact Or.inl rfl
    · cases he
      exact Or.inr rfl
  · simp only [sqrt] at he
    split_ifs at he
    cases he
    exact Or.inr rfl
  · simp only [percent] at he
    split_ifs at he

end Calculator.Backend
