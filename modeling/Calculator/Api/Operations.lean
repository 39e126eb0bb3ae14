import Calculator.Api.Calculations

/-! # The operations of the server

The list that the keys beside the pad are labelled from: the one that the server
sends, or the one that is built in until it arrives.
-/

namespace Calculator.Api

open Binary Decimal History

inductive Arity where
  | one | two
  deriving DecidableEq

def Arity.number : Arity → Float64
  | .one => .ofRat false 1
  | .two => .ofRat false 2

structure OperationSpec where
  name : NonemptyText
  symbol : NonemptyText
  arity : Arity
  deriving DecidableEq

def aritySchema : Schema Arity
  | .number x => [Arity.one, .two].find? (·.number = x)
  | _ => none

def operationSpecSchema : Schema OperationSpec := fun j => do
  let name ← property "name".toList stringMin1 j
  let symbol ← property "symbol".toList stringMin1 j
  let arity ← property "arity".toList aritySchema j
  return ⟨name, symbol, arity⟩

def operationsResponseSchema : Schema (List OperationSpec) :=
  property "operations".toList (array operationSpecSchema)

def OperationSpec.toJson (s : OperationSpec) : Json := .object [
  ("name".toList, .string s.name),
  ("symbol".toList, .string s.symbol),
  ("arity".toList, .number s.arity.number)]

def operationsToJson (specs : List OperationSpec) : Json :=
  .object [("operations".toList, .array (specs.map OperationSpec.toJson))]

/-- The registry as it is compiled into the server today. -/
def fallbackOperations : List OperationSpec := [
  ⟨⟨"add".toList, by decide⟩, ⟨['+'], by decide⟩, .two⟩,
  ⟨⟨"subtract".toList, by decide⟩, ⟨['−'], by decide⟩, .two⟩,
  ⟨⟨"multiply".toList, by decide⟩, ⟨['×'], by decide⟩, .two⟩,
  ⟨⟨"divide".toList, by decide⟩, ⟨['÷'], by decide⟩, .two⟩,
  ⟨⟨"power".toList, by decide⟩, ⟨['^'], by decide⟩, .two⟩,
  ⟨⟨"sqrt".toList, by decide⟩, ⟨['√'], by decide⟩, .one⟩,
  ⟨⟨"percent".toList, by decide⟩, ⟨['%'], by decide⟩, .two⟩]

/-- The operations to render, when the request has ended or is still under way. -/
def useOperations (P : Platform) (issues : Json → List Issue) (fetched : Option Fetched) :
    List OperationSpec :=
  match fetched.map (apiFetch P defaultTimeoutMs
    (some (safeParse issues operationsResponseSchema operationsToJson))) with
  | some (.ok data) => (operationsResponseSchema data).getD fallbackOperations
  | some (.error _) | none => fallbackOperations

theorem aritySchema_number (a : Arity) : aritySchema (.number a.number) = some a := by
  cases a with
  | one => decide +kernel
  | two => decide +kernel

theorem operationSpecSchema_toJson (s : OperationSpec) :
    operationSpecSchema s.toJson = some s := by
  obtain ⟨⟨name, hname⟩, ⟨symbol, hsymbol⟩, arity⟩ := s
  simp [operationSpecSchema, OperationSpec.toJson, stringMin1, hname, hsymbol,
    aritySchema_number]

theorem operationsResponseSchema_toJson (specs : List OperationSpec) :
    operationsResponseSchema (operationsToJson specs) = some specs := by
  have hitems : (specs.map OperationSpec.toJson).mapM operationSpecSchema = some specs := by
    induction specs with
    | nil => rfl
    | cons s specs ih => simp [operationSpecSchema_toJson, ih]
  simp [operationsResponseSchema, operationsToJson, array, hitems]

end Calculator.Api
