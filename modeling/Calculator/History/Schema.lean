import Calculator.Store.Requests

/-! # Stored entries

What an entry of the history holds, the JSON value that is written for it, and
the schema that a stored value has to meet on the way back in.
-/

namespace Calculator.History

open Binary Decimal Engine

inductive Json where
  | null
  | bool (b : Bool)
  | number (x : Float64)
  | string (s : Text)
  | array (items : List Json)
  | object (members : List (Text × Json))

abbrev Schema (α : Type) := Json → Option α

abbrev NonemptyText := { s : Text // s ≠ [] }

/-- JSON has no infinities, and the schema of a number refuses them. -/
abbrev FiniteNumber := { x : Float64 // x.isFinite = true }

structure HistoryEntry where
  id : NonemptyText
  operation : OperationName
  a : FiniteNumber
  /-- Missing for a unary operation. -/
  b : Option FiniteNumber
  result : FiniteNumber
  /-- When the entry was recorded. -/
  «at» : NonemptyText
  deriving DecidableEq

section Schemas

variable {α : Type}

def stringMin1 : Schema NonemptyText
  | .string s => if h : s ≠ [] then some ⟨s, h⟩ else none
  | _ => none

def finiteNumber : Schema FiniteNumber
  | .number x => if h : x.isFinite = true then some ⟨x, h⟩ else none
  | _ => none

def nullable (schema : Schema α) : Schema (Option α)
  | .null => some none
  | j => (schema j).map some

def array (schema : Schema α) : Schema (List α)
  | .array items => items.mapM schema
  | _ => none

def property (key : Text) (schema : Schema α) : Schema α
  | .object members => (members.lookup key).bind schema
  | _ => none

def operationNames : List OperationName :=
  [.add, .subtract, .multiply, .divide, .power, .sqrt, .percent]

def operationNameSchema : Schema OperationName
  | .string s => operationNames.find? fun op => Store.operationText op = s
  | _ => none

end Schemas

def historyEntrySchema : Schema HistoryEntry := fun j => do
  let id ← property "id".toList stringMin1 j
  let operation ← property "operation".toList operationNameSchema j
  let a ← property "a".toList finiteNumber j
  let b ← property "b".toList (nullable finiteNumber) j
  let result ← property "result".toList finiteNumber j
  let date ← property "at".toList stringMin1 j
  return ⟨id, operation, a, b, result, date⟩

def historyListSchema : Schema (List HistoryEntry) := array historyEntrySchema

def FiniteNumber.toJson (x : FiniteNumber) : Json := .number x

def HistoryEntry.toJson (x : HistoryEntry) : Json := .object [
  ("operation".toList, .string (Store.operationText x.operation)),
  ("a".toList, x.a.toJson),
  ("b".toList, (x.b.map FiniteNumber.toJson).getD .null),
  ("result".toList, x.result.toJson),
  ("id".toList, .string x.id),
  ("at".toList, .string x.at)]

def listToJson (l : List HistoryEntry) : Json := .array (l.map HistoryEntry.toJson)

section RoundTrip

variable {α : Type}

@[simp] theorem stringMin1_string (s : NonemptyText) : stringMin1 (.string s) = some s :=
  dif_pos s.2

@[simp] theorem finiteNumber_toJson (x : FiniteNumber) : finiteNumber x.toJson = some x :=
  dif_pos x.2

@[simp] theorem nullable_toJson (b : Option FiniteNumber) :
    nullable finiteNumber ((b.map FiniteNumber.toJson).getD .null) = some b := by
  cases b with
  | none => rfl
  | some x =>
    change (finiteNumber x.toJson).map some = some (some x)
    rw [finiteNumber_toJson, Option.map_some]

@[simp] theorem operationNameSchema_operationText (op : OperationName) :
    operationNameSchema (.string (Store.operationText op)) = some op := by
  cases op <;> rfl

theorem array_map {schema : Schema α} {f : α → Json} (h : ∀ x, schema (f x) = some x)
    (l : List α) : array schema (.array (l.map f)) = some l := by
  change (l.map f).mapM schema = some l
  induction l with
  | nil => rfl
  | cons x l ih => simp [h, ih]

@[simp] theorem property_cons_self {schema : Schema α} (key : Text) (j : Json)
    (members : List (Text × Json)) :
    property key schema (.object ((key, j) :: members)) = schema j := by
  simp [property]

@[simp] theorem property_cons_of_ne {schema : Schema α} {key other : Text} (h : key ≠ other)
    (j : Json) (members : List (Text × Json)) :
    property key schema (.object ((other, j) :: members)) =
      property key schema (.object members) := by
  rw [property, property, List.lookup_cons, beq_false_of_ne h]

theorem historyEntrySchema_toJson (x : HistoryEntry) : historyEntrySchema x.toJson = some x := by
  simp [historyEntrySchema, HistoryEntry.toJson]

theorem historyListSchema_listToJson (l : List HistoryEntry) :
    historyListSchema (listToJson l) = some l :=
  array_map historyEntrySchema_toJson l

end RoundTrip

end Calculator.History
