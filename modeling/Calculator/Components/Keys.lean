import Calculator.Api.Operations

/-! # Keys

What the keys on the page ask for: those of the keyboard, those of the pad, and the
operations that the server advertises beside it.
-/

namespace Calculator.Components

open Decimal

inductive Press where
  | input (key : Engine.Key)
  | clearAll
  deriving DecidableEq

inductive KeyAction where
  | digit (digit : Engine.Digit)
  | decimal
  | operator (operator : Engine.BinaryOperation)
  | unary (op : Engine.UnaryKey)
  | equals
  | clearAll
  | clearEntry
  | backspace
  deriving DecidableEq

def keyMap : List (Text × KeyAction) := [
  (['0'], .digit 0), (['1'], .digit 1), (['2'], .digit 2), (['3'], .digit 3), (['4'], .digit 4),
  (['5'], .digit 5), (['6'], .digit 6), (['7'], .digit 7), (['8'], .digit 8), (['9'], .digit 9),
  (['.'], .decimal),
  (['+'], .operator .add),
  (['-'], .operator .subtract),
  (['*'], .operator .multiply),
  (['/'], .operator .divide),
  (['^'], .operator .power),
  (['%'], .unary .percent),
  (['r'], .unary .sqrt),
  ("Enter".toList, .equals),
  (['='], .equals),
  ("Escape".toList, .clearAll),
  ("Backspace".toList, .backspace),
  ("Delete".toList, .clearEntry)]

def dispatch : KeyAction → Press
  | .digit digit => .input (.digit digit)
  | .decimal => .input .decimal
  | .operator operator => .input (.operator operator)
  | .unary op => .input (.unary op)
  | .equals => .input .evaluate
  | .clearAll => .clearAll
  | .clearEntry => .input .clearEntry
  | .backspace => .input .backspace

structure KeyboardEvent where
  key : Text
  ctrlKey : Bool
  metaKey : Bool
  altKey : Bool
  /-- Whether the target is a field that is typed into. -/
  typing : Bool

/-- What the key means, unless it is a shortcut of the browser or goes to a field. -/
def KeyboardEvent.action (e : KeyboardEvent) : Option KeyAction :=
  if e.ctrlKey || e.metaKey || e.altKey then none
  else if e.typing then none
  else keyMap.lookup e.key

def plainKey (key : Text) : KeyboardEvent := ⟨key, false, false, false, false⟩

structure KeyDescriptor where
  id : Text
  keyShortcut : Option Text
  ignoresBusy : Bool
  press : Press

def digitKey (digit : Engine.Digit) : KeyDescriptor :=
  ⟨[digit.char], some [digit.char], false, .input (.digit digit)⟩

def operatorKey (operator : Engine.BinaryOperation) (shortcut : Text) : KeyDescriptor :=
  ⟨Store.operationText operator.name, some shortcut, false, .input (.operator operator)⟩

/-- The three digit rows with the operator that ends each of them. -/
def numberRows : List (List Engine.Digit × Engine.BinaryOperation × Text) := [
  ([7, 8, 9], .multiply, ['*']), ([4, 5, 6], .subtract, ['-']), ([1, 2, 3], .add, ['+'])]

def buildKeys : List KeyDescriptor := [
  ⟨"clear-all".toList, some "Escape".toList, true, .clearAll⟩,
  ⟨"clear-entry".toList, some "Delete".toList, false, .input .clearEntry⟩,
  ⟨"backspace".toList, some "Backspace".toList, false, .input .backspace⟩,
  operatorKey .divide ['/']] ++
  (numberRows.flatMap fun row => row.1.map digitKey ++ [operatorKey row.2.1 row.2.2]) ++ [
  ⟨"toggle-sign".toList, none, false, .input .toggleSign⟩,
  digitKey 0,
  ⟨"decimal".toList, some ['.'], false, .input .decimal⟩,
  ⟨"equals".toList, some "Enter".toList, false, .input .evaluate⟩]

def padKey (id : Text) : Option KeyDescriptor := buildKeys.find? (·.id = id)

/-- The keys that are dead while a calculation is in flight are those that the store
ignores. -/
theorem ignoresBusy_iff {k : KeyDescriptor} (hk : k ∈ buildKeys) :
    k.ignoresBusy = true ↔ k.press = .clearAll := by
  revert hk k
  decide

/-- What a key of the pad says it can be typed with does the same. -/
theorem dispatch_keyShortcut {k : KeyDescriptor} (hk : k ∈ buildKeys) :
    ∀ key ∈ k.keyShortcut, (keyMap.lookup key).map dispatch = some k.press := by
  revert hk k
  decide

def keypadOperations : List Text :=
  ["add".toList, "subtract".toList, "multiply".toList, "divide".toList]

def unaryKeys : List (Text × Engine.UnaryKey) :=
  [("sqrt".toList, .sqrt), ("percent".toList, .percent)]

def binaryOperations : List (Text × Engine.BinaryOperation) := [
  ("add".toList, .add), ("subtract".toList, .subtract), ("multiply".toList, .multiply),
  ("divide".toList, .divide), ("power".toList, .power)]

/-- What pressing an operation does, if this build knows it. -/
def pressHandler (name : Text) : Option Press :=
  match unaryKeys.lookup name with
  | some op => some (.input (.unary op))
  | none => (binaryOperations.lookup name).map fun operator => .input (.operator operator)

def extras (operations : List Api.OperationSpec) : List Api.OperationSpec :=
  operations.filter fun operation => !keypadOperations.contains operation.name.1

/-- The operation with a name, if it has a key beside the pad. -/
def extraKey (operations : List Api.OperationSpec) (name : Text) : Option Api.OperationSpec :=
  (extras operations).find? (·.name.1 = name)

theorem pressHandler_ne_clearAll (name : Text) : pressHandler name ≠ some .clearAll := by
  unfold pressHandler
  cases unaryKeys.lookup name with
  | some op => simp
  | none => cases binaryOperations.lookup name <;> simp

end Calculator.Components
