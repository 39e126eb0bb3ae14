import Calculator.Engine.Transitions

/-! # A reference evaluator

What the keys of a calculation mean, without phases: operands with operators
between them, evaluated from left to right by asking for one operation after
the other. How an entry reads as a number is a parameter.
-/

namespace Calculator.Engine.Reference

open Binary Decimal

inductive Start where
  | digit (digit : Digit)
  | decimal

inductive Edit where
  | digit (digit : Digit)
  | decimal
  | toggleSign
  | backspace

def Start.key : Start → Key
  | .digit d => .digit d
  | .decimal => .decimal

def Start.entry : Start → Text
  | .digit d => appendDigit ['0'] d
  | .decimal => ['0', '.']

def Edit.key : Edit → Key
  | .digit d => .digit d
  | .decimal => .decimal
  | .toggleSign => .toggleSign
  | .backspace => .backspace

def Edit.apply (entry : Text) : Edit → Text
  | .digit d => appendDigit entry d
  | .decimal => appendDecimal entry
  | .toggleSign => toggleEntrySign entry
  | .backspace => dropLastChar entry

theorem press_edit {state : CalcState} (h : state.phase.entering = true) (e : Edit) :
    press state e.key = stay { state with display := e.apply state.display } := by
  cases e with
  | digit d => exact inputDigit_of_entering h d
  | decimal => exact inputDecimal_of_entering h
  | toggleSign => exact toggleSign_of_entering h
  | backspace => exact backspace_of_entering h

/-- An operand: the keys that type it, and the unary keys pressed on it. -/
structure Operand where
  start : Start
  edits : List Edit
  unaries : List UnaryKey

def Operand.entry (o : Operand) : Text := o.edits.foldl Edit.apply o.start.entry

def Operand.keys (o : Operand) : List Key :=
  o.start.key :: (o.edits.map Edit.key ++ o.unaries.map Key.unary)

/-- One or more presses of operator keys, the last of which counts. -/
structure OperatorRun where
  first : BinaryOperation
  others : List BinaryOperation

def OperatorRun.operator (run : OperatorRun) : BinaryOperation :=
  run.others.getLastD run.first

def OperatorRun.keys (run : OperatorRun) : List Key :=
  .operator run.first :: run.others.map Key.operator

/-- Operands between operators, perhaps a last operator without an operand, and
one or more presses of `=`. -/
structure Program where
  head : Operand
  tail : List (OperatorRun × Operand)
  trailing : Option OperatorRun
  /-- The presses of `=` after the first one. -/
  repeats : ℕ

def Program.keys (p : Program) : List Key :=
  p.head.keys ++ p.tail.flatMap (fun (run, o) => run.keys ++ o.keys) ++
    p.trailing.toList.flatMap OperatorRun.keys ++ .evaluate :: List.replicate p.repeats .evaluate

/-- The requests asked so far, in order, and the value at hand. -/
structure Tally where
  sent : List CalculateRequest
  value : Float64

/-- A tally, and the operation and operand that `=` repeats on its value. -/
structure Total extends Tally where
  last : Option (BinaryOperation × Float64)

variable (f : CalculateRequest → Float64) (read : Text → Float64)

def Tally.ask (t : Tally) (r : CalculateRequest) : Tally := ⟨t.sent ++ [r], f r⟩

def Tally.unary (percent : Float64 → CalculateRequest) (t : Tally) : UnaryKey → Tally
  | .sqrt => t.ask f ⟨.sqrt, t.value, none⟩
  | .percent => t.ask f (percent t.value)

def Operand.evaluate (percent : Float64 → CalculateRequest) (sent : List CalculateRequest)
    (o : Operand) : Tally :=
  o.unaries.foldl (Tally.unary f percent) ⟨sent, read o.entry⟩

/-- Percent of the first operand is a hundredth of it. -/
def percentOfOne (w : Float64) : CalculateRequest := ⟨.percent, w, some one⟩

/-- Percent of a later operand is taken of the value so far. -/
def percentOf (x w : Float64) : CalculateRequest := ⟨.percent, x, some w⟩

/-- Combine a value with an operand that has been evaluated after it. -/
def combine (x : Float64) (op : BinaryOperation) (w : Tally) : Total :=
  ⟨w.ask f ⟨op.name, x, some w.value⟩, some (op, w.value)⟩

def Total.step (t : Total) (next : OperatorRun × Operand) : Total :=
  combine f t.value next.1.operator (next.2.evaluate f read (percentOf t.value) t.sent)

def Total.close (t : Total) : Option OperatorRun → Total
  | none => t
  | some run => combine f t.value run.operator t.toTally

def Total.again (t : Total) : Total :=
  match t.last with
  | none => t
  | some (op, w) => ⟨t.ask f ⟨op.name, t.value, some w⟩, some (op, w)⟩

def Program.evaluate (p : Program) : Total :=
  let first : Total := ⟨p.head.evaluate f read percentOfOne [], none⟩
  (Total.again f)^[p.repeats] ((p.tail.foldl (Total.step f read) first).close f p.trailing)

end Calculator.Engine.Reference
