import Calculator.Store.Session

/-! # Displays

A property that the texts of all numbers have and every edit of an entry keeps
is one that the display of every reachable session has.
-/

namespace Calculator.Store

open Binary Decimal Ecma Engine Runs

/-- What no edit of an entry and no computed value can break. -/
structure EditInvariant (I : Text → Prop) : Prop where
  string (x : Float64) : I (Ecma.string x)
  appendDigit {t : Text} (h : I t) (d : Digit) : I (appendDigit t d)
  appendDecimal {t : Text} (h : I t) : I (appendDecimal t)
  toggleEntrySign {t : Text} (h : I t) : I (toggleEntrySign t)
  dropLastChar {t : Text} (h : I t) : I (dropLastChar t)

namespace EditInvariant

variable {I : Text → Prop} {c : CalcState}

theorem zero (hI : EditInvariant I) : I ['0'] := hI.string .zero

theorem zeroPoint (hI : EditInvariant I) : I ['0', '.'] := hI.appendDecimal hI.zero

theorem inputDigit (hI : EditInvariant I) (h : I c.display) (d : Digit) :
    I (inputDigit c d).state.display := by
  have h0 : I (Engine.appendDigit ['0'] d) := hI.appendDigit hI.zero d
  unfold Engine.inputDigit
  split
  · exact h0
  · exact h0
  · exact h0
  · exact hI.appendDigit h d
  · exact hI.appendDigit h d
  · exact h0

theorem inputDecimal (hI : EditInvariant I) (h : I c.display) :
    I (inputDecimal c).state.display := by
  unfold Engine.inputDecimal
  split
  · exact hI.zeroPoint
  · exact hI.zeroPoint
  · exact hI.zeroPoint
  · exact hI.appendDecimal h
  · exact hI.appendDecimal h
  · exact hI.zeroPoint

theorem toggleSign (hI : EditInvariant I) (h : I c.display) :
    I (toggleSign c).state.display := by
  unfold Engine.toggleSign
  split
  · exact hI.zero
  · exact hI.zero
  · exact hI.toggleEntrySign h
  · exact hI.toggleEntrySign h
  · exact hI.string _
  · exact hI.string _

theorem backspace (hI : EditInvariant I) (h : I c.display) :
    I (backspace c).state.display := by
  unfold Engine.backspace
  split
  · exact hI.zero
  · exact hI.zero
  · exact hI.dropLastChar h
  · exact hI.dropLastChar h
  · exact h
  · exact h

theorem clearEntry (hI : EditInvariant I) (h : I c.display) :
    I (clearEntry c).state.display := by
  unfold Engine.clearEntry
  split
  · exact hI.zero
  · exact hI.zero
  · exact hI.zero
  · exact hI.zero
  · exact h
  · exact hI.string _

theorem setOperator (hI : EditInvariant I) (h : I c.display) (op : BinaryOperation) :
    I (setOperator c op).state.display := by
  unfold Engine.setOperator
  split
  · exact hI.zero
  · exact hI.zero
  · exact hI.string _
  · exact h
  · exact h
  · exact h

theorem requestEvaluate (hI : EditInvariant I) (h : I c.display) :
    I (requestEvaluate c).state.display := by
  unfold Engine.requestEvaluate
  split
  · exact hI.zero
  · exact hI.zero
  · exact hI.string _
  · exact h
  · exact h
  · split
    · exact h
    · exact h

theorem applyUnary (hI : EditInvariant I) (h : I c.display) (op : UnaryKey) :
    I (applyUnary c op).state.display := by
  unfold Engine.applyUnary
  split
  · exact hI.zero
  · exact hI.zero
  · exact h
  · exact h
  · exact h
  · exact h

theorem press (hI : EditInvariant I) (h : I c.display) (k : Key) :
    I (press c k).state.display := by
  cases k with
  | digit d => exact hI.inputDigit h d
  | decimal => exact hI.inputDecimal h
  | toggleSign => exact hI.toggleSign h
  | backspace => exact hI.backspace h
  | clearEntry => exact hI.clearEntry h
  | operator op => exact hI.setOperator h op
  | evaluate => exact hI.requestEvaluate h
  | unary op => exact hI.applyUnary h op

theorem applyResult (hI : EditInvariant I) (response : CalculateResponse) :
    I (applyResult c response).state.display := by
  unfold Engine.applyResult
  split <;> exact hI.string _

theorem applyError (h : I c.display) (message : Text) :
    I (applyError c message).state.display := by
  rw [applyError_eq]
  exact h

variable {s t : Session} {e : Event}

theorem step (hI : EditInvariant I) (h : I s.calcState.display) (hstep : Step s e t) :
    I t.calcState.display := by
  cases hstep with
  | busy _ _ | noRetry _ _ | setEvaluator _ | stale _ _ | retry _ _ _ _ => exact h
  | edit _ _ | send _ _ _ => exact hI.press h _
  | sendUnanswered _ _ _ => exact applyError (hI.press h _) _
  | retryUnanswered _ _ _ _ | fail _ => exact applyError h _
  | recallValue _ => exact hI.string _
  | clearAll =>
    rw [Session.clearAll, clearAll_eq]
    exact hI.zero
  | answer _ => exact hI.applyResult _

theorem display (hI : EditInvariant I) (h : store.Reachable s) : I s.calcState.display :=
  h.induction (I := fun s => I s.calcState.display) hI.zero
    fun hs hn => hI.step hs (step_of_next hn)

end EditInvariant

end Calculator.Store
