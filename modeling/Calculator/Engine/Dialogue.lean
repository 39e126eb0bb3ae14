import Calculator.Engine.Reference

/-! # The engine in front of a server

When each request is answered before the next key, a key takes the engine from
one settled state to another. Along the keys of a program these states follow
the reference evaluator, one request behind it while an operand is complete but
no key has asked for its operation yet.
-/

namespace Calculator.Engine

open Binary Decimal Reference

/-- A state of the engine, and the requests sent so far, in order. -/
structure Dialogue where
  state : CalcState
  sent : List CalculateRequest

/-- One key, and the answer to the request it sends, if any. -/
def Dialogue.serve (f : CalculateRequest → Float64) (d : Dialogue) (k : Key) : Dialogue :=
  match (press d.state k).effect with
  | none => ⟨(press d.state k).state, d.sent⟩
  | some r => ⟨(applyResult (press d.state k).state ⟨f r⟩).state, d.sent ++ [r]⟩

def typingA (entry : Text) : CalcState :=
  { initialState with phase := .enteringA, display := entry }

/-- No operator has been pressed, and nothing is being typed. -/
def shown (x : Float64) : CalcState :=
  { initialState with phase := .result, a := some x, display := toDisplay x }

def chosen (x : Float64) (op : BinaryOperation) : CalcState :=
  { initialState with
    phase := .operatorSelected, a := some x, display := toDisplay x, operator := some op }

def typingB (x : Float64) (op : BinaryOperation) (entry : Text) : CalcState :=
  { initialState with phase := .enteringB, a := some x, display := entry, operator := some op }

/-- The state after `=`, which repeats the operation with operand `w`. -/
def finished (x : Float64) (op : BinaryOperation) (w y : Float64) : CalcState :=
  { shown y with operator := some op, lastRequest := some ⟨op.name, x, some w⟩ }

structure FirstOperand (t : Tally) (d : Dialogue) : Prop where
  state : d.state = shown t.value ∨ ∃ entry, d.state = typingA entry ∧ parseEntry entry = t.value
  sent : d.sent = t.sent

structure LaterOperand (x : Float64) (op : BinaryOperation) (t : Tally) (d : Dialogue) : Prop where
  state : ∃ entry, d.state = typingB x op entry ∧ parseEntry entry = t.value
  sent : d.sent = t.sent

/-- A program up to the end of an operand. The reference evaluator has already
asked for the operation that the next key asks for. -/
inductive Complete (f : CalculateRequest → Float64) : Total → Dialogue → Prop
  | first {t : Tally} {d : Dialogue} (h : FirstOperand t d) : Complete f ⟨t, none⟩ d
  | later {x : Float64} {op : BinaryOperation} {w : Tally} {d : Dialogue}
      (h : LaterOperand x op w d) : Complete f (combine f x op w) d

inductive Finished : Total → Dialogue → Prop
  | shown (t : Tally) : Finished ⟨t, none⟩ ⟨shown t.value, t.sent⟩
  | finished (x : Float64) (op : BinaryOperation) (w : Float64) (t : Tally) :
    Finished ⟨t, some (op, w)⟩ ⟨finished x op w t.value, t.sent⟩

variable {f : CalculateRequest → Float64} {d : Dialogue} {t : Tally} {x : Float64}
  {op : BinaryOperation}

theorem serve_edits (es : List Edit) {state : CalcState} (h : state.phase.entering = true)
    (sent : List CalculateRequest) :
    (es.map Edit.key).foldl (Dialogue.serve f) ⟨state, sent⟩ =
      ⟨{ state with display := es.foldl Edit.apply state.display }, sent⟩ := by
  induction es generalizing state with
  | nil => rfl
  | cons e es ih =>
    have he : Dialogue.serve f ⟨state, sent⟩ e.key =
        ⟨{ state with display := e.apply state.display }, sent⟩ := by
      simp [Dialogue.serve, press_edit h]
    rw [List.map_cons, List.foldl_cons, he]
    exact ih h

theorem serve_typed_first (o : Operand) (sent : List CalculateRequest) :
    (o.edits.map Edit.key).foldl (Dialogue.serve f)
        (Dialogue.serve f ⟨initialState, sent⟩ o.start.key) =
      ⟨typingA o.entry, sent⟩ := by
  have hstart : Dialogue.serve f ⟨initialState, sent⟩ o.start.key =
      ⟨typingA o.start.entry, sent⟩ := by
    cases o.start <;> rfl
  rw [hstart]
  exact serve_edits o.edits rfl sent

theorem serve_typed_later (o : Operand) (sent : List CalculateRequest) :
    (o.edits.map Edit.key).foldl (Dialogue.serve f)
        (Dialogue.serve f ⟨chosen x op, sent⟩ o.start.key) =
      ⟨typingB x op o.entry, sent⟩ := by
  have hstart : Dialogue.serve f ⟨chosen x op, sent⟩ o.start.key =
      ⟨typingB x op o.start.entry, sent⟩ := by
    cases o.start <;> rfl
  rw [hstart]
  exact serve_edits o.edits rfl sent

theorem FirstOperand.unary (h : FirstOperand t d) (u : UnaryKey) :
    FirstOperand (t.unary f percentOfOne u) (d.serve f (.unary u)) := by
  obtain ⟨state, sent⟩ := d
  obtain ⟨hstate | ⟨entry, hstate, hx⟩, hsent⟩ := h
  · cases hstate
    cases hsent
    cases u <;> exact ⟨Or.inl rfl, rfl⟩
  · cases hstate
    cases hsent
    obtain ⟨sent, value⟩ := t
    cases hx
    cases u <;> exact ⟨Or.inl rfl, rfl⟩

theorem FirstOperand.of_keys (o : Operand) (sent : List CalculateRequest) :
    FirstOperand (o.evaluate f parseEntry percentOfOne sent)
      (o.keys.foldl (Dialogue.serve f) ⟨initialState, sent⟩) := by
  rw [Operand.keys, List.foldl_cons, List.foldl_append, serve_typed_first, List.foldl_map]
  apply List.foldl_rel ⟨Or.inr ⟨_, rfl, rfl⟩, rfl⟩
  intro u _ t d h
  exact h.unary u

/-- The answers are finite, and none of them is negative zero. -/
structure Proper (f : CalculateRequest → Float64) : Prop where
  isFinite : ∀ r, (f r).isFinite = true
  ne_negZero : ∀ r, f r ≠ .negZero

theorem Proper.parseEntry_toDisplay (hf : Proper f) (r : CalculateRequest) :
    parseEntry (toDisplay (f r)) = f r := by
  have hnumber : Ecma.number (Ecma.string (f r)) = f r :=
    Ecma.number_string (hf.isFinite r) (hf.ne_negZero r)
  rw [parseEntry, toDisplay, hnumber]
  exact Float64.withoutNegativeZero_of_ne (hf.ne_negZero r)

theorem LaterOperand.unary (hf : Proper f) (h : LaterOperand x op t d) (u : UnaryKey) :
    LaterOperand x op (t.unary f (percentOf x) u) (d.serve f (.unary u)) := by
  obtain ⟨state, sent⟩ := d
  obtain ⟨⟨entry, hstate, hw⟩, hsent⟩ := h
  obtain ⟨sent, value⟩ := t
  cases hstate
  cases hsent
  cases hw
  cases u with
  | sqrt => exact ⟨⟨_, rfl, hf.parseEntry_toDisplay _⟩, rfl⟩
  | percent => exact ⟨⟨_, rfl, hf.parseEntry_toDisplay _⟩, rfl⟩

theorem LaterOperand.of_keys (hf : Proper f) (o : Operand) (sent : List CalculateRequest) :
    LaterOperand x op (o.evaluate f parseEntry (percentOf x) sent)
      (o.keys.foldl (Dialogue.serve f) ⟨chosen x op, sent⟩) := by
  rw [Operand.keys, List.foldl_cons, List.foldl_append, serve_typed_later, List.foldl_map]
  apply List.foldl_rel ⟨⟨_, rfl, rfl⟩, rfl⟩
  intro u _ w d h
  exact h.unary hf u

variable {total : Total}

theorem Complete.operator (h : Complete f total d) (op : BinaryOperation) :
    d.serve f (.operator op) = ⟨chosen total.value op, total.sent⟩ := by
  cases h with
  | first h =>
    obtain ⟨state, sent⟩ := d
    obtain ⟨hstate | ⟨entry, hstate, hx⟩, hsent⟩ := h
    · cases hstate
      cases hsent
      rfl
    · cases hstate
      cases hsent
      rw [← hx]
      rfl
  | @later _ _ w _ h =>
    obtain ⟨state, sent⟩ := d
    obtain ⟨⟨entry, hstate, hw⟩, hsent⟩ := h
    obtain ⟨sent, value⟩ := w
    cases hstate
    cases hsent
    cases hw
    rfl

theorem serve_operators (ops : List BinaryOperation) (sent : List CalculateRequest) :
    (ops.map Key.operator).foldl (Dialogue.serve f) ⟨chosen x op, sent⟩ =
      ⟨chosen x (ops.getLastD op), sent⟩ := by
  induction ops generalizing op with
  | nil => rfl
  | cons op' ops ih =>
    rw [List.map_cons, List.foldl_cons, List.getLastD_cons]
    exact ih

theorem Complete.run (h : Complete f total d) (run : OperatorRun) :
    run.keys.foldl (Dialogue.serve f) d = ⟨chosen total.value run.operator, total.sent⟩ := by
  rw [OperatorRun.keys, List.foldl_cons, h.operator run.first]
  exact serve_operators run.others total.sent

theorem Complete.step (hf : Proper f) (h : Complete f total d) (next : OperatorRun × Operand) :
    Complete f (total.step f parseEntry next)
      ((next.1.keys ++ next.2.keys).foldl (Dialogue.serve f) d) := by
  rw [List.foldl_append, h.run next.1]
  exact .later (LaterOperand.of_keys hf next.2 total.sent)

theorem Complete.evaluate (h : Complete f total d) : Finished total (d.serve f .evaluate) := by
  cases h with
  | @first t _ h =>
    obtain ⟨state, sent⟩ := d
    obtain ⟨hstate | ⟨entry, hstate, hx⟩, hsent⟩ := h
    · cases hstate
      cases hsent
      exact .shown t
    · obtain ⟨sent, value⟩ := t
      cases hstate
      cases hsent
      cases hx
      exact .shown ⟨_, parseEntry entry⟩
  | @later x op w _ h =>
    obtain ⟨state, sent⟩ := d
    obtain ⟨⟨entry, hstate, hw⟩, hsent⟩ := h
    obtain ⟨sent, value⟩ := w
    cases hstate
    cases hsent
    cases hw
    exact .finished x op (parseEntry entry) _

theorem Finished.of_chosen (t : Tally) (op : BinaryOperation) :
    Finished (combine f t.value op t) (Dialogue.serve f ⟨chosen t.value op, t.sent⟩ .evaluate) :=
  .finished t.value op t.value (t.ask f ⟨op.name, t.value, some t.value⟩)

theorem Finished.again (h : Finished total d) :
    Finished (total.again f) (d.serve f .evaluate) := by
  cases h with
  | shown t => exact .shown t
  | finished x op w t => exact .finished t.value op w _

theorem Finished.repeat (h : Finished total d) (n : ℕ) :
    Finished ((Total.again f)^[n] total)
      ((List.replicate n Key.evaluate).foldl (Dialogue.serve f) d) := by
  induction n generalizing total d with
  | zero => exact h
  | succ n ih => exact ih h.again

/-- The keys of a program end where the reference evaluator does. -/
theorem Finished.of_keys (hf : Proper f) (p : Program) :
    Finished (p.evaluate f parseEntry) (p.keys.foldl (Dialogue.serve f) ⟨initialState, []⟩) := by
  have hcomplete : Complete f
      (p.tail.foldl (Total.step f parseEntry) ⟨p.head.evaluate f parseEntry percentOfOne [], none⟩)
      ((p.tail.flatMap fun next => next.1.keys ++ next.2.keys).foldl (Dialogue.serve f)
        (p.head.keys.foldl (Dialogue.serve f) ⟨initialState, []⟩)) := by
    rw [List.foldl_flatMap]
    apply List.foldl_rel (.first (FirstOperand.of_keys p.head []))
    intro next _ total d h
    exact h.step hf next
  rw [Program.keys, List.foldl_append, List.foldl_append, List.foldl_append, List.foldl_cons,
    Program.evaluate]
  refine Finished.repeat ?_ p.repeats
  cases p.trailing with
  | none => exact hcomplete.evaluate
  | some run =>
    rw [Option.toList_some, List.flatMap_singleton, hcomplete.run run]
    exact Finished.of_chosen _ run.operator

end Calculator.Engine
