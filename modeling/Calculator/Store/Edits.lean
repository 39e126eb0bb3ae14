import Calculator.Store.States
import Calculator.Store.Typing

/-! # Taking edits back

Every edit can be undone by another key: the sign by itself, a digit or a point
by `⌫`, and all the edits of a second operand, together with what the server
made of it, by `CE`.
-/

namespace Calculator.Engine

open Binary Decimal Ecma Display

/-- An entry that is not empty, not a lone sign and not a negative zero. -/
def Normal (t : Text) : Prop := normaliseEntry t = t

instance (t : Text) : Decidable (Normal t) := inferInstanceAs (Decidable (_ = _))

variable {t : Text}

theorem normal_iff : Normal t ↔ t ≠ [] ∧ t ≠ ['-'] ∧ t ≠ ['-', '0'] := by
  unfold Normal normaliseEntry
  constructor
  · intro h
    refine ⟨?_, ?_, ?_⟩
    · rintro rfl
      cases h
    · rintro rfl
      cases h
    · rintro rfl
      cases h
  · rintro ⟨h₁, h₂, h₃⟩
    rw [if_neg (by simp [h₁, h₂, h₃])]

theorem normal_zero : Normal ['0'] := by decide +kernel

theorem normal_normaliseEntry (t : Text) : Normal (normaliseEntry t) := by
  unfold normaliseEntry
  split
  · exact normal_zero
  · next h =>
    push Not at h
    exact normal_iff.mpr h

theorem Normal.append (h : Normal t) (c : Char) : Normal (t ++ [c]) := by
  obtain ⟨hnil, hsign, -⟩ := normal_iff.mp h
  refine normal_iff.mpr ⟨by simp, ?_, ?_⟩
  · intro ht
    exact hnil (List.append_eq_singleton_iff.mp ht |>.resolve_right (by simp)).1
  · intro ht
    have htake := List.append_inj_left' (show t ++ [c] = ['-'] ++ ['0'] from ht) rfl
    exact hsign htake

theorem Normal.appendDigit (h : Normal t) (d : Digit) : Normal (appendDigit t d) := by
  unfold Engine.appendDigit
  split
  · exact h
  · split
    · revert d
      decide +kernel
    · exact h.append _

theorem Normal.appendDecimal (h : Normal t) : Normal (appendDecimal t) := by
  unfold Engine.appendDecimal
  split
  · exact h
  · exact h.append _

theorem normal_string (x : Float64) : Normal (string x) := by
  cases x with
  | nan => decide +kernel
  | infinity s => cases s <;> decide +kernel
  | finite s i =>
    by_cases hi : i.val = 0
    · rw [string, if_pos hi]
      exact normal_zero
    · have hne : ∀ r, (Float64.finite s i) ≠ .finite r ⟨0, by decide⟩ := by
        rintro r ⟨⟩
        exact hi rfl
      have hread := number_string (x := .finite s i) rfl (hne true)
      refine normal_iff.mpr ⟨?_, ?_, ?_⟩
      · intro h
        rw [h] at hread
        exact hne false (hread.symm.trans (by decide +kernel))
      · intro h
        rw [h] at hread
        have hnan : number ['-'] = .nan := by decide +kernel
        cases hnan.symm.trans hread
      · intro h
        rw [h] at hread
        exact hne true (hread.symm.trans (by decide +kernel))

theorem normal_editInvariant : Store.EditInvariant Normal where
  string := normal_string
  appendDigit := Normal.appendDigit
  appendDecimal := Normal.appendDecimal
  toggleEntrySign _ := normal_normaliseEntry _
  dropLastChar _ := normal_normaliseEntry _

/-- The sign is its own inverse, also on a zero, which has none. -/
theorem toggleEntrySign_toggleEntrySign (h : Normal t) (hu : Ungrouped t) :
    toggleEntrySign (toggleEntrySign t) = t := by
  obtain ⟨s, u, rfl, hhead, -⟩ := hu
  have hdrop : (if (signed s u).head? = some '-' then (signed s u).drop 1
      else '-' :: signed s u) = signed (!s) u := by
    simp only [head_signed_iff hhead]
    cases s <;> rfl
  have htoggle : toggleEntrySign (signed s u) = normaliseEntry (signed (!s) u) := by
    rw [toggleEntrySign, hdrop]
  rw [htoggle]
  obtain ⟨hnil, hsign, hzero⟩ := normal_iff.mp h
  cases s with
  | true =>
    -- nothing is left to normalise when a sign goes, and the sign comes back
    have hu : Normal u := normal_iff.mpr
      ⟨fun he => hsign (by rw [he]; rfl), fun he => hhead (by rw [he]; rfl),
        fun he => hhead (by rw [he]; rfl)⟩
    rw [show normaliseEntry (signed (!true) u) = u from hu, toggleEntrySign, if_neg hhead]
    exact h
  | false =>
    by_cases hu0 : u = ['0']
    · subst hu0
      decide
    · have hneg : Normal ('-' :: u) := normal_iff.mpr
        ⟨by simp, fun he => hnil (List.cons.inj he).2, fun he => hu0 (List.cons.inj he).2⟩
      rw [show normaliseEntry (signed (!false) u) = '-' :: u from hneg]
      exact h

theorem dropLastChar_append (h : Normal t) (c : Char) : dropLastChar (t ++ [c]) = t := by
  rw [dropLastChar, List.dropLast_concat]
  exact h

theorem dropLastChar_appendDigit (h : Normal t) {d : Digit}
    (hcap : countDigits t < maxEntryDigits) : dropLastChar (appendDigit t d) = t := by
  rw [appendDigit, if_neg hcap.not_ge]
  split
  · next h0 =>
    subst h0
    rfl
  · exact dropLastChar_append h _

theorem dropLastChar_appendDecimal (h : Normal t) (hp : '.' ∉ t) :
    dropLastChar (appendDecimal t) = t := by
  rw [appendDecimal, if_neg hp]
  exact dropLastChar_append h _

theorem negate_negate {a : Float64} (ha : a ≠ .negZero) :
    negate (some (negate (some a))) = a := by
  by_cases hz : a = .zero
  · subst hz
    decide +kernel
  · have hneg : a.neg.withoutNegativeZero = a.neg := by
      rw [Float64.withoutNegativeZero, if_neg]
      rw [Float64.isZero_neg, Float64.isZero_iff]
      exact not_or.mpr ⟨hz, ha⟩
    simp only [negate, Option.getD_some, hneg, Float64.neg_neg]
    exact Float64.withoutNegativeZero_of_ne ha

variable {c : CalcState}

theorem press_a_ne_negZero (h : c.a ≠ some .negZero) (k : Key) :
    (press c k).state.a ≠ some .negZero := by
  have hinit : initialState.a ≠ some .negZero := by rintro ⟨⟩
  have hzero : some Float64.zero ≠ some .negZero := by decide
  have hparse : some (parseEntry c.display) ≠ some .negZero :=
    fun he => Float64.withoutNegativeZero_ne _ (Option.some.inj he)
  have hnegate : some (negate c.a) ≠ some .negZero :=
    fun he => Float64.withoutNegativeZero_ne _ (Option.some.inj he)
  cases k with
  | digit d => simp only [press, inputDigit]; split <;> assumption
  | decimal => simp only [press, inputDecimal]; split <;> assumption
  | toggleSign => simp only [press, toggleSign]; split <;> assumption
  | backspace => simp only [press, backspace]; split <;> assumption
  | clearEntry => simp only [press, clearEntry]; split <;> assumption
  | operator op =>
    simp only [press, setOperator]
    split
    · exact hzero
    · exact hzero
    · exact hparse
    · exact h
    · exact h
    · exact hinit
  | evaluate =>
    simp only [press, requestEvaluate]
    split
    · exact hinit
    · exact hinit
    · exact hparse
    · exact h
    · exact h
    · split <;> exact h
  | unary op => simp only [press, applyUnary]; split <;> assumption

theorem applyResult_a_ne_negZero (h : c.a ≠ some .negZero) {r : CalculateResponse}
    (hr : r.result ≠ .negZero) : (applyResult c r).state.a ≠ some .negZero := by
  have hresult : some r.result ≠ some .negZero := fun he => hr (Option.some.inj he)
  simp only [applyResult]
  split <;> assumption

end Calculator.Engine

namespace Calculator.Store

open Binary Decimal Engine Runs

variable {s t u : Session} {e : Event} {es : List Event}

def AnswersNoNegZero : Event → Prop
  | .settle _ (.answer response) => response.result ≠ .negZero
  | _ => True

instance : (e : Event) → Decidable (AnswersNoNegZero e)
  | .settle _ (.answer response) => inferInstanceAs (Decidable (response.result ≠ .negZero))
  | .key _ | .clearAll | .retry | .recallValue _ | .setEvaluator _ | .settle _ (.failure _) =>
    inferInstanceAs (Decidable True)

theorem a_ne_negZero_step (h : s.calcState.a ≠ some .negZero) (he : AnswersNoNegZero e)
    (hstep : Step s e t) : t.calcState.a ≠ some .negZero := by
  cases hstep with
  | busy _ _ | noRetry _ _ | setEvaluator _ | stale _ _ | retry _ _ _ _ => exact h
  | edit _ _ | send _ _ _ => exact press_a_ne_negZero h _
  | sendUnanswered _ _ _ =>
    simp only [Session.unanswered, applyError_eq]
    exact press_a_ne_negZero h _
  | retryUnanswered _ _ _ _ | fail _ =>
    simp only [Session.unanswered, Session.failed, applyError_eq]
    exact h
  | recallValue _ => rintro ⟨⟩
  | clearAll =>
    rw [Session.clearAll, clearAll_eq]
    rintro ⟨⟩
  | answer _ => exact applyResult_a_ne_negZero h he

theorem a_ne_negZero_of_run (he : ∀ e ∈ es, AnswersNoNegZero e)
    (h : store.Run (fresh false) es s) : s.calcState.a ≠ some .negZero :=
  (h.and_mem he).preserves (I := fun s => s.calcState.a ≠ some .negZero)
    (fun hs hp hn => a_ne_negZero_step hs hp.2 (step_of_next hn)) (by rintro ⟨⟩)

theorem next_edit (hp : s.pending = false) {k : Key} {c : CalcState}
    (h : press s.calcState k = stay c) :
    store.next s (.key k) = some { s with calcState := c } := by
  have hstep := (Step.edit hp (by rw [h]; rfl) : Step s (.key k) _).next
  rwa [h] at hstep

theorem run_pair (hp : s.pending = false) {k l : Key} {c : CalcState}
    (hk : press s.calcState k = stay c) (hl : press c l = stay s.calcState) :
    store.Run s [.key k, .key l] s := by
  have hnext : store.next { s with calcState := c } (.key l) = some s :=
    next_edit (s := { s with calcState := c }) hp hl
  exact .cons trivial (next_edit hp hk) (.cons trivial hnext (.nil s))

theorem toggleSign_twice (hs : Settled s.calcState) (hp : s.pending = false)
    (hne : s.calcState.phase ≠ .error) (hn : Normal s.calcState.display)
    (hu : Display.Ungrouped s.calcState.display) (ha : s.calcState.a ≠ some .negZero) :
    store.Run s [.key .toggleSign, .key .toggleSign] s := by
  obtain ⟨c, hc⟩ : ∃ c, c = s.calcState := ⟨_, rfl⟩
  rw [← hc] at hs hne hn hu ha
  have hback : ∃ c', press c .toggleSign = stay c' ∧ press c' .toggleSign = stay c := by
    cases hs with
    | idle => exact ⟨_, rfl, rfl⟩
    | enteringA display =>
      refine ⟨_, rfl, ?_⟩
      simp only [press, toggleSign]
      rw [toggleEntrySign_toggleEntrySign hn hu]
    | enteringB display a op last =>
      refine ⟨_, rfl, ?_⟩
      simp only [press, toggleSign]
      rw [toggleEntrySign_toggleEntrySign hn hu]
    | operatorSelected a op last =>
      refine ⟨_, rfl, ?_⟩
      simp only [press, toggleSign]
      rw [negate_negate fun he => ha (congrArg some he)]
    | frozen a =>
      refine ⟨_, rfl, ?_⟩
      simp only [press, toggleSign]
      rw [negate_negate fun he => ha (congrArg some he)]
    | evaluated a op last =>
      refine ⟨_, rfl, ?_⟩
      simp only [press, toggleSign]
      rw [negate_negate fun he => ha (congrArg some he)]
    | error => exact absurd rfl hne
  obtain ⟨c', h, h'⟩ := hback
  rw [hc] at h h'
  exact run_pair hp h h'

theorem edit_backspace (hp : s.pending = false) (he : s.calcState.phase.entering = true) {k : Key}
    {edited : Text} (hk : press s.calcState k = stay { s.calcState with display := edited })
    (hback : dropLastChar edited = s.calcState.display) :
    store.Run s [.key k, .key .backspace] s := by
  refine run_pair hp hk ?_
  have hb : backspace { s.calcState with display := edited } =
      stay { s.calcState with display := dropLastChar edited } := backspace_of_entering he
  rw [press, hb, hback]

/-- In every settled state outside of the error phase, `±` twice changes nothing,
and neither does a digit or a point that is accepted, followed by `⌫`, provided
that the server has answered no negative zero. -/
theorem edits_can_be_undone (he : ∀ e ∈ es, AnswersNoNegZero e)
    (h : store.Run (fresh false) es s) (hp : s.pending = false)
    (hne : s.calcState.phase ≠ .error) :
    store.Run s [.key .toggleSign, .key .toggleSign] s ∧
    (s.calcState.phase.entering = true →
      (∀ d : Digit, countDigits s.calcState.display < maxEntryDigits →
        store.Run s [.key (.digit d), .key .backspace] s) ∧
      ('.' ∉ s.calcState.display → store.Run s [.key .decimal, .key .backspace] s)) := by
  have hreach : store.Reachable s := ⟨es, h⟩
  have hsettled := (Coherent.of_reachable hreach).settled hp
  have hnormal := normal_editInvariant.display hreach
  refine ⟨?_, fun hen => ⟨fun d hcap => ?_, fun hpoint => ?_⟩⟩
  · exact toggleSign_twice hsettled hp hne hnormal (ungrouped_display hreach)
      (a_ne_negZero_of_run he h)
  · exact edit_backspace hp hen (inputDigit_of_entering hen d)
      (dropLastChar_appendDigit hnormal hcap)
  · exact edit_backspace hp hen (inputDecimal_of_entering hen)
      (dropLastChar_appendDecimal hnormal hpoint)

/-- A second operand typed after one that the server computed. -/
def rootAndEntry : List Event :=
  [.setEvaluator true, .key (.digit 9), .key (.unary .sqrt), .settle 1 (.answer ⟨one⟩),
    .key (.operator .multiply), .key (.digit 0), .key .toggleSign]

theorem rootAndEntry_isSome : (store.replay (fresh false) rootAndEntry).isSome := by
  decide +kernel

theorem edits_can_be_undone_rootAndEntry :
    let s := (store.replay (fresh false) rootAndEntry).get rootAndEntry_isSome
    store.Run s [.key .toggleSign, .key .toggleSign] s ∧
    (s.calcState.phase.entering = true →
      (∀ d : Digit, countDigits s.calcState.display < maxEntryDigits →
        store.Run s [.key (.digit d), .key .backspace] s) ∧
      ('.' ∉ s.calcState.display → store.Run s [.key .decimal, .key .backspace] s)) :=
  edits_can_be_undone (by decide +kernel)
    (Machine.runWhen_replayWhen_get rootAndEntry_isSome) (by decide +kernel) (by decide +kernel)

/-- What may happen while a second operand is edited: edits of the entry, `√` and
`%` with an evaluator wired in, their answers, and failures of requests that
nobody waits for. -/
def OperandEvent (s : Session) : Event → Prop
  | .key (.digit _) | .key .decimal | .key .toggleSign | .key .backspace => True
  | .key (.unary _) => s.evaluator = true
  | .settle _ (.answer _) => True
  | .settle ticket (.failure _) => ticket ≠ s.ticket
  | .setEvaluator _ => True
  | _ => False

instance (s : Session) : (e : Event) → Decidable (OperandEvent s e)
  | .key (.digit _) | .key .decimal | .key .toggleSign | .key .backspace =>
    inferInstanceAs (Decidable True)
  | .key (.unary _) => inferInstanceAs (Decidable (s.evaluator = true))
  | .settle _ (.answer _) => inferInstanceAs (Decidable True)
  | .settle ticket (.failure _) => inferInstanceAs (Decidable (ticket ≠ s.ticket))
  | .setEvaluator _ => inferInstanceAs (Decidable True)
  | .key .clearEntry | .key (.operator _) | .key .evaluate | .clearAll | .retry | .recallValue _ =>
    inferInstanceAs (Decidable False)

/-- In everything but the phase and the display, `d` is the state `c` in which the
operator was selected. -/
def IsSecondOperand (c d : CalcState) : Prop :=
  d = { c with phase := .enteringB, display := d.display }

section SecondOperand

variable {c d : CalcState}

theorem IsSecondOperand.phase (h : IsSecondOperand c d) : d.phase = .enteringB := by
  rw [h]

theorem isSecondOperand_display (h : IsSecondOperand c d) (display : Text) :
    IsSecondOperand c { d with display := display } := by
  rw [h]
  rfl

theorem IsSecondOperand.press (h : IsSecondOperand c d) {k : Key} (he : OperandEvent s (.key k)) :
    IsSecondOperand c (press d k).state := by
  have hen : d.phase.entering = true := by rw [h.phase]; rfl
  cases k with
  | digit digit =>
    rw [Engine.press, inputDigit_of_entering hen]
    exact isSecondOperand_display h _
  | decimal =>
    rw [Engine.press, inputDecimal_of_entering hen]
    exact isSecondOperand_display h _
  | toggleSign =>
    rw [Engine.press, toggleSign_of_entering hen]
    exact isSecondOperand_display h _
  | backspace =>
    rw [Engine.press, backspace_of_entering hen]
    exact isSecondOperand_display h _
  | unary op =>
    simp only [Engine.press, applyUnary, h.phase, emit_state]
    exact h
  | clearEntry | operator _ | evaluate => exact he.elim

theorem IsSecondOperand.applyResult (hc : c.error = none) (h : IsSecondOperand c d)
    (response : CalculateResponse) : IsSecondOperand c (applyResult d response).state := by
  simp only [Engine.applyResult, h.phase, stay_state]
  rw [h]
  simp [IsSecondOperand, hc]

theorem IsSecondOperand.step (hc : c.error = none) (h : IsSecondOperand c s.calcState)
    (he : OperandEvent s e) (hstep : Step s e t) : IsSecondOperand c t.calcState := by
  cases hstep with
  | busy _ _ | setEvaluator _ | stale _ _ => exact h
  | edit _ _ | send _ _ _ => exact h.press he
  | @sendUnanswered k r hp hr hw =>
    -- only `√` and `%` send a request, and then there is an evaluator
    cases k with
    | unary op => cases hw.symm.trans he
    | clearEntry | operator _ | evaluate => exact he.elim
    | digit _ | decimal | toggleSign | backspace =>
      have hen : s.calcState.phase.entering = true := by rw [h.phase]; rfl
      simp [Engine.press, inputDigit_of_entering, inputDecimal_of_entering,
        toggleSign_of_entering, backspace_of_entering, hen] at hr
  | answer _ => exact h.applyResult hc _
  | fail _ => exact absurd rfl he
  | noRetry _ _ | retry _ _ _ _ | retryUnanswered _ _ _ _ | recallValue _ | clearAll =>
    exact he.elim

theorem isSecondOperand_open (hphase : c.phase = .operatorSelected) (hb : c.b = none) {k : Key}
    (hk : (∃ digit, k = .digit digit) ∨ k = .decimal) :
    (press c k).effect = none ∧ IsSecondOperand c (press c k).state := by
  rcases hk with ⟨digit, rfl⟩ | rfl
  · simp [press, inputDigit, hphase, IsSecondOperand, hb]
  · simp [press, inputDecimal, hphase, IsSecondOperand, hb]

end SecondOperand

/-- Whatever is typed as a second operand, and whatever the server makes of it,
`CE` brings back the state in which the operator was selected. -/
theorem clearEntry_restores_operator (h : store.Reachable s) (hp : s.pending = false)
    (hphase : s.calcState.phase = .operatorSelected) {k : Key}
    (hk : (∃ digit, k = .digit digit) ∨ k = .decimal) (hu : store.next s (.key k) = some u)
    (hrun : store.RunWhen OperandEvent u es t) (ht : t.pending = false) :
    store.next t (.key .clearEntry) = some { t with calcState := s.calcState } := by
  have hsettled := (Coherent.of_reachable h).settled hp
  obtain ⟨c, hc⟩ : ∃ c, c = s.calcState := ⟨_, rfl⟩
  rw [← hc] at hsettled hphase
  cases hsettled with
  | idle | enteringA | enteringB | frozen | evaluated | error => cases hphase
  | operatorSelected a op last =>
    have hopen := isSecondOperand_open hphase rfl hk
    rw [hc] at hopen
    have hedit := (Step.edit hp hopen.1).next
    rw [hu] at hedit
    cases hedit
    have hend : IsSecondOperand s.calcState t.calcState :=
      hrun.preserves (I := fun t => IsSecondOperand s.calcState t.calcState)
        (fun hs he hn => hs.step (by rw [← hc]) he (step_of_next hn)) hopen.2
    have hpress : press t.calcState .clearEntry = stay s.calcState := by
      rw [press, hend, ← hc]
      rfl
    exact next_edit ht hpress

def operatorAfterRoot : List Event := rootAndEntry.take 5

def percentAndDigits : List Event :=
  [.key (.digit 5), .key (.unary .percent), .settle 2 (.answer ⟨one⟩), .key .toggleSign,
    .key .backspace, .key .decimal]

theorem operatorAfterRoot_isSome : (store.replay (fresh false) operatorAfterRoot).isSome := by
  decide +kernel

theorem opening_isSome :
    (store.next ((store.replay (fresh false) operatorAfterRoot).get operatorAfterRoot_isSome)
      (.key .decimal)).isSome := by decide +kernel

theorem percentAndDigits_isSome : (store.replayWhen OperandEvent
    ((store.next ((store.replay (fresh false) operatorAfterRoot).get operatorAfterRoot_isSome)
      (.key .decimal)).get opening_isSome) percentAndDigits).isSome := by decide +kernel

theorem clearEntry_restores_operator_percentAndDigits :
    let s := (store.replay (fresh false) operatorAfterRoot).get operatorAfterRoot_isSome
    let u := (store.next s (.key .decimal)).get opening_isSome
    let t := (store.replayWhen OperandEvent u percentAndDigits).get percentAndDigits_isSome
    store.next t (.key .clearEntry) = some { t with calcState := s.calcState } :=
  clearEntry_restores_operator ⟨_, Machine.runWhen_replayWhen_get operatorAfterRoot_isSome⟩
    (by decide +kernel) (by decide +kernel) (Or.inr rfl) (Option.some_get opening_isSome).symm
    (Machine.runWhen_replayWhen_get percentAndDigits_isSome) (by decide +kernel)

end Calculator.Store
