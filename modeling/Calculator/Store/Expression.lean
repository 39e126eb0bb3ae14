import Calculator.Store.Retry

/-! # The expression line

The secondary line echoes the pending operation, or the equation whose answer
is on the display. It says what the store holds as long as no operator key
chains a second operand, and an equation is not left beside a number that a
sign change, `√` or `%` has put in place of its answer.
-/

namespace Calculator.Store

open Binary Decimal Ecma Engine Runs

def equation (r : CalculateRequest) : Text :=
  expressionOf { initialState with phase := .result, lastRequest := some r }

/-- The expression line spells what the store holds: a left operand, and an
equation whose answer is on the display. -/
structure ExpressionFits (s : Session) : Prop where
  operand : s.calcState.phase = .operatorSelected ∨ s.calcState.phase = .enteringB →
    ∃ a, s.calcState.a = some a ∧ ∀ op ∈ s.calcState.operator,
      expressionOf s.calcState = toDisplay a ++ ' ' :: operationSymbol op.name
  equation : s.pending = false → s.calcState.phase = .result →
    ∀ last ∈ s.calcState.lastRequest, expressionOf s.calcState = equation last ∧
      ∃ t v, newest s.journal = some (t, last) ∧
        outcomeOf t s.journal = some (.answer ⟨v⟩) ∧ s.calcState.display = toDisplay v

/-- A number that a change of sign does not show on. -/
def Unsigned (x : Float64) : Prop := x.isZero = true ∨ x = .nan

/-- The steps that the expression line keeps up with: no second operand is
chained, no equation gets another sign beside it, and none the answer to a
request of `√` or `%`. -/
def KeepsEquation (s : Session) : Event → Prop
  | .key (.operator _) =>
    ¬ (s.pending = false ∧ s.evaluator = true ∧ s.calcState.phase = .enteringB)
  | .key .toggleSign =>
    s.pending = false → s.calcState.phase = .result → s.calcState.lastRequest ≠ none →
      ∀ a ∈ s.calcState.a, Unsigned a
  | .settle t (.answer _) =>
    t = s.ticket → s.calcState.phase = .result → s.calcState.lastRequest ≠ none →
      ∀ r ∈ s.lastSentRequest, r.operation ≠ .sqrt ∧ r.operation ≠ .percent
  | _ => True

theorem toDisplay_neg_eq_iff {x : Float64} : toDisplay x.neg = toDisplay x ↔ Unsigned x := by
  unfold Unsigned toDisplay
  cases x with
  | nan => simp [Float64.neg]
  | infinity s => cases s <;> simp [Float64.neg, string, infinityText, Float64.isZero]
  | finite s i =>
    by_cases hi : i.val = 0
    · simp [Float64.neg, string, hi, Float64.isZero]
    · -- one of the two texts is the other one with a sign in front
      have hne : ∀ t : Text, '-' :: t ≠ t := fun t h => by simpa using congrArg List.length h
      cases s <;> simp [Float64.neg, string, hi, Float64.isZero, hne, (hne _).symm]

theorem toDisplay_negate_eq_iff {x : Float64} :
    toDisplay (negate (some x)) = toDisplay x ↔ Unsigned x := by
  rw [← toDisplay_neg_eq_iff, negate, Option.getD_some]
  by_cases hz : x.neg = .negZero
  · have hx : x = .zero := by rw [← Float64.neg_neg x, hz]; rfl
    subst hx
    exact iff_of_true (by decide +kernel) (by decide +kernel)
  · rw [Float64.withoutNegativeZero_of_ne hz]

section Keys

variable {c : CalcState} {k : Key} {r last : CalculateRequest}

theorem lastRequest_of_stay (h : Settled c) (he : (press c k).effect = none) :
    (press c k).state.lastRequest = none ∨
      c.phase ≠ .error ∧ (press c k).state.lastRequest = c.lastRequest := by
  cases h with
  | idle => cases k <;> exact Or.inl rfl
  | enteringA display => cases k <;> exact Or.inl rfl
  | operatorSelected a op last =>
    cases k with
    | evaluate => cases he
    | _ => exact Or.inr ⟨nofun, rfl⟩
  | enteringB display a op last =>
    cases k with
    | evaluate => cases he
    | _ => exact Or.inr ⟨nofun, rfl⟩
  | frozen a => cases k <;> exact Or.inl rfl
  | evaluated a op last =>
    cases k with
    | evaluate => cases he
    | digit _ | decimal | clearEntry => exact Or.inl rfl
    | _ => exact Or.inr ⟨nofun, rfl⟩
  | error display a b op message last => cases k <;> exact Or.inl rfl

theorem equation_of_stay (h : Settled c) (he : (press c k).effect = none)
    (hphase : (press c k).state.phase = .result) (hlast : last ∈ (press c k).state.lastRequest) :
    c.phase = .result ∧ last ∈ c.lastRequest ∧ ((press c k).state.display = c.display ∨
      k = .toggleSign ∧ ∃ a, c.a = some a ∧ c.display = toDisplay a ∧
        (press c k).state.display = toDisplay (negate (some a))) := by
  rcases lastRequest_of_stay h he with hnone | ⟨hne, hsame⟩
  · rw [hnone] at hlast
    cases hlast
  · rw [hsame] at hlast
    cases h with
    | idle | enteringA display | frozen a => cases hlast
    | operatorSelected a op e => cases k <;> first | (cases hphase; done) | cases he
    | enteringB display a op e => cases k <;> first | (cases hphase; done) | cases he
    | evaluated a op e =>
      cases k with
      | toggleSign => exact ⟨rfl, hlast, Or.inr ⟨rfl, a, rfl, rfl, rfl⟩⟩
      | backspace => exact ⟨rfl, hlast, Or.inl rfl⟩
      | evaluate | unary u => cases he
      | _ => cases hphase
    | error display a b op message e => exact absurd rfl hne

theorem operand_of_emit (h : Settled c) (he : (press c k).effect = some r)
    (hk : ∀ op, k = .operator op → c.phase ≠ .enteringB)
    (hphase : (press c k).state.phase = .operatorSelected ∨
      (press c k).state.phase = .enteringB) : (press c k).state.a ≠ none := by
  cases h with
  | operatorSelected a op e =>
    cases k with
    | evaluate => rcases hphase with h | h <;> cases h
    | unary u => simp [press, applyUnary]
    | _ => cases he
  | enteringB display a op e =>
    cases k with
    | operator op' => exact absurd rfl (hk op' rfl)
    | evaluate => rcases hphase with h | h <;> cases h
    | unary u => simp [press, applyUnary]
    | _ => cases he
  | idle => cases k <;> first | (cases he; done) | (rcases hphase with h | h <;> cases h)
  | enteringA display =>
    cases k <;> first | (cases he; done) | (rcases hphase with h | h <;> cases h)
  | frozen a => cases k <;> first | (cases he; done) | (rcases hphase with h | h <;> cases h)
  | evaluated a op e =>
    cases k <;> first | (cases he; done) | (rcases hphase with h | h <;> cases h)
  | error display a b op message e =>
    cases k <;> first | (cases he; done) | (rcases hphase with h | h <;> cases h)

theorem request_of_emit (h : Settled c) (he : (press c k).effect = some r)
    (hphase : (press c k).state.phase = .result) (hlast : last ∈ (press c k).state.lastRequest) :
    r = last ∨ ∃ u x, r = unaryRequest u x := by
  cases h with
  | operatorSelected a op e =>
    cases k with
    | evaluate =>
      cases he
      cases hlast
      exact Or.inl rfl
    | unary u => cases hphase
    | _ => cases he
  | enteringB display a op e =>
    cases k with
    | evaluate =>
      cases he
      cases hlast
      exact Or.inl rfl
    | operator op' => cases hphase
    | unary u => cases hphase
    | _ => cases he
  | evaluated a op e =>
    cases k with
    | evaluate =>
      cases he
      cases hlast
      exact Or.inl rfl
    | unary u =>
      cases he
      exact Or.inr ⟨u, a, rfl⟩
    | _ => cases he
  | idle => cases k <;> first | (cases he; done) | cases hlast
  | enteringA display => cases k <;> first | (cases he; done) | cases hlast
  | frozen a => cases k <;> first | (cases he; done) | cases hlast
  | error display a b op message e => cases k <;> first | (cases he; done) | cases hlast

end Keys

variable {s t : Session} {e : Event} {es : List Event}

/-- While an equation is echoed, the request awaited is that equation, or `√` or
`%`, and no request of before can be sent again. -/
structure Echoed (s : Session) : Prop where
  flags : Flagged s → s.calcState.phase = .error ∨ s.calcState.lastRequest = none
  awaited : s.pending = true → s.calcState.phase = .result →
    ∀ last ∈ s.calcState.lastRequest, s.lastSentRequest = some last ∨
      ∃ u x, s.lastSentRequest = some (unaryRequest u x)

theorem not_flagged (hc : s.canRetry = false) (hi : s.errorRequestId = none) : ¬ Flagged s := by
  rintro (h | h)
  · rw [hc] at h
    cases h
  · exact h hi

theorem Echoed.of_settled (hp : s.pending = false)
    (hf : Flagged s → s.calcState.phase = .error ∨ s.calcState.lastRequest = none) : Echoed s :=
  ⟨hf, fun hp' => absurd (hp.symm.trans hp') Bool.false_ne_true⟩

theorem echoed_fresh (evaluator : Bool) : Echoed (fresh evaluator) :=
  .of_settled rfl fun hf => absurd hf (not_flagged rfl rfl)

theorem Echoed.step (h : Echoed s) (hc : Coherent s) (hstep : Step s e t) : Echoed t := by
  cases hstep with
  | busy _ _ => exact h
  | @edit k hp he =>
    refine .of_settled hp fun hf => Or.inr ?_
    rcases lastRequest_of_stay (hc.settled hp) he with hnone | ⟨hphase, hsame⟩
    · exact hnone
    · exact hsame.trans ((h.flags hf).resolve_left hphase)
  | @send k r hp he _ =>
    refine ⟨fun hf => absurd hf (not_flagged rfl rfl), fun _ hphase last hlast => ?_⟩
    rcases request_of_emit (hc.settled hp) he hphase hlast with hr | ⟨u, x, hr⟩
    · exact Or.inl (congrArg some hr)
    · exact Or.inr ⟨u, x, congrArg some hr⟩
  | sendUnanswered _ _ _ => exact .of_settled rfl fun hf => absurd hf (not_flagged rfl rfl)
  | noRetry _ _ => exact h
  | retry _ hcan _ _ =>
    refine ⟨fun hf => absurd hf (not_flagged rfl rfl), fun _ hphase last hlast => ?_⟩
    rcases h.flags (Or.inl hcan) with herr | hnone
    · cases herr.symm.trans hphase
    · cases hnone.symm.trans hlast
  | retryUnanswered _ _ _ _ => exact .of_settled rfl fun hf => absurd hf (not_flagged rfl rfl)
  | recallValue hp => exact .of_settled hp fun hf => absurd hf (not_flagged rfl rfl)
  | clearAll => exact .of_settled rfl fun hf => absurd hf (not_flagged rfl rfl)
  | setEvaluator _ => exact ⟨h.flags, h.awaited⟩
  | answer _ => exact .of_settled rfl fun hf => absurd hf (not_flagged rfl rfl)
  | fail _ => exact .of_settled rfl fun _ => Or.inl (by simp [Session.failed])
  | stale _ _ => exact ⟨h.flags, h.awaited⟩

theorem operand_of_a {c : CalcState} (ha : c.a ≠ none)
    (hphase : c.phase = .operatorSelected ∨ c.phase = .enteringB) :
    ∃ a, c.a = some a ∧ ∀ op ∈ c.operator,
      expressionOf c = toDisplay a ++ ' ' :: operationSymbol op.name := by
  obtain ⟨a, ha⟩ := Option.ne_none_iff_exists'.mp ha
  refine ⟨a, ha, fun op hop => ?_⟩
  have hop' : c.operator = some op := hop
  rcases hphase with hphase | hphase <;> simp [expressionOf, hphase, hop', ha]

theorem expressionOf_result {c : CalcState} {last : CalculateRequest} (hphase : c.phase = .result)
    (hlast : last ∈ c.lastRequest) : expressionOf c = equation last := by
  have hlast' : c.lastRequest = some last := hlast
  simp [equation, expressionOf, hphase, hlast']

theorem applyResult_result {c : CalcState} {response : CalculateResponse} {last : CalculateRequest}
    (hphase : (applyResult c response).state.phase = .result)
    (hlast : last ∈ (applyResult c response).state.lastRequest) :
    c.phase = .result ∧ last ∈ c.lastRequest ∧
      (applyResult c response).state.display = toDisplay response.result := by
  cases hc : c.phase <;> simp_all [applyResult, initialState]

theorem unaryRequest_operation (u : UnaryKey) (x : Float64) :
    (unaryRequest u x).operation = .sqrt ∨ (unaryRequest u x).operation = .percent := by
  cases u
  · exact Or.inl rfl
  · exact Or.inr rfl

/-- The equation part, which every step but the answer to an evaluation keeps or ends. -/
theorem equation_step (h : ExpressionFits s) (ht : Tracked s) (hc : Coherent s) (hq : Echoed s)
    (hk : KeepsEquation s e) (hstep : Step s e t) (hp : t.pending = false)
    (hphase : t.calcState.phase = .result) {last : CalculateRequest}
    (hlast : last ∈ t.calcState.lastRequest) :
    ∃ u v, newest t.journal = some (u, last) ∧ outcomeOf u t.journal = some (.answer ⟨v⟩) ∧
      t.calcState.display = toDisplay v := by
  cases hstep with
  | busy _ _ => exact (h.equation hp hphase last hlast).2
  | @edit k hp' he =>
    obtain ⟨hphase', hlast', hdisplay⟩ := equation_of_stay (hc.settled hp') he hphase hlast
    obtain ⟨-, u, v, hn, ho, hd⟩ := h.equation hp' hphase' last hlast'
    refine ⟨u, v, hn, ho, ?_⟩
    rcases hdisplay with hsame | ⟨rfl, a, ha, hda, hdn⟩
    · exact hsame.trans hd
    · have hne : s.calcState.lastRequest ≠ none := Option.ne_none_iff_exists'.mpr ⟨last, hlast'⟩
      rw [hdn, toDisplay_negate_eq_iff.mpr (hk hp' hphase' hne a ha), ← hda, hd]
  | send _ _ _ => cases hp
  | sendUnanswered _ _ _ => simp [Session.unanswered] at hphase
  | noRetry _ _ => exact (h.equation hp hphase last hlast).2
  | retry _ _ _ _ => cases hp
  | retryUnanswered _ _ _ _ => simp [Session.unanswered] at hphase
  | recallValue _ => cases hphase
  | clearAll => simp [Session.clearAll, initialState] at hphase
  | setEvaluator _ => exact (h.equation hp hphase last hlast).2
  | @answer response hm =>
    obtain ⟨hphase', hlast', hd⟩ := applyResult_result hphase hlast
    have hpend := ht.pending_iff.mpr hm
    have hne : s.calcState.lastRequest ≠ none := Option.ne_none_iff_exists'.mpr ⟨last, hlast'⟩
    refine ⟨s.ticket, response.result, ?_, if_pos rfl, hd⟩
    rcases hq.awaited hpend hphase' last hlast' with hr | ⟨u, x, hr⟩
    · exact ht.newest_eq hpend hr
    · have hop := hk rfl hphase' hne _ hr
      rcases unaryRequest_operation u x with h | h
      · exact absurd h hop.1
      · exact absurd h hop.2
  | fail _ => simp [Session.failed] at hphase
  | stale hm _ =>
    obtain ⟨-, u, v, hn, ho, hd⟩ := h.equation hp hphase last hlast
    exact ⟨u, v, hn, ht.outcomeOf_settle hm ho, hd⟩

/-- The operand part for a state in which an answer is awaited. -/
theorem operand_step (h : ExpressionFits s) (hc : Coherent s) (hk : KeepsEquation s e)
    (hstep : Step s e t) (hp : t.pending = true)
    (hphase : t.calcState.phase = .operatorSelected ∨ t.calcState.phase = .enteringB) :
    t.calcState.a ≠ none := by
  have hold : (s.calcState.phase = .operatorSelected ∨ s.calcState.phase = .enteringB) →
      s.calcState.a ≠ none := fun hs => by
    obtain ⟨a, ha, -⟩ := h.operand hs
    exact Option.ne_none_iff_exists'.mpr ⟨a, ha⟩
  cases hstep with
  | busy _ _ => exact hold hphase
  | edit hp' _ => exact absurd hp (by simp [hp'])
  | @send k r hp' he hw =>
    refine operand_of_emit (hc.settled hp') he ?_ hphase
    rintro op rfl hB
    exact hk ⟨hp', hw, hB⟩
  | noRetry _ _ => exact hold hphase
  | retry _ _ _ _ => exact hold hphase
  | recallValue hp' => exact absurd hp (by simp [Session.recalled, hp'])
  | setEvaluator _ => exact hold hphase
  | stale _ _ => exact hold hphase
  | sendUnanswered _ _ _ | retryUnanswered _ _ _ _ | clearAll | answer _ | fail _ => cases hp

theorem expressionFits_step (h : ExpressionFits s) (ht : Tracked s) (hc : Coherent s)
    (hq : Echoed s) (hk : KeepsEquation s e) (hstep : Step s e t) : ExpressionFits t where
  operand hphase := by
    refine operand_of_a ?_ hphase
    cases hp : t.pending with
    | false => exact (((hc.step hstep).settled hp).wellFormed.operator hphase).2
    | true => exact operand_step h hc hk hstep hp hphase
  equation hp hphase last hlast :=
    ⟨expressionOf_result hphase hlast, equation_step h ht hc hq hk hstep hp hphase hlast⟩

theorem expressionFits_fresh (evaluator : Bool) : ExpressionFits (fresh evaluator) where
  operand h := by rcases h with h | h <;> cases h
  equation _ h := by cases h

theorem expressionFits_of_runWhen (h : store.RunWhen KeepsEquation (fresh false) es s) :
    ExpressionFits s := by
  refine (h.preserves (I := fun s => ExpressionFits s ∧ Tracked s ∧ Coherent s ∧ Echoed s)
    ?_ ?_).1
  · rintro s e t ⟨h, ht, hc, hq⟩ hk hn
    have hstep := step_of_next hn
    exact ⟨expressionFits_step h ht hc hq hk hstep, ht.step hstep, hc.step hstep,
      hq.step hc hstep⟩
  · exact ⟨expressionFits_fresh false, tracked_fresh false, .of_settled rfl .idle,
      echoed_fresh false⟩

theorem unsigned_of_fits (h : ExpressionFits s) (hc : Coherent s) (hp : s.pending = false)
    (h' : ExpressionFits { s with calcState := (press s.calcState .toggleSign).state })
    (hphase : s.calcState.phase = .result) (hne : s.calcState.lastRequest ≠ none) {a : Float64}
    (ha : s.calcState.a = some a) : Unsigned a := by
  obtain ⟨last, hlast⟩ := Option.ne_none_iff_exists'.mp hne
  obtain ⟨b, hb, hdisplay⟩ := (hc.settled hp).wellFormed.display (Or.inr hphase)
  obtain rfl : a = b := Option.some.inj (ha.symm.trans hb)
  obtain ⟨-, u, v, hn, ho, hd⟩ := h.equation hp hphase last hlast
  obtain ⟨-, u', v', hn', ho', hd'⟩ := h'.equation hp
    (by simp [press, toggleSign, hphase]) last (by simp [press, toggleSign, hphase, hlast])
  -- the newest request and its answer are those of before
  rw [hn] at hn'
  cases hn'
  rw [ho] at ho'
  cases ho'
  rw [← toDisplay_negate_eq_iff, ← hdisplay, hd, ← hd']
  simp [press, toggleSign, hphase, ha]

theorem binary_of_fits {response : CalculateResponse}
    (h' : ExpressionFits (s.answered response)) (ht : Tracked s) (hc : Coherent s)
    (hm : s.ticket ∈ s.inFlight.map Prod.fst) (hphase : s.calcState.phase = .result)
    (hne : s.calcState.lastRequest ≠ none) {r : CalculateRequest}
    (hr : s.lastSentRequest = some r) : r.operation ≠ .sqrt ∧ r.operation ≠ .percent := by
  obtain ⟨last, hlast⟩ := Option.ne_none_iff_exists'.mp hne
  have hphase' : (s.answered response).calcState.phase = .result := by
    simp [Session.answered, applyResult, hphase]
  have hlast' : last ∈ (s.answered response).calcState.lastRequest := by
    simp [Session.answered, applyResult, hphase, hlast]
  obtain ⟨-, u, v, hn, -⟩ := h'.equation rfl hphase' last hlast'
  have hn' := ht.newest_eq (ht.pending_iff.mpr hm) hr
  obtain rfl : r = last := by
    have hsame := hn'.symm.trans hn
    cases hsame
    rfl
  have hcoh : Coherent (s.answered response) := hc.step (.answer hm)
  obtain ⟨⟨op, hop⟩, -⟩ := (hcoh.settled rfl).wellFormed.lastRequest r hlast'
  rw [hop]
  exact ⟨name_ne_sqrt op, name_ne_percent op⟩

theorem effect_toggleSign (c : CalcState) : (press c .toggleSign).effect = none := by
  rw [press, toggleSign]
  cases c.phase <;> rfl

/-- Where the line fits before and after a step, the step is one it keeps up with. -/
theorem keepsEquation_of_fits (h : ExpressionFits s) (h' : ExpressionFits t) (ht : Tracked s)
    (hc : Coherent s) (hstep : Step s e t) : KeepsEquation s e := by
  cases hstep with
  | @edit k hp he =>
    cases k with
    | operator op =>
      rintro ⟨-, -, hB⟩
      simp [press, setOperator, hB] at he
    | toggleSign =>
      intro _ hphase hne a ha
      exact unsigned_of_fits h hc hp h' hphase hne ha
    | _ => trivial
  | @send k r hp he hw =>
    cases k with
    | operator op =>
      rintro ⟨-, -, hB⟩
      obtain ⟨a, ha, -⟩ := h'.operand (by simp [Session.sending, press, setOperator, hB])
      simp [Session.sending, press, setOperator, hB] at ha
    | toggleSign => cases (effect_toggleSign s.calcState).symm.trans he
    | _ => trivial
  | @sendUnanswered k r hp he hw =>
    cases k with
    | operator op =>
      rintro ⟨-, hw', -⟩
      rw [hw] at hw'
      cases hw'
    | toggleSign => cases (effect_toggleSign s.calcState).symm.trans he
    | _ => trivial
  | @busy e he hp =>
    cases e with
    | key k =>
      cases k with
      | operator op =>
        rintro ⟨hp', -⟩
        rw [hp] at hp'
        cases hp'
      | toggleSign =>
        intro hp'
        cases hp.symm.trans hp'
      | _ => trivial
    | retry | recallValue _ => trivial
    | clearAll | setEvaluator _ | settle _ _ => cases he
  | @answer response hm =>
    intro _ hphase hne r hr
    exact binary_of_fits h' ht hc hm hphase hne hr
  | @stale u o hm hne =>
    cases o with
    | answer response => exact fun ht' => absurd ht' hne
    | failure error => trivial
  | noRetry _ _ | retry _ _ _ _ | retryUnanswered _ _ _ _ | recallValue _ | clearAll
    | setEvaluator _ | fail _ => trivial

/-- Along a run, the expression line fits what the store holds exactly if all
steps are of the kind it keeps up with. -/
theorem expression_fits_iff (h : store.Run (fresh false) es s) :
    (∀ p t, p <+: es → store.Run (fresh false) p t → ExpressionFits t) ↔
      store.RunWhen KeepsEquation (fresh false) es s :=
  Machine.forall_prefix_iff_runWhen expressionFits_of_runWhen
    (fun hr hs ht hn => keepsEquation_of_fits hs ht (Tracked.of_reachable hr)
      (Coherent.of_reachable hr) (step_of_next hn)) h

def nineteen : List Event :=
  [.setEvaluator true, .key (.digit 1), .key (.digit 2), .key (.operator .add), .key (.digit 7),
    .key .evaluate, .settle 1 (.answer ⟨.ofRat false 19⟩)]

theorem nineteen_isSome : (store.replay (fresh false) nineteen).isSome := by decide +kernel

theorem expression_fits_iff_nineteen :
    let s := (store.replay (fresh false) nineteen).get nineteen_isSome
    (∀ p t, p <+: nineteen → store.Run (fresh false) p t → ExpressionFits t) ↔
      store.RunWhen KeepsEquation (fresh false) nineteen s :=
  expression_fits_iff (Machine.runWhen_replayWhen_get nineteen_isSome)

/-- A change of sign leaves `12 + 7 =` beside `-19`, and a chained operator
spells an operand that is not known yet. -/
theorem expression_misspells :
    (∃ s, store.Reachable s ∧ s.pending = true ∧ s.calcState.phase = .operatorSelected ∧
      s.calcState.a = none ∧ expressionOf s.calcState = "0 ×".toList) ∧
    (∃ s, store.Reachable s ∧ s.pending = false ∧ expressionOf s.calcState = "12 + 7 =".toList ∧
      s.calcState.display = "-19".toList) ∧
    ¬ ∀ s, store.Reachable s → ExpressionFits s := by
  obtain ⟨s, hs, hp⟩ : ∃ s, store.Run (fresh false) [.setEvaluator true, .key (.digit 2),
      .key (.operator .add), .key (.digit 3), .key (.operator .multiply)] s ∧
      decide (s.pending = true ∧ s.calcState.phase = .operatorSelected ∧ s.calcState.a = none ∧
        expressionOf s.calcState = "0 ×".toList) = true :=
    Machine.exists_run_of_replay (by decide +kernel)
  obtain ⟨t, ht, hq⟩ : ∃ s, store.Run (fresh false) (nineteen ++ [.key .toggleSign]) s ∧
      decide (s.pending = false ∧ expressionOf s.calcState = "12 + 7 =".toList ∧
        s.calcState.display = "-19".toList) = true :=
    Machine.exists_run_of_replay (by decide +kernel)
  have hp' := of_decide_eq_true hp
  refine ⟨⟨s, ⟨_, hs⟩, hp'⟩, ⟨t, ⟨_, ht⟩, of_decide_eq_true hq⟩, fun h => ?_⟩
  obtain ⟨a, ha, -⟩ := (h s ⟨_, hs⟩).operand (Or.inl hp'.2.1)
  rw [hp'.2.2.1] at ha
  cases ha

end Calculator.Store
