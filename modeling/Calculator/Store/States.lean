import Calculator.Engine.Phases
import Calculator.Store.Session

/-! # The states of the store

The engine state of a reachable session is one of its settled states, or one in
which an answer is awaited, as the store is pending or not.
-/

namespace Calculator.Store

open Binary Engine Runs

/-- The engine state fits the pending flag. -/
structure Coherent (s : Session) : Prop where
  settled : s.pending = false → Settled s.calcState
  awaiting : s.pending = true → Awaiting s.calcState

namespace Coherent

variable {s t : Session} {e : Event}

theorem of_settled (hp : s.pending = false) (h : Settled s.calcState) : Coherent s :=
  ⟨fun _ => h, fun hp' => absurd (hp.symm.trans hp') Bool.false_ne_true⟩

theorem of_awaiting (hp : s.pending = true) (h : Awaiting s.calcState) : Coherent s :=
  ⟨fun hp' => absurd (hp'.symm.trans hp) Bool.false_ne_true, fun _ => h⟩

theorem press_of_none (h : Coherent s) (hp : s.pending = false) {k : Key}
    (he : (press s.calcState k).effect = none) : Settled (press s.calcState k).state := by
  have hs := (h.settled hp).press k
  rwa [Transition.Sound, he] at hs

theorem press_of_some (h : Coherent s) (hp : s.pending = false) {k : Key} {r : CalculateRequest}
    (he : (press s.calcState k).effect = some r) : Awaiting (press s.calcState k).state := by
  have hs := (h.settled hp).press k
  rwa [Transition.Sound, he] at hs

/-- Whether it is awaited or not, an answer ends in a settled state. -/
theorem awaiting' (h : Coherent s) : Awaiting s.calcState := by
  cases hp : s.pending with
  | false => exact .settled (h.settled hp)
  | true => exact h.awaiting hp

theorem step (h : Coherent s) (hstep : Step s e t) : Coherent t := by
  cases hstep with
  | busy he hp => exact h
  | edit hp he => exact of_settled hp (h.press_of_none hp he)
  | send hp he _ => exact of_awaiting rfl (h.press_of_some hp he)
  | sendUnanswered hp he _ => exact of_settled rfl ((h.press_of_some hp he).applyError _)
  | noRetry hp _ => exact h
  | retry hp _ _ _ => exact of_awaiting rfl (.settled (h.settled hp))
  | retryUnanswered hp _ _ _ => exact of_settled rfl ((h.settled hp).applyError _)
  | recallValue hp => exact of_settled hp (.enteringA _)
  | clearAll =>
    apply of_settled rfl
    simpa [Session.clearAll] using Settled.idle
  | setEvaluator wired => exact ⟨h.settled, h.awaiting⟩
  | answer _ => exact of_settled rfl (h.awaiting'.applyResult _)
  | fail _ => exact of_settled rfl (h.awaiting'.applyError _)
  | stale _ _ => exact ⟨h.settled, h.awaiting⟩

theorem of_reachable (h : store.Reachable s) : Coherent s :=
  h.induction (of_settled rfl .idle) fun hs hn => hs.step (step_of_next hn)

end Coherent

/-- In every settled state of every run the engine state is well formed, and no
request that a key sends depends on the fallbacks for a missing operator or
operand. -/
theorem settled_states_are_wellFormed {s : Session} (h : store.Reachable s)
    (hp : s.pending = false) :
    WellFormed s.calcState ∧ ∀ (k : Key) (op : BinaryOperation) (x : Float64),
      (press (s.calcState.fill op x) k).effect = (press s.calcState k).effect := by
  have hsettled := (Coherent.of_reachable h).settled hp
  exact ⟨hsettled.wellFormed, fun k op x => hsettled.effect_fill op x k⟩

def secondOperand : List Event :=
  [.key (.digit 2), .key (.operator .multiply), .key (.digit 3)]

theorem secondOperand_isSome : (store.replay (fresh false) secondOperand).isSome := by
  decide +kernel

theorem settled_states_are_wellFormed_secondOperand :
    let s := (store.replay (fresh false) secondOperand).get secondOperand_isSome
    WellFormed s.calcState ∧ ∀ (k : Key) (op : BinaryOperation) (x : Float64),
      (press (s.calcState.fill op x) k).effect = (press s.calcState k).effect :=
  settled_states_are_wellFormed ⟨_, Machine.runWhen_replayWhen_get secondOperand_isSome⟩
    (by decide +kernel)

end Calculator.Store
