import Calculator.Engine.Dialogue
import Calculator.Store.Journal

/-! # Calculations against a server

A server that answers each request before the next key turns a session into a
dialogue: the store sends the requests of the reference evaluator, in its order,
and ends with its value. The one difference to reading the entries as numbers
is that negative zero is read as zero.
-/

namespace Calculator.Store

open Binary Decimal Ecma Engine Engine.Reference Runs

/-- The server computes `f`, and answers each request before the next key. -/
def AnsweredBy (f : CalculateRequest → Float64) (s : Session) : Event → Prop
  | .key _ => s.inFlight = []
  | .settle ticket outcome =>
    ∃ q ∈ s.inFlight, q.1 = ticket ∧ outcome = .answer ⟨f q.2⟩
  | .clearAll | .retry | .recallValue _ | .setEvaluator _ => False

instance (f : CalculateRequest → Float64) (s : Session) :
    (e : Event) → Decidable (AnsweredBy f s e)
  | .key _ => inferInstanceAs (Decidable (_ = _))
  | .settle ticket outcome =>
    inferInstanceAs (Decidable (∃ q ∈ s.inFlight, q.1 = ticket ∧ outcome = .answer ⟨f q.2⟩))
  | .clearAll | .retry | .recallValue _ | .setEvaluator _ => inferInstanceAs (Decidable False)

def Event.pressed : Event → Option Key
  | .key k => some k
  | .clearAll | .retry | .recallValue _ | .setEvaluator _ | .settle _ _ => none

/-- A run on the keys, each request answered before the next one and the last
one answered too. -/
structure Answered (f : CalculateRequest → Float64) (ks : List Key) (es : List Event)
    (s : Session) : Prop where
  run : store.RunWhen (AnsweredBy f) (fresh true) es s
  keys : es.filterMap Event.pressed = ks
  inFlight : s.inFlight = []

variable {f : CalculateRequest → Float64} {s t : Session} {d : Dialogue} {e : Event}
  {ks : List Key}

def dialogue (f : CalculateRequest → Float64) : Machine Dialogue Key :=
  ⟨⟨initialState, []⟩, fun d k => some (d.serve f k)⟩

/-- The dialogue in which the request in flight is answered already. -/
inductive Follows (f : CalculateRequest → Float64) (s : Session) : Dialogue → Prop
  | idle (hw : s.evaluator = true) (hp : s.pending = false) (hq : s.inFlight = []) :
    Follows f s ⟨s.calcState, (requests s.journal).reverse⟩
  | waiting (r : CalculateRequest) (hw : s.evaluator = true) (hp : s.pending = true)
      (hq : s.inFlight = [(s.ticket, r)]) :
    Follows f s ⟨(applyResult s.calcState ⟨f r⟩).state, (requests s.journal).reverse⟩

theorem follows_fresh : Follows f (fresh true) (dialogue f).start := .idle rfl rfl rfl

theorem serve_of_effect_none {k : Key} (h : (press d.state k).effect = none) :
    d.serve f k = ⟨(press d.state k).state, d.sent⟩ := by
  rw [Dialogue.serve, h]

theorem serve_of_effect_some {k : Key} {r : CalculateRequest}
    (h : (press d.state k).effect = some r) :
    d.serve f k = ⟨(applyResult (press d.state k).state ⟨f r⟩).state, d.sent ++ [r]⟩ := by
  rw [Dialogue.serve, h]

theorem Follows.step (h : Follows f s d) (he : AnsweredBy f s e) (hstep : Step s e t) :
    ∃ d', (dialogue f).Run d e.pressed.toList d' ∧ Follows f t d' := by
  cases h with
  | idle hw hp hq =>
    cases hstep with
    | edit _ heff =>
      refine ⟨_, .cons trivial rfl (.nil _), ?_⟩
      rw [serve_of_effect_none heff]
      exact .idle hw hp hq
    | send _ heff _ =>
      refine ⟨_, .cons trivial rfl (.nil _), ?_⟩
      rw [serve_of_effect_some heff, ← List.reverse_cons]
      exact .waiting _ hw rfl (by rw [Session.sending, hq])
    | busy _ hb => rw [hp] at hb; cases hb
    | sendUnanswered _ _ hn => rw [hw] at hn; cases hn
    | answer hmem | fail hmem | stale hmem _ => rw [hq] at hmem; cases hmem
    | noRetry _ _ | retry _ _ _ _ | retryUnanswered _ _ _ _ | recallValue _ | clearAll
      | setEvaluator _ => exact he.elim
  | waiting r hw hp hq =>
    cases hstep with
    | answer _ =>
      obtain ⟨q, hmem, -, ho⟩ := he
      rw [hq, List.mem_singleton] at hmem
      cases hmem
      cases ho
      exact ⟨_, .nil _, .idle hw rfl (by simp [Session.answered, hq])⟩
    | fail _ =>
      obtain ⟨q, -, -, ho⟩ := he
      cases ho
    | stale hmem hne =>
      rw [hq, List.map_singleton, List.mem_singleton] at hmem
      exact absurd hmem hne
    | @busy e hi _ =>
      cases e with
      | key k => rw [AnsweredBy, hq] at he; cases he
      | retry | recallValue _ => exact he.elim
      | clearAll | setEvaluator _ | settle _ _ => cases hi
    | edit hn _ | send hn _ _ | sendUnanswered hn _ _ => rw [hp] at hn; cases hn
    | noRetry _ _ | retry _ _ _ _ | retryUnanswered _ _ _ _ | recallValue _ | clearAll
      | setEvaluator _ => exact he.elim

theorem Answered.dialogue {es : List Event} (h : Answered f ks es s) :
    ks.foldl (Dialogue.serve f) ⟨initialState, []⟩ =
      ⟨s.calcState, (requests s.journal).reverse⟩ := by
  obtain ⟨d, hrun, hd⟩ := h.run.simulate (R := Follows f) (f := fun _ (e : Event) => e.pressed)
    (fun hs he hn => hs.step he (step_of_next hn)) follows_fresh
  rw [Machine.project_eq_filterMap, h.keys] at hrun
  have hfold := (Machine.run_iff_foldl fun _ _ => rfl).mp hrun
  cases hd with
  | idle _ _ _ => exact hfold
  | waiting r _ _ hq => rw [h.inFlight] at hq; cases hq

/-- Every key of a settled session can be answered before the next one. -/
theorem exists_run_of_key (f : CalculateRequest → Float64) (hw : s.evaluator = true)
    (hp : s.pending = false) (hq : s.inFlight = []) (k : Key) :
    ∃ es t, store.RunWhen (AnsweredBy f) s es t ∧ es.filterMap Event.pressed = [k] ∧
      t.evaluator = true ∧ t.pending = false ∧ t.inFlight = [] := by
  rcases heff : (press s.calcState k).effect with - | r
  · exact ⟨[.key k], _, .cons hq (Step.edit hp heff).next (.nil _), rfl, hw, hp, hq⟩
  · have hsend := (Step.send hp heff hw).next
    have hanswer : Step (s.sending (press s.calcState k).state r)
        (.settle (s.ticket + 1) (.answer ⟨f r⟩)) _ := .answer List.mem_cons_self
    refine ⟨[.key k, .settle (s.ticket + 1) (.answer ⟨f r⟩)], _,
      .cons hq hsend (.cons ?_ hanswer.next (.nil _)), rfl, hw, rfl, ?_⟩
    · exact ⟨_, List.mem_cons_self, rfl, rfl⟩
    · simp [Session.answered, Session.sending, hq]

theorem exists_answered (f : CalculateRequest → Float64) (ks : List Key) :
    ∃ es s, Answered f ks es s := by
  suffices h : ∀ s : Session, s.evaluator = true → s.pending = false → s.inFlight = [] →
      ∃ es t, store.RunWhen (AnsweredBy f) s es t ∧ es.filterMap Event.pressed = ks ∧
        t.inFlight = [] by
    obtain ⟨es, t, hrun, hkeys, ht⟩ := h (fresh true) rfl rfl rfl
    exact ⟨es, t, hrun, hkeys, ht⟩
  induction ks with
  | nil =>
    intro s _ _ hq
    exact ⟨[], s, .nil s, rfl, hq⟩
  | cons k ks ih =>
    intro s hw hp hq
    obtain ⟨es, t, hrun, hkey, htw, htp, htq⟩ := exists_run_of_key f hw hp hq k
    obtain ⟨fs, u, hrun', hkeys, hu⟩ := ih t htw htp htq
    refine ⟨es ++ fs, u, Machine.runWhen_append_iff.mpr ⟨t, hrun, hrun'⟩, ?_, hu⟩
    rw [List.filterMap_append, hkey, hkeys, List.singleton_append]

/-- The requests sent are those of a total, and the store shows its value. -/
structure Shows (s : Session) (total : Total) : Prop where
  sent : (requests s.journal).reverse = total.sent
  phase : s.calcState.phase = .result
  value : s.calcState.a = some total.value
  display : s.calcState.display = string total.value

theorem Shows.of_finished {total : Total}
    (h : Finished total ⟨s.calcState, (requests s.journal).reverse⟩) : Shows s total := by
  generalize hstate : s.calcState = state at h
  generalize hsent : (requests s.journal).reverse = sent at h
  cases h with
  | shown t =>
    constructor
    · exact hsent
    all_goals
      rw [hstate]
      rfl
  | finished x op w t =>
    constructor
    · exact hsent
    all_goals
      rw [hstate]
      rfl

/-- A program can be run, and every run of it agrees with the reference
evaluator. -/
theorem programs_evaluate (hf : Proper f) (p : Program) :
    (∃ es s, Answered f p.keys es s) ∧
      ∀ es s, Answered f p.keys es s → Shows s (p.evaluate f parseEntry) := by
  refine ⟨exists_answered f p.keys, ?_⟩
  intro es s h
  have hfinished := Finished.of_keys hf p
  rw [h.dialogue] at hfinished
  exact Shows.of_finished hfinished

def negatedPoint : Program where
  head := ⟨.decimal, [.toggleSign], []⟩
  tail := [(⟨.add, []⟩, ⟨.digit 1, [], []⟩)]
  trailing := none
  repeats := 0

theorem proper_one : Proper fun _ => one where
  isFinite _ := by decide +kernel
  ne_negZero _ := by decide +kernel

theorem programs_evaluate_negatedPoint :
    (∃ es s, Answered (fun _ => one) negatedPoint.keys es s) ∧
      ∀ es s, Answered (fun _ => one) negatedPoint.keys es s →
        Shows s (negatedPoint.evaluate (fun _ => one) parseEntry) :=
  programs_evaluate proper_one negatedPoint

/-- The entry `-0.` is a negative zero, and is sent as zero. -/
theorem negative_zero_is_not_sent :
    ¬ ∀ (f : CalculateRequest → Float64) (p : Program) (es : List Event) (s : Session),
      Proper f → Answered f p.keys es s → Shows s (p.evaluate f number) := by
  intro h
  obtain ⟨es, s, hrun⟩ := exists_answered (fun _ => one) negatedPoint.keys
  have hsent := (h _ negatedPoint es s proper_one hrun).sent
  have hdialogue : _ = (requests s.journal).reverse := congrArg Dialogue.sent hrun.dialogue
  rw [← hdialogue] at hsent
  revert hsent
  decide +kernel

end Calculator.Store
