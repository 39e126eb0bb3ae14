import Mathlib.Data.List.Induction
import Mathlib.Data.List.Infix

/-! # Machines and their runs

A machine says what each event does in each state, if the event can occur
there. Runs carry a condition that every step meets, so that a rule about
conditional runs is also one about all runs. A run of one machine is simulated
by the run of another on the events translated along the way.
-/

namespace Calculator.Runs

universe u v

structure Machine (σ : Type u) (ε : Type v) where
  start : σ
  next : σ → ε → Option σ

namespace Machine

variable {σ : Type u} {ε : Type v} (M : Machine σ ε)

/-- The runs from one state to another whose steps all meet a condition. -/
inductive RunWhen (P : σ → ε → Prop) : σ → List ε → σ → Prop
  | nil (s : σ) : RunWhen P s [] s
  | cons {s t u : σ} {e : ε} {es : List ε} (hp : P s e) (hn : M.next s e = some t)
      (h : RunWhen P t es u) : RunWhen P s (e :: es) u

abbrev Run : σ → List ε → σ → Prop := M.RunWhen fun _ _ => True

def Reachable (s : σ) : Prop := ∃ es, M.Run M.start es s

/-- The state after the events, if they can all occur and meet the condition. -/
def replayWhen (P : σ → ε → Prop) [∀ s e, Decidable (P s e)] (s : σ) : List ε → Option σ
  | [] => some s
  | e :: es => if P s e then (M.next s e).bind (replayWhen P · es) else none

abbrev replay : σ → List ε → Option σ := M.replayWhen fun _ _ => True

variable {M} {P Q : σ → ε → Prop} {s t u : σ} {e : ε} {es fs : List ε}

@[simp] theorem runWhen_nil_iff : M.RunWhen P s [] t ↔ s = t := by
  constructor
  · rintro ⟨⟩
    rfl
  · rintro rfl
    exact .nil s

theorem runWhen_cons_iff :
    M.RunWhen P s (e :: es) u ↔ ∃ t, P s e ∧ M.next s e = some t ∧ M.RunWhen P t es u := by
  constructor
  · rintro ⟨⟩
    exact ⟨_, ‹_›, ‹_›, ‹_›⟩
  · rintro ⟨t, hp, hn, h⟩
    exact .cons hp hn h

theorem runWhen_append_iff :
    M.RunWhen P s (es ++ fs) u ↔ ∃ t, M.RunWhen P s es t ∧ M.RunWhen P t fs u := by
  induction es generalizing s with
  | nil => simp
  | cons e es ih =>
    simp only [List.cons_append, runWhen_cons_iff, ih]
    constructor
    · rintro ⟨a, hp, hn, b, h, h'⟩
      exact ⟨b, ⟨a, hp, hn, h⟩, h'⟩
    · rintro ⟨b, ⟨a, hp, hn, h⟩, h'⟩
      exact ⟨a, hp, hn, b, h, h'⟩

theorem runWhen_snoc_iff :
    M.RunWhen P s (es ++ [e]) u ↔ ∃ t, M.RunWhen P s es t ∧ P t e ∧ M.next t e = some u := by
  simp only [runWhen_append_iff, runWhen_cons_iff, runWhen_nil_iff, exists_eq_right_right]

theorem RunWhen.mono (hPQ : ∀ s e, P s e → Q s e) (h : M.RunWhen P s es t) :
    M.RunWhen Q s es t := by
  induction h with
  | nil s => exact .nil s
  | cons hp hn _ ih => exact .cons (hPQ _ _ hp) hn ih

theorem RunWhen.run (h : M.RunWhen P s es t) : M.Run s es t := h.mono fun _ _ _ => trivial

theorem RunWhen.and_mem {S : ε → Prop} (h : M.RunWhen P s es t) (hS : ∀ e ∈ es, S e) :
    M.RunWhen (fun s e => P s e ∧ S e) s es t := by
  induction h with
  | nil s => exact .nil s
  | cons hp hn _ ih =>
    exact .cons ⟨hp, hS _ List.mem_cons_self⟩ hn (ih fun e he => hS e (List.mem_cons_of_mem _ he))

/-- What the steps of the condition preserve, its runs preserve. -/
theorem RunWhen.preserves {I : σ → Prop}
    (hstep : ∀ {s e t}, I s → P s e → M.next s e = some t → I t)
    (h : M.RunWhen P s es t) (hs : I s) : I t := by
  induction h with
  | nil => exact hs
  | cons hp hn _ ih => exact ih (hstep hs hp hn)

theorem RunWhen.mono_of_invariant {I : σ → Prop}
    (hstep : ∀ {s e t}, I s → P s e → M.next s e = some t → I t)
    (hPQ : ∀ {s e}, I s → P s e → Q s e) (h : M.RunWhen P s es t) (hs : I s) :
    M.RunWhen Q s es t := by
  induction h with
  | nil s => exact .nil s
  | cons hp hn _ ih => exact .cons (hPQ hs hp) hn (ih (hstep hs hp hn))

theorem RunWhen.and_final {R : σ → σ → Prop} (hrefl : ∀ s, R s s)
    (hstep : ∀ {s e t u}, M.next s e = some t → R t u → R s u) (h : M.RunWhen P s es t) :
    R s t ∧ M.RunWhen (fun s e => P s e ∧ R s t) s es t := by
  induction h with
  | nil s => exact ⟨hrefl s, .nil s⟩
  | cons hp hn _ ih =>
    have hR := hstep hn ih.1
    exact ⟨hR, .cons ⟨hp, hR⟩ hn ih.2⟩

/-- What the first state has and every step preserves, every reachable state has. -/
theorem Reachable.induction {I : σ → Prop} (hstart : I M.start)
    (hstep : ∀ {s e t}, I s → M.next s e = some t → I t) (h : M.Reachable s) : I s := by
  obtain ⟨es, h⟩ := h
  exact h.preserves (fun hs _ hn => hstep hs hn) hstart

theorem Reachable.start : M.Reachable M.start := ⟨[], .nil _⟩

theorem Reachable.run (hs : M.Reachable s) (h : M.Run s es t) : M.Reachable t := by
  obtain ⟨fs, hs⟩ := hs
  exact ⟨fs ++ es, runWhen_append_iff.mpr ⟨s, hs, h⟩⟩

theorem Reachable.next (hs : M.Reachable s) (h : M.next s e = some t) : M.Reachable t :=
  hs.run (.cons trivial h (.nil t))

theorem runWhen_iff_replayWhen [∀ s e, Decidable (P s e)] :
    M.RunWhen P s es t ↔ M.replayWhen P s es = some t := by
  induction es generalizing s with
  | nil => simp [replayWhen]
  | cons e es ih =>
    simp only [runWhen_cons_iff, replayWhen, Option.ite_none_right_eq_some,
      Option.bind_eq_some_iff, ih]
    constructor
    · rintro ⟨u, hp, hn, h⟩
      exact ⟨hp, u, hn, h⟩
    · rintro ⟨hp, u, hn, h⟩
      exact ⟨u, hp, hn, h⟩

theorem runWhen_replayWhen_get [∀ s e, Decidable (P s e)] (h : (M.replayWhen P s es).isSome) :
    M.RunWhen P s es ((M.replayWhen P s es).get h) :=
  runWhen_iff_replayWhen.mpr (Option.some_get h).symm

theorem exists_run_of_replay {p : σ → Bool} (h : (M.replay s es).any p = true) :
    ∃ t, M.Run s es t ∧ p t = true := by
  obtain ⟨t, ht, hp⟩ := (Option.any_eq_true _ _).mp h
  exact ⟨t, runWhen_iff_replayWhen.mpr ht, hp⟩

theorem RunWhen.unique (h : M.RunWhen P s es t) (h' : M.RunWhen Q s es u) : t = u := by
  have ht := runWhen_iff_replayWhen.mp h.run
  rw [runWhen_iff_replayWhen.mp h'.run] at ht
  exact (Option.some.inj ht).symm

/-- The runs of a machine in which every event can occur. -/
theorem run_iff_foldl {g : σ → ε → σ} (hg : ∀ s e, M.next s e = some (g s e)) :
    M.Run s es t ↔ es.foldl g s = t := by
  induction es generalizing s with
  | nil => exact runWhen_nil_iff
  | cons e es ih =>
    rw [List.foldl_cons, ← ih]
    apply runWhen_cons_iff.trans
    constructor
    · rintro ⟨u, -, hu, h⟩
      rw [hg] at hu
      cases hu
      exact h
    · intro h
      exact ⟨g s e, trivial, hg s e, h⟩

/-- Runs whose steps meet a condition are those that have a property all along,
if the condition establishes the property and a step between two states with
the property meets the condition. The events may be restricted. -/
theorem forall_prefix_iff_runWhen_of_mem {I : σ → Prop} {S : ε → Prop} (hS : ∀ e ∈ es, S e)
    (hrun : ∀ {es s}, (∀ e ∈ es, S e) → M.RunWhen P M.start es s → I s)
    (hstep : ∀ {s e t}, S e → M.Reachable s → I s → I t → M.next s e = some t → P s e)
    (h : M.Run M.start es s) :
    (∀ p t, p <+: es → M.Run M.start p t → I t) ↔ M.RunWhen P M.start es s := by
  constructor
  · intro hI
    induction es using List.reverseRecOn generalizing s with
    | nil => exact runWhen_nil_iff.mpr (runWhen_nil_iff.mp h)
    | append_singleton es e ih =>
      obtain ⟨hes', he⟩ := List.forall_mem_append.mp hS
      obtain ⟨t, ht, -, hn⟩ := runWhen_snoc_iff.mp h
      have hes : es <+: es ++ [e] := List.prefix_append es [e]
      have hwhen := ih hes' ht fun p u hp hu => hI p u (hp.trans hes) hu
      refine runWhen_snoc_iff.mpr ⟨t, hwhen, ?_, hn⟩
      exact hstep (List.forall_mem_singleton.mp he) ⟨es, ht⟩ (hI es t hes ht)
        (hI _ s List.prefix_rfl h) hn
  · rintro hwhen p t hp ht
    obtain ⟨fs, rfl⟩ := hp
    obtain ⟨t', ht', -⟩ := runWhen_append_iff.mp hwhen
    rw [ht.unique ht']
    exact hrun (List.forall_mem_append.mp hS).1 ht'

theorem forall_prefix_iff_runWhen {I : σ → Prop}
    (hrun : ∀ {es s}, M.RunWhen P M.start es s → I s)
    (hstep : ∀ {s e t}, M.Reachable s → I s → I t → M.next s e = some t → P s e)
    (h : M.Run M.start es s) :
    (∀ p t, p <+: es → M.Run M.start p t → I t) ↔ M.RunWhen P M.start es s :=
  forall_prefix_iff_runWhen_of_mem (S := fun _ => True) (fun _ _ => trivial) (fun _ => hrun)
    (fun _ => hstep) h

/-- A property that a step establishes exactly if it holds before and the step
meets the condition tells at the end of a run that all steps have met it. -/
theorem iff_runWhen {I : σ → Prop} (hstart : I M.start)
    (hstep : ∀ {s e t}, M.Reachable s → M.next s e = some t → (I t ↔ I s ∧ P s e))
    (h : M.Run M.start es s) : I s ↔ M.RunWhen P M.start es s := by
  induction es using List.reverseRecOn generalizing s with
  | nil =>
    obtain rfl := runWhen_nil_iff.mp h
    exact iff_of_true hstart (.nil _)
  | append_singleton es e ih =>
    obtain ⟨t, ht, -, hn⟩ := runWhen_snoc_iff.mp h
    rw [hstep ⟨es, ht⟩ hn, ih ht, runWhen_snoc_iff]
    constructor
    · rintro ⟨hwhen, hp⟩
      exact ⟨t, hwhen, hp, hn⟩
    · rintro ⟨u, hwhen, hp, -⟩
      obtain rfl := ht.unique hwhen
      exact ⟨hwhen, hp⟩

section Simulation

universe u' v'

variable {τ : Type u'} {δ : Type v'} {N : Machine τ δ} {R : σ → τ → Prop}
  {f : σ → ε → Option δ}

/-- The events as another machine sees them: each is translated in the state
it occurs in, or dropped. -/
def project (M : Machine σ ε) (f : σ → ε → Option δ) (s : σ) : List ε → List δ
  | [] => []
  | e :: es => (f s e).toList ++ project M f ((M.next s e).getD s) es

theorem project_prefix (h : fs <+: es) : project M f s fs <+: project M f s es := by
  induction fs generalizing s es with
  | nil => exact List.nil_prefix
  | cons e fs ih =>
    obtain ⟨es, rfl⟩ := h
    exact (List.prefix_append_right_inj _).mpr (ih (List.prefix_append fs es))

theorem project_eq_filterMap (g : ε → Option δ) :
    project M (fun _ => g) s es = es.filterMap g := by
  induction es generalizing s with
  | nil => rfl
  | cons e es ih =>
    rw [project, ih, List.filterMap_cons]
    cases g e <;> rfl

/-- A relation that every step keeps, on the translated event or without one,
relates the ends of the two runs. -/
theorem RunWhen.simulate
    (hstep : ∀ {s e s' t}, R s t → P s e → M.next s e = some s' →
      ∃ t', N.Run t (f s e).toList t' ∧ R s' t')
    (h : M.RunWhen P s es u) {t : τ} (ht : R s t) :
    ∃ t', N.Run t (M.project f s es) t' ∧ R u t' := by
  induction h generalizing t with
  | nil s => exact ⟨t, .nil t, ht⟩
  | cons hp hn _ ih =>
    obtain ⟨t₁, hrun₁, ht₁⟩ := hstep ht hp hn
    obtain ⟨t₂, hrun₂, ht₂⟩ := ih ht₁
    refine ⟨t₂, ?_, ht₂⟩
    rw [project, hn]
    exact runWhen_append_iff.mpr ⟨t₁, hrun₁, hrun₂⟩

end Simulation

end Machine

end Calculator.Runs
