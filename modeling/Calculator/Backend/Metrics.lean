import Mathlib.Data.Set.Finite.Lattice
import Mathlib.Data.Set.Finite.List
import Calculator.Backend.Router

/-! # The metrics

Every answered request is counted under its method, its route and the status of
the answer. Routes, statuses and calculations have finitely many labels however
requests are routed, so the series are bounded exactly if the methods are.
-/

namespace Calculator.Backend

open Decimal

inductive Series where
  | requests (method route status : Text)
  | duration (method route : Text)
  | calcOps (sample : Sample)
  deriving DecidableEq

def routeUnmatched : Text := "unmatched".toList

/-- The path of a pattern, without the method and a host. -/
def routeOf (pattern : Text) : Text :=
  if pattern = [] then routeUnmatched
  else
    let pattern := match pattern.dropWhile (· ≠ ' ') with
      | [] => pattern
      | _ :: rest => rest
    if '/' ∈ pattern then pattern.dropWhile (· ≠ '/') else pattern

example : routeOf "POST /api/v1/calculate".toList = "/api/v1/calculate".toList := by
  decide +kernel

namespace Handler

variable (h : Handler) (mux : HttpRequest → Routed h.routes)

/-- The series that a request is counted in: the calculation first, then the
request itself. A request whose handler panics is not counted. -/
def observed (a : Arrival) : List Series :=
  match h.serve a (mux a.toHttpRequest) with
  | none => []
  | some (status, samples) =>
    let route := routeOf (mux a.toHttpRequest).pattern
    samples.map Series.calcOps ++
      [.requests a.method route (Nat.toDigits 10 status), .duration a.method route]

/-- A vector has one series for each tuple of labels. -/
def observe (series : List Series) (a : Arrival) : List Series :=
  (h.observed mux a).foldl (fun series x => series.insert x) series

def seriesAfter (as : List Arrival) : List Series := as.foldl (h.observe mux) []

end Handler

section Labels

variable {h : Handler} {mux : HttpRequest → Routed h.routes} {a : Arrival} {x : Series}

theorem mem_foldl_insert {xs ys : List Series} :
    x ∈ xs.foldl (fun series x => series.insert x) ys ↔ x ∈ ys ∨ x ∈ xs := by
  induction xs generalizing ys with
  | nil => simp
  | cons z xs ih =>
    rw [List.foldl_cons, ih, List.mem_insert_iff, List.mem_cons]
    tauto

theorem mem_foldl_observe {as : List Arrival} {series : List Series} :
    x ∈ as.foldl (h.observe mux) series ↔ x ∈ series ∨ ∃ a ∈ as, x ∈ h.observed mux a := by
  induction as generalizing series with
  | nil => simp
  | cons a as ih =>
    rw [List.foldl_cons, ih, Handler.observe, mem_foldl_insert, List.exists_mem_cons_iff, or_assoc]

theorem mem_seriesAfter_iff {as : List Arrival} :
    x ∈ h.seriesAfter mux as ↔ ∃ a ∈ as, x ∈ h.observed mux a := by
  rw [Handler.seriesAfter, mem_foldl_observe]
  simp

/-- The route labels: those of the patterns, and those without a pattern. -/
def routeLabels (h : Handler) : List Text :=
  routeUnmatched :: routeOf ['/', '/'] :: h.routes.map fun r => routeOf r.pattern

def statusLabels : List Text := (List.range 1000).map (Nat.toDigits 10)

def operationLabels (registry : List Spec) : List Text :=
  unknownOperation :: registry.map Spec.name

def outcomeLabels : List Text :=
  outcomeOK :: [Code.invalidBody, .validationFailed, .unsupportedOperation, .unexpectedOperand,
    .divisionByZero, .domainError, .resultNotFinite, .unsupportedMediaType, .payloadTooLarge,
    .notFound, .notReady, .methodNotAllowed, .rateLimited, .timeout, .internal].map Code.text

theorem text_mem_outcomeLabels (c : Code) : c.text ∈ outcomeLabels := by
  cases c <;> decide

theorem routeOf_mem (r : Routed h.routes) : routeOf r.pattern ∈ routeLabels h := by
  have hroute (r : {r // r ∈ h.routes}) : routeOf r.val.pattern ∈ routeLabels h :=
    List.mem_cons_of_mem _ (List.mem_cons_of_mem _
      (List.mem_map_of_mem (f := fun r : Route => routeOf r.pattern) r.property))
  cases r with
  | found r => exact hroute r
  | redirect r =>
    cases r with
    | none => exact List.mem_cons_self
    | some r => exact hroute r
  | redirectToRoot => exact List.mem_cons_of_mem _ List.mem_cons_self
  | unmatched status => exact List.mem_cons_self

variable {status : ℕ} {samples : List Sample}

theorem serveEndpoint_isSome (e : Endpoint) : (h.serveEndpoint a e).isSome := by
  cases e with
  | calculate =>
    unfold Handler.serveEndpoint
    rw [Option.isSome_map]
    exact calculate_isSome
  | operations | openapiSpec | healthz | readyz | version | exposeMetrics | methodNotAllowed _
  | notFound => rfl

theorem serve_isSome (r : Routed h.routes) : (h.serve a r).isSome := by
  cases r with
  | found r => exact serveEndpoint_isSome _
  | redirect _ | redirectToRoot | unmatched _ => rfl

theorem serveEndpoint_labels {e : Endpoint} (hs : h.serveEndpoint a e = some (status, samples)) :
    status < 1000 ∧ ∀ sample ∈ samples,
      sample.operation ∈ operationLabels h.registry ∧ sample.outcome ∈ outcomeLabels := by
  cases e with
  | calculate =>
    obtain ⟨⟨answer, samples⟩, hc, hs⟩ := Option.map_eq_some_iff.mp hs
    cases hs
    have hd (p : Problem) (hp : decodeJSON h.isPrint a.body = .error p) : p.Catalogued :=
      catalogued_of_decodeJSON hp
    refine ⟨calculate_status_lt hd hc, fun sample hmem => ?_⟩
    obtain ⟨hop, hout⟩ := calculate_samples hd hc sample hmem
    refine ⟨List.mem_cons.mpr hop, ?_⟩
    rcases hout with hout | ⟨c, hout⟩
    · rw [hout]
      exact List.mem_cons_self
    · rw [hout]
      exact text_mem_outcomeLabels c
  | operations | openapiSpec | healthz | version =>
    cases hs
    exact ⟨by decide, by simp⟩
  | methodNotAllowed _ | notFound =>
    cases hs
    exact ⟨(catalogued_newProblem _ _ _).status_lt, by simp⟩
  | readyz =>
    cases hs
    refine ⟨?_, by simp⟩
    split <;> decide
  | exposeMetrics =>
    cases hs
    exact ⟨Nat.lt_succ_of_le a.exposition.property.2, by simp⟩

theorem serve_labels {r : Routed h.routes} (hs : h.serve a r = some (status, samples)) :
    status < 1000 ∧ ∀ sample ∈ samples,
      sample.operation ∈ operationLabels h.registry ∧ sample.outcome ∈ outcomeLabels := by
  cases r with
  | found r => exact serveEndpoint_labels hs
  | redirect _ | redirectToRoot =>
    cases hs
    exact ⟨by decide, by simp⟩
  | unmatched s =>
    cases hs
    have hs := s.property
    simp only [List.mem_cons, List.not_mem_nil, or_false] at hs
    exact ⟨by omega, by simp⟩

theorem observed_labels (hx : x ∈ h.observed mux a) :
    (∃ route ∈ routeLabels h, ∃ status ∈ statusLabels, x = .requests a.method route status) ∨
      (∃ route ∈ routeLabels h, x = .duration a.method route) ∨
      ∃ op ∈ operationLabels h.registry, ∃ outcome ∈ outcomeLabels, x = .calcOps ⟨op, outcome⟩ := by
  unfold Handler.observed at hx
  cases hs : h.serve a (mux a.toHttpRequest) with
  | none =>
    rw [hs] at hx
    cases hx
  | some answer =>
    obtain ⟨status, samples⟩ := answer
    obtain ⟨hlt, hsamples⟩ := serve_labels hs
    rw [hs] at hx
    simp only [List.mem_append, List.mem_map, List.mem_cons, List.not_mem_nil, or_false] at hx
    rcases hx with ⟨sample, hmem, rfl⟩ | rfl | rfl
    · obtain ⟨hop, hout⟩ := hsamples sample hmem
      exact Or.inr (Or.inr ⟨_, hop, _, hout, rfl⟩)
    · refine Or.inl ⟨_, routeOf_mem _, _, ?_, rfl⟩
      exact List.mem_map_of_mem (List.mem_range.mpr hlt)
    · exact Or.inr (Or.inl ⟨_, routeOf_mem _, rfl⟩)

theorem exists_duration_mem : ∃ route, Series.duration a.method route ∈ h.observed mux a := by
  obtain ⟨answer, hs⟩ := Option.isSome_iff_exists.mp (serve_isSome (mux a.toHttpRequest))
  obtain ⟨status, samples⟩ := answer
  refine ⟨routeOf (mux a.toHttpRequest).pattern, ?_⟩
  unfold Handler.observed
  rw [hs]
  simp

end Labels

/-- The series of all sequences of requests of a kind are among finitely many. -/
def Bounded (h : Handler) (mux : HttpRequest → Routed h.routes) (R : Set Arrival) : Prop :=
  ∃ S : Set Series, S.Finite ∧
    ∀ as : List Arrival, (∀ a ∈ as, a ∈ R) → ∀ x ∈ h.seriesAfter mux as, x ∈ S

section Cardinality

variable {h : Handler} {mux : HttpRequest → Routed h.routes} {R : Set Arrival}

def methodsOf (R : Set Arrival) : Set Text := {method | ∃ a ∈ R, a.method = method}

def Series.method : Series → Text
  | .requests method _ _ | .duration method _ => method
  | .calcOps _ => []

theorem Bounded.methods_finite (hb : Bounded h mux R) : (methodsOf R).Finite := by
  obtain ⟨S, hS, hmem⟩ := hb
  refine (hS.image Series.method).subset ?_
  rintro method ⟨a, ha, rfl⟩
  obtain ⟨route, hroute⟩ : ∃ route, Series.duration a.method route ∈ h.observed mux a :=
    exists_duration_mem
  refine ⟨.duration a.method route, hmem [a] (by simpa using ha) _ ?_, rfl⟩
  exact mem_seriesAfter_iff.mpr ⟨a, List.mem_singleton_self a, hroute⟩

theorem bounded_of_methods_finite (hR : (methodsOf R).Finite) : Bounded h mux R := by
  have hroutes : {route | route ∈ routeLabels h}.Finite := List.finite_toSet _
  have hstatus : {status | status ∈ statusLabels}.Finite := List.finite_toSet _
  have hops : {op | op ∈ operationLabels h.registry}.Finite := List.finite_toSet _
  have houtcomes : {outcome | outcome ∈ outcomeLabels}.Finite := List.finite_toSet _
  have hduration := hR.image2 Series.duration hroutes
  have hrequests := (hR.prod (hroutes.prod hstatus)).image
    fun labels => Series.requests labels.1 labels.2.1 labels.2.2
  have hcalc := hops.image2 (fun op outcome => Series.calcOps ⟨op, outcome⟩) houtcomes
  refine ⟨_, hrequests.union (hduration.union hcalc), fun as has x hx => ?_⟩
  obtain ⟨a, ha, hx⟩ := mem_seriesAfter_iff.mp hx
  have hmethod : a.method ∈ methodsOf R := ⟨a, has a ha, rfl⟩
  rcases observed_labels hx with ⟨route, hr, status, hs, rfl⟩ | ⟨route, hr, rfl⟩ |
    ⟨op, hop, outcome, hout, rfl⟩
  · exact Or.inl ⟨(a.method, route, status), ⟨hmethod, hr, hs⟩, rfl⟩
  · exact Or.inr (Or.inl ⟨a.method, hmethod, route, hr, rfl⟩)
  · exact Or.inr (Or.inr ⟨op, hop, outcome, hout, rfl⟩)

/-- The series are bounded exactly if the methods are, whatever the router. -/
theorem series_bounded_iff (h : Handler) (mux : HttpRequest → Routed h.routes)
    (R : Set Arrival) : Bounded h mux R ↔ (methodsOf R).Finite :=
  ⟨Bounded.methods_finite, bounded_of_methods_finite⟩

end Cardinality

def zeroPrimitives : Primitives :=
  ⟨fun _ _ => .zero, fun _ _ => .zero, fun _ _ => .zero, fun _ _ => .zero, fun _ _ => .zero,
    fun _ => .zero⟩

def server : Handler := ⟨newRegistry zeroPrimitives, fun _ => true, true⟩

/-- A request without a body to an unknown path, with the method `A`, `AA`, and so on. -/
def inventedMethod (n : ℕ) : Arrival where
  method := List.replicate (n + 1) 'A'
  method_ne := List.cons_ne_nil _ _
  method_token := fun c hc => by
    rw [List.eq_of_mem_replicate hc]
    rfl
  path := "/nope".toList
  escapedPath := "/nope".toList
  body := ⟨none, .error .eof, .error .eof⟩
  ready := true
  exposition := ⟨200, by decide⟩

/-- Each of these requests opens series of its own. -/
theorem series_unbounded :
    ¬ Bounded server (serveMux server.routes) (Set.range inventedMethod) := by
  intro hb
  refine Set.infinite_of_injective_forall_mem (f := fun n => List.replicate (n + 1) 'A') ?_ ?_
    hb.methods_finite
  · intro m n h
    simpa using congrArg List.length h
  · exact fun n => ⟨inventedMethod n, ⟨n, rfl⟩, rfl⟩

end Calculator.Backend
