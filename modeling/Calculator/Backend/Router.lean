import Calculator.Backend.Decode
import Calculator.Backend.Handler

/-! # The router

The routes of the API and what each endpoint answers. A request is matched by
the most specific pattern, once its path is clean.
-/

namespace Calculator.Backend

open Decimal

def isTokenChar (c : Char) : Bool := c.isAlphanum || c ∈ "!#$%&'*+-.^_`|~".toList

/-- A request as the HTTP server hands it on. Any token can be a method. -/
structure HttpRequest where
  method : Text
  method_ne : method ≠ []
  method_token : ∀ c ∈ method, isTokenChar c = true
  path : Text
  /-- The path as it is written in the URL, or `*` for the server as a whole. -/
  escapedPath : Text
  body : Body

/-- A request, and what the server is told while it answers. -/
structure Arrival extends HttpRequest where
  ready : Bool
  /-- The status of the exposition of the metrics. -/
  exposition : {status : ℕ // 100 ≤ status ∧ status ≤ 999}

inductive Endpoint where
  | calculate | operations | openapiSpec | healthz | readyz | version | exposeMetrics
  | methodNotAllowed (allowed : List Text)
  | notFound
  deriving DecidableEq

structure Route where
  method : Option Text
  path : Text
  endpoint : Endpoint
  deriving DecidableEq

def Route.pattern (r : Route) : Text :=
  match r.method with
  | none => r.path
  | some method => method ++ ' ' :: r.path

def methodGet : Text := "GET".toList
def methodHead : Text := "HEAD".toList
def methodPost : Text := "POST".toList

/-- The route of one method of a path, and the one of all others. -/
def routePair (method : Text) (path : Text) (endpoint : Endpoint) (allowed : List Text) :
    List Route :=
  [⟨some method, path, endpoint⟩, ⟨none, path, .methodNotAllowed allowed⟩]

def catchAll : Route := ⟨none, ['/'], .notFound⟩

def Handler.routes (h : Handler) : List Route :=
  routePair methodPost "/api/v1/calculate".toList .calculate [methodPost] ++
  routePair methodGet "/api/v1/operations".toList .operations [methodGet, methodHead] ++
  routePair methodGet "/api/v1/openapi.yaml".toList .openapiSpec [methodGet, methodHead] ++
  routePair methodGet "/healthz".toList .healthz [methodGet, methodHead] ++
  routePair methodGet "/readyz".toList .readyz [methodGet, methodHead] ++
  routePair methodGet "/version".toList .version [methodGet, methodHead] ++
  (if h.metrics then
    routePair methodGet "/metrics".toList .exposeMetrics [methodGet, methodHead]
  else []) ++ [catchAll]

inductive Routed (routes : List Route) where
  | found (r : {r // r ∈ routes})
  /-- To the clean path, with the route of that path. -/
  | redirect (r : Option {r // r ∈ routes})
  /-- A tunnel request without a path is sent to the root. -/
  | redirectToRoot
  | unmatched (status : {status : ℕ // status ∈ [400, 404, 405]})

def Routed.pattern {routes : List Route} : Routed routes → Text
  | .found r => r.val.pattern
  | .redirect (some r) => r.val.pattern
  | .redirect none => []
  | .redirectToRoot => ['/', '/']
  | .unmatched _ => []

def cleanPath (path : Text) : Text :=
  let segments := (path.splitOn '/').foldl
    (fun (acc : List Text) s =>
      if s = [] ∨ s = ['.'] then acc
      else if s = ['.', '.'] then acc.dropLast
      else acc ++ [s]) []
  let np := '/' :: join ['/'] segments
  if path.getLast? = some '/' ∧ np ≠ ['/'] then np ++ ['/'] else np

/-- The most specific route of a path. A `GET` route also takes `HEAD`. -/
def findRoute (routes : List Route) (method path : Text) : Option {r // r ∈ routes} :=
  let method := if method = methodHead then methodGet else method
  (routes.attach.find? fun r => r.val.path = path ∧ r.val.method = some method).or
    ((routes.attach.find? fun r => r.val.path = path ∧ r.val.method = none).or
      (routes.attach.find? fun r => r.val.path = ['/'] ∧ r.val.method = none))

def notFoundStatus : {status : ℕ // status ∈ [400, 404, 405]} := ⟨404, by decide⟩

def badRequestStatus : {status : ℕ // status ∈ [400, 404, 405]} := ⟨400, by decide⟩

def serveMux (routes : List Route) (r : HttpRequest) : Routed routes :=
  if r.escapedPath = ['*'] then .unmatched badRequestStatus
  else if r.method = "CONNECT".toList then
    if r.escapedPath = [] then .redirectToRoot
    else match findRoute routes r.method r.escapedPath with
      | some route => .found route
      | none => .unmatched notFoundStatus
  else
    let path := cleanPath r.escapedPath
    if path ≠ r.escapedPath then .redirect (findRoute routes r.method path)
    else match findRoute routes r.method path with
      | some route => .found route
      | none => .unmatched notFoundStatus

example : cleanPath "/api//v1/../v1/./operations/".toList = "/api/v1/operations/".toList := by
  decide +kernel

def Answer.status : Answer → ℕ
  | .json status _ => status
  | .problem p => p.status

namespace Handler

variable (h : Handler)

def methodNotAllowed (allowed : List Text) (r : HttpRequest) : Problem :=
  newProblem .methodNotAllowed ("method ".toList ++ r.method ++ " is not allowed; use ".toList ++
    join [',', ' '] allowed) []

def notFound (r : HttpRequest) : Problem :=
  newProblem .notFound ("no route for ".toList ++ r.method ++ ' ' :: r.path) []

def notReady : Problem :=
  newProblem .notReady "the server is shutting down and is not accepting new requests".toList []

/-- The status of the answer and the calculations counted for it. -/
def serveEndpoint (a : Arrival) : Endpoint → Option (ℕ × List Sample)
  | .calculate =>
    (h.calculate (decodeJSON h.isPrint a.body)).map fun x => (x.1.status, x.2)
  | .operations | .openapiSpec | .healthz | .version => some (200, [])
  | .readyz => some (if a.ready then 200 else notReady.status, [])
  | .exposeMetrics => some (a.exposition, [])
  | .methodNotAllowed allowed => some ((methodNotAllowed allowed a.toHttpRequest).status, [])
  | .notFound => some ((notFound a.toHttpRequest).status, [])

def serve (a : Arrival) : Routed h.routes → Option (ℕ × List Sample)
  | .found r => h.serveEndpoint a r.val.endpoint
  | .redirect _ | .redirectToRoot => some (307, [])
  | .unmatched status => some (status, [])

end Handler

variable {h : Handler} {p : Problem} {answer : Answer} {samples : List Sample}
  {decoded : Except Problem CalculateRequest}

theorem info_lt (c : Code) : c.info.1 < 1000 := by
  cases c <;> decide

theorem Problem.Catalogued.status_lt (hp : p.Catalogued) : p.status < 1000 := by
  rw [hp.status_eq]
  exact info_lt _

theorem catalogued_mapError {err : Error} (he : err.asProblem = none) :
    (h.mapError err).Catalogued := by
  unfold Handler.mapError
  rw [he]
  dsimp only
  split_ifs <;> exact catalogued_newProblem _ _ _

theorem evaluate_isSome : (h.evaluate decoded).isSome := by
  unfold Handler.evaluate
  cases decoded with
  | error p => rfl
  | ok req =>
    dsimp only
    cases hv : validate h.registry h.isPrint req with
    | error p => rfl
    | ok spec =>
      obtain ⟨-, -, ⟨a, ha, -⟩, -⟩ := validate_ok_iff.mp hv
      simp [ha]

theorem calculate_isSome : (h.calculate decoded).isSome := by
  rw [Handler.calculate, Option.isSome_map]
  exact evaluate_isSome

theorem evaluate_spec (hd : ∀ p, decoded = .error p → p.Catalogued) {op : Text}
    {outcome : Except Problem CalculateResponse} (he : h.evaluate decoded = some (op, outcome)) :
    (op = [] ∨ op ∈ h.registry.map Spec.name) ∧ ∀ p, outcome = .error p → p.Catalogued := by
  unfold Handler.evaluate at he
  cases decoded with
  | error p =>
    cases he
    refine ⟨Or.inl rfl, ?_⟩
    rintro _ ⟨⟩
    exact hd p rfl
  | ok req =>
    dsimp only at he
    cases hv : validate h.registry h.isPrint req with
    | error p =>
      rw [hv] at he
      cases he
      refine ⟨Or.inl rfl, ?_⟩
      rintro _ ⟨⟩
      exact catalogued_of_validate hv
    | ok spec =>
      rw [hv] at he
      obtain ⟨a, -, he⟩ := Option.map_eq_some_iff.mp he
      have hmem := List.mem_map_of_mem (f := Spec.name)
        (mem_of_lookup (validate_ok_iff.mp hv).2.1)
      cases hr : evaluate h.isPrint h.registry spec.name a req.b with
      | error err =>
        rw [hr] at he
        cases he
        refine ⟨Or.inr hmem, ?_⟩
        rintro _ ⟨⟩
        obtain ⟨text, e, rfl⟩ := evaluate_error hr
        exact catalogued_mapError rfl
      | ok result =>
        rw [hr] at he
        cases he
        exact ⟨Or.inr hmem, nofun⟩

theorem calculate_status_lt (hd : ∀ p, decoded = .error p → p.Catalogued)
    (hc : h.calculate decoded = some (answer, samples)) : answer.status < 1000 := by
  obtain ⟨⟨op, outcome⟩, he, hc⟩ := Option.map_eq_some_iff.mp hc
  have hcatalogued := (evaluate_spec hd he).2
  cases outcome with
  | error p =>
    cases hc
    exact (hcatalogued p rfl).status_lt
  | ok body =>
    cases hc
    unfold Handler.writeJSON
    split
    · exact (by decide : 200 < 1000)
    · have hp : (h.mapError
          (.wrap "encode response: ".toList .unsupportedValue)).Catalogued :=
        catalogued_mapError rfl
      exact hp.status_lt

theorem calculate_samples (hd : ∀ p, decoded = .error p → p.Catalogued)
    (hc : h.calculate decoded = some (answer, samples)) : ∀ sample ∈ samples,
      (sample.operation = unknownOperation ∨ sample.operation ∈ h.registry.map Spec.name) ∧
        (sample.outcome = outcomeOK ∨ ∃ c : Code, sample.outcome = c.text) := by
  obtain ⟨⟨op, outcome⟩, he, hc⟩ := Option.map_eq_some_iff.mp hc
  have hop := (evaluate_spec hd he).1
  have hrecord : ∀ problem, ∀ sample ∈ h.record op problem,
      (sample.operation = unknownOperation ∨ sample.operation ∈ h.registry.map Spec.name) ∧
        (sample.outcome = outcomeOK ∨ ∃ c : Code, sample.outcome = c.text) := by
    intro problem sample hs
    unfold Handler.record at hs
    split at hs
    · rw [List.mem_singleton] at hs
      subst hs
      constructor
      · split
        · exact Or.inl rfl
        · next hne => exact Or.inr (hop.resolve_left hne)
      · cases problem with
        | none => exact Or.inl rfl
        | some p => exact Or.inr ⟨p.code, rfl⟩
    · cases hs
  cases outcome with
  | error p =>
    cases hc
    exact hrecord _
  | ok body =>
    cases hc
    exact hrecord _

end Calculator.Backend
