import Calculator.Engine.Phases
import Calculator.Wire.Requests
import Calculator.Wire.Responses

/-! # From the store to the calculator and back

A request of the store through all layers: written and sent, decoded, validated
and evaluated, answered, and parsed by the client. What the store is told is what
the operation computes.
-/

namespace Calculator.Wire

open Api Backend Binary Decimal Http
open Engine (OperationName)
open Store (onWire operationText wireOperand)

def operationFn (P : Primitives) : OperationName → Float64 → Float64 → Except CalcError Float64
  | .add => add P
  | .subtract => subtract P
  | .multiply => multiply P
  | .divide => divide P
  | .power => power P
  | .sqrt => sqrt P
  | .percent => percent P

/-- The value of a request, or the code of the error: neither a negative zero nor a
number that is not finite goes in or comes out. -/
def compute (P : Primitives) (r : Engine.CalculateRequest) : Except Code Float64 :=
  match operationFn P r.operation r.a.withoutNegativeZero
      ((r.b.map Float64.withoutNegativeZero).getD .zero) with
  | .error e => .error (codeOf e)
  | .ok x => if x.isFinite then .ok x.withoutNegativeZero else .error .resultNotFinite

theorem lookup_operationFn (P : Primitives) (op : OperationName) :
    ∃ spec, lookup (newRegistry P) (operationText op) = some spec ∧
      spec.name = operationText op ∧ spec.fn = operationFn P op := by
  cases op <;> exact ⟨_, rfl, rfl, rfl⟩

theorem compute_ok {P : Primitives} {r : Engine.CalculateRequest} {x : Float64}
    (h : compute P r = .ok x) : x.isFinite = true ∧ x ≠ .negZero := by
  unfold compute at h
  split at h
  · cases h
  · split at h
    · next hx =>
      cases h
      exact ⟨(Float64.isFinite_withoutNegativeZero _).trans hx, Float64.withoutNegativeZero_ne _⟩
    · cases h

/-- What a response has besides its status and its body, and how the browser reads
dates and schemas report. -/
structure Transport where
  path : Text
  requestID : Text
  statusText : Text
  headers : Text → Option Text
  parseDate : Text → Option ℤ
  now : ℤ
  issues : History.Json → List Issue

def bare : Transport := ⟨[], [], [], fun _ => none, fun _ => none, 0, fun _ => []⟩

namespace Transport

variable (T : Transport)

def browser : Platform := Wire.browser T.parseDate T.now

def response : Answer → Response
  | .json status body => ⟨status, T.statusText, T.headers, calculateResponseJson body⟩
  | .problem p => documentResponse ⟨p, T.path, T.requestID⟩ T.statusText T.headers

/-- The request id that an error of the server carries. -/
def errorID : Option Text :=
  if T.requestID = [] then T.headers "X-Request-ID".toList else some T.requestID

def outcome (fetched : Fetched) : Option Store.Outcome :=
  settlement (useCalculate T.browser T.issues fetched)

end Transport

/-- What the server answers to the bytes of a request. -/
def answerTo (h : Handler) (D : Reports) (r : Engine.CalculateRequest) : Option Answer :=
  (h.calculate (decodeJSON h.isPrint (bodyOf D (some applicationJson) (requestBody r)))).map
    Prod.fst

/-- What the store is told of a request that the server answers. -/
def exchange (h : Handler) (D : Reports) (T : Transport) (r : Engine.CalculateRequest) :
    Option Store.Outcome :=
  (answerTo h D r).bind fun answer => T.outcome (.response (T.response answer))

variable {P : Primitives} {h : Handler} {r : Engine.CalculateRequest}

theorem wireOperand_eq {x : Float64} (hx : x.isFinite = true) :
    wireOperand x = some x.withoutNegativeZero := by
  rw [wireOperand, if_pos hx, number_string_eq hx]

theorem isFinite_of_wireOperand {x y : Float64} (h : wireOperand x = some y) :
    x.isFinite = true := by
  unfold wireOperand at h
  split at h
  · next hx => exact hx
  · cases h

theorem onWire_eq (hr : r.Sendable) : onWire r =
    ⟨operationText r.operation, some r.a.withoutNegativeZero,
      r.b.map Float64.withoutNegativeZero⟩ := by
  rw [onWire, wireOperand_eq hr.a]
  cases hb : r.b with
  | none => rfl
  | some b => rw [Option.bind_some, wireOperand_eq (hr.b b hb), Option.map_some]

theorem calculate_of_valid {req : CalculateRequest} {spec : Spec} {a : Float64}
    (hv : validate h.registry h.isPrint req = .ok spec) (ha : req.a = some a) :
    (h.calculate (.ok req)).map Prod.fst = some
      (match Backend.evaluate h.isPrint h.registry spec.name a req.b with
        | .error err => .problem (h.mapError (.evalError spec.name err))
        | .ok x => .json 200 ⟨spec.name, a, req.b, x⟩) := by
  obtain ⟨-, -, ⟨a', ha', hfin⟩, hb, -⟩ := validate_ok_iff.mp hv
  cases ha.symm.trans ha'
  unfold Handler.calculate Handler.evaluate
  dsimp only
  rw [hv, ha]
  cases heval : Backend.evaluate h.isPrint h.registry spec.name a req.b with
  | error err => simp only [heval, Option.map_some]
  | ok x =>
    obtain ⟨hx, -⟩ := evaluate_ok heval
    have hmarshals : Handler.marshals ⟨spec.name, a, req.b, x⟩ = true := by
      rw [Handler.marshals, hfin, hx]
      cases hrb : req.b with
      | none => rfl
      | some b => simp [hb b hrb]
    simp only [heval, Option.map_some, Handler.writeJSON, hmarshals, if_true]

theorem mapError_eq_newProblem (h : Handler) (op text : Text) (e : CalcError) :
    ∃ detail errs,
      h.mapError (.evalError op (.wrap text (.sentinel e))) =
        newProblem (codeOf e) detail errs := by
  have hcatalogued : (h.mapError (.evalError op (.wrap text (.sentinel e)))).Catalogued :=
    catalogued_mapError rfl
  obtain ⟨hcode, -⟩ := mapError_evalError h op text e
  generalize h.mapError (.evalError op (.wrap text (.sentinel e))) = p at *
  refine ⟨p.detail, p.errors, ?_⟩
  rw [← hcode]
  exact hcatalogued

theorem answerTo_of_sendable (hreg : h.registry = newRegistry P) (D : Reports)
    (hr : r.Sendable) : ∃ answer, answerTo h D r = some answer ∧
      match compute P r with
      | .ok x => answer = .json 200 ⟨operationText r.operation, r.a.withoutNegativeZero,
          r.b.map Float64.withoutNegativeZero, x⟩
      | .error c => ∃ detail errs, answer = .problem (newProblem c detail errs) := by
  obtain ⟨spec, hlookup, hname, hfn⟩ := lookup_operationFn P r.operation
  have haccepted : ∃ spec, validate (newRegistry P) h.isPrint (onWire r) = .ok spec :=
    Store.validate_onWire hr
  obtain ⟨spec', hvalid⟩ := haccepted
  obtain ⟨-, hlookup', -, hb, h2, h1⟩ := validate_ok_iff.mp hvalid
  cases hlookup.symm.trans hlookup'
  rw [onWire_eq hr] at hvalid hb h2 h1
  have heval : Backend.evaluate h.isPrint h.registry spec.name _ _ = _ :=
    evaluate_of_lookup (hname ▸ hreg ▸ hlookup) h2 h1
      ((Float64.isFinite_withoutNegativeZero r.a).trans hr.a) hb
  have hcalculate := calculate_of_valid (hreg ▸ hvalid) rfl
  rw [answerTo, decodeJSON_requestBody, onWire_eq hr, hcalculate]
  refine ⟨_, rfl, ?_⟩
  rw [heval, hfn, compute]
  cases operationFn P r.operation r.a.withoutNegativeZero
      ((r.b.map Float64.withoutNegativeZero).getD .zero) with
  | error e =>
    obtain ⟨detail, errs, hproblem⟩ :=
      mapError_eq_newProblem h spec.name (spec.name ++ ": ".toList) e
    exact ⟨detail, errs, congrArg Answer.problem hproblem⟩
  | ok x =>
    cases hx : x.isFinite with
    | false =>
      obtain ⟨detail, errs, hproblem⟩ :=
        mapError_eq_newProblem h spec.name (spec.name ++ ": result: ".toList) .notFinite
      simp only [hx, Bool.not_false, if_true, Bool.false_eq_true, if_false]
      exact ⟨detail, errs, congrArg Answer.problem hproblem⟩
    | true =>
      simp only [hx, Bool.not_true, Bool.false_eq_true, if_false, if_true, hname]

theorem validate_of_not_sendable (isPrint : Char → Bool) (harity : r.FitsArity)
    (hr : ¬ r.Sendable) : ∃ detail errs, validate (newRegistry P) isPrint (onWire r) =
      .error (newProblem .validationFailed detail errs) := by
  have hfields : fieldErrors (newRegistry P) isPrint (onWire r) ≠ [] := by
    intro hnil
    obtain ⟨-, ⟨a, ha, -⟩, -, h2⟩ := fieldErrors_eq_nil_iff.mp hnil
    refine hr ⟨isFinite_of_wireOperand ha, ?_, harity⟩
    intro x hx
    by_cases hop : r.operation = .sqrt
    · rw [harity.mpr hop] at hx
      cases hx
    · obtain ⟨-, spec, hlookup, -, harity₂⟩ := Store.lookup_operationText P r.operation
      have hb : r.b.bind wireOperand ≠ none := h2 spec hlookup (harity₂ hop)
      rw [hx, Option.bind_some] at hb
      obtain ⟨y, hy⟩ := Option.ne_none_iff_exists'.mp hb
      exact isFinite_of_wireOperand hy
  exact ⟨_, fieldErrors (newRegistry P) isPrint (onWire r), if_pos hfields⟩

theorem answerTo_of_not_sendable (hreg : h.registry = newRegistry P) (D : Reports)
    (harity : r.FitsArity) (hr : ¬ r.Sendable) :
    ∃ detail errs, answerTo h D r = some (.problem (newProblem .validationFailed detail errs)) := by
  obtain ⟨detail, errs, hv⟩ := validate_of_not_sendable (P := P) h.isPrint harity hr
  refine ⟨detail, errs, ?_⟩
  rw [answerTo, decodeJSON_requestBody]
  unfold Handler.calculate Handler.evaluate
  dsimp only
  rw [hreg, hv]
  rfl

/-- What the client makes of a response of the server. -/
def Transport.client (T : Transport) (answer : Answer) : Except ApiError History.Json :=
  useCalculate T.browser T.issues (.response (T.response answer))

theorem Transport.outcome_response (T : Transport) (answer : Answer) :
    T.outcome (.response (T.response answer)) = settlement (T.client answer) := rfl

theorem client_problem (T : Transport) (c : Code) (detail : Text)
    (errs : List Backend.FieldError) : ∃ e, T.client (.problem (newProblem c detail errs)) =
      .error e ∧ e.code = c.text ∧ e.requestId = T.errorID := by
  obtain ⟨hlo, hhi⟩ := info_status c
  have hfetch := apiFetch_documentResponse T.parseDate T.now
    ⟨newProblem c detail errs, T.path, T.requestID⟩ hlo hhi T.statusText T.headers
    defaultTimeoutMs (some (safeParse T.issues calculateResponseSchema CalculateResponse.toJson))
  generalize Float64.ofRat false _ = status at hfetch
  exact ⟨_, hfetch, rfl, rfl⟩

theorem outcome_problem (T : Transport) (c : Code) (detail : Text)
    (errs : List Backend.FieldError) :
    T.outcome (.response (T.response (.problem (newProblem c detail errs)))) =
      some (.failure (.apiError c.text T.errorID)) := by
  obtain ⟨e, he, hcode, hid⟩ := client_problem T c detail errs
  rw [T.outcome_response, he, settlement, hcode, hid]

theorem parseJson_browser (T : Transport) : T.browser.parseJson = Browser.parse := rfl

theorem text_response_json (T : Transport) (status : ℕ) (body : Backend.CalculateResponse) :
    (T.response (.json status body)).text = calculateResponseJson body := rfl

theorem client_json (T : Transport) (a : Api.CalculateResponse) :
    T.client (.json 200 (responseBody a)) = .ok a.toJson := by
  have hparse : T.browser.parseJson (T.response (.json 200 (responseBody a))).text =
      some a.toJson := by
    rw [parseJson_browser, text_response_json, parse_calculateResponseJson]
  have hok : (T.response (.json 200 (responseBody a))).ok = true := rfl
  rw [Transport.client, useCalculate, apiFetch, hparse, hok]
  simp only [Bool.not_true, Bool.false_eq_true, if_false, safeParse,
    calculateResponseSchema_toJson]

/-- The answer to a request, as the client has it: the operands without a negative
zero, and the value. -/
structure Echoes (P : Primitives) (r : Engine.CalculateRequest)
    (response : Api.CalculateResponse) : Prop where
  operation : response.operation = r.operation
  a : response.a.1 = r.a.withoutNegativeZero
  b : response.b.map Subtype.val = r.b.map Float64.withoutNegativeZero
  result : compute P r = .ok response.result.1

/-- What the client makes of the answer to a request that may be sent. -/
theorem client_of_sendable (hreg : h.registry = newRegistry P) (D : Reports) (T : Transport)
    (hr : r.Sendable) : ∃ answer, answerTo h D r = some answer ∧
      ((∃ a, T.client answer = .ok a.toJson ∧ Echoes P r a) ∨
        ∃ c e, T.client answer = .error e ∧ compute P r = .error c ∧ e.code = c.text ∧
          e.requestId = T.errorID) := by
  obtain ⟨answer, hanswer, hspec⟩ := answerTo_of_sendable hreg D hr
  refine ⟨answer, hanswer, ?_⟩
  cases hc : compute P r with
  | error c =>
    rw [hc] at hspec
    obtain ⟨detail, errs, rfl⟩ := hspec
    obtain ⟨e, he, hcode, hid⟩ := client_problem T c detail errs
    exact Or.inr ⟨c, e, he, rfl, hcode, hid⟩
  | ok x =>
    rw [hc] at hspec
    subst hspec
    obtain ⟨hx, -⟩ := compute_ok hc
    have ha : r.a.withoutNegativeZero.isFinite = true :=
      (Float64.isFinite_withoutNegativeZero _).trans hr.a
    left
    cases hb : r.b with
    | none =>
      have hclient := client_json T ⟨r.operation, ⟨_, ha⟩, none, ⟨x, hx⟩⟩
      exact ⟨_, hclient, ⟨rfl, rfl, by rw [hb]; rfl, hc⟩⟩
    | some b =>
      have hb' : b.withoutNegativeZero.isFinite = true :=
        (Float64.isFinite_withoutNegativeZero _).trans (hr.b b hb)
      have hclient := client_json T ⟨r.operation, ⟨_, ha⟩, some ⟨_, hb'⟩, ⟨x, hx⟩⟩
      exact ⟨_, hclient, ⟨rfl, rfl, by rw [hb]; rfl, hc⟩⟩

/-- A request of the store settles as its operation computes: with the result, or
with the code of the error and the request id. -/
theorem exchange_eq (hreg : h.registry = newRegistry P) (D : Reports) (T : Transport)
    (hr : r.Sendable) : exchange h D T r = some (match compute P r with
      | .ok x => .answer ⟨x⟩
      | .error c => .failure (.apiError c.text T.errorID)) := by
  obtain ⟨answer, hanswer, ⟨a, ha, hecho⟩ | ⟨c, e, he, hc, hcode, hid⟩⟩ :=
    client_of_sendable hreg D T hr
  · rw [exchange, hanswer, Option.bind_some, T.outcome_response, ha, settlement,
      calculateResponseSchema_toJson, hecho.result, Option.map_some]
  · rw [exchange, hanswer, Option.bind_some, T.outcome_response, he, settlement, hc, hcode, hid]

theorem exchange_of_not_sendable (hreg : h.registry = newRegistry P) (D : Reports) (T : Transport)
    (harity : r.FitsArity) (hr : ¬ r.Sendable) : exchange h D T r =
      some (.failure (.apiError Code.validationFailed.text T.errorID)) := by
  obtain ⟨detail, errs, hanswer⟩ := answerTo_of_not_sendable hreg D harity hr
  rw [exchange, hanswer, Option.bind_some]
  exact outcome_problem T .validationFailed detail errs

end Calculator.Wire
