import Calculator.Api.Calculations
import Calculator.Browser.Json
import Calculator.Http.Marshal

/-! # Responses on the wire

What the browser makes of the texts that the server sends. The answer of a
calculation meets the schema of the client as it was computed, and an error
document comes out as the error with its code, its request id and its fields.
-/

namespace Calculator.Wire

open Api Backend Binary Browser Decimal Http Json
open Ecma (natLiteral natLiteral_value)
open History (FiniteNumber NonemptyText finiteNumber property stringMin1)
open Store (operationText)

theorem parse_object {ms : List (Text × Value)} (h : (ms.map Prod.fst).Nodup) :
    parse (objectOf (ms.map fun m => member m.1 m.2)).text =
      some (.object (ms.map fun m => (m.1, ofValue m.2))) := by
  rw [parse_text, ofValue_objectOf]
  · simp [member]
  · simpa [Function.comp_def] using h

theorem ofValue_stringValue (t : Text) : ofValue (stringValue t) = .string t :=
  congrArg History.Json.string (Http.quotation.unquote_quote t)

theorem ofValue_natLiteral (n : ℕ) :
    ofValue (.number (natLiteral n)) = .number (.ofRat false n) := by
  rw [ofValue, natLiteral_value]

def responseBody (r : Api.CalculateResponse) : Backend.CalculateResponse :=
  ⟨operationText r.operation, r.a, r.b.map Subtype.val, r.result⟩

theorem parse_calculateResponseJson (r : Api.CalculateResponse) :
    parse (calculateResponseJson (responseBody r)) = some r.toJson := by
  obtain ⟨operation, ⟨a, ha⟩, b, ⟨result, hresult⟩⟩ := r
  obtain ⟨la, hla, hva⟩ := exists_floatLiteral ha
  obtain ⟨lr, hlr, hvr⟩ := exists_floatLiteral hresult
  have hnumber {l : Literal} {x : Float64} (h : Float64.ofRat l.negative l.magnitude = x) :
      ofValue (.number l) = .number x := by rw [ofValue, h]
  cases b with
  | none =>
    have htext : calculateResponseJson ⟨operationText operation, a, none, result⟩ =
        (objectOf ([("operation".toList, stringValue (operationText operation)),
          (['a'], .number la), ("result".toList, .number lr)].map fun m =>
            member m.1 m.2)).text := by
      simp [calculateResponseJson, ← jsonObject_eq, ← jsonMember_eq, Value.text, hla, hlr]
    change parse (calculateResponseJson ⟨operationText operation, a, none, result⟩) = _
    rw [htext, parse_object (by simp)]
    simp [Api.CalculateResponse.toJson, ofValue_stringValue, hnumber hva, hnumber hvr,
      FiniteNumber.toJson]
  | some b =>
    obtain ⟨b, hb⟩ := b
    obtain ⟨lb, hlb, hvb⟩ := exists_floatLiteral hb
    have htext : calculateResponseJson ⟨operationText operation, a, some b, result⟩ =
        (objectOf ([("operation".toList, stringValue (operationText operation)),
          (['a'], .number la), (['b'], .number lb), ("result".toList, .number lr)].map fun m =>
            member m.1 m.2)).text := by
      simp [calculateResponseJson, ← jsonObject_eq, ← jsonMember_eq, Value.text, hla, hlb, hlr]
    change parse (calculateResponseJson ⟨operationText operation, a, some b, result⟩) = _
    rw [htext, parse_object (by simp)]
    simp [Api.CalculateResponse.toJson, ofValue_stringValue, hnumber hva, hnumber hvb,
      hnumber hvr, FiniteNumber.toJson]

def fieldErrorJson (e : Backend.FieldError) : History.Json := .object [
  ("field".toList, .string e.field), ("message".toList, .string e.message)]

def documentJson (d : Document) : History.Json := .object <| [
  ("type".toList, .string d.type),
  ("title".toList, .string d.title),
  ("status".toList, .number (.ofRat false d.status)),
  ("detail".toList, .string d.detail),
  ("code".toList, .string d.code.text),
  ("instance".toList, .string d.instance)] ++
  (if d.requestID = [] then [] else [("requestId".toList, .string d.requestID)]) ++
  (if d.errors = [] then [] else [("errors".toList, .array (d.errors.map fieldErrorJson))])

theorem ofValue_fieldErrorValue (e : Backend.FieldError) :
    ofValue (fieldErrorValue e) = fieldErrorJson e := by
  rw [fieldErrorValue, ofValue_objectOf]
  · simp only [List.map_cons, List.map_nil, unquote_member]
    simp only [member, ofValue_stringValue, fieldErrorJson]
  · simp only [List.map_cons, List.map_nil, unquote_member]
    decide

theorem nodup_documentMembers (d : Document) : ((documentMembers d).map Prod.fst).Nodup := by
  unfold documentMembers
  by_cases hid : d.requestID = []
  · by_cases herr : d.errors = [] <;> simp [hid, herr]
  · by_cases herr : d.errors = [] <;> simp [hid, herr]

theorem parse_json (d : Document) : parse d.json = some (documentJson d) := by
  have herrors : ofValue (arrayOf (d.errors.map fieldErrorValue)) =
      .array (d.errors.map fieldErrorJson) := by
    rw [ofValue_arrayOf, List.map_map]
    congr 2
    funext e
    exact ofValue_fieldErrorValue e
  rw [document_json_eq, parse_object (nodup_documentMembers d), documentMembers, documentJson]
  by_cases hid : d.requestID = []
  · by_cases herr : d.errors = []
    · simp [hid, herr, ofValue_stringValue, ofValue_natLiteral]
    · simp [hid, herr, ofValue_stringValue, ofValue_natLiteral, herrors]
  · by_cases herr : d.errors = []
    · simp [hid, herr, ofValue_stringValue, ofValue_natLiteral]
    · simp [hid, herr, ofValue_stringValue, ofValue_natLiteral, herrors]

/-- A field of a request, as the client has it. -/
def fieldError (e : Backend.FieldError) : Api.FieldError := ⟨e.field, e.message⟩

theorem fieldErrorSchema_fieldErrorJson (e : Backend.FieldError) :
    fieldErrorSchema (fieldErrorJson e) = some (fieldError e) := by
  simp [fieldErrorSchema, fieldErrorJson, fieldError, Api.string]

theorem array_fieldErrorJson (errs : List Backend.FieldError) :
    History.array fieldErrorSchema (.array (errs.map fieldErrorJson)) =
      some (errs.map fieldError) := by
  change (errs.map fieldErrorJson).mapM fieldErrorSchema = some (errs.map fieldError)
  induction errs with
  | nil => rfl
  | cons e errs ih => simp [fieldErrorSchema_fieldErrorJson, ih]

theorem code_text_ne_nil (c : Code) : c.text ≠ [] := by
  cases c <;> decide

/-- The code of a problem, as the schema has it. -/
def codeText (c : Code) : NonemptyText := ⟨c.text, code_text_ne_nil c⟩

theorem isFinite_status {n : ℕ} (h : n < 1000) : (Float64.ofRat false n).isFinite = true := by
  apply Float64.isFinite_ofRat_of_le_pow
  calc (n : ℚ) ≤ 10 ^ 3 := by exact_mod_cast h.le
    _ ≤ 10 ^ 308 := pow_le_pow_right₀ (by norm_num) (by norm_num)

/-- What the client reads of a document, with its status as a number. -/
def parsedProblem (d : Document) (status : FiniteNumber) : ParsedProblem where
  type := some d.type
  title := some d.title
  status := some status
  detail := some d.detail
  code := codeText d.code
  «instance» := some d.instance
  requestId := if d.requestID = [] then none else some d.requestID
  errors := if d.errors = [] then none else some (d.errors.map fieldError)

theorem problemSchema_documentJson (d : Document) (h : d.status < 1000) :
    problemSchema (documentJson d) =
      some (parsedProblem d ⟨.ofRat false d.status, isFinite_status h⟩) := by
  have hstatus : finiteNumber (.number (.ofRat false d.status)) =
      some ⟨.ofRat false d.status, isFinite_status h⟩ := dif_pos (isFinite_status h)
  have hcode : stringMin1 (.string d.code.text) = some (codeText d.code) :=
    dif_pos (code_text_ne_nil d.code)
  unfold problemSchema documentJson parsedProblem
  by_cases hid : d.requestID = []
  · by_cases herr : d.errors = []
    · simp [hid, herr, Api.string, hstatus, hcode]
    · simp [hid, herr, Api.string, hstatus, hcode, array_fieldErrorJson]
  · by_cases herr : d.errors = []
    · simp [hid, herr, Api.string, hstatus, hcode]
    · simp [hid, herr, Api.string, hstatus, hcode, array_fieldErrorJson]

def browser (parseDate : Text → Option ℤ) (now : ℤ) : Platform := ⟨parse, parseDate, now⟩

def documentResponse (d : Document) (statusText : Text) (headers : Text → Option Text) :
    Response := ⟨d.status, statusText, headers, d.json⟩

/-- The error that the client makes of a document, whose status it has as a number. -/
def documentError (P : Platform) (d : Document) (status : Float64)
    (headers : Text → Option Text) : ApiError where
  status := status
  code := d.code.text
  title := d.title
  detail := d.detail
  requestId := if d.requestID = [] then headers "X-Request-ID".toList else some d.requestID
  errors := d.errors.map fieldError
  retryAfterSeconds := parseRetryAfter P (headers "Retry-After".toList)

theorem errorFromResponse_of_parsedProblem {P : Platform} {response : Response}
    {payload : Option History.Json} {d : Document} {status : FiniteNumber}
    (h : payload.bind problemSchema = some (parsedProblem d status)) :
    errorFromResponse P response payload = documentError P d status response.headers := by
  unfold errorFromResponse
  rw [h]
  unfold documentError parsedProblem
  by_cases hid : d.requestID = []
  · by_cases herr : d.errors = []
    · simp [hid, herr, codeText, requestIdOf]
    · simp [hid, herr, codeText, requestIdOf]
  · by_cases herr : d.errors = []
    · simp [hid, herr, codeText]
    · simp [hid, herr, codeText]

theorem info_status (c : Code) : 400 ≤ c.info.1 ∧ c.info.1 < 1000 := by
  cases c <;> decide

/-- A response with a document ends in the error that the document describes. -/
theorem apiFetch_documentResponse (parseDate : Text → Option ℤ) (now : ℤ) (d : Document)
    (hlo : 400 ≤ d.status) (hhi : d.status < 1000) (statusText : Text)
    (headers : Text → Option Text) (timeoutMs : ℕ)
    (schema : Option (History.Json → Except (List Issue) History.Json)) :
    apiFetch (browser parseDate now) timeoutMs schema
        (.response (documentResponse d statusText headers)) =
      .error (documentError (browser parseDate now) d (.ofRat false d.status) headers) := by
  have hok : (documentResponse d statusText headers).ok = false := by
    have hnot : ¬ d.status ≤ 299 := by omega
    rw [Response.ok, Bool.and_eq_false_iff]
    exact Or.inr (decide_eq_false hnot)
  have htext : (documentResponse d statusText headers).text = d.json := rfl
  have hbrowser : (browser parseDate now).parseJson = parse := rfl
  have hparse : (browser parseDate now).parseJson (documentResponse d statusText headers).text =
      some (documentJson d) := by
    rw [htext, hbrowser, parse_json d]
  have hproblem := problemSchema_documentJson d hhi
  rw [apiFetch, hparse, hok,
    errorFromResponse_of_parsedProblem ((Option.bind_some _ _).trans hproblem)]
  rfl

/-- Every problem of the catalog reaches the caller of the client as it was written:
with its status, code, title and detail, the fields at fault and the request id. -/
theorem problem_reaches_client (parseDate : Text → Option ℤ) (now : ℤ) (p : CatalogProblem)
    (path requestID statusText : Text) (headers : Text → Option Text) (timeoutMs : ℕ)
    (schema : Option (History.Json → Except (List Issue) History.Json)) :
    apiFetch (browser parseDate now) timeoutMs schema
        (.response (documentResponse ⟨p.1, path, requestID⟩ statusText headers)) =
      .error (documentError (browser parseDate now) ⟨p.1, path, requestID⟩
        (.ofRat false p.1.status) headers) := by
  obtain ⟨hlo, hhi⟩ := info_status p.1.code
  rw [← p.2.status_eq] at hlo hhi
  exact apiFetch_documentResponse parseDate now ⟨p.1, path, requestID⟩ hlo hhi statusText headers
    timeoutMs schema

end Calculator.Wire
