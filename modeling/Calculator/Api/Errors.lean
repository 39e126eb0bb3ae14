import Calculator.History.Schema

/-! # Errors of the server

Every request to the server ends in a value or in an error with a stable code.
The code of a failed response is that of its body, if the body meets the schema
of an error document; its optional members may be missing, but not of another
type.
-/

namespace Calculator.Api

open Binary Decimal Ecma History

structure FieldError where
  field : Text
  message : Text
  deriving DecidableEq

structure ApiError where
  /-- The HTTP status, or 0 when the request never completed. -/
  status : Float64
  code : Text
  title : Text
  detail : Text
  requestId : Option Text
  errors : List FieldError
  retryAfterSeconds : Option ℕ
  deriving DecidableEq

structure Response where
  status : ℕ
  statusText : Text
  /-- Headers are looked up without regard to case. -/
  headers : Text → Option Text
  text : Text

def Response.ok (r : Response) : Bool := 200 ≤ r.status && r.status ≤ 299

/-- How a request that was sent ended. -/
inductive Fetched where
  | response (r : Response)
  | failed (timedOut : Bool)

/-- What is taken as given of the browser. -/
structure Platform where
  parseJson : Text → Option Json
  /-- The milliseconds of a date. -/
  parseDate : Text → Option ℤ
  now : ℤ

structure Issue where
  path : List Text
  message : Text

section Schemas

variable {α : Type}

def string : Schema Text
  | .string s => some s
  | _ => none

def optionalProperty (key : Text) (schema : Schema α) : Schema (Option α)
  | .object members =>
    match members.lookup key with
    | none => some none
    | some j => (schema j).map some
  | _ => none

def fieldErrorSchema : Schema FieldError := fun j => do
  let field ← property "field".toList string j
  let message ← property "message".toList string j
  return ⟨field, message⟩

structure ParsedProblem where
  type : Option Text
  title : Option Text
  status : Option FiniteNumber
  detail : Option Text
  code : NonemptyText
  «instance» : Option Text
  requestId : Option Text
  errors : Option (List FieldError)

/-- Only the code is required, and unknown members are dropped. -/
def problemSchema : Schema ParsedProblem := fun j => do
  let type ← optionalProperty "type".toList string j
  let title ← optionalProperty "title".toList string j
  let status ← optionalProperty "status".toList finiteNumber j
  let detail ← optionalProperty "detail".toList string j
  let code ← property "code".toList stringMin1 j
  let path ← optionalProperty "instance".toList string j
  let requestId ← optionalProperty "requestId".toList string j
  let errors ← optionalProperty "errors".toList (array fieldErrorSchema) j
  return ⟨type, title, status, detail, code, path, requestId, errors⟩

end Schemas

section Responses

def units (c : Char) : ℕ := if c.toNat < 0x10000 then 1 else 2

/-- The first code units of a text; half a surrogate pair has no text of its own. -/
def sliceUnits : ℕ → Text → Text
  | _, [] => []
  | 0, _ => []
  | n + 1, c :: t =>
    if units c = 1 then c :: sliceUnits n t
    else if n = 0 then ['\uFFFD']
    else c :: sliceUnits (n - 1) t

def maxDetailLength : ℕ := 200

def describeBody (text : Text) (status : ℕ) : Text :=
  let trimmed := trim text
  if trimmed = [] then
    "the server returned ".toList ++ Nat.toDigits 10 status ++ " with an empty body".toList
  else
    let excerpt :=
      if maxDetailLength < (trimmed.map units).sum then sliceUnits maxDetailLength trimmed ++ ['…']
      else trimmed
    "the server returned ".toList ++ Nat.toDigits 10 status ++ ':' :: ' ' :: excerpt

def describeIssues (issues : List Issue) : Text :=
  let summary := [';', ' '].intercalate ((issues.take 3).map fun issue =>
    (if issue.path = [] then "(root)".toList else ['.'].intercalate issue.path) ++
      ':' :: ' ' :: issue.message)
  "the response does not match the expected shape (".toList ++ summary ++ [')']

def ceilSeconds : Float64 → ℕ
  | .finite false i => ⌈Float64.magnitude i⌉₊
  | _ => 0

variable (P : Platform)

def parseRetryAfter : Option Text → Option ℕ
  | none => none
  | some value =>
    if trim value = [] then none
    else if (number value).isFinite then some (ceilSeconds (number value))
    else (P.parseDate value).map fun date =>
      let seconds : ℚ := (date - P.now) / 1000
      ceilSeconds (.ofRat (decide (seconds < 0)) |seconds|)

def requestIdOf (response : Response) : Option Text := response.headers "X-Request-ID".toList

def unexpected : Text := "UNEXPECTED".toList

def unexpectedTitle : Text := "Unexpected response".toList

def statusNumber (response : Response) : Float64 := .ofRat false response.status

/-- The error of a response with another status than a successful one. -/
def errorFromResponse (response : Response) (payload : Option Json) : ApiError :=
  let requestId := requestIdOf response
  let retryAfterSeconds := parseRetryAfter P (response.headers "Retry-After".toList)
  match payload.bind problemSchema with
  | some problem => {
      status := (problem.status.map Subtype.val).getD (statusNumber response)
      code := problem.code
      title := problem.title.getD
        (if response.statusText = [] then problem.code else response.statusText)
      detail := problem.detail.getD []
      requestId := problem.requestId.or requestId
      errors := problem.errors.getD []
      retryAfterSeconds := retryAfterSeconds }
  | none => {
      status := statusNumber response
      code := unexpected
      title := unexpectedTitle
      detail := describeBody response.text response.status
      requestId := requestId
      errors := []
      retryAfterSeconds := retryAfterSeconds }

/-- What becomes of a request: the body of the response, or an error. -/
def apiFetch (timeoutMs : ℕ) (schema : Option (Json → Except (List Issue) Json)) :
    Fetched → Except ApiError Json
  | .failed true => .error {
      status := .zero
      code := "TIMEOUT".toList
      title := "Request timed out".toList
      detail := "the server did not respond within ".toList ++ Nat.toDigits 10 timeoutMs ++
        " ms".toList
      requestId := none
      errors := []
      retryAfterSeconds := none }
  | .failed false => .error {
      status := .zero
      code := "NETWORK".toList
      title := "Network error".toList
      detail := "the request could not be sent".toList
      requestId := none
      errors := []
      retryAfterSeconds := none }
  | .response response =>
    let payload := P.parseJson response.text
    if !response.ok then .error (errorFromResponse P response payload)
    else match payload with
      | none => .error {
          status := statusNumber response
          code := unexpected
          title := unexpectedTitle
          detail := describeBody response.text response.status
          requestId := requestIdOf response
          errors := []
          retryAfterSeconds := none }
      | some value =>
        match schema with
        | none => .ok value
        | some parse =>
          match parse value with
          | .ok data => .ok data
          | .error issues => .error {
              status := statusNumber response
              code := "INVALID_RESPONSE".toList
              title := unexpectedTitle
              detail := describeIssues issues
              requestId := requestIdOf response
              errors := []
              retryAfterSeconds := none }

end Responses

section Bodies

variable {α : Type} {members : List (Text × Json)} {key : Text}

/-- A member of an object is missing, or has a property. -/
def MissingOr (p : Json → Prop) (members : List (Text × Json)) (key : Text) : Prop :=
  ∀ j ∈ members.lookup key, p j

def IsString (j : Json) : Prop := ∃ s, j = .string s

def IsNumber (j : Json) : Prop := ∃ x, j = .number x ∧ x.isFinite = true

/-- A list of objects with a field and a message each. -/
def AreFieldErrors (j : Json) : Prop :=
  ∃ items, j = .array items ∧ ∀ item ∈ items, ∃ members, item = .object members ∧
    (∃ s, members.lookup "field".toList = some (.string s)) ∧
    ∃ s, members.lookup "message".toList = some (.string s)

/-- Every optional member of an error document is missing or of its own type. -/
structure OptionalsFit (members : List (Text × Json)) : Prop where
  type : MissingOr IsString members "type".toList
  title : MissingOr IsString members "title".toList
  status : MissingOr IsNumber members "status".toList
  detail : MissingOr IsString members "detail".toList
  «instance» : MissingOr IsString members "instance".toList
  requestId : MissingOr IsString members "requestId".toList
  errors : MissingOr AreFieldErrors members "errors".toList

def stringMember (key : Text) : Option Json → Option Text
  | some (.object members) => (members.lookup key).bind string
  | _ => none

def ownCode (payload : Option Json) : Option Text :=
  (stringMember "code".toList payload).filter (· ≠ [])

theorem optionalProperty_isSome_iff {schema : Schema α} :
    (optionalProperty key schema (.object members)).isSome ↔
      MissingOr (fun j => (schema j).isSome) members key := by
  unfold optionalProperty MissingOr
  cases h : members.lookup key <;> simp [h]

theorem string_isSome_iff {j : Json} : (string j).isSome ↔ IsString j := by
  unfold IsString
  cases j <;> simp [string]

theorem finiteNumber_isSome_iff {j : Json} : (finiteNumber j).isSome ↔ IsNumber j := by
  unfold IsNumber
  cases j with
  | number x => by_cases hx : x.isFinite = true <;> simp [finiteNumber, hx]
  | null | bool _ | string _ | array _ | object _ => simp [finiteNumber]

theorem mapM_isSome_iff {f : Json → Option α} {items : List Json} :
    (items.mapM f).isSome ↔ ∀ item ∈ items, (f item).isSome := by
  induction items with
  | nil => simp
  | cons item items ih =>
    rw [List.forall_mem_cons, ← ih, List.mapM_cons]
    cases f item with
    | none => simp
    | some a => cases items.mapM f <;> simp

theorem property_string_isSome_iff {j : Json} : (property key string j).isSome ↔
    ∃ members, j = .object members ∧ ∃ s, members.lookup key = some (.string s) := by
  cases j with
  | object members =>
    have hstring : ((members.lookup key).bind string).isSome ↔
        ∃ s, members.lookup key = some (.string s) := by
      cases members.lookup key with
      | none => simp
      | some j => simp [string_isSome_iff, IsString]
    simp [property, hstring]
  | null | bool _ | number _ | string _ | array _ => simp [property]

theorem fieldErrorSchema_isSome_iff {j : Json} : (fieldErrorSchema j).isSome ↔
    (property "field".toList string j).isSome ∧ (property "message".toList string j).isSome := by
  unfold fieldErrorSchema
  cases property "field".toList string j with
  | none => simp
  | some field => cases property "message".toList string j <;> simp

theorem fieldErrors_isSome_iff {j : Json} :
    (array fieldErrorSchema j).isSome ↔ AreFieldErrors j := by
  unfold AreFieldErrors
  cases j with
  | array items =>
    have hitem : ∀ item, (fieldErrorSchema item).isSome ↔ ∃ members, item = .object members ∧
        (∃ s, members.lookup "field".toList = some (.string s)) ∧
        ∃ s, members.lookup "message".toList = some (.string s) := by
      intro item
      rw [fieldErrorSchema_isSome_iff, property_string_isSome_iff, property_string_isSome_iff]
      constructor
      · rintro ⟨⟨members, rfl, hfield⟩, _, ⟨⟩, hmessage⟩
        exact ⟨members, rfl, hfield, hmessage⟩
      · rintro ⟨members, rfl, hfield, hmessage⟩
        exact ⟨⟨members, rfl, hfield⟩, members, rfl, hmessage⟩
    simp only [array, mapM_isSome_iff, hitem, Json.array.injEq, exists_eq_left']
  | null | bool _ | number _ | string _ | object _ => simp [array]

theorem optionalsFit_iff : OptionalsFit members ↔
    (optionalProperty "type".toList string (.object members)).isSome ∧
    (optionalProperty "title".toList string (.object members)).isSome ∧
    (optionalProperty "status".toList finiteNumber (.object members)).isSome ∧
    (optionalProperty "detail".toList string (.object members)).isSome ∧
    (optionalProperty "instance".toList string (.object members)).isSome ∧
    (optionalProperty "requestId".toList string (.object members)).isSome ∧
    (optionalProperty "errors".toList (array fieldErrorSchema) (.object members)).isSome := by
  simp only [optionalProperty_isSome_iff, string_isSome_iff, finiteNumber_isSome_iff,
    fieldErrors_isSome_iff]
  constructor
  · rintro ⟨h₁, h₂, h₃, h₄, h₅, h₆, h₇⟩
    exact ⟨h₁, h₂, h₃, h₄, h₅, h₆, h₇⟩
  · rintro ⟨h₁, h₂, h₃, h₄, h₅, h₆, h₇⟩
    exact ⟨h₁, h₂, h₃, h₄, h₅, h₆, h₇⟩

theorem stringMember_object : stringMember key (some (.object members)) =
    (members.lookup key).bind string := rfl

theorem property_stringMin1_eq_some_iff {text : NonemptyText} :
    property key stringMin1 (.object members) = some text ↔
      (stringMember key (some (.object members))).filter (· ≠ []) = some text.val := by
  obtain ⟨text, htext⟩ := text
  rw [stringMember_object, property]
  cases members.lookup key with
  | none => simp
  | some j =>
    cases j with
    | string s =>
      by_cases hs : s = []
      · have hne : [] ≠ text := Ne.symm htext
        simp [stringMin1, string, hs, hne]
      · simp [stringMin1, string, hs, htext]
    | null | bool _ | number _ | array _ | object _ => simp [stringMin1, string]

theorem eq_stringMember_of_optionalProperty {o : Option Text}
    (h : optionalProperty key string (.object members) = some o) :
    o = stringMember key (some (.object members)) := by
  rw [stringMember_object]
  simp only [optionalProperty] at h
  cases hl : members.lookup key with
  | none =>
    rw [hl] at h
    cases h
    rfl
  | some j =>
    rw [hl] at h
    obtain ⟨s, hs, rfl⟩ := Option.map_eq_some_iff.mp h
    exact hs.symm

/-- A body is an error document only if it is an object, has a code of its own and
its optional members fit. -/
theorem of_problemSchema {payload : Option Json} {p : ParsedProblem}
    (h : payload.bind problemSchema = some p) :
    ∃ members, payload = some (.object members) ∧ OptionalsFit members ∧
      ownCode payload = some p.code.val ∧
      stringMember "requestId".toList payload = p.requestId := by
  obtain ⟨j, rfl, hj⟩ := Option.bind_eq_some_iff.mp h
  cases j with
  | object members =>
    simp only [problemSchema, Option.bind_eq_bind, Option.bind_eq_some_iff] at hj
    obtain ⟨type, h₁, title, h₂, status, h₃, detail, h₄, code, hcode, path, h₅, requestId, h₆,
      errors, h₇, hp⟩ := hj
    cases hp
    have hfit : OptionalsFit members := optionalsFit_iff.mpr ⟨Option.isSome_of_eq_some h₁,
      Option.isSome_of_eq_some h₂, Option.isSome_of_eq_some h₃, Option.isSome_of_eq_some h₄,
      Option.isSome_of_eq_some h₅, Option.isSome_of_eq_some h₆, Option.isSome_of_eq_some h₇⟩
    exact ⟨members, rfl, hfit, property_stringMin1_eq_some_iff.mp hcode,
      (eq_stringMember_of_optionalProperty h₆).symm⟩
  | null | bool _ | number _ | string _ | array _ => cases hj

theorem problemSchema_isSome {code : Text} (hcode : ownCode (some (.object members)) = some code)
    (hfit : OptionalsFit members) : ∃ p, problemSchema (.object members) = some p := by
  have hne : code ≠ [] := by
    have := (Option.filter_eq_some_iff.mp hcode).2
    simpa using this
  obtain ⟨h₁, h₂, h₃, h₄, h₅, h₆, h₇⟩ := optionalsFit_iff.mp hfit
  obtain ⟨type, h₁⟩ := Option.isSome_iff_exists.mp h₁
  obtain ⟨title, h₂⟩ := Option.isSome_iff_exists.mp h₂
  obtain ⟨status, h₃⟩ := Option.isSome_iff_exists.mp h₃
  obtain ⟨detail, h₄⟩ := Option.isSome_iff_exists.mp h₄
  obtain ⟨path, h₅⟩ := Option.isSome_iff_exists.mp h₅
  obtain ⟨requestId, h₆⟩ := Option.isSome_iff_exists.mp h₆
  obtain ⟨errors, h₇⟩ := Option.isSome_iff_exists.mp h₇
  have hc : property "code".toList stringMin1 (.object members) = some ⟨code, hne⟩ :=
    property_stringMin1_eq_some_iff.mpr hcode
  exact ⟨⟨type, title, status, detail, ⟨code, hne⟩, path, requestId, errors⟩, by
    simp only [problemSchema, h₁, h₂, h₃, h₄, h₅, h₆, h₇, hc, Option.bind_eq_bind, Option.bind_some,
      Option.pure_def]⟩

end Bodies

section Theorems

variable {P : Platform} {response : Response}

/-- The code and the request id are those of the body, where it has them. -/
def KeepsBody (P : Platform) (response : Response) (error : ApiError) : Prop :=
  error.code = (ownCode (P.parseJson response.text)).getD unexpected ∧
  error.requestId =
    (stringMember "requestId".toList (P.parseJson response.text)).or (requestIdOf response)

/-- The body is an error document, or a body without a code from which nothing is
lost. -/
def KeepableBody (P : Platform) (response : Response) : Prop :=
  (ownCode (P.parseJson response.text) ≠ none ∧
    ∃ members, P.parseJson response.text = some (.object members) ∧ OptionalsFit members) ∨
  ((∀ code ∈ ownCode (P.parseJson response.text), code = unexpected) ∧
    ∀ id ∈ stringMember "requestId".toList (P.parseJson response.text),
      requestIdOf response = some id)

/-- A failed response ends in an error that keeps the code and the request id of
the body exactly if the body is of that kind. -/
theorem server_error_keeps_code_iff (P : Platform) (timeoutMs : ℕ)
    (schema : Option (Json → Except (List Issue) Json)) (hok : response.ok = false) :
    ∃ error, apiFetch P timeoutMs schema (.response response) = .error error ∧
      (KeepsBody P response error ↔ KeepableBody P response) := by
  refine ⟨errorFromResponse P response (P.parseJson response.text), by simp [apiFetch, hok], ?_⟩
  unfold errorFromResponse KeepsBody KeepableBody
  generalize P.parseJson response.text = payload
  cases hp : payload.bind problemSchema with
  | some p =>
    obtain ⟨members, rfl, hfit, hcode, hid⟩ := of_problemSchema hp
    rw [hcode, hid]
    exact iff_of_true ⟨rfl, rfl⟩ (Or.inl ⟨by simp, members, rfl, hfit⟩)
  | none =>
    dsimp only
    have hnot : ¬ (ownCode payload ≠ none ∧
        ∃ members, payload = some (.object members) ∧ OptionalsFit members) := by
      rintro ⟨hne, members, rfl, hfit⟩
      obtain ⟨code, hcode⟩ := Option.ne_none_iff_exists'.mp hne
      obtain ⟨p, hsome⟩ := problemSchema_isSome hcode hfit
      rw [Option.bind_some, hsome] at hp
      cases hp
    rw [or_iff_right hnot]
    apply and_congr
    · cases ownCode payload with
      | none => simp
      | some code => simp [eq_comm]
    · cases stringMember "requestId".toList payload with
      | none => simp
      | some id => simp

def refusal (text : Text) : Response where
  status := 429
  statusText := "Too Many Requests".toList
  headers _ := none
  text := text

/-- A platform on which one text is a JSON value. -/
def readsOnly (text : Text) (j : Json) : Platform where
  parseJson t := if t = text then some j else none
  parseDate _ := none
  now := 0

def titled : Text := "\x7b\"code\":\"RATE_LIMITED\",\"title\":\"Slow\"\x7d".toList

def untitled : Text := "\x7b\"code\":\"RATE_LIMITED\",\"title\":null\x7d".toList

def rateLimited (title : Json) : Json :=
  .object [("code".toList, .string "RATE_LIMITED".toList), ("title".toList, title)]

theorem server_error_keeps_code_iff_titled :
    let P := readsOnly titled (rateLimited (.string "Slow".toList))
    ∃ error, apiFetch P 10000 none (.response (refusal titled)) = .error error ∧
      (KeepsBody P (refusal titled) error ↔ KeepableBody P (refusal titled)) :=
  server_error_keeps_code_iff _ 10000 none rfl

/-- A title that is `null` hides the code. -/
theorem server_error_loses_code :
    ¬ ∀ (P : Platform) (response : Response), response.ok = false →
      ∃ error, apiFetch P 10000 none (.response response) = .error error ∧
        KeepsBody P response error := by
  intro h
  obtain ⟨error, herror, hcode, -⟩ :=
    h (readsOnly untitled (rateLimited .null)) (refusal untitled) rfl
  cases herror
  exact absurd hcode (by decide +kernel)

end Theorems

end Calculator.Api
