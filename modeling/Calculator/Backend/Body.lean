import Calculator.Backend.Decode
import Calculator.Go.Utf8
import Calculator.Json.Completeness

/-! # Request bodies

The bytes of a body, as the JSON decoder reads them into a request: names match
fields without regard to case, every member is stored over the one before it,
and a null takes an operand back. A body decodes exactly if it is an object
whose members all have a field and a value of its type.
-/

namespace Calculator.Backend

open Binary Decimal Json
open Go (runes)

inductive Field where
  | operation | a | b
  deriving DecidableEq

def Field.name : Field → Text
  | .operation => "operation".toList
  | .a => ['a']
  | .b => ['b']

def fields : List Field := [.operation, .a, .b]

/-- The least character that differs in case only. Two letters outside of ASCII
fold to letters of ASCII. -/
def foldRune (c : Char) : Char :=
  if c = Char.ofNat 0x17F then 'S'
  else if c = Char.ofNat 0x212A then 'K'
  else c.toUpper

def foldName (name : Text) : Text := name.map foldRune

/-- The field of a name, which is its own or one that folds to the same. -/
def fieldOf (name : Text) : Option Field :=
  (fields.find? (·.name = name)).or (fields.find? fun f => foldName f.name = foldName name)

/-- The number that a literal is rounded to, unless it is out of range. -/
def floatOf (n : Literal) : Option Float64 :=
  (some (Float64.ofRat n.negative n.magnitude)).filter Float64.isFinite

/-- Stores a value in a field, if it has the type of the field. -/
def setField (req : CalculateRequest) : Field → Value → Option CalculateRequest
  | .operation, .string ps => some { req with operation := unquote ps }
  | .operation, .null => some req
  | .a, .number n => (floatOf n).map fun x => { req with a := some x }
  | .a, .null => some { req with a := none }
  | .b, .number n => (floatOf n).map fun x => { req with b := some x }
  | .b, .null => some { req with b := none }
  | _, _ => none

def CalculateRequest.zero : CalculateRequest := ⟨[], none, none⟩

/-- Stores a member in its field; a name without one is not allowed. -/
def decodeMember (req : CalculateRequest) (m : Text × Value) : Option CalculateRequest :=
  (fieldOf m.1).bind fun f => setField req f m.2

def decodeObject (ms : List (Text × Value)) : Option CalculateRequest :=
  ms.foldlM decodeMember .zero

/-- A request, or `none` for a null, from the first value of a body. -/
def decodeValue (v : Value) : Option (Option CalculateRequest) :=
  match v with
  | .null => some none
  | v => (v.members?.bind decodeObject).map some

def maxBodyBytes : ℕ := 4096

/-- What the decoder reports of the bytes that it does not decode, and of those
that go on after the first value: it never takes these for the end of the body. -/
structure Reports where
  first : List UInt8 → DecodeError
  trailing : List UInt8 → { r : Except DecodeError Unit // r ≠ .error .eof }

/-- What the decoder makes of the bytes of a body, of which it reads as many as
the limit allows. -/
def bodyOf (D : Reports) (mediaType : Option Text) (bytes : List UInt8) : Body where
  mediaType := mediaType
  first :=
    match (firstValue (runes (bytes.take maxBodyBytes))).bind fun v => decodeValue v.1 with
    | some req => .ok req
    | none => .error (D.first bytes)
  second :=
    match firstValue (runes (bytes.take maxBodyBytes)) with
    | some (_, r) =>
      if r.all isSpace then
        if bytes.length ≤ maxBodyBytes then .error .eof else .error (.maxBytes maxBodyBytes)
      else (D.trailing bytes).1
    | none => (D.trailing bytes).1

def stringOf : Value → Option Text
  | .string ps => some (unquote ps)
  | _ => none

def operandOf : Value → Option Float64
  | .number n => floatOf n
  | _ => none

/-- A null, or a value of the type of the field. -/
def Fits : Field → Value → Prop
  | .operation, v => v = .null ∨ (stringOf v).isSome
  | _, v => v = .null ∨ (operandOf v).isSome

def WellTyped (m : Text × Value) : Prop := ∃ f, fieldOf m.1 = some f ∧ Fits f m.2

def valuesOf (ms : List (Text × Value)) (f : Field) : List Value :=
  ms.filterMap fun m => if fieldOf m.1 = some f then some m.2 else none

/-- The last string counts, since a null leaves the operation as it is. -/
def operationOf (ms : List (Text × Value)) : Option Text :=
  ((valuesOf ms .operation).filterMap stringOf).getLast?

def lastOf (ms : List (Text × Value)) (f : Field) : Option Value := (valuesOf ms f).getLast?

/-- The request that an object of well-typed members decodes to. -/
def requestOf (ms : List (Text × Value)) : CalculateRequest where
  operation := (operationOf ms).getD []
  a := (lastOf ms .a).bind operandOf
  b := (lastOf ms .b).bind operandOf

section Decoding

variable {req req' : CalculateRequest} {f : Field} {v : Value} {m : Text × Value}
  {ms : List (Text × Value)}

theorem fieldOf_name (f : Field) : fieldOf f.name = some f := by
  cases f <;> decide

/-- What storing a value changes. -/
def store (req : CalculateRequest) (v : Value) : Field → CalculateRequest
  | .operation => { req with operation := (stringOf v).getD req.operation }
  | .a => { req with a := operandOf v }
  | .b => { req with b := operandOf v }

theorem setField_eq_some_iff : setField req f v = some req' ↔ Fits f v ∧ store req v f = req' := by
  cases f with
  | operation => cases v <;> simp [setField, store, Fits, stringOf]
  | a =>
    cases v with
    | number n => cases h : floatOf n <;> simp [setField, store, Fits, operandOf, h]
    | _ => simp [setField, store, Fits, operandOf]
  | b =>
    cases v with
    | number n => cases h : floatOf n <;> simp [setField, store, Fits, operandOf, h]
    | _ => simp [setField, store, Fits, operandOf]

theorem valuesOf_concat (f : Field) : valuesOf (ms ++ [m]) f =
    if fieldOf m.1 = some f then valuesOf ms f ++ [m.2] else valuesOf ms f := by
  rw [valuesOf, List.filterMap_append]
  by_cases h : fieldOf m.1 = some f <;> simp [valuesOf, h]

theorem requestOf_concat (hf : fieldOf m.1 = some f) :
    requestOf (ms ++ [m]) = store (requestOf ms) m.2 f := by
  cases f with
  | operation =>
    simp [requestOf, operationOf, lastOf, store, valuesOf_concat, hf]
  | a => simp [requestOf, operationOf, lastOf, store, valuesOf_concat, hf]
  | b => simp [requestOf, operationOf, lastOf, store, valuesOf_concat, hf]

theorem decodeObject_eq_some_iff :
    decodeObject ms = some req ↔ (∀ m ∈ ms, WellTyped m) ∧ requestOf ms = req := by
  -- on the members from the first to the last, as they are stored
  induction ms using List.reverseRecOn generalizing req with
  | nil => simp [decodeObject, requestOf, operationOf, lastOf, valuesOf, CalculateRequest.zero]
  | append_singleton ms m ih =>
    have hstep : decodeObject (ms ++ [m]) = some req ↔
        ∃ req', decodeObject ms = some req' ∧ ∃ f, fieldOf m.1 = some f ∧
          setField req' f m.2 = some req := by
      simp [decodeObject, decodeMember, List.foldlM_append, Option.bind_eq_some_iff]
    rw [hstep, List.forall_mem_append, List.forall_mem_singleton]
    constructor
    · rintro ⟨req', hreq', f, hf, hset⟩
      obtain ⟨htyped, rfl⟩ := ih.mp hreq'
      obtain ⟨hfits, rfl⟩ := setField_eq_some_iff.mp hset
      exact ⟨⟨htyped, f, hf, hfits⟩, requestOf_concat hf⟩
    · rintro ⟨⟨htyped, f, hf, hfits⟩, rfl⟩
      refine ⟨requestOf ms, ih.mpr ⟨htyped, rfl⟩, f, hf, ?_⟩
      exact setField_eq_some_iff.mpr ⟨hfits, (requestOf_concat hf).symm⟩

variable {isPrint : Char → Bool} {D : Reports} {bytes : List UInt8}

theorem decodeValue_eq_some_iff :
    decodeValue v = some (some req) ↔ ∃ ms, v.members? = some ms ∧ decodeObject ms = some req := by
  cases v <;> simp [decodeValue, Value.members?]

theorem decodeJSON_eq_ok_iff {body : Body} : decodeJSON isPrint body = .ok req ↔
    body.mediaType = some "application/json".toList ∧ body.first = .ok (some req) ∧
      body.second = .error .eof := by
  unfold decodeJSON
  by_cases hmedia : body.mediaType = some "application/json".toList
  · rw [if_neg (not_not_intro hmedia)]
    constructor
    · intro h
      split at h
      · cases h
      · cases h
      · next v hfirst =>
        split at h
        · next hsecond =>
          cases h
          exact ⟨hmedia, hfirst, hsecond⟩
        · cases h
        · cases h
    · rintro ⟨-, hfirst, hsecond⟩
      rw [hfirst, hsecond]
  · rw [if_pos hmedia]
    exact iff_of_false nofun fun h => hmedia h.1

/-- The bodies that decode: objects on their own, of well-typed members. -/
theorem decodeJSON_bodyOf_eq_ok_iff :
    decodeJSON isPrint (bodyOf D (some "application/json".toList) bytes) = .ok req ↔
      bytes.length ≤ maxBodyBytes ∧ ∃ v ms, Document (runes bytes) v ∧ v.members? = some ms ∧
        (∀ m ∈ ms, WellTyped m) ∧ requestOf ms = req := by
  rw [decodeJSON_eq_ok_iff]
  constructor
  · rintro ⟨-, hfirst, hsecond⟩
    simp only [bodyOf] at hfirst hsecond
    split at hfirst
    · next o ho =>
      cases hfirst
      obtain ⟨⟨v, r⟩, hread, hv⟩ := Option.bind_eq_some_iff.mp ho
      obtain ⟨ms, hms, hobject⟩ := decodeValue_eq_some_iff.mp hv
      simp only [hread] at hsecond
      split at hsecond
      · next hspaces =>
        split at hsecond
        · next hle =>
          rw [List.take_of_length_le hle] at hread
          refine ⟨hle, v, ms, document_iff.mpr ⟨r, hread, ?_⟩, hms,
            decodeObject_eq_some_iff.mp hobject⟩
          exact List.all_eq_true.mp hspaces
        · cases hsecond
      · exact absurd hsecond (D.trailing bytes).2
    · cases hfirst
  · rintro ⟨hle, v, ms, hdoc, hms, hobject⟩
    obtain ⟨r, hread, hspaces⟩ := document_iff.mp hdoc
    have hv : decodeValue v = some (some req) :=
      decodeValue_eq_some_iff.mpr ⟨ms, hms, decodeObject_eq_some_iff.mpr hobject⟩
    refine ⟨rfl, ?_, ?_⟩
    · simp [bodyOf, List.take_of_length_le hle, hread, hv]
    · have hall : r.all isSpace = true := List.all_eq_true.mpr hspaces
      simp [bodyOf, List.take_of_length_le hle, hread, hall, hle]

end Decoding

end Calculator.Backend
