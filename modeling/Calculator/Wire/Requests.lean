import Calculator.Backend.Contract
import Calculator.Browser.Json
import Calculator.Ecma.Length
import Calculator.Store.Requests

/-! # Requests on the wire

The bytes that the browser sends for a request of the store, and what the server
decodes them to: the same request, but for a negative zero, and a missing operand
for one that is not finite.
-/

namespace Calculator.Wire

open Backend Binary Browser Decimal Ecma Json
open Engine (OperationName)
open Store (onWire operationText wireOperand)

/-- The body of a request. A missing operand is `undefined`, which is left out. -/
def requestJson (r : Engine.CalculateRequest) : History.Json := .object <|
  [("operation".toList, .string (operationText r.operation)), (['a'], .number r.a)] ++
    (r.b.map fun b => (['b'], .number b)).toList

def requestBody (r : Engine.CalculateRequest) : List UInt8 :=
  Go.encode (stringify (requestJson r))

def applicationJson : Text := "application/json".toList

example : requestBody ⟨.subtract, .ofRat false (1 / 2), some (.ofRat true 3)⟩ =
    Go.encode "\x7b\"operation\":\"subtract\",\"a\":0.5,\"b\":-3\x7d".toList := by decide +kernel

/-- The members of a body, as the server reads them. -/
def requestMembers (r : Engine.CalculateRequest) : List (Text × Value) :=
  [(Field.operation.name, .string (quotation.quote (operationText r.operation))),
    (Field.a.name, numberValue r.a)] ++ (r.b.map fun b => (Field.b.name, numberValue b)).toList

variable {r : Engine.CalculateRequest}

theorem members?_requestJson (r : Engine.CalculateRequest) :
    (toValue (requestJson r)).members? = some (requestMembers r) := by
  unfold requestMembers Field.name
  cases hb : r.b with
  | none => simp [requestJson, hb, toValue, toMembers, objectOf_members?]
  | some b => simp [requestJson, hb, toValue, toMembers, objectOf_members?]

theorem document_requestBody (r : Engine.CalculateRequest) :
    Document (Go.runes (requestBody r)) (toValue (requestJson r)) := by
  rw [requestBody, Go.runes_encode]
  exact document_text _

theorem number_string_eq {x : Float64} (hx : x.isFinite = true) :
    number (string x) = x.withoutNegativeZero := by
  by_cases hz : x = .negZero
  · subst hz
    exact number_zero_text
  · rw [number_string hx hz, Float64.withoutNegativeZero_of_ne hz]

theorem operandOf_numberValue (x : Float64) : operandOf (numberValue x) = wireOperand x := by
  unfold numberValue wireOperand
  by_cases hx : x.isFinite = true
  · rw [dif_pos hx, if_pos hx, operandOf, floatOf, literal_value, number_string_eq hx]
    simp [Option.filter, hx]
  · rw [dif_neg hx, if_neg hx]
    rfl

theorem fits_numberValue {f : Field} (hf : f ≠ .operation) (x : Float64) :
    Fits f (numberValue x) := by
  have hvalue : numberValue x = .null ∨ (operandOf (numberValue x)).isSome := by
    rw [operandOf_numberValue]
    unfold numberValue wireOperand
    by_cases hx : x.isFinite = true
    · simp [hx]
    · simp [hx]
  cases f with
  | operation => exact absurd rfl hf
  | a => exact hvalue
  | b => exact hvalue

theorem wellTyped_requestMembers (r : Engine.CalculateRequest) :
    ∀ m ∈ requestMembers r, WellTyped m := by
  intro m hm
  simp only [requestMembers, List.mem_append, List.mem_cons, List.not_mem_nil, or_false,
    Option.mem_toList, Option.map_eq_some_iff] at hm
  rcases hm with (rfl | rfl) | ⟨b, -, rfl⟩
  · exact ⟨.operation, fieldOf_name .operation, Or.inr rfl⟩
  · exact ⟨.a, fieldOf_name .a, fits_numberValue (by decide) _⟩
  · exact ⟨.b, fieldOf_name .b, fits_numberValue (by decide) _⟩

theorem operationOf_requestMembers (r : Engine.CalculateRequest) :
    operationOf (requestMembers r) = some (operationText r.operation) := by
  cases hb : r.b with
  | none => simp [operationOf, valuesOf, requestMembers, hb, fieldOf_name, stringOf]
  | some b => simp [operationOf, valuesOf, requestMembers, hb, fieldOf_name, stringOf]

theorem lastOf_a_requestMembers (r : Engine.CalculateRequest) :
    lastOf (requestMembers r) .a = some (numberValue r.a) := by
  cases hb : r.b with
  | none => simp [lastOf, valuesOf, requestMembers, hb, fieldOf_name]
  | some b => simp [lastOf, valuesOf, requestMembers, hb, fieldOf_name]

theorem lastOf_b_requestMembers (r : Engine.CalculateRequest) :
    lastOf (requestMembers r) .b = r.b.map numberValue := by
  cases hb : r.b with
  | none => simp [lastOf, valuesOf, requestMembers, hb, fieldOf_name]
  | some b => simp [lastOf, valuesOf, requestMembers, hb, fieldOf_name]

theorem requestOf_requestMembers (r : Engine.CalculateRequest) :
    requestOf (requestMembers r) = onWire r := by
  unfold requestOf onWire
  rw [operationOf_requestMembers, lastOf_a_requestMembers, lastOf_b_requestMembers]
  cases r.b with
  | none => simp [operandOf_numberValue]
  | some b => simp [operandOf_numberValue]

theorem length_encode_of_isAscii {t : Text} (h : IsAscii t) :
    (Go.encode t).length = t.length := by
  induction t with
  | nil => rfl
  | cons c t ih =>
    obtain ⟨hc, ht⟩ := isAscii_cons.mp h
    have hsize : c.utf8Size = 1 := by
      rw [Char.utf8Size_eq_one_iff]
      show c.toNat ≤ 127
      omega
    rw [Go.encode, List.flatMap_cons, List.length_append, String.length_utf8EncodeChar, hsize,
      ← Go.encode, ih ht, List.length_cons, Nat.add_comm]

theorem isAscii_numberValue (x : Float64) : IsAscii (numberValue x).text := by
  unfold numberValue
  split
  · exact Literal.isAscii _
  · exact (by decide : IsAscii nullText)

theorem isAscii_operationText (op : OperationName) : IsAscii (operationText op) := by
  cases op <;> decide

theorem isAscii_name (f : Field) : IsAscii f.name := by
  cases f <;> decide

theorem isAscii_requestMembers (r : Engine.CalculateRequest) :
    ∀ m ∈ requestMembers r, IsAscii m.1 ∧ IsAscii m.2.text := by
  intro m hm
  simp only [requestMembers, List.mem_append, List.mem_cons, List.not_mem_nil, or_false,
    Option.mem_toList, Option.map_eq_some_iff] at hm
  rcases hm with (rfl | rfl) | ⟨b, -, rfl⟩
  · refine ⟨isAscii_name .operation, ?_⟩
    have hquoted : IsAscii (quotedText (quotation.quote (operationText r.operation))) := by
      apply isAscii_quotedText
      rw [Quotation.unquote_quote]
      exact isAscii_operationText r.operation
    simp [Value.text, hquoted]
  · exact ⟨isAscii_name .a, isAscii_numberValue _⟩
  · exact ⟨isAscii_name .b, isAscii_numberValue _⟩

theorem length_numberValue (x : Float64) : (numberValue x).text.length ≤ 25 := by
  unfold numberValue
  split
  · next hx => exact length_string hx
  · decide

theorem length_stringify_requestJson (r : Engine.CalculateRequest) :
    (stringify (requestJson r)).length < 100 := by
  have hop : (quotedText (quotation.quote (operationText r.operation))).length ≤ 9 := by
    cases r.operation <;> decide +kernel
  have hname : (quotedText (quotation.quote "operation".toList)).length = 10 := by decide +kernel
  have hname' : (quotedText (quotation.quote ['a'])).length = 2 := by decide +kernel
  have hname'' : (quotedText (quotation.quote ['b'])).length = 2 := by decide +kernel
  have ha := length_numberValue r.a
  rw [stringify, requestJson, toValue, objectOf_text]
  cases r.b with
  | none =>
    simp only [toMembers, Option.map_none, Option.toList_none, List.append_nil, List.map_cons,
      List.map_nil, memberText, toValue, Value.text, List.intercalate_cons_cons,
      List.intercalate_singleton, List.length_cons, List.length_append, List.length_nil]
    omega
  | some b =>
    have hb := length_numberValue b
    simp only [toMembers, Option.map_some, Option.toList_some, List.cons_append, List.nil_append,
      List.map_cons, List.map_nil, memberText, toValue, Value.text, List.intercalate_cons_cons,
      List.intercalate_singleton, List.length_cons, List.length_append, List.length_nil]
    omega

theorem length_requestBody (r : Engine.CalculateRequest) : (requestBody r).length < 100 := by
  have hascii : IsAscii (stringify (requestJson r)) :=
    (document_text _).isAscii (members?_requestJson r) (isAscii_requestMembers r)
  rw [requestBody, length_encode_of_isAscii hascii]
  exact length_stringify_requestJson r

theorem decodeJSON_requestBody (isPrint : Char → Bool) (D : Reports)
    (r : Engine.CalculateRequest) :
    decodeJSON isPrint (bodyOf D (some applicationJson) (requestBody r)) = .ok (onWire r) :=
  decodeJSON_bodyOf_eq_ok_iff.mpr ⟨(length_requestBody r).le.trans (by decide), _, _,
    document_requestBody r, members?_requestJson r, wellTyped_requestMembers r,
    requestOf_requestMembers r⟩

/-- The body of every request is short, and the server decodes it to the request
with its operation and its operands. -/
theorem requestBody_decodes (isPrint : Char → Bool) (D : Reports) (r : Engine.CalculateRequest) :
    (requestBody r).length < 100 ∧
      decodeJSON isPrint (bodyOf D (some applicationJson) (requestBody r)) = .ok (onWire r) :=
  ⟨length_requestBody r, decodeJSON_requestBody isPrint D r⟩

theorem operand_numberValue {x : Float64} (hx : x.isFinite = true) : Operand (numberValue x) := by
  refine ⟨literal x hx, dif_pos hx, ?_⟩
  rw [literal_value, Float64.isFinite_withoutNegativeZero, hx]

theorem exact_requestMembers (r : Engine.CalculateRequest) : Exact (requestMembers r) := by
  constructor
  · intro m hm
    simp only [requestMembers, List.mem_append, List.mem_cons, List.not_mem_nil, or_false,
      Option.mem_toList, Option.map_eq_some_iff] at hm
    rcases hm with (rfl | rfl) | ⟨b, -, rfl⟩
    · exact mem_propertyNames_iff.mpr ⟨.operation, rfl⟩
    · exact mem_propertyNames_iff.mpr ⟨.a, rfl⟩
    · exact mem_propertyNames_iff.mpr ⟨.b, rfl⟩
  · have hall : (fields.map Field.name).Nodup := by decide
    refine hall.sublist ?_
    unfold requestMembers fields
    cases r.b with
    | none => exact (List.Sublist.refl _).cons_cons _ |>.cons_cons _ |>.trans (by simp)
    | some b => exact List.Sublist.refl _

theorem satisfiesSchema_requestMembers (hr : r.Sendable) : SatisfiesSchema (requestMembers r) := by
  refine satisfiesSchema_iff.mpr ⟨exact_requestMembers r, wellTyped_requestMembers r, ?_⟩
  rw [operationOf_requestMembers, lastOf_a_requestMembers, lastOf_b_requestMembers]
  constructor
  · refine ⟨_, rfl, ?_⟩
    cases r.operation <;> decide
  · exact ⟨_, rfl, operand_numberValue hr.a⟩
  · intro v hv
    obtain ⟨b, hb, rfl⟩ := Option.map_eq_some_iff.mp hv
    exact Or.inr (operand_numberValue (hr.b b hb))
  · rintro _ ⟨⟩
    by_cases hsqrt : r.operation = .sqrt
    · have hnone := hr.arity.mpr hsqrt
      rw [hsqrt, hnone]
      exact Or.inr ⟨⟨by decide, by simp⟩, fun h => absurd h.1 (by decide)⟩
    · obtain ⟨b, hb⟩ := Option.ne_none_iff_exists'.mp (mt hr.arity.mp hsqrt)
      have hbinary : operationText r.operation ∈ binaryNames ∧
          operationText r.operation ∉ unaryNames := by
        cases hop : r.operation with
        | sqrt => exact absurd hop hsqrt
        | _ => decide
      rw [hb]
      exact Or.inl ⟨⟨hbinary.1, _, rfl, operand_numberValue (hr.b b hb)⟩,
        fun h => hbinary.2 h.1⟩

theorem contract_requestBody (hr : r.Sendable) : Contract (requestBody r) :=
  contract_iff.mpr ⟨_, _, document_requestBody r, members?_requestJson r,
    satisfiesSchema_requestMembers hr⟩

variable {es : List Store.Event} {s : Store.Session}

/-- In a run with finite values in which no key spoils an entry in exponent form, every
request goes out as a body of the published schema, and the server evaluates it as the
operation that the store asked for. -/
theorem sent_bodies_meet_contract (P : Primitives) (isPrint : Char → Bool) (D : Reports)
    (hfin : ∀ e ∈ es, Store.FiniteEvent e)
    (h : Store.store.RunWhen Store.KeysFit (Store.fresh false) es s) :
    ∀ r ∈ Store.requests s.journal, Contract (requestBody r) ∧ ∃ req spec,
      decodeJSON isPrint (bodyOf D (some applicationJson) (requestBody r)) = .ok req ∧
      validate (newRegistry P) isPrint req = .ok spec ∧ spec.name = operationText r.operation := by
  intro r hr
  have hsend : r.Sendable := (Store.Finite.of_run hfin h).requests r hr
  have haccepted : ∃ spec, validate (newRegistry P) isPrint (onWire r) = .ok spec :=
    Store.validate_onWire hsend
  obtain ⟨spec, hspec⟩ := haccepted
  obtain ⟨-, hl, -⟩ := validate_ok_iff.mp hspec
  exact ⟨contract_requestBody hsend, onWire r, spec, decodeJSON_requestBody isPrint D r, hspec,
    name_of_lookup hl⟩

/-- A decoder that has nothing to say about what it refuses. -/
def terse : Reports := ⟨fun _ => .other, fun _ => ⟨.ok (), by simp⟩⟩

theorem sent_bodies_meet_contract_editedRecall :
    let r : Engine.CalculateRequest := ⟨.sqrt, .ofRat false (1 / 10), none⟩
    Contract (requestBody r) ∧ ∃ req spec,
      decodeJSON (fun _ => true) (bodyOf terse (some applicationJson) (requestBody r)) = .ok req ∧
      validate (newRegistry Store.noPrimitives) (fun _ => true) req = .ok spec ∧
      spec.name = operationText r.operation :=
  sent_bodies_meet_contract Store.noPrimitives (fun _ => true) terse Store.editedRecall_finite
    (Runs.Machine.runWhen_replayWhen_get Store.editedRecall_isSome) _ (by decide +kernel)

end Calculator.Wire
