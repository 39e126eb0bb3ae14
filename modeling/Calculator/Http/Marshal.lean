import Calculator.Backend.Handler
import Calculator.Ecma.Literals
import Calculator.Http.Document
import Calculator.Json.Writing

/-! # Marshalled bodies

The bodies of successful answers as they are written, and what the texts of the
server are as JSON: an object with a member for each field, whose strings are
quoted so that HTML is safe from them.
-/

namespace Calculator.Http

open Backend Binary Decimal Ecma Json

/-- Numbers as in ECMAScript, but for the sign of a negative zero. -/
def jsonFloat (x : Float64) : Text := if x = .negZero then ['-', '0'] else string x

/-- The second operand is left out when it is missing. -/
def calculateResponseJson (body : CalculateResponse) : Text := jsonObject <| [
  jsonMember "operation".toList (jsonString body.operation),
  jsonMember ['a'] (jsonFloat body.a)] ++
  (body.b.map fun b => jsonMember ['b'] (jsonFloat b)).toList ++
  [jsonMember "result".toList (jsonFloat body.result)]

def operationInfoJson (s : Spec) : Text := jsonObject [
  jsonMember "name".toList (jsonString s.name),
  jsonMember "symbol".toList (jsonString s.symbol),
  jsonMember "arity".toList (Nat.toDigits 10 s.arity)]

def operationsResponseJson (registry : List Spec) : Text := jsonObject [
  jsonMember "operations".toList ('[' :: (join [','] (registry.map operationInfoJson) ++ [']']))]

example : calculateResponseJson ⟨"add".toList, .negZero, some .zero, .ofRat false (3 / 2)⟩ =
    "\x7b\"operation\":\"add\",\"a\":-0,\"b\":0,\"result\":1.5\x7d".toList := by decide +kernel

/-- The characters that are escaped for the sake of HTML and of JavaScript. -/
def isHtml (c : Char) : Bool := ['<', '>', '&', '\u2028', '\u2029'].contains c

theorem toNat_lt_of_isHtml (c : Char) (h : isHtml c = true) : c.toNat < 0xD800 := by
  simp only [isHtml, List.contains_cons, List.contains_nil, Bool.or_eq_true, beq_iff_eq,
    Bool.or_false] at h
  rcases h with rfl | rfl | rfl | rfl | rfl <;> decide

def quotation : Quotation := escaping isHtml toNat_lt_of_isHtml

theorem hexDigits_four (n : ℕ) : hexDigits 4 n =
    [Nat.digitChar (n / 4096 % 16), Nat.digitChar (n / 256 % 16), Nat.digitChar (n / 16 % 16),
      Nat.digitChar (n % 16)] := by
  simp [hexDigits, List.range_succ]

theorem unicodeEscape_text (n : ℕ) : (unicodeEscape n).text = '\\' :: 'u' :: hexDigits 4 n := by
  rw [hexDigits_four]
  rfl

theorem jsonChar_eq (c : Char) : jsonChar c = (quotation.piece c).text := by
  show jsonChar c = (escapePiece isHtml c).text
  unfold jsonChar escapePiece
  by_cases hraw : isRaw c = true
  · have hge : ¬ c.toNat < 0x20 := by
      simp only [isRaw, Bool.and_eq_true, decide_eq_true_eq] at hraw
      exact not_lt.mpr hraw.1.1
    have hne (d : Char) (hd : isRaw d = false) : c ≠ d := by
      rintro rfl
      rw [hd] at hraw
      cases hraw
    have hhtml : c ∈ ['<', '>', '&', '\u2028', '\u2029'] ↔ isHtml c = true := by simp [isHtml]
    rw [dif_pos hraw, if_neg (by simp [hne '"' rfl, hne '\\' rfl]), if_neg (hne _ rfl),
      if_neg (hne _ rfl), if_neg (hne _ rfl), if_neg (hne _ rfl), if_neg (hne _ rfl)]
    by_cases h : isHtml c = true
    · rw [if_pos h, if_pos (Or.inr (hhtml.mpr h)), unicodeEscape_text]
    · rw [if_neg h, if_neg (not_or.mpr ⟨hge, mt hhtml.mp h⟩)]
      rfl
  · -- the characters with an escape of their own, one by one
    rw [dif_neg hraw]
    by_cases hquote : c = '"'
    · subst hquote; rfl
    by_cases hslash : c = '\\'
    · subst hslash; rfl
    rw [if_neg (not_or.mpr ⟨hquote, hslash⟩), if_neg hquote, if_neg hslash]
    have hlt : c.toNat < 0x20 := by
      by_contra hge
      apply hraw
      simp only [isRaw, Bool.and_eq_true, decide_eq_true_eq]
      exact ⟨⟨not_lt.mp hge, hquote⟩, hslash⟩
    split_ifs with h₁ h₂ h₃ h₄ h₅ h₆
    · rfl
    · rfl
    · rfl
    · rfl
    · rfl
    · rw [unicodeEscape_text]
    · exact absurd (Or.inl hlt) h₆

theorem jsonString_eq (t : Text) : jsonString t = (Value.string (quotation.quote t)).text := by
  have hchar : jsonChar = fun c => (quotation.piece c).text := funext jsonChar_eq
  rw [jsonString, Value.text, Quotation.quotedText_quote, hchar]

def member (key : Text) (v : Value) : List Piece × Value := (quotation.quote key, v)

theorem jsonMember_eq (key : Text) (v : Value) :
    jsonMember key v.text = memberText (member key v) := by
  rw [jsonMember, jsonString_eq]
  rfl

theorem jsonObject_eq (ms : List (List Piece × Value)) :
    jsonObject (ms.map memberText) = (objectOf ms).text := by
  rw [objectOf_text]
  rfl

@[simp] theorem unquote_member (key : Text) (v : Value) : unquote (member key v).1 = key :=
  quotation.unquote_quote key

def stringValue (t : Text) : Value := .string (quotation.quote t)

@[simp] theorem stringValue_text (t : Text) : (stringValue t).text = jsonString t :=
  (jsonString_eq t).symm

theorem natValue_text (n : ℕ) : (Value.number (natLiteral n)).text = Nat.toDigits 10 n :=
  natLiteral_text n

theorem exists_floatLiteral {x : Float64} (hx : x.isFinite = true) :
    ∃ l : Literal, l.text = jsonFloat x ∧ Float64.ofRat l.negative l.magnitude = x := by
  unfold jsonFloat
  by_cases hz : x = .negZero
  · subst hz
    refine ⟨(strict_natNumeral 0).literal true, rfl, ?_⟩
    rw [Strict.literal_magnitude, Strict.literal_negative, natNumeral_value]
    exact Float64.ofRat_zero true
  · obtain ⟨l, htext, hvalue⟩ := exists_literal hx
    rw [Float64.withoutNegativeZero_of_ne hz] at hvalue
    rw [if_neg hz]
    exact ⟨l, htext, hvalue⟩

def fieldErrorValue (e : FieldError) : Value := objectOf [
  member "field".toList (stringValue e.field),
  member "message".toList (stringValue e.message)]

def documentMembers (d : Document) : List (Text × Value) := [
  ("type".toList, stringValue d.type),
  ("title".toList, stringValue d.title),
  ("status".toList, .number (natLiteral d.status)),
  ("detail".toList, stringValue d.detail),
  ("code".toList, stringValue d.code.text),
  ("instance".toList, stringValue d.instance)] ++
  (if d.requestID = [] then [] else [("requestId".toList, stringValue d.requestID)]) ++
  (if d.errors = [] then [] else [("errors".toList, arrayOf (d.errors.map fieldErrorValue))])

theorem jsonFieldError_eq (e : FieldError) : jsonFieldError e = (fieldErrorValue e).text := by
  rw [fieldErrorValue, ← jsonObject_eq]
  simp [jsonFieldError, ← jsonMember_eq]

theorem jsonArray_eq (vs : List Value) :
    '[' :: (join [','] (vs.map Value.text) ++ [']']) = (arrayOf vs).text := by
  rw [arrayOf_text]
  rfl

theorem document_json_eq (d : Document) :
    d.json = (objectOf ((documentMembers d).map fun m => member m.1 m.2)).text := by
  have herrors : '[' :: (join [','] (d.errors.map jsonFieldError) ++ [']']) =
      (arrayOf (d.errors.map fieldErrorValue)).text := by
    rw [← jsonArray_eq, List.map_map]
    congr 4
    funext e
    exact jsonFieldError_eq e
  rw [← jsonObject_eq, Document.json, documentMembers, herrors]
  by_cases hid : d.requestID = []
  · by_cases herr : d.errors = []
    · simp [hid, herr, ← jsonMember_eq, natValue_text]
    · simp [hid, herr, ← jsonMember_eq, natValue_text]
  · by_cases herr : d.errors = []
    · simp [hid, herr, ← jsonMember_eq, natValue_text]
    · simp [hid, herr, ← jsonMember_eq, natValue_text]

def operationInfoMembers (s : Spec) : List (Text × Value) := [
  ("name".toList, stringValue s.name),
  ("symbol".toList, stringValue s.symbol),
  ("arity".toList, .number (natLiteral s.arity))]

def operationInfoValue (s : Spec) : Value :=
  objectOf ((operationInfoMembers s).map fun m => member m.1 m.2)

theorem operationInfoJson_eq (s : Spec) : operationInfoJson s = (operationInfoValue s).text := by
  rw [operationInfoValue, ← jsonObject_eq]
  simp [operationInfoJson, operationInfoMembers, ← jsonMember_eq, natValue_text]

theorem operationsResponseJson_eq (registry : List Spec) : operationsResponseJson registry =
    (objectOf ([("operations".toList, arrayOf (registry.map operationInfoValue))].map fun m =>
      member m.1 m.2)).text := by
  have hitems : registry.map operationInfoJson =
      (registry.map operationInfoValue).map Value.text := by
    rw [List.map_map]
    exact List.map_congr_left fun s _ => operationInfoJson_eq s
  rw [← jsonObject_eq, operationsResponseJson, hitems, jsonArray_eq, jsonMember_eq]
  rfl

end Calculator.Http
