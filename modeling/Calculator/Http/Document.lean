import Calculator.Backend.Decode

/-! # Problem documents on the wire

A problem as it is sent: with the path of the request, and with its ID if there
is one.
-/

namespace Calculator.Http

open Decimal Backend

structure Document extends Problem where
  /-- The path of the request. -/
  «instance» : Text
  requestID : Text
  deriving DecidableEq

def jsonChar (c : Char) : Text :=
  if c = '"' ∨ c = '\\' then ['\\', c]
  else if c = '\x08' then ['\\', 'b']
  else if c = '\x0C' then ['\\', 'f']
  else if c = '\n' then ['\\', 'n']
  else if c = '\r' then ['\\', 'r']
  else if c = '\t' then ['\\', 't']
  else if c.toNat < 0x20 ∨ c ∈ ['<', '>', '&', '\u2028', '\u2029'] then
    '\\' :: 'u' :: hexDigits 4 c.toNat
  else [c]

def jsonString (t : Text) : Text := '"' :: (t.flatMap jsonChar ++ ['"'])

def jsonMember (key : Text) (value : Text) : Text := jsonString key ++ ':' :: value

def jsonObject (members : List Text) : Text := '\x7b' :: (join [','] members ++ ['\x7d'])

def jsonFieldError (e : FieldError) : Text := jsonObject [
  jsonMember "field".toList (jsonString e.field),
  jsonMember "message".toList (jsonString e.message)]

/-- The ID and the errors are left out when they are empty. -/
def Document.json (d : Document) : Text := jsonObject <| [
  jsonMember "type".toList (jsonString d.type),
  jsonMember "title".toList (jsonString d.title),
  jsonMember "status".toList (Nat.toDigits 10 d.status),
  jsonMember "detail".toList (jsonString d.detail),
  jsonMember "code".toList (jsonString d.code.text),
  jsonMember "instance".toList (jsonString d.instance)] ++
  (if d.requestID = [] then [] else [jsonMember "requestId".toList (jsonString d.requestID)]) ++
  (if d.errors = [] then []
    else [jsonMember "errors".toList ('[' :: (join [','] (d.errors.map jsonFieldError) ++ [']']))])

def byteLength (t : Text) : ℕ := (String.ofList t).utf8ByteSize

/-- The statuses that end the header, unlike the informational ones. -/
abbrev FinalStatus := { status : ℕ // 200 ≤ status ∧ status < 1000 }

theorem info_final (c : Code) : 200 ≤ c.info.1 ∧ c.info.1 < 1000 := by
  cases c <;> decide

/-- A problem that was made from the catalog of codes. -/
abbrev CatalogProblem := { p : Problem // p.Catalogued }

def catalogProblem (code : Code) (detail : Text) (errs : List FieldError) : CatalogProblem :=
  ⟨newProblem code detail errs, catalogued_newProblem code detail errs⟩

def finalStatus (p : CatalogProblem) : FinalStatus :=
  ⟨p.1.status, by
    rw [p.2.status_eq]
    exact info_final _⟩

end Calculator.Http
