import Calculator.Http.Writer
import Mathlib.Data.List.DropRight

/-! # Trailers

A handler may still set fields when the header has gone out. The server sends those that
were announced after the body, if the body goes out in chunks, with the values that the
header of its writer has in the end.
-/

namespace Calculator.Http

open Decimal

def isTokenChar (c : Char) : Bool := c.isAlphanum || "!#$%&'*+-.^_`|~".toList.contains c

/-- The first letter and those behind a hyphen are made capital, the others small. -/
def capitalize (upper : Bool) : Text → Text
  | [] => []
  | c :: rest => (if upper then c.toUpper else c.toLower) :: capitalize (c = '-') rest

def canonicalMIMEHeaderKey (name : Text) : Text :=
  if name.all isTokenChar then capitalize true name else name

def badTrailer : List Text := [
  "Authorization".toList, "Cache-Control".toList, "Connection".toList,
  "Content-Encoding".toList, "Content-Length".toList, "Content-Range".toList,
  "Content-Type".toList, "Expect".toList, "Host".toList, "Keep-Alive".toList,
  "Max-Forwards".toList, "Pragma".toList, "Proxy-Authenticate".toList,
  "Proxy-Authorization".toList, "Proxy-Connection".toList, "Range".toList, "Realm".toList,
  "Te".toList, "Trailer".toList, "Transfer-Encoding".toList, "Www-Authenticate".toList]

def validTrailerHeader (name : Text) : Bool :=
  !("If-".toList.isPrefixOf name || badTrailer.contains name)

def isASCIISpace (c : Char) : Bool := c = ' ' || c = '\t' || c = '\n' || c = '\r'

def trimString (t : Text) : Text := (t.dropWhile isASCIISpace).rdropWhile isASCIISpace

def announced (head : Header) : List Text :=
  let elements := ((head "Trailer".toList).getD []).flatMap (·.splitOn ',')
  (((elements.map trimString).filter (· ≠ [])).map canonicalMIMEHeaderKey).filter
    validTrailerHeader

/-- What marks a field as a trailer that was not announced. -/
def trailerMark : Text := "Trailer:".toList

/-- The values of a trailer, from the header that went out and the one in the end. -/
def finalTrailers (head final : Header) (name : Text) : List Text :=
  (final (trailerMark ++ name)).getD [] ++
    ((announced head).filter (· = name)).flatMap fun name => (final name).getD []

def Call.header : Call → Option Header
  | .writeHeader _ header => some header
  | .write _ | .flush => none

def headOf (calls : List Call) : Header := (calls.findSome? Call.header).getD .empty

namespace Wire

/-- The trailers of a response that goes out in chunks. -/
def trailers (w : Wire) : Text → List Text := finalTrailers (headOf w.sent) w.header

/-- The trailers as they stood when the header went out. -/
def earlyTrailers (w : Wire) : Text → List Text :=
  finalTrailers (headOf w.sent) (headOf w.sent)

/-- No field has been set since the header went out. -/
def Sealed (w : Wire) : Prop :=
  ∀ status header, .writeHeader status header ∈ w.log → w.header = header

variable {w w' : Wire} {c : Call}

theorem sealed_of_log_eq_nil (h : w.log = []) : w.Sealed := by
  intro status header hmem
  rw [h] at hmem
  cases hmem

theorem Sealed.concat (h : w.Sealed) (hc : c.isWriteHeader = false) :
    Sealed { w with log := w.log ++ [c] } := by
  intro status header hmem
  rcases List.mem_append.mp hmem with hmem | hmem
  · exact h status header hmem
  · cases List.mem_singleton.mp hmem
    cases hc

theorem earlyTrailers_congr (h : w.sent = w'.sent) : w.earlyTrailers = w'.earlyTrailers := by
  rw [earlyTrailers, earlyTrailers, h]

/-- The header that goes out first is that of the writer, if it is sealed. -/
theorem Sealed.trailers_eq (h : w.Sealed) {status : FinalStatus} {header : Header}
    {body : List Call} (hsent : w.sent = .writeHeader status header :: body) :
    w.trailers = w.earlyTrailers := by
  have hhead : headOf w.sent = header := by
    rw [hsent]
    rfl
  have hheader : w.header = header := by
    unfold sent at hsent
    split at hsent
    · cases hsent
      rfl
    · exact h status header (by rw [hsent]; exact List.mem_cons_self)
  rw [trailers, earlyTrailers, hhead, hheader]

end Wire

end Calculator.Http
