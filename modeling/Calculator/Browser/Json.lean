import Calculator.Ecma.Literals
import Calculator.History.Schema
import Calculator.Json.Writing

/-! # JSON in the browser

`JSON.parse` and `JSON.stringify` on values whose objects name each member once.
A text that was written is read back as the value, except that a number that is
not finite comes back as `null`, and the negative zero without its sign.
-/

namespace Calculator.Browser

open Binary Decimal Ecma History Json

/-- Stores a member, over the one of the same name if there is one. -/
def setMember (key : Text) (j : History.Json) : List (Text × History.Json) →
    List (Text × History.Json)
  | [] => [(key, j)]
  | m :: members => if m.1 = key then (key, j) :: members else m :: setMember key j members

mutual

def ofValue : Value → History.Json
  | .null => .null
  | .boolean b => .bool b
  | .number n => .number (.ofRat n.negative n.magnitude)
  | .string ps => .string (unquote ps)
  | .emptyArray _ => .array []
  | .array es => .array (ofElements es)
  | .emptyObject _ => .object []
  | .object ms => .object (ofMembers [] ms)

def ofElements : Elements → List History.Json
  | .last _ v _ => [ofValue v]
  | .cons _ v _ es => ofValue v :: ofElements es

def ofMembers (members : List (Text × History.Json)) : Members → List (Text × History.Json)
  | .last _ name _ _ v _ => setMember (unquote name) (ofValue v) members
  | .cons _ name _ _ v _ ms => ofMembers (setMember (unquote name) (ofValue v) members) ms

end

def parse (t : Text) : Option History.Json :=
  match firstValue t with
  | some (v, r) => if r.all Json.isSpace then some (ofValue v) else none
  | none => none

/-- `JSON.stringify` leaves every character above the control characters as it is. -/
def quotation : Quotation := escaping (fun _ => false) (by simp)

def numberValue (x : Float64) : Value :=
  if h : x.isFinite = true then .number (literal x h) else .null

mutual

def toValue : History.Json → Value
  | .null => .null
  | .bool b => .boolean b
  | .number x => numberValue x
  | .string s => .string (quotation.quote s)
  | .array items => arrayOf (toValues items)
  | .object members => objectOf (toMembers members)

def toValues : List History.Json → List Value
  | [] => []
  | j :: items => toValue j :: toValues items

def toMembers : List (Text × History.Json) → List (List Piece × Value)
  | [] => []
  | m :: members => (quotation.quote m.1, toValue m.2) :: toMembers members

end

def stringify (j : History.Json) : Text := (toValue j).text

example : stringify (.object [("a\n".toList, .number .negZero), (['b'], .array [.null])]) =
    "\x7b\"a\\n\":0,\"b\":[null]\x7d".toList := by decide +kernel

section RoundTrip

variable {members acc : List (Text × History.Json)} {key : Text} {j : History.Json} {t : Text}

theorem parse_eq_some_iff : parse t = some j ↔ ∃ v, Document t v ∧ ofValue v = j := by
  unfold parse
  constructor
  · intro h
    split at h
    · next v r hread =>
      split at h
      · next hspaces =>
        cases h
        exact ⟨v, document_iff.mpr ⟨r, hread, List.all_eq_true.mp hspaces⟩, rfl⟩
      · cases h
    · cases h
  · rintro ⟨v, hdoc, rfl⟩
    obtain ⟨r, hread, hspaces⟩ := document_iff.mp hdoc
    rw [hread]
    exact if_pos (List.all_eq_true.mpr hspaces)

theorem parse_text (v : Value) : parse v.text = some (ofValue v) :=
  parse_eq_some_iff.mpr ⟨v, document_text v, rfl⟩

theorem setMember_of_not_mem (h : key ∉ members.map Prod.fst) (j : History.Json) :
    setMember key j members = members ++ [(key, j)] := by
  induction members with
  | nil => rfl
  | cons m members ih =>
    rw [List.map_cons, List.mem_cons, not_or] at h
    rw [setMember, if_neg (Ne.symm h.1), ih h.2, List.cons_append]

theorem foldl_setMember (h : ((acc ++ members).map Prod.fst).Nodup) :
    members.foldl (fun acc m => setMember m.1 m.2 acc) acc = acc ++ members := by
  induction members generalizing acc with
  | nil => simp
  | cons m members ih =>
    have hm : m.1 ∉ acc.map Prod.fst := by
      rw [List.map_append, List.map_cons] at h
      exact fun hmem => List.disjoint_of_nodup_append h hmem List.mem_cons_self
    have happend : acc ++ m :: members = acc ++ [m] ++ members := by simp
    rw [List.foldl_cons, setMember_of_not_mem hm, ih (by rwa [← happend]), happend]

theorem ofElements_elementsOf (v : Value) (vs : List Value) :
    ofElements (elementsOf v vs) = (v :: vs).map ofValue := by
  induction vs generalizing v with
  | nil => rfl
  | cons w vs ih => simp [elementsOf, ofElements, ih]

theorem ofValue_arrayOf (vs : List Value) : ofValue (arrayOf vs) = .array (vs.map ofValue) := by
  cases vs with
  | nil => rfl
  | cons v vs => rw [arrayOf, ofValue, ofElements_elementsOf]

theorem ofMembers_membersOf (acc : List (Text × History.Json)) (m : List Piece × Value)
    (ms : List (List Piece × Value)) : ofMembers acc (membersOf m ms) =
      ((m :: ms).map fun m => (unquote m.1, ofValue m.2)).foldl
        (fun acc m => setMember m.1 m.2 acc) acc := by
  induction ms generalizing acc m with
  | nil => rfl
  | cons m' ms ih => rw [membersOf, ofMembers, ih, List.map_cons (a := m), List.foldl_cons]

theorem ofValue_objectOf {ms : List (List Piece × Value)}
    (h : (ms.map fun m => unquote m.1).Nodup) :
    ofValue (objectOf ms) = .object (ms.map fun m => (unquote m.1, ofValue m.2)) := by
  cases ms with
  | nil => rfl
  | cons m ms =>
    rw [objectOf, ofValue, ofMembers_membersOf, foldl_setMember, List.nil_append]
    rw [List.nil_append, List.map_map]
    exact h

theorem ofValue_numberValue (x : Float64) : ofValue (numberValue x) =
    if x.isFinite then .number x.withoutNegativeZero else .null := by
  unfold numberValue
  by_cases h : x.isFinite = true
  · rw [dif_pos h, if_pos h, ofValue, literal_value]
  · rw [dif_neg h, if_neg h, ofValue]

mutual

/-- What comes back of a value that is written. -/
def written : History.Json → History.Json
  | .null => .null
  | .bool b => .bool b
  | .number x => if x.isFinite then .number x.withoutNegativeZero else .null
  | .string s => .string s
  | .array items => .array (writtenItems items)
  | .object members => .object (writtenMembers members)

def writtenItems : List History.Json → List History.Json
  | [] => []
  | j :: items => written j :: writtenItems items

def writtenMembers : List (Text × History.Json) → List (Text × History.Json)
  | [] => []
  | m :: members => (m.1, written m.2) :: writtenMembers members

end

mutual

/-- Every object in the value names each of its members once. -/
def Distinct : History.Json → Prop
  | .array items => DistinctItems items
  | .object members => (members.map Prod.fst).Nodup ∧ DistinctMembers members
  | .null | .bool _ | .number _ | .string _ => True

def DistinctItems : List History.Json → Prop
  | [] => True
  | j :: items => Distinct j ∧ DistinctItems items

def DistinctMembers : List (Text × History.Json) → Prop
  | [] => True
  | m :: members => Distinct m.2 ∧ DistinctMembers members

end

theorem unquote_toMembers (members : List (Text × History.Json)) :
    (toMembers members).map (fun m => unquote m.1) = members.map Prod.fst := by
  induction members with
  | nil => rfl
  | cons m members ih => simp [toMembers, quotation, ih]

mutual

theorem ofValue_toValue : ∀ {j : History.Json}, Distinct j → ofValue (toValue j) = written j
  | .null, _ => rfl
  | .bool _, _ => rfl
  | .number x, _ => ofValue_numberValue x
  | .string s, _ => congrArg History.Json.string (quotation.unquote_quote s)
  | .array items, h => by
    rw [toValue, ofValue_arrayOf, map_ofValue_toValues h, written]
  | .object members, h => by
    obtain ⟨hnames, hmembers⟩ := h
    rw [toValue, ofValue_objectOf, map_ofValue_toMembers hmembers, written]
    rwa [unquote_toMembers]

theorem map_ofValue_toValues : ∀ {items : List History.Json}, DistinctItems items →
    (toValues items).map ofValue = writtenItems items
  | [], _ => rfl
  | j :: items, h => by
    obtain ⟨hj, hitems⟩ := h
    rw [toValues, List.map_cons, ofValue_toValue hj, map_ofValue_toValues hitems, writtenItems]

theorem map_ofValue_toMembers : ∀ {members : List (Text × History.Json)},
    DistinctMembers members →
    (toMembers members).map (fun m => (unquote m.1, ofValue m.2)) = writtenMembers members
  | [], _ => rfl
  | m :: members, h => by
    obtain ⟨hm, hmembers⟩ := h
    rw [toMembers, List.map_cons, ofValue_toValue hm, map_ofValue_toMembers hmembers,
      writtenMembers]
    simp

end

/-- Parsing what was written gives the value back, but for numbers that JSON
does not have. -/
theorem parse_stringify (h : Distinct j) : parse (stringify j) = some (written j) := by
  rw [stringify, parse_text, ofValue_toValue h]

end RoundTrip

end Calculator.Browser
