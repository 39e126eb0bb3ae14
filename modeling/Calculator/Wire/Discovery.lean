import Calculator.Components.Keys
import Calculator.Wire.Exchange

/-! # The operations on the page

The list of the server as the client has it: any list whose operations have a name,
a symbol and one or two operands arrives as it was sent. Each operation of the
server has a key that works.
-/

namespace Calculator.Wire

open Api Backend Binary Browser Components Decimal Http Json

def specOf (s : Spec) : Option OperationSpec :=
  if h : s.name ≠ [] ∧ s.symbol ≠ [] then
    match s.arity with
    | 1 => some ⟨⟨s.name, h.1⟩, ⟨s.symbol, h.2⟩, .one⟩
    | 2 => some ⟨⟨s.name, h.1⟩, ⟨s.symbol, h.2⟩, .two⟩
    | _ => none
  else none

theorem ofRat_one : Float64.ofRat false (1 : ℕ) = Arity.one.number :=
  congrArg (Float64.ofRat false) Nat.cast_one

theorem ofRat_two : Float64.ofRat false (2 : ℕ) = Arity.two.number :=
  congrArg (Float64.ofRat false) Nat.cast_ofNat

theorem ofValue_operationInfoValue {s : Spec} {o : OperationSpec} (h : specOf s = some o) :
    ofValue (operationInfoValue s) = o.toJson := by
  have hvalue : ofValue (operationInfoValue s) = .object [
      ("name".toList, .string s.name), ("symbol".toList, .string s.symbol),
      ("arity".toList, .number (.ofRat false s.arity))] := by
    rw [operationInfoValue, ofValue_objectOf]
    · simp only [operationInfoMembers, List.map_cons, List.map_nil, unquote_member]
      simp only [member, ofValue_stringValue, ofValue_natLiteral]
    · simp [operationInfoMembers]
  rw [hvalue]
  unfold specOf at h
  split at h
  · split at h
    · next harity =>
      cases h
      rw [harity, OperationSpec.toJson, ← ofRat_one]
    · next harity =>
      cases h
      rw [harity, OperationSpec.toJson, ← ofRat_two]
    · cases h
  · cases h

theorem parse_operationsResponseJson {registry : List Spec} {l : List OperationSpec}
    (h : registry.mapM specOf = some l) :
    parse (operationsResponseJson registry) = some (operationsToJson l) := by
  have hitems : (registry.map operationInfoValue).map ofValue = l.map OperationSpec.toJson := by
    induction registry generalizing l with
    | nil =>
      cases h
      rfl
    | cons s registry ih =>
      obtain ⟨o, ho, l', hl', rfl⟩ : ∃ o, specOf s = some o ∧ ∃ l', registry.mapM specOf = some l' ∧
          o :: l' = l := by simpa [List.mapM_cons, Option.bind_eq_some_iff] using h
      rw [List.map_cons, List.map_cons, List.map_cons, ih hl', ofValue_operationInfoValue ho]
  rw [operationsResponseJson_eq, parse_object (by simp), operationsToJson, ← hitems,
    List.map_singleton, ofValue_arrayOf]

/-- The response of the server to the request for its operations. -/
def operationsResponse (T : Transport) (registry : List Spec) : Response :=
  ⟨200, T.statusText, T.headers, operationsResponseJson registry⟩

theorem text_operationsResponse (T : Transport) (registry : List Spec) :
    (operationsResponse T registry).text = operationsResponseJson registry := rfl

theorem useOperations_operationsResponse {registry : List Spec} {l : List OperationSpec}
    (h : registry.mapM specOf = some l) (T : Transport) :
    useOperations T.browser T.issues (some (.response (operationsResponse T registry))) = l := by
  have hparse : T.browser.parseJson (operationsResponse T registry).text =
      some (operationsToJson l) := by
    rw [parseJson_browser, text_operationsResponse, parse_operationsResponseJson h]
  have hok : (operationsResponse T registry).ok = true := rfl
  rw [useOperations, Option.map_some, apiFetch, hparse, hok]
  simp only [Bool.not_true, Bool.false_eq_true, if_false, safeParse,
    operationsResponseSchema_toJson, Option.getD_some]

/-- Pressing the key asks for the operation. -/
def Names (name : Text) : Press → Prop
  | .input (.operator op) => Store.operationText op.name = name
  | .input (.unary .sqrt) => Store.operationText .sqrt = name
  | .input (.unary .percent) => Store.operationText .percent = name
  | _ => False

instance (name : Text) (p : Press) : Decidable (Names name p) := by
  cases p with
  | clearAll => exact inferInstanceAs (Decidable False)
  | input k =>
    cases k with
    | operator op => exact inferInstanceAs (Decidable (_ = _))
    | unary op =>
      cases op with
      | sqrt => exact inferInstanceAs (Decidable (_ = _))
      | percent => exact inferInstanceAs (Decidable (_ = _))
    | digit | decimal | toggleSign | backspace | clearEntry | evaluate =>
      exact inferInstanceAs (Decidable False)

/-- The operation has a key on the pad, or one beside it. -/
def HasKey (operations : List OperationSpec) (name : Text) : Prop :=
  (∃ k ∈ buildKeys, Names name k.press) ∨
    ∃ o, extraKey operations name = some o ∧ ∃ a, pressHandler o.name = some a ∧ Names name a

/-- A success whose body is a list of operations. -/
def Lists (P : Platform) (fetched : Fetched) (l : List OperationSpec) : Prop :=
  ∃ response, fetched = .response response ∧ response.ok = true ∧
    (P.parseJson response.text).bind operationsResponseSchema = some l

/-- How the request for the operations stands: under way, answered by the server, or
ended with anything that is no list of operations. -/
inductive Discovery (T : Transport) (registry : List Spec) : Option Fetched → Prop
  | pending : Discovery T registry none
  | answered : Discovery T registry (some (.response (operationsResponse T registry)))
  | failed {fetched : Fetched} (h : ∀ l, ¬ Lists T.browser fetched l) :
    Discovery T registry (some fetched)

theorem specOf_newRegistry (P : Primitives) :
    (newRegistry P).mapM specOf = some fallbackOperations := rfl

theorem exists_error_of_not_lists {P : Platform} (issues : History.Json → List Issue)
    {fetched : Fetched} (h : ∀ l, ¬ Lists P fetched l) : ∃ e, apiFetch P defaultTimeoutMs
      (some (safeParse issues operationsResponseSchema operationsToJson)) fetched = .error e := by
  cases fetched with
  | failed timedOut => cases timedOut <;> exact ⟨_, rfl⟩
  | response r =>
    unfold apiFetch
    dsimp only
    split
    · exact ⟨_, rfl⟩
    · next hok =>
      cases hparse : P.parseJson r.text with
      | none => exact ⟨_, rfl⟩
      | some value =>
        have hschema : operationsResponseSchema value = none := by
          by_contra hsome
          obtain ⟨l, hl⟩ := Option.ne_none_iff_exists'.mp hsome
          exact h l ⟨r, rfl, by simpa using hok, by rw [hparse, Option.bind_some, hl]⟩
        simp only [safeParse, hschema]
        exact ⟨_, rfl⟩

theorem useOperations_of_not_lists {P : Platform} {issues : History.Json → List Issue}
    {fetched : Fetched} (h : ∀ l, ¬ Lists P fetched l) :
    useOperations P issues (some fetched) = fallbackOperations := by
  obtain ⟨e, he⟩ := exists_error_of_not_lists issues h
  rw [useOperations, Option.map_some, he]

/-- However the request stands, the page lists the operations of the server. -/
theorem useOperations_of_discovery {P : Primitives} {T : Transport} {fetched : Option Fetched}
    (h : Discovery T (newRegistry P) fetched) :
    useOperations T.browser T.issues fetched = fallbackOperations := by
  cases h with
  | pending => rfl
  | answered => exact useOperations_operationsResponse (specOf_newRegistry P) T
  | failed h => exact useOperations_of_not_lists h

theorem hasKey_fallbackOperations (P : Primitives) :
    ∀ s ∈ newRegistry P, HasKey fallbackOperations s.name := by
  have hpad (op : Engine.BinaryOperation) (h : op ≠ .power) :
      ∃ k ∈ buildKeys, Names (Store.operationText op.name) k.press := by
    cases op with
    | power => exact absurd rfl h
    | add | subtract | multiply | divide => decide
  simp only [newRegistry, List.forall_mem_cons, List.not_mem_nil, false_imp_iff, implies_true,
    and_true]
  refine ⟨Or.inl (hpad .add ?_), Or.inl (hpad .subtract ?_), Or.inl (hpad .multiply ?_),
    Or.inl (hpad .divide ?_), Or.inr ⟨_, rfl, _, rfl, rfl⟩, Or.inr ⟨_, rfl, _, rfl, rfl⟩,
    Or.inr ⟨_, rfl, _, rfl, rfl⟩⟩ <;> decide

/-- A list of operations that the client can have arrives as it was sent. However the
request for the operations stands, each operation of the server has a key that asks
for it. -/
theorem operations_reach_page :
    (∀ registry l, registry.mapM specOf = some l → ∀ T : Transport,
      useOperations T.browser T.issues (some (.response (operationsResponse T registry))) = l) ∧
    ∀ (P : Primitives) (T : Transport) fetched, Discovery T (newRegistry P) fetched →
      ∀ s ∈ newRegistry P, HasKey (useOperations T.browser T.issues fetched) s.name := by
  constructor
  · intro registry l h T
    exact useOperations_operationsResponse h T
  · intro P T fetched h
    rw [useOperations_of_discovery h]
    exact hasKey_fallbackOperations P

/-- A list with an operation that the page does not know, and the keys of a page that
got an error page of a proxy for its list. -/
theorem operations_reach_page_bare :
    let cube : Spec := ⟨"cube".toList, ['∛'], 1, fun x _ => .ok x⟩
    let badGateway : Response := ⟨502, "Bad Gateway".toList, bare.headers, "<html>".toList⟩
    (∃ o, useOperations bare.browser bare.issues
        (some (.response (operationsResponse bare [cube]))) = [o] ∧
      o.name.1 = "cube".toList ∧ pressHandler o.name = none) ∧
    ∀ s ∈ newRegistry Store.noPrimitives,
      HasKey (useOperations bare.browser bare.issues (some (.response badGateway))) s.name := by
  intro cube badGateway
  obtain ⟨harrives, hkeys⟩ := operations_reach_page
  refine ⟨⟨_, harrives [cube] _ rfl bare, rfl, rfl⟩, hkeys Store.noPrimitives bare _ (.failed ?_)⟩
  rintro l ⟨_, ⟨⟩, hok, -⟩
  cases hok

end Calculator.Wire
