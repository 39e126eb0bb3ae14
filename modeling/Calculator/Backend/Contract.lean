import Calculator.Backend.Body
import Calculator.Backend.Metrics
import Calculator.Json.Ascii

/-! # The published contract

The schema of a request as the documentation of the interface has it, next to
the bodies that the server accepts. The server accepts every body that satisfies
the schema. It accepts others, too: names count without regard to case and the
last value of a name counts, and a body that satisfies the schema so is accepted
though its names are not those of the schema, or one of them occurs twice.
-/

namespace Calculator.Backend

open Binary Decimal Json
open Go (encode runes runeError runes_encode encode_runes)

def propertyNames : List Text := ["operation".toList, ['a'], ['b']]

def binaryNames : List Text :=
  ["add".toList, "subtract".toList, "multiply".toList, "divide".toList, "power".toList,
    "percent".toList]

def unaryNames : List Text := ["sqrt".toList]

def operationNames : List Text :=
  ["add".toList, "subtract".toList, "multiply".toList, "divide".toList, "power".toList,
    "sqrt".toList, "percent".toList]

def Operand (v : Value) : Prop :=
  ∃ n, v = .number n ∧ (Float64.ofRat n.negative n.magnitude).isFinite = true

def BinaryBranch (operation : Text) (b : Option Value) : Prop :=
  operation ∈ binaryNames ∧ ∃ v ∈ b, Operand v

def UnaryBranch (operation : Text) (b : Option Value) : Prop :=
  operation ∈ unaryNames ∧ ∀ v ∈ b, v = .null

/-- What the schema asks of the values of its properties. -/
structure ValuesOk (operation : Option Text) (a b : Option Value) : Prop where
  operation_mem : ∃ op ∈ operation, op ∈ operationNames
  a_operand : ∃ v ∈ a, Operand v
  b_operand : ∀ v ∈ b, v = .null ∨ Operand v
  oneOf : ∀ op ∈ operation, Xor (BinaryBranch op b) (UnaryBranch op b)

/-- The names of the schema and no others, each once at most. -/
structure Exact (ms : List (Text × Value)) : Prop where
  names : ∀ m ∈ ms, m.1 ∈ propertyNames
  unique : (ms.map Prod.fst).Nodup

def valueOf (ms : List (Text × Value)) (name : Text) : Option Value :=
  (ms.find? (·.1 = name)).map Prod.snd

structure SatisfiesSchema (ms : List (Text × Value)) : Prop where
  exact : Exact ms
  values : ValuesOk ((valueOf ms "operation".toList).bind stringOf) (valueOf ms ['a'])
    (valueOf ms ['b'])

/-- The bytes are the text of an object that satisfies the schema. -/
def Contract (bytes : List UInt8) : Prop :=
  ∃ t v ms, bytes = encode t ∧ Document t v ∧ v.members? = some ms ∧ SatisfiesSchema ms

/-- The body decodes to a request that passes validation. -/
def Accepts (P : Primitives) (isPrint : Char → Bool) (D : Reports) (bytes : List UInt8) : Prop :=
  ∃ req spec, decodeJSON isPrint (bodyOf D (some "application/json".toList) bytes) = .ok req ∧
    validate (newRegistry P) isPrint req = .ok spec

/-- The schema, for the last values under the names as the decoder matches them. -/
structure SatisfiesFolded (ms : List (Text × Value)) : Prop where
  typed : ∀ m ∈ ms, WellTyped m
  values : ValuesOk (operationOf ms) (lastOf ms .a) (lastOf ms .b)

section Operands

variable {v : Value} {x : Float64}

theorem operandOf_isSome_iff : (operandOf v).isSome ↔ Operand v := by
  cases v <;> simp [operandOf, Operand, floatOf, Option.isSome_filter]

theorem isFinite_of_operandOf (h : operandOf v = some x) : x.isFinite = true := by
  cases v with
  | number n =>
    rw [operandOf, floatOf] at h
    exact (Option.filter_eq_some_iff.mp h).2
  | _ => cases h

end Operands

section Registry

variable {P : Primitives} {isPrint : Char → Bool} {op : Text} {spec : Spec}
  {req : CalculateRequest}

theorem arity_of_lookup (h : lookup (newRegistry P) op = some spec) :
    spec.arity = 2 ∧ op ∈ binaryNames ∨ spec.arity = 1 ∧ op ∈ unaryNames := by
  have hall : ∀ p ∈ [("add".toList, 2), ("subtract".toList, 2), ("multiply".toList, 2),
      ("divide".toList, 2), ("power".toList, 2), ("sqrt".toList, 1), ("percent".toList, 2)],
      p.2 = 2 ∧ p.1 ∈ binaryNames ∨ p.2 = 1 ∧ p.1 ∈ unaryNames := by decide
  have hmem := List.mem_map_of_mem (f := fun s : Spec => (s.name, s.arity)) (mem_of_lookup h)
  rw [← name_of_lookup h]
  exact hall _ hmem

theorem lookup_binary (P : Primitives) (h : op ∈ binaryNames) :
    ∃ spec, lookup (newRegistry P) op = some spec ∧ spec.arity = 2 := by
  simp only [binaryNames, List.mem_cons, List.not_mem_nil, or_false] at h
  rcases h with rfl | rfl | rfl | rfl | rfl | rfl <;> exact ⟨_, rfl, rfl⟩

theorem lookup_unary (P : Primitives) (h : op ∈ unaryNames) :
    ∃ spec, lookup (newRegistry P) op = some spec ∧ spec.arity = 1 := by
  cases List.mem_singleton.mp h
  exact ⟨_, rfl, rfl⟩

theorem not_mem_unaryNames (h : op ∈ binaryNames) : op ∉ unaryNames := by
  intro hunary
  cases List.mem_singleton.mp hunary
  exact absurd h (by decide)

theorem mem_operationNames_iff : op ∈ operationNames ↔ op ∈ binaryNames ∨ op ∈ unaryNames := by
  have hperm : operationNames.Perm (binaryNames ++ unaryNames) := by decide
  rw [hperm.mem_iff, List.mem_append]

theorem valuesOk_iff {operation : Option Text} {a b : Option Value} : ValuesOk operation a b ↔
    ∃ op ∈ operation, (∃ v ∈ a, Operand v) ∧ (∀ v ∈ b, v = .null ∨ Operand v) ∧
      (BinaryBranch op b ∨ UnaryBranch op b) := by
  constructor
  · rintro ⟨⟨op, hop, -⟩, ha, hb, hone⟩
    exact ⟨op, hop, ha, hb, (hone op hop).or⟩
  · rintro ⟨op, rfl, ha, hb, hbranch⟩
    refine ⟨⟨op, rfl, ?_⟩, ha, hb, ?_⟩
    · exact mem_operationNames_iff.mpr (hbranch.imp And.left And.left)
    · rintro _ ⟨⟩
      rcases hbranch with hbinary | hunary
      · exact Or.inl ⟨hbinary, fun hunary => not_mem_unaryNames hbinary.1 hunary.1⟩
      · exact Or.inr ⟨hunary, fun hbinary => not_mem_unaryNames hbinary.1 hunary.1⟩

theorem exists_validate_iff : (∃ spec, validate (newRegistry P) isPrint req = .ok spec) ↔
    (∃ a, req.a = some a ∧ a.isFinite = true) ∧ (∀ b ∈ req.b, b.isFinite = true) ∧
      (req.operation ∈ binaryNames ∧ req.b ≠ none ∨ req.operation ∈ unaryNames ∧ req.b = none) := by
  constructor
  · rintro ⟨spec, h⟩
    obtain ⟨-, hl, ha, hb, h2, h1⟩ := validate_ok_iff.mp h
    refine ⟨ha, hb, ?_⟩
    rcases arity_of_lookup hl with ⟨harity, hop⟩ | ⟨harity, hop⟩
    · exact Or.inl ⟨hop, h2 harity⟩
    · exact Or.inr ⟨hop, h1 harity⟩
  · rintro ⟨ha, hb, hop⟩
    have hne : req.operation ≠ [] := by
      intro hnil
      rw [hnil] at hop
      rcases hop with ⟨hop, -⟩ | ⟨hop, -⟩
      · exact absurd hop (by decide)
      · exact absurd hop (by decide)
    rcases hop with ⟨hop, hsome⟩ | ⟨hop, hnone⟩
    · obtain ⟨spec, hl, harity⟩ := lookup_binary P hop
      refine ⟨spec, validate_ok_iff.mpr ⟨hne, hl, ha, hb, fun _ => hsome, ?_⟩⟩
      intro h1
      rw [harity] at h1
      cases h1
    · obtain ⟨spec, hl, harity⟩ := lookup_unary P hop
      refine ⟨spec, validate_ok_iff.mpr ⟨hne, hl, ha, hb, ?_, fun _ => hnone⟩⟩
      intro h2
      rw [harity] at h2
      cases h2

end Registry

section Objects

variable {ms : List (Text × Value)} {m : Text × Value} {f : Field} {v : Value}

theorem fits_of_mem_valuesOf (htyped : ∀ m ∈ ms, WellTyped m) (hv : v ∈ valuesOf ms f) :
    Fits f v := by
  obtain ⟨m, hm, hmv⟩ := List.mem_filterMap.mp hv
  rw [Option.ite_none_right_eq_some] at hmv
  obtain ⟨hf, heq⟩ := hmv
  cases heq
  obtain ⟨f', hf', hfits⟩ := htyped m hm
  rw [hf] at hf'
  cases hf'
  exact hfits

theorem operand_of_lastOf (htyped : ∀ m ∈ ms, WellTyped m) (hf : f ≠ .operation)
    (hv : v ∈ lastOf ms f) : v = .null ∨ Operand v := by
  have hfits := fits_of_mem_valuesOf htyped (List.mem_of_getLast? hv)
  cases f with
  | operation => exact absurd rfl hf
  | a => exact hfits.imp_right operandOf_isSome_iff.mp
  | b => exact hfits.imp_right operandOf_isSome_iff.mp

theorem bind_operandOf_ne_none_iff {o : Option Value} :
    o.bind operandOf ≠ none ↔ ∃ v ∈ o, Operand v := by
  cases o with
  | none => simp
  | some v => simp [← operandOf_isSome_iff, Option.isSome_iff_ne_none]

theorem isFinite_of_bind_operandOf {o : Option Value} {x : Float64}
    (h : o.bind operandOf = some x) : x.isFinite = true := by
  obtain ⟨v, -, hv⟩ := Option.bind_eq_some_iff.mp h
  exact isFinite_of_operandOf hv

theorem not_operand_null : ¬ Operand .null := by
  rintro ⟨n, hn, -⟩
  cases hn

theorem validate_requestOf_iff {P : Primitives} {isPrint : Char → Bool}
    (htyped : ∀ m ∈ ms, WellTyped m) :
    (∃ spec, validate (newRegistry P) isPrint (requestOf ms) = .ok spec) ↔
      ValuesOk (operationOf ms) (lastOf ms .a) (lastOf ms .b) := by
  rw [exists_validate_iff]
  have hb : (requestOf ms).b ≠ none ↔ ∃ v ∈ lastOf ms .b, Operand v := bind_operandOf_ne_none_iff
  have hnull : (requestOf ms).b = none ↔ ∀ v ∈ lastOf ms .b, v = .null := by
    rw [← not_iff_not, ← ne_eq, hb]
    push Not
    constructor
    · rintro ⟨v, hv, hop⟩
      refine ⟨v, hv, ?_⟩
      rintro rfl
      exact not_operand_null hop
    · rintro ⟨v, hv, hne⟩
      exact ⟨v, hv, (operand_of_lastOf htyped (by decide) hv).resolve_left hne⟩
  have ha : (∃ a, (requestOf ms).a = some a ∧ a.isFinite = true) ↔
      ∃ v ∈ lastOf ms .a, Operand v := by
    rw [← bind_operandOf_ne_none_iff, Option.ne_none_iff_exists']
    constructor
    · rintro ⟨a, h, -⟩
      exact ⟨a, h⟩
    · rintro ⟨a, h⟩
      exact ⟨a, h, isFinite_of_bind_operandOf h⟩
  rw [ha, hb, hnull, valuesOk_iff]
  constructor
  · rintro ⟨hoperand, -, hbranch⟩
    cases hop : operationOf ms with
    | none =>
      have hreq : (requestOf ms).operation = [] := by simp [requestOf, hop]
      rw [hreq] at hbranch
      rcases hbranch with ⟨hmem, -⟩ | ⟨hmem, -⟩ <;> exact absurd hmem (by decide)
    | some op =>
      have hreq : (requestOf ms).operation = op := by simp [requestOf, hop]
      rw [hreq] at hbranch
      exact ⟨op, rfl, hoperand, fun v hv => operand_of_lastOf htyped (by decide) hv, hbranch⟩
  · rintro ⟨op, hop, hoperand, -, hbranch⟩
    have hreq : (requestOf ms).operation = op := by
      rw [requestOf, Option.mem_def.mp hop, Option.getD_some]
    rw [hreq]
    exact ⟨hoperand, fun b hb => isFinite_of_bind_operandOf hb, hbranch⟩

/-- The server accepts the objects that satisfy the schema as the decoder reads them. -/
theorem accepts_iff {P : Primitives} {isPrint : Char → Bool} {D : Reports} {bytes : List UInt8} :
    Accepts P isPrint D bytes ↔ bytes.length ≤ maxBodyBytes ∧
      ∃ v ms, Document (runes bytes) v ∧ v.members? = some ms ∧ SatisfiesFolded ms := by
  constructor
  · rintro ⟨req, spec, hdecode, hvalid⟩
    obtain ⟨hlen, v, ms, hdoc, hms, htyped, rfl⟩ := decodeJSON_bodyOf_eq_ok_iff.mp hdecode
    exact ⟨hlen, v, ms, hdoc, hms, htyped, (validate_requestOf_iff htyped).mp ⟨spec, hvalid⟩⟩
  · rintro ⟨hlen, v, ms, hdoc, hms, htyped, hvalues⟩
    obtain ⟨spec, hvalid⟩ := (validate_requestOf_iff htyped).mpr hvalues
    refine ⟨requestOf ms, spec, decodeJSON_bodyOf_eq_ok_iff.mpr ?_, hvalid⟩
    exact ⟨hlen, v, ms, hdoc, hms, htyped, rfl⟩

theorem mem_propertyNames_iff {name : Text} :
    name ∈ propertyNames ↔ ∃ f : Field, name = f.name := by
  constructor
  · intro h
    simp only [propertyNames, List.mem_cons, List.not_mem_nil, or_false] at h
    rcases h with rfl | rfl | rfl
    · exact ⟨.operation, rfl⟩
    · exact ⟨.a, rfl⟩
    · exact ⟨.b, rfl⟩
  · rintro ⟨f, rfl⟩
    cases f <;> decide

theorem fieldOf_eq_some_iff_of_mem (h : m.1 ∈ propertyNames) :
    fieldOf m.1 = some f ↔ m.1 = f.name := by
  obtain ⟨f', hf'⟩ := mem_propertyNames_iff.mp h
  constructor
  · intro hf
    rw [hf', fieldOf_name] at hf
    cases hf
    exact hf'
  · intro hf
    rw [hf, fieldOf_name]

theorem Exact.of_cons (h : Exact (m :: ms)) : Exact ms :=
  ⟨fun m' hm' => h.names m' (List.mem_cons_of_mem m hm'), (List.nodup_cons.mp h.unique).2⟩

theorem valueOf_eq_none_of_not_mem {name : Text} (h : name ∉ ms.map Prod.fst) :
    valueOf ms name = none := by
  rw [valueOf, Option.map_eq_none_iff, List.find?_eq_none]
  intro m hm heq
  rw [decide_eq_true_eq] at heq
  exact h (heq ▸ List.mem_map_of_mem hm)

theorem Exact.valuesOf_eq (h : Exact ms) (f : Field) :
    valuesOf ms f = (valueOf ms f.name).toList := by
  induction ms with
  | nil => rfl
  | cons m ms ih =>
    have hfield := fieldOf_eq_some_iff_of_mem (f := f) (h.names m List.mem_cons_self)
    have hcons : valuesOf (m :: ms) f =
        if fieldOf m.1 = some f then m.2 :: valuesOf ms f else valuesOf ms f := by
      by_cases hf : fieldOf m.1 = some f <;> simp [valuesOf, hf]
    rw [hcons, ih h.of_cons]
    by_cases hname : m.1 = f.name
    · have hnone : valueOf ms f.name = none := by
        rw [← hname]
        exact valueOf_eq_none_of_not_mem (List.nodup_cons.mp h.unique).1
      rw [if_pos (hfield.mpr hname), hnone]
      simp [valueOf, hname]
    · rw [if_neg (mt hfield.mp hname)]
      simp [valueOf, hname]

theorem Exact.lastOf_eq (h : Exact ms) (f : Field) : lastOf ms f = valueOf ms f.name := by
  rw [lastOf, h.valuesOf_eq]
  cases valueOf ms f.name <;> rfl

theorem Exact.operationOf_eq (h : Exact ms) :
    operationOf ms = (valueOf ms "operation".toList).bind stringOf := by
  have hvalues : valuesOf ms .operation = (valueOf ms "operation".toList).toList :=
    h.valuesOf_eq .operation
  rw [operationOf, hvalues]
  cases valueOf ms "operation".toList with
  | none => rfl
  | some v => cases hv : stringOf v <;> simp [hv]

theorem Exact.valueOf_eq (h : Exact ms) (hm : m ∈ ms) (hname : m.1 = f.name) :
    valueOf ms f.name = some m.2 := by
  have hfield : fieldOf m.1 = some f := by rw [hname, fieldOf_name]
  have hmem : m.2 ∈ valuesOf ms f := List.mem_filterMap.mpr ⟨m, hm, if_pos hfield⟩
  rw [h.valuesOf_eq] at hmem
  exact Option.mem_toList.mp hmem

/-- The schema asks for exact names besides what the decoder asks for. -/
theorem satisfiesSchema_iff : SatisfiesSchema ms ↔ Exact ms ∧ SatisfiesFolded ms := by
  constructor
  · rintro ⟨hexact, hvalues⟩
    refine ⟨hexact, ?_, ?_⟩
    · intro m hm
      obtain ⟨f, hname⟩ := mem_propertyNames_iff.mp (hexact.names m hm)
      refine ⟨f, by rw [hname, fieldOf_name], ?_⟩
      have hvalue := hexact.valueOf_eq hm hname
      cases f with
      | operation =>
        obtain ⟨op, hop, -⟩ := hvalues.operation_mem
        obtain ⟨v, hv, hstring⟩ := Option.bind_eq_some_iff.mp hop
        rw [Option.mem_unique hvalue hv]
        exact Or.inr (Option.isSome_of_eq_some hstring)
      | a =>
        obtain ⟨v, hv, hoperand⟩ := hvalues.a_operand
        rw [Option.mem_unique hvalue hv]
        exact Or.inr (operandOf_isSome_iff.mpr hoperand)
      | b => exact (hvalues.b_operand _ hvalue).imp_right operandOf_isSome_iff.mpr
    · rw [hexact.operationOf_eq, hexact.lastOf_eq, hexact.lastOf_eq]
      exact hvalues
  · rintro ⟨hexact, -, hvalues⟩
    rw [hexact.operationOf_eq, hexact.lastOf_eq, hexact.lastOf_eq] at hvalues
    exact ⟨hexact, hvalues⟩

theorem isAscii_of_operand (h : v = .null ∨ Operand v) : IsAscii v.text := by
  rcases h with rfl | ⟨n, rfl, -⟩
  · exact (by decide : IsAscii nullText)
  · exact n.isAscii

theorem SatisfiesSchema.isAscii (h : SatisfiesSchema ms) (hm : m ∈ ms) :
    IsAscii m.1 ∧ IsAscii m.2.text := by
  obtain ⟨f, hname⟩ := mem_propertyNames_iff.mp (h.exact.names m hm)
  have hvalue := h.exact.valueOf_eq hm hname
  constructor
  · rw [hname]
    cases f <;> decide
  · cases f with
    | operation =>
      have hall : ∀ op ∈ operationNames, IsAscii op := by decide
      obtain ⟨op, hop, hmem⟩ := h.values.operation_mem
      obtain ⟨v, hv, hstring⟩ := Option.bind_eq_some_iff.mp hop
      rw [Option.mem_unique hvalue hv]
      cases v with
      | string ps =>
        cases hstring
        simp [Value.text, isAscii_quotedText (hall _ hmem)]
      | _ => cases hstring
    | a =>
      obtain ⟨v, hv, hoperand⟩ := h.values.a_operand
      rw [Option.mem_unique hvalue hv]
      exact isAscii_of_operand (Or.inr hoperand)
    | b => exact isAscii_of_operand (h.values.b_operand _ hvalue)

theorem contract_iff {bytes : List UInt8} : Contract bytes ↔
    ∃ v ms, Document (runes bytes) v ∧ v.members? = some ms ∧ SatisfiesSchema ms := by
  constructor
  · rintro ⟨t, v, ms, rfl, hdoc, hms, h⟩
    refine ⟨v, ms, ?_, hms, h⟩
    rwa [runes_encode]
  · rintro ⟨v, ms, hdoc, hms, h⟩
    refine ⟨runes bytes, v, ms, (encode_runes ?_).symm, hdoc, hms, h⟩
    intro hbad
    exact absurd (hdoc.isAscii hms (fun m hm => h.isAscii hm) runeError hbad) (by decide)

end Objects

/-- The server accepts exactly the bodies that meet the contract unless a body
satisfies the schema only as the decoder reads its names: with a name in other
cases, or with a name that occurs twice. -/
theorem accepts_iff_contract_iff {P : Primitives} {isPrint : Char → Bool} {D : Reports}
    {bytes : List UInt8} (hlen : bytes.length ≤ maxBodyBytes) :
    (Accepts P isPrint D bytes ↔ Contract bytes) ↔
      ∀ v ms, Document (runes bytes) v → v.members? = some ms → SatisfiesFolded ms → Exact ms := by
  rw [accepts_iff, contract_iff]
  constructor
  · intro h v ms hdoc hms hfolded
    obtain ⟨v', ms', hdoc', hms', hschema⟩ := h.mp ⟨hlen, v, ms, hdoc, hms, hfolded⟩
    cases hdoc.unique hdoc'
    rw [hms] at hms'
    cases hms'
    exact hschema.exact
  · intro h
    constructor
    · rintro ⟨-, v, ms, hdoc, hms, hfolded⟩
      exact ⟨v, ms, hdoc, hms, satisfiesSchema_iff.mpr ⟨h v ms hdoc hms hfolded, hfolded⟩⟩
    · rintro ⟨v, ms, hdoc, hms, hschema⟩
      exact ⟨hlen, v, ms, hdoc, hms, (satisfiesSchema_iff.mp hschema).2⟩

def plain (t : Text) (h : t.all isRaw = true) : List Piece :=
  t.pmap .raw (List.all_eq_true.mp h)

/-- The members of an addition of two digits, under two given names. -/
def addition (operation b : List Piece) : Members :=
  .cons noSpaces operation noSpaces noSpaces (.string (plain "add".toList (by decide))) noSpaces
    (.cons noSpaces (plain ['a'] (by decide)) noSpaces noSpaces (.number ⟨['1'], by decide⟩)
      noSpaces (.last noSpaces b noSpaces noSpaces (.number ⟨['2'], by decide⟩) noSpaces))

def sumText : Text := "\x7b\"operation\":\"add\",\"a\":1,\"b\":2\x7d".toList

def mixedCaseText : Text := "\x7b\"Operation\":\"add\",\"a\":1,\"B\":2\x7d".toList

theorem document_sumText : Document sumText
    (.object (addition (plain "operation".toList (by decide)) (plain ['b'] (by decide)))) :=
  ⟨noSpaces, noSpaces, by decide⟩

theorem document_mixedCaseText : Document mixedCaseText
    (.object (addition (plain "Operation".toList (by decide)) (plain ['B'] (by decide)))) :=
  ⟨noSpaces, noSpaces, by decide⟩

theorem operand_of_magnitude_le {n : Literal} (h : n.magnitude ≤ 10 ^ 308) :
    Operand (.number n) :=
  ⟨n, rfl, Float64.isFinite_ofRat_of_le_pow h⟩

theorem satisfiesFolded_addition {operation b : List Piece}
    (hop : fieldOf (unquote operation) = some .operation) (hb : fieldOf (unquote b) = some .b) :
    SatisfiesFolded (addition operation b).toList := by
  have hone : Operand (.number ⟨['1'], by decide⟩) := operand_of_magnitude_le (by decide +kernel)
  have htwo : Operand (.number ⟨['2'], by decide⟩) := operand_of_magnitude_le (by decide +kernel)
  have ha : fieldOf (unquote (plain ['a'] (by decide))) = some .a := by decide
  constructor
  · intro m hm
    simp only [addition, Members.toList, List.mem_cons, List.not_mem_nil, or_false] at hm
    rcases hm with rfl | rfl | rfl
    · exact ⟨.operation, hop, Or.inr rfl⟩
    · exact ⟨.a, ha, Or.inr (operandOf_isSome_iff.mpr hone)⟩
    · exact ⟨.b, hb, Or.inr (operandOf_isSome_iff.mpr htwo)⟩
  · have hoperation : operationOf (addition operation b).toList = some "add".toList := by
      simp only [operationOf, valuesOf, addition, Members.toList, List.filterMap_cons, hop, ha, hb]
      rfl
    have hlasta : lastOf (addition operation b).toList .a = some (.number ⟨['1'], by decide⟩) := by
      simp only [lastOf, valuesOf, addition, Members.toList, List.filterMap_cons, hop, ha, hb]
      rfl
    have hlastb : lastOf (addition operation b).toList .b = some (.number ⟨['2'], by decide⟩) := by
      simp only [lastOf, valuesOf, addition, Members.toList, List.filterMap_cons, hop, ha, hb]
      rfl
    rw [hoperation, hlasta, hlastb, valuesOk_iff]
    refine ⟨_, rfl, ⟨_, rfl, hone⟩, ?_, Or.inl ⟨by decide, _, rfl, htwo⟩⟩
    rintro _ ⟨⟩
    exact Or.inr htwo

theorem accepts_iff_contract_iff_sum :
    Accepts zeroPrimitives (fun _ => true) ⟨fun _ => .other, fun _ => ⟨.ok (), by simp⟩⟩
      (encode sumText) ↔ Contract (encode sumText) := by
  refine (accepts_iff_contract_iff (by decide)).mpr ?_
  intro v ms hdoc hms _
  rw [runes_encode] at hdoc
  cases hdoc.unique document_sumText
  cases hms
  exact ⟨by decide, by decide⟩

/-- Accepted with names that the schema does not have. -/
theorem mixedCase_accepted_off_contract :
    (encode mixedCaseText).length ≤ maxBodyBytes ∧
      Accepts zeroPrimitives (fun _ => true) ⟨fun _ => .other, fun _ => ⟨.ok (), by simp⟩⟩
        (encode mixedCaseText) ∧ ¬ Contract (encode mixedCaseText) := by
  have hlen : (encode mixedCaseText).length ≤ maxBodyBytes := by decide
  have hdoc := document_mixedCaseText
  rw [← runes_encode mixedCaseText] at hdoc
  refine ⟨hlen, accepts_iff.mpr ⟨hlen, _, _, hdoc, rfl, ?_⟩, ?_⟩
  · exact satisfiesFolded_addition (by decide) (by decide)
  · rw [contract_iff]
    rintro ⟨v, ms, hdoc', hms, hschema⟩
    cases hdoc'.unique hdoc
    cases hms
    exact absurd (hschema.exact.names _ List.mem_cons_self) (by decide)

end Calculator.Backend
