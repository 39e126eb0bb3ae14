import Calculator.Backend.Validate

/-! # Validation and evaluation agree

The rules for a request are written twice, once for the body of the request and
once for the evaluation. A request with a first operand passes the check exactly
if its evaluation does not fail on the operation or on an operand, and a failed
check names the fields at fault.
-/

namespace Calculator.Backend

open Binary Decimal

/-- The failures of an evaluation that its arguments decide before anything is
computed. -/
def ArgumentFault (op : Text) (err : Error) : Prop :=
  err.is .unknownOperation = true ∨ err.is .arity = true ∨
    ∃ operand, (operand = 'a' ∨ operand = 'b') ∧
      err = .wrap (op ++ ": operand ".toList ++ [operand, ':', ' ']) (.sentinel .notFinite)

section Evaluate

variable {P : Primitives} {isPrint : Char → Bool} {registry : List Spec} {op : Text}
  {a : Float64} {b : Option Float64} {spec : Spec}

structure FitsSpec (spec : Spec) (a : Float64) (b : Option Float64) : Prop where
  two : spec.arity = 2 → b ≠ none
  one : spec.arity = 1 → b = none
  a : a.isFinite = true
  b : ∀ x ∈ b, x.isFinite = true

theorem evaluate_of_not_fits (hl : lookup registry op = some spec) (h : ¬ FitsSpec spec a b) :
    ∃ err, evaluate isPrint registry op a b = .error err ∧ ArgumentFault op err := by
  unfold evaluate
  rw [hl]
  dsimp only
  split
  · exact ⟨_, rfl, Or.inr (Or.inl (by simp))⟩
  · next h2 =>
    split
    · exact ⟨_, rfl, Or.inr (Or.inl (by simp))⟩
    · next h1 =>
      split
      · exact ⟨_, rfl, Or.inr (Or.inr ⟨'a', Or.inl rfl, by simp⟩)⟩
      · next ha =>
        split
        · exact ⟨_, rfl, Or.inr (Or.inr ⟨'b', Or.inr rfl, by simp⟩)⟩
        · next hb =>
          refine absurd ⟨fun h hn => h2 ⟨h, hn⟩, fun h => ?_, by simpa using ha, ?_⟩ h
          · by_contra hn
            exact h1 ⟨h, hn⟩
          · rintro x hx
            rw [Option.mem_def] at hx
            simpa [hx] using hb

theorem evaluate_of_fits (hl : lookup (newRegistry P) op = some spec) (h : FitsSpec spec a b)
    {err : Error} (he : evaluate isPrint (newRegistry P) op a b = .error err) :
    ¬ ArgumentFault op err := by
  rw [evaluate_of_lookup hl h.two h.one h.a h.b] at he
  split at he
  · next e hfn =>
    cases he
    have hdomain := fn_error_of_mem (mem_of_lookup hl) hfn
    rintro (hf | hf | ⟨operand, -, hf⟩)
    · rw [Error.is_wrap, Error.is_sentinel] at hf
      subst hf
      simp at hdomain
    · rw [Error.is_wrap, Error.is_sentinel] at hf
      subst hf
      simp at hdomain
    · obtain ⟨-, hf⟩ := Error.wrap.inj hf
      cases hf
      simp at hdomain
  · split at he
    · cases he
      rintro (hf | hf | ⟨operand, -, hf⟩)
      · simp at hf
      · simp at hf
      · -- the text tells a result from an operand
        simp at hf
    · cases he

/-- An evaluation does not fail on its arguments exactly if the operation is
known and the operands fit. -/
theorem not_argumentFault_iff :
    (∀ err, evaluate isPrint (newRegistry P) op a b = .error err → ¬ ArgumentFault op err) ↔
      ∃ spec, lookup (newRegistry P) op = some spec ∧ FitsSpec spec a b := by
  constructor
  · intro h
    cases hl : lookup (newRegistry P) op with
    | none =>
      refine absurd (Or.inl ?_) (h (.wrap _ (.sentinel .unknownOperation)) (by rw [evaluate, hl]))
      simp
    | some spec =>
      refine ⟨spec, rfl, ?_⟩
      by_contra hfits
      obtain ⟨err, herr, hfault⟩ : ∃ err,
          evaluate isPrint (newRegistry P) op a b = .error err ∧ ArgumentFault op err :=
        evaluate_of_not_fits hl hfits
      exact h err herr hfault
  · rintro ⟨spec, hl, hfits⟩ err herr
    exact evaluate_of_fits hl hfits herr

end Evaluate

section Validate

variable {P : Primitives} {isPrint : Char → Bool} {registry : List Spec} {req : CalculateRequest}

/-- The fields of a request that are missing or no finite numbers. -/
inductive Offending (registry : List Spec) (req : CalculateRequest) : Text → Prop
  | operation (h : req.operation = []) : Offending registry req "operation".toList
  | aMissing (h : req.a = none) : Offending registry req ['a']
  | aNotFinite {a : Float64} (h : req.a = some a) (ha : a.isFinite = false) :
    Offending registry req ['a']
  | bNotFinite {b : Float64} (h : req.b = some b) (hb : b.isFinite = false) :
    Offending registry req ['b']
  | bMissing {spec : Spec} (h : req.b = none) (hl : lookup registry req.operation = some spec)
      (h2 : spec.arity = 2) : Offending registry req ['b']

theorem lookup_nil (P : Primitives) : lookup (newRegistry P) [] = none := rfl

theorem validate_isOk_iff {a : Float64} (ha : req.a = some a) :
    (∃ spec, validate (newRegistry P) isPrint req = .ok spec) ↔
      ∃ spec, lookup (newRegistry P) req.operation = some spec ∧ FitsSpec spec a req.b := by
  apply exists_congr
  intro spec
  rw [validate_ok_iff, ha]
  constructor
  · rintro ⟨-, hl, ⟨_, ⟨⟩, hfin⟩, hb, h2, h1⟩
    exact ⟨hl, h2, h1, hfin, hb⟩
  · rintro ⟨hl, h2, h1, hfin, hb⟩
    refine ⟨fun hop => ?_, hl, ⟨a, rfl, hfin⟩, hb, h2, h1⟩
    rw [hop, lookup_nil] at hl
    cases hl

theorem validate_validationFailed {p : Problem} (h : validate registry isPrint req = .error p)
    (hcode : p.code = .validationFailed) : p.errors = fieldErrors registry isPrint req := by
  unfold validate at h
  dsimp only at h
  split at h
  · cases h
    rfl
  · split at h
    · cases h
      cases hcode
    · split at h
      · cases h
        cases hcode
      · cases h

/-- The errors of a check on one field: at most one, which names the field. -/
def Names (name : Text) (errs : List FieldError) : Prop :=
  errs = [] ∨ errs.map FieldError.field = [name]

namespace Names

variable {name f : Text} {errs : List FieldError}

theorem sublist (h : Names name errs) : (errs.map FieldError.field).Sublist [name] := by
  rcases h with rfl | h
  · exact List.nil_sublist _
  · rw [h]

theorem mem_iff (h : Names name errs) :
    f ∈ errs.map FieldError.field ↔ f = name ∧ errs ≠ [] := by
  rcases h with rfl | h
  · simp
  · have hne : errs ≠ [] := by
      rintro rfl
      cases h
    rw [h, List.mem_singleton, and_iff_left hne]

end Names

theorem names_operationErrors : Names "operation".toList (operationErrors req) := by
  unfold operationErrors
  split
  · exact Or.inr rfl
  · exact Or.inl rfl

theorem names_aErrors : Names ['a'] (aErrors req) := by
  unfold aErrors
  split
  · exact Or.inr rfl
  · split
    · exact Or.inl rfl
    · exact Or.inr rfl

theorem names_bErrors : Names ['b'] (bErrors req ++ arityErrors registry isPrint req) := by
  cases hreq : req.b with
  | none =>
    rw [bErrors_eq_nil_iff.mpr (by simp [hreq]), List.nil_append]
    unfold arityErrors
    split
    · exact Or.inl rfl
    · split
      · exact Or.inr rfl
      · exact Or.inl rfl
  | some b =>
    rw [arityErrors_eq_nil_iff.mpr (by simp [hreq]), List.append_nil]
    unfold bErrors
    split
    · exact Or.inl rfl
    · split
      · exact Or.inl rfl
      · exact Or.inr rfl

theorem map_field_fieldErrors_sublist :
    ((fieldErrors registry isPrint req).map FieldError.field).Sublist
      ["operation".toList, ['a'], ['b']] := by
  rw [fieldErrors, List.map_append, List.map_append]
  exact names_operationErrors.sublist.append (names_aErrors.sublist.append names_bErrors.sublist)

theorem mem_map_field_fieldErrors {f : Text} :
    f ∈ (fieldErrors registry isPrint req).map FieldError.field ↔ Offending registry req f := by
  rw [fieldErrors, List.map_append, List.map_append, List.mem_append, List.mem_append,
    names_operationErrors.mem_iff, names_aErrors.mem_iff, names_bErrors.mem_iff, ne_eq, ne_eq,
    ne_eq, operationErrors_eq_nil_iff, aErrors_eq_nil_iff, List.append_eq_nil_iff,
    bErrors_eq_nil_iff, arityErrors_eq_nil_iff]
  constructor
  · rintro (⟨rfl, hop⟩ | ⟨rfl, ha⟩ | ⟨rfl, hb⟩)
    · exact .operation (not_not.mp hop)
    · cases hreq : req.a with
      | none => exact .aMissing hreq
      | some a => exact .aNotFinite hreq (by simpa [hreq] using ha)
    · cases hreq : req.b with
      | none =>
        have hmissing : ∃ spec, lookup registry req.operation = some spec ∧ spec.arity = 2 := by
          simpa [hreq] using hb
        obtain ⟨spec, hl, h2⟩ := hmissing
        exact .bMissing hreq hl h2
      | some b => exact .bNotFinite hreq (by simpa [hreq] using hb)
  · rintro (hop | ha | ⟨ha, hfin⟩ | ⟨hb, hfin⟩ | ⟨hb, hl, h2⟩)
    · exact Or.inl ⟨rfl, not_not_intro hop⟩
    · exact Or.inr (Or.inl ⟨rfl, by simp [ha]⟩)
    · exact Or.inr (Or.inl ⟨rfl, by simp [ha, hfin]⟩)
    · exact Or.inr (Or.inr ⟨rfl, by simp [hb, hfin]⟩)
    · exact Or.inr (Or.inr ⟨rfl, fun h => h.2 _ hl h2 hb⟩)

/-- Over the registry of the server, a request with a first operand passes the
check exactly if its evaluation does not fail on its arguments; and if the check
fails on the fields, the errors name each field at fault once, in order. -/
theorem validate_agrees_with_evaluate (P : Primitives) (isPrint : Char → Bool)
    (req : CalculateRequest) :
    (∀ a, req.a = some a →
      ((∃ spec, validate (newRegistry P) isPrint req = .ok spec) ↔
        ∀ err, evaluate isPrint (newRegistry P) req.operation a req.b = .error err →
          ¬ ArgumentFault req.operation err)) ∧
    ∀ p, validate (newRegistry P) isPrint req = .error p → p.code = .validationFailed →
      (p.errors.map FieldError.field).Sublist ["operation".toList, ['a'], ['b']] ∧
      ∀ f, f ∈ p.errors.map FieldError.field ↔ Offending (newRegistry P) req f := by
  constructor
  · intro a ha
    rw [not_argumentFault_iff]
    exact validate_isOk_iff ha
  · intro p hp hcode
    rw [validate_validationFailed hp hcode]
    exact ⟨map_field_fieldErrors_sublist, fun f => mem_map_field_fieldErrors⟩

end Validate

end Calculator.Backend
