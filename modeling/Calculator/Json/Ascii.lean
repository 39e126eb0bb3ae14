import Calculator.Json.Completeness

/-! # Values within ASCII

Outside of its strings a text of JSON is ASCII, and a string whose decoded text
is ASCII is spelled in ASCII.
-/

namespace Calculator.Json

open Decimal

def IsAscii (t : Text) : Prop := ∀ c ∈ t, c.toNat < 128

instance IsAscii.decidable (t : Text) : Decidable (IsAscii t) :=
  List.decidableBAll _ _

variable {s t : Text} {c : Char} {ps : List Piece}

@[simp] theorem isAscii_nil : IsAscii [] := by simp [IsAscii]

@[simp] theorem isAscii_append : IsAscii (s ++ t) ↔ IsAscii s ∧ IsAscii t := by
  simp only [IsAscii, List.mem_append, or_imp, forall_and]

@[simp] theorem isAscii_cons : IsAscii (c :: t) ↔ c.toNat < 128 ∧ IsAscii t := by
  simp only [IsAscii, List.mem_cons, forall_eq_or_imp]

theorem toNat_lt_of_isDigit (h : c.isDigit = true) : c.toNat < 128 := by
  simp only [Char.isDigit, Bool.and_eq_true, decide_eq_true_eq] at h
  have hle : c.toNat ≤ 57 := h.2
  omega

theorem Spaces.isAscii (s : Spaces) : IsAscii s.1 := by
  intro c hc
  obtain rfl | rfl | rfl | rfl := isSpace_iff.mp (s.2 c hc) <;> decide

theorem Literal.isAscii (n : Literal) : IsAscii n.text := by
  intro c hc
  have hchar := (isNumber_spec n.valid).1 c hc
  simp only [isNumberChar, Bool.or_eq_true, decide_eq_true_eq] at hchar
  rcases hchar with ((((hdigit | rfl) | rfl) | rfl) | rfl) | rfl
  · exact toNat_lt_of_isDigit hdigit
  all_goals decide

theorem toNat_lt_of_isHex (h : isHex c = true) : c.toNat < 128 := by
  simp only [isHex, Bool.or_eq_true, Bool.and_eq_true, decide_eq_true_eq] at h
  rcases h with (hdigit | ⟨-, hle⟩) | ⟨-, hle⟩
  · exact toNat_lt_of_isDigit hdigit
  · have hle' : c.toNat ≤ 102 := hle
    omega
  · have hle' : c.toNat ≤ 70 := hle
    omega

theorem toNat_lt_of_isEscape (h : isEscape c = true) : c.toNat < 128 := by
  simp only [isEscape, List.mem_cons, List.not_mem_nil, or_false, decide_eq_true_eq] at h
  rcases h with rfl | rfl | rfl | rfl | rfl | rfl | rfl | rfl <;> decide

theorem Piece.isAscii {p : Piece} (h : ∀ c ∈ p.unit.getLeft?, c.toNat < 128) : IsAscii p.text := by
  cases p with
  | raw c _ =>
    rw [Piece.text, isAscii_cons]
    exact ⟨h c rfl, isAscii_nil⟩
  | escape c hc =>
    simp [Piece.text, toNat_lt_of_isEscape hc]
  | unicode a b c d hhex =>
    simp only [List.all_cons, List.all_nil, Bool.and_true, Bool.and_eq_true] at hhex
    obtain ⟨ha, hb, hc, hd⟩ := hhex
    simp [Piece.text, toNat_lt_of_isHex ha, toNat_lt_of_isHex hb, toNat_lt_of_isHex hc,
      toNat_lt_of_isHex hd]

theorem mem_joinUnits {us : List (Char ⊕ ℕ)} (h : .inl c ∈ us) : c ∈ joinUnits us := by
  induction us using joinUnits.induct with
  | case1 => cases h
  | case2 d us ih =>
    rw [joinUnits, List.mem_cons]
    rcases List.mem_cons.mp h with heq | h
    · exact Or.inl (Sum.inl.inj heq)
    · exact Or.inr (ih h)
  | case3 n m us hpair ih =>
    rw [joinUnits, if_pos hpair]
    have hus : .inl c ∈ us := by simpa using h
    exact List.mem_cons_of_mem _ (ih hus)
  | case4 n m us hpair ih =>
    rw [joinUnits, if_neg hpair]
    have hus : .inl c ∈ .inr m :: us := by simpa using h
    exact List.mem_cons_of_mem _ (ih hus)
  | case5 n us hne ih =>
    rw [joinUnits]
    · have hus : .inl c ∈ us := by simpa using h
      exact List.mem_cons_of_mem _ (ih hus)
    · exact hne

theorem isAscii_quotedText (h : IsAscii (unquote ps)) : IsAscii (quotedText ps) := by
  rw [quotedText, isAscii_append]
  refine ⟨?_, by simp⟩
  intro c hc
  obtain ⟨p, hp, hc⟩ := List.mem_flatMap.mp hc
  refine Piece.isAscii (fun d hd => h d (mem_joinUnits ?_)) c hc
  rw [← Sum.getLeft?_eq_some_iff.mp hd]
  exact List.mem_map_of_mem hp

theorem Members.isAscii : ∀ {ms : Members},
    (∀ m ∈ ms.toList, IsAscii m.1 ∧ IsAscii m.2.text) → IsAscii ms.text
  | .last s name s₁ s₂ v s', h => by
    obtain ⟨hname, hv⟩ := h _ List.mem_cons_self
    simp [Members.text, Spaces.isAscii, isAscii_quotedText hname, hv]
  | .cons s name s₁ s₂ v s' ms, h => by
    obtain ⟨hname, hv⟩ := h _ List.mem_cons_self
    have hms : IsAscii ms.text := Members.isAscii fun m hm => h m (List.mem_cons_of_mem _ hm)
    simp [Members.text, Spaces.isAscii, isAscii_quotedText hname, hv, hms]

theorem Document.isAscii {v : Value} {ms : List (Text × Value)} (hdoc : Document t v)
    (hms : v.members? = some ms) (h : ∀ m ∈ ms, IsAscii m.1 ∧ IsAscii m.2.text) : IsAscii t := by
  obtain ⟨s, s', rfl⟩ := hdoc
  rw [isAscii_append, isAscii_append]
  refine ⟨s.isAscii, ?_, s'.isAscii⟩
  cases v with
  | emptyObject s => simp [Value.text, Spaces.isAscii]
  | object members =>
    cases hms
    simp [Value.text, Members.isAscii h]
  | _ => cases hms

end Calculator.Json
