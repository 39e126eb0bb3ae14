import Calculator.Json.Completeness

/-! # Writing JSON

Values without white space, whose texts a writer puts together from the texts of
their parts. A writer chooses how it spells the characters of its strings; what
it quotes is what is read back.
-/

namespace Calculator.Json

open Decimal

/-- A piece stands for a character, as itself or as a code unit that is no surrogate. -/
def Piece.Denotes (p : Piece) (c : Char) : Prop :=
  p.unit = .inl c ∨ ∃ n < 0xD800, p.unit = .inr n ∧ Char.ofNat n = c

structure Quotation where
  piece : Char → Piece
  piece_denotes : ∀ c, (piece c).Denotes c

namespace Quotation

variable (q : Quotation)

def quote (t : Text) : List Piece := t.map q.piece

theorem joinUnits_unit {n : ℕ} (hn : n < 0xD800) (us : List (Char ⊕ ℕ)) :
    joinUnits (.inr n :: us) = Char.ofNat n :: joinUnits us := by
  have hunit : charOfUnit n = Char.ofNat n := if_neg fun h => absurd h.1 (by omega)
  cases us with
  | nil => simp [joinUnits, hunit]
  | cons u us =>
    cases u with
    | inl c => simp [joinUnits, hunit]
    | inr m =>
      have hpair : ¬ IsPair n m := fun h => absurd h.1 (by omega)
      rw [joinUnits, if_neg hpair, hunit]

theorem joinUnits_denotes {p : Piece} {c : Char} (h : p.Denotes c) (us : List (Char ⊕ ℕ)) :
    joinUnits (p.unit :: us) = c :: joinUnits us := by
  rcases h with h | ⟨n, hn, h, rfl⟩
  · rw [h, joinUnits]
  · rw [h, joinUnits_unit hn]

@[simp] theorem unquote_quote (t : Text) : unquote (q.quote t) = t := by
  induction t with
  | nil => rfl
  | cons c t ih =>
    have hstep := joinUnits_denotes (q.piece_denotes c) ((q.quote t).map Piece.unit)
    rw [quote, List.map_cons, unquote, List.map_cons]
    exact hstep.trans (congrArg (c :: ·) ih)

theorem quotedText_quote (t : Text) :
    quotedText (q.quote t) = t.flatMap (fun c => (q.piece c).text) ++ ['"'] := by
  rw [quotedText, quote, List.flatMap_map]

end Quotation

def unicodeEscape (n : ℕ) : Piece :=
  .unicode (Nat.digitChar (n / 4096 % 16)) (Nat.digitChar (n / 256 % 16))
    (Nat.digitChar (n / 16 % 16)) (Nat.digitChar (n % 16)) (by
      have hhex : ∀ d < 16, isHex (Nat.digitChar d) = true := by decide
      simp [hhex, Nat.mod_lt])

theorem hexValue_digitChar : ∀ d < 16, hexValue (Nat.digitChar d) = d := by decide

theorem unicodeEscape_unit {n : ℕ} (hn : n < 65536) : (unicodeEscape n).unit = .inr n := by
  have hvalue (m : ℕ) : hexValue (Nat.digitChar (m % 16)) = m % 16 :=
    hexValue_digitChar _ (Nat.mod_lt _ (by decide))
  simp only [unicodeEscape, Piece.unit, List.foldl_cons, List.foldl_nil, hvalue, Sum.inr.injEq]
  omega

/-- The quote, the backslash and control characters are escaped, and so are the
characters that the writer avoids. -/
def escapePiece (avoided : Char → Bool) (c : Char) : Piece :=
  if hraw : isRaw c = true then
    if avoided c then unicodeEscape c.toNat else .raw c hraw
  else if c = '"' then .escape '"' rfl
  else if c = '\\' then .escape '\\' rfl
  else if c = '\x08' then .escape 'b' rfl
  else if c = '\x0C' then .escape 'f' rfl
  else if c = '\n' then .escape 'n' rfl
  else if c = '\r' then .escape 'r' rfl
  else if c = '\t' then .escape 't' rfl
  else unicodeEscape c.toNat

theorem toNat_lt_of_not_isRaw {c : Char} (h : ¬ isRaw c = true) : c.toNat < 0x80 := by
  by_contra hge
  have hspace : ' ' ≤ c := Char.le_def.mpr (by
    show (0x20 : ℕ) ≤ c.toNat
    omega)
  apply h
  simp only [isRaw, hspace, decide_true, Bool.true_and, Bool.and_eq_true, decide_eq_true_eq]
  constructor <;>
  · rintro rfl
    exact hge (by decide)

theorem unicodeEscape_denotes {c : Char} (h : c.toNat < 0xD800) :
    (unicodeEscape c.toNat).Denotes c :=
  Or.inr ⟨c.toNat, h, unicodeEscape_unit (by omega), Char.ofNat_toNat c⟩

theorem escapePiece_denotes {avoided : Char → Bool}
    (h : ∀ c, avoided c = true → c.toNat < 0xD800) (c : Char) :
    (escapePiece avoided c).Denotes c := by
  unfold escapePiece
  split
  · split
    · next ha => exact unicodeEscape_denotes (h c ha)
    · exact Or.inl rfl
  · next hraw =>
    have hlt := toNat_lt_of_not_isRaw hraw
    split_ifs with h₁ h₂ h₃ h₄ h₅ h₆ h₇
    · exact Or.inl (congrArg Sum.inl h₁.symm)
    · exact Or.inl (congrArg Sum.inl h₂.symm)
    · exact Or.inl (congrArg Sum.inl h₃.symm)
    · exact Or.inl (congrArg Sum.inl h₄.symm)
    · exact Or.inl (congrArg Sum.inl h₅.symm)
    · exact Or.inl (congrArg Sum.inl h₆.symm)
    · exact Or.inl (congrArg Sum.inl h₇.symm)
    · exact unicodeEscape_denotes (by omega)

/-- The quotation with escapes, of which none stands for a character beyond the
surrogates. -/
def escaping (avoided : Char → Bool) (h : ∀ c, avoided c = true → c.toNat < 0xD800) :
    Quotation where
  piece := escapePiece avoided
  piece_denotes := escapePiece_denotes h

def elementsOf (v : Value) : List Value → Elements
  | [] => .last noSpaces v noSpaces
  | w :: vs => .cons noSpaces v noSpaces (elementsOf w vs)

def arrayOf : List Value → Value
  | [] => .emptyArray noSpaces
  | v :: vs => .array (elementsOf v vs)

def membersOf (m : List Piece × Value) : List (List Piece × Value) → Members
  | [] => .last noSpaces m.1 noSpaces noSpaces m.2 noSpaces
  | m' :: ms => .cons noSpaces m.1 noSpaces noSpaces m.2 noSpaces (membersOf m' ms)

def objectOf : List (List Piece × Value) → Value
  | [] => .emptyObject noSpaces
  | m :: ms => .object (membersOf m ms)

def memberText (m : List Piece × Value) : Text := '"' :: (quotedText m.1 ++ ':' :: m.2.text)

theorem elementsOf_text (v : Value) (vs : List Value) :
    (elementsOf v vs).text = [','].intercalate ((v :: vs).map Value.text) ++ [']'] := by
  induction vs generalizing v with
  | nil => simp [elementsOf, Elements.text]
  | cons w vs ih => simp [elementsOf, Elements.text, ih]

theorem arrayOf_text (vs : List Value) :
    (arrayOf vs).text = '[' :: ([','].intercalate (vs.map Value.text) ++ [']']) := by
  cases vs with
  | nil => rfl
  | cons v vs => rw [arrayOf, Value.text, elementsOf_text]

theorem membersOf_text (m : List Piece × Value) (ms : List (List Piece × Value)) :
    (membersOf m ms).text = [','].intercalate ((m :: ms).map memberText) ++ ['\x7d'] := by
  induction ms generalizing m with
  | nil => simp [membersOf, Members.text, memberText]
  | cons m' ms ih => simp [membersOf, Members.text, memberText, ih]

theorem objectOf_text (ms : List (List Piece × Value)) :
    (objectOf ms).text = '\x7b' :: ([','].intercalate (ms.map memberText) ++ ['\x7d']) := by
  cases ms with
  | nil => rfl
  | cons m ms => rw [objectOf, Value.text, membersOf_text]

theorem membersOf_toList (m : List Piece × Value) (ms : List (List Piece × Value)) :
    (membersOf m ms).toList = (m :: ms).map fun m => (unquote m.1, m.2) := by
  induction ms generalizing m with
  | nil => rfl
  | cons m' ms ih => simp [membersOf, Members.toList, ih]

theorem objectOf_members? (ms : List (List Piece × Value)) :
    (objectOf ms).members? = some (ms.map fun m => (unquote m.1, m.2)) := by
  cases ms with
  | nil => rfl
  | cons m ms => rw [objectOf, Value.members?, membersOf_toList]

theorem document_text (v : Value) : Document v.text v :=
  ⟨noSpaces, noSpaces, by simp⟩

end Calculator.Json
