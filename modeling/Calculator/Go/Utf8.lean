import Calculator.Decimal.Numeral

/-! # UTF-8

The bytes of a text, and the runes of a run of bytes, where a byte that starts
no character counts as the replacement character. Runes without a replacement
character are those of their own bytes only.
-/

namespace Calculator.Go

open Decimal

def encode (t : Text) : List UInt8 := t.flatMap String.utf8EncodeChar

def runeError : Char := Char.ofNat 0xFFFD

def decodeRune (bs : List UInt8) : Char × ℕ :=
  match bs.toByteArray.utf8DecodeChar? 0 with
  | some c => (c, c.utf8Size)
  | none => (runeError, 1)

def runesFrom : ℕ → List UInt8 → Text
  | _, [] => []
  | 0, b :: bs => (decodeRune (b :: bs)).1 :: runesFrom ((decodeRune (b :: bs)).2 - 1) bs
  | n + 1, _ :: bs => runesFrom n bs

def runes (bs : List UInt8) : Text := runesFrom 0 bs

section Runes

variable {bs : List UInt8}

theorem runesFrom_eq (n : ℕ) (bs : List UInt8) : runesFrom n bs = runes (bs.drop n) := by
  induction bs generalizing n with
  | nil => cases n <;> rfl
  | cons b bs ih =>
    cases n with
    | zero => rfl
    | succ n => exact ih n

theorem decodeRune_append (c : Char) (bs : List UInt8) :
    decodeRune (String.utf8EncodeChar c ++ bs) = (c, c.utf8Size) := by
  rw [decodeRune, List.toByteArray_append, ByteArray.utf8DecodeChar?_utf8EncodeChar_append]

theorem runes_append (c : Char) (bs : List UInt8) :
    runes (String.utf8EncodeChar c ++ bs) = c :: runes bs := by
  obtain ⟨b, rest, hb⟩ := List.exists_cons_of_ne_nil (@String.utf8EncodeChar_ne_nil c)
  have hsize : c.utf8Size = rest.length + 1 := by
    rw [← String.length_utf8EncodeChar, hb, List.length_cons]
  have hfirst := decodeRune_append c bs
  rw [hb, List.cons_append] at hfirst
  rw [hb, List.cons_append, runes, runesFrom, hfirst, hsize]
  dsimp only
  rw [Nat.add_sub_cancel, runesFrom_eq, List.drop_left]

@[simp] theorem runes_encode (t : Text) : runes (encode t) = t := by
  induction t with
  | nil => rfl
  | cons c t ih => rw [encode, List.flatMap_cons, runes_append, ← encode, ih]

theorem runes_cases (bs : List UInt8) (hne : bs ≠ []) :
    runeError ∈ runes bs ∨ ∃ c rest, bs = String.utf8EncodeChar c ++ rest := by
  obtain ⟨b, bs, rfl⟩ := List.exists_cons_of_ne_nil hne
  cases hfirst : (b :: bs).toByteArray.utf8DecodeChar? 0 with
  | none =>
    left
    rw [runes, runesFrom, decodeRune, hfirst]
    exact List.mem_cons_self
  | some c =>
    right
    obtain ⟨⟨⟨rest⟩⟩, hrest⟩ := ByteArray.exists_of_utf8DecodeChar?_eq_some hfirst
    refine ⟨c, rest, ?_⟩
    rw [← List.toByteArray_inj, List.toByteArray_append, hrest]
    congr 1
    exact (ByteArray.ext (by simp)).symm

/-- No byte is lost where none is replaced. -/
theorem encode_runes (h : runeError ∉ runes bs) : encode (runes bs) = bs := by
  -- on the number of bytes, a character at a time
  induction hn : bs.length using Nat.strong_induction_on generalizing bs with
  | _ n ih =>
    by_cases hne : bs = []
    · subst hne
      rfl
    · rcases runes_cases bs hne with hbad | ⟨c, rest, rfl⟩
      · exact absurd hbad h
      · rw [runes_append] at h ⊢
        have hlt : rest.length < n := by
          rw [← hn, List.length_append, String.length_utf8EncodeChar]
          have := c.utf8Size_pos
          omega
        have hrest := ih _ hlt (List.not_mem_of_not_mem_cons h) rfl
        rw [encode, List.flatMap_cons, ← encode, hrest]

end Runes

end Calculator.Go
