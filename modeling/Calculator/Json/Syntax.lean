import Calculator.Decimal.Numeral

/-! # JSON texts

The concrete syntax of JSON: values with their white space, their numbers as
they are spelled and their strings with their escapes, so that a value has one
text. The decoded text of a string joins the surrogate pairs among its escapes.
-/

namespace Calculator.Json

open Decimal

def isSpace (c : Char) : Bool := c = ' ' || c = '\t' || c = '\n' || c = '\r'

theorem isSpace_iff {c : Char} :
    isSpace c = true ↔ c = ' ' ∨ c = '\t' ∨ c = '\n' ∨ c = '\r' := by
  simp [isSpace, or_assoc]

/-- White space between tokens. -/
abbrev Spaces := { t : Text // ∀ c ∈ t, isSpace c = true }

def noSpaces : Spaces := ⟨[], fun _ hc => absurd hc List.not_mem_nil⟩

@[simp] theorem noSpaces_val : noSpaces.1 = [] := rfl

def isNumberChar (c : Char) : Bool :=
  c.isDigit || c = '-' || c = '+' || c = '.' || c = 'e' || c = 'E'

def unsigned : Text → Text
  | '-' :: t => t
  | t => t

/-- Digits without a leading zero, with a fraction and an exponent part or
without, after a minus sign or not. -/
def isNumber (t : Text) : Bool :=
  let whole := (unsigned t).takeWhile Char.isDigit
  let rest := (unsigned t).dropWhile Char.isDigit
  let fraction := scanFraction rest
  whole ≠ [] && (whole = ['0'] || whole.head? ≠ some '0') &&
    (rest.head? ≠ some '.' || fraction.1 ≠ []) && (scanExponent fraction.2).isSome

structure Literal where
  text : Text
  valid : isNumber text = true

namespace Literal

def negative (n : Literal) : Bool := n.text.head? = some '-'

def magnitude (n : Literal) : ℚ := (scanDecimal (unsigned n.text)).getD 0

end Literal

def isHex (c : Char) : Bool :=
  c.isDigit || ('a' ≤ c && c ≤ 'f') || ('A' ≤ c && c ≤ 'F')

def isRaw (c : Char) : Bool := ' ' ≤ c && c ≠ '"' && c ≠ '\\'

/-- The characters that follow a backslash, other than the `u`. -/
def isEscape (c : Char) : Bool := c ∈ ['"', '\\', '/', 'b', 'f', 'n', 'r', 't']

inductive Piece where
  | raw (c : Char) (h : isRaw c = true)
  | escape (c : Char) (h : isEscape c = true)
  | unicode (a b c d : Char) (h : [a, b, c, d].all isHex = true)

namespace Piece

def text : Piece → Text
  | raw c _ => [c]
  | escape c _ => ['\\', c]
  | unicode a b c d _ => ['\\', 'u', a, b, c, d]

end Piece

def quotedText (ps : List Piece) : Text := ps.flatMap Piece.text ++ ['"']

def unescape (c : Char) : Char :=
  if c = 'b' then Char.ofNat 8
  else if c = 'f' then Char.ofNat 12
  else if c = 'n' then '\n'
  else if c = 'r' then '\r'
  else if c = 't' then '\t'
  else c

def hexValue (c : Char) : ℕ :=
  if c.isDigit then c.toNat - '0'.toNat
  else if 'a' ≤ c then c.toNat - 'a'.toNat + 10
  else c.toNat - 'A'.toNat + 10

def replacementChar : Char := Char.ofNat 0xFFFD

def charOfUnit (n : ℕ) : Char := if 0xD800 ≤ n ∧ n < 0xE000 then replacementChar else Char.ofNat n

/-- What a piece stands for: a character, or a code unit of UTF-16. -/
def Piece.unit : Piece → Char ⊕ ℕ
  | raw c _ => .inl c
  | escape c _ => .inl (unescape c)
  | unicode a b c d _ => .inr ([a, b, c, d].foldl (fun n x => 16 * n + hexValue x) 0)

/-- The first and the second half of a surrogate pair. -/
def IsPair (n m : ℕ) : Prop := 0xD800 ≤ n ∧ n < 0xDC00 ∧ 0xDC00 ≤ m ∧ m < 0xE000

instance (n m : ℕ) : Decidable (IsPair n m) :=
  inferInstanceAs (Decidable (0xD800 ≤ n ∧ n < 0xDC00 ∧ 0xDC00 ≤ m ∧ m < 0xE000))

/-- The characters of a string, with its surrogate pairs joined. -/
def joinUnits : List (Char ⊕ ℕ) → Text
  | [] => []
  | .inl c :: us => c :: joinUnits us
  | .inr n :: .inr m :: us =>
    if IsPair n m then
      Char.ofNat (0x10000 + (n - 0xD800) * 0x400 + (m - 0xDC00)) :: joinUnits us
    else charOfUnit n :: joinUnits (.inr m :: us)
  | .inr n :: us => charOfUnit n :: joinUnits us

def unquote (ps : List Piece) : Text := joinUnits (ps.map Piece.unit)

mutual

inductive Value where
  | null
  | boolean (b : Bool)
  | number (n : Literal)
  | string (ps : List Piece)
  | emptyArray (s : Spaces)
  | array (es : Elements)
  | emptyObject (s : Spaces)
  | object (ms : Members)

/-- What follows the opening bracket, the white space around each value included. -/
inductive Elements where
  | last (s : Spaces) (v : Value) (s' : Spaces)
  | cons (s : Spaces) (v : Value) (s' : Spaces) (es : Elements)

/-- What follows the opening brace: white space, a name, white space around the
colon, a value and white space. -/
inductive Members where
  | last (s : Spaces) (name : List Piece) (s₁ s₂ : Spaces) (v : Value) (s' : Spaces)
  | cons (s : Spaces) (name : List Piece) (s₁ s₂ : Spaces) (v : Value) (s' : Spaces)
    (ms : Members)

end

def nullText : Text := ['n', 'u', 'l', 'l']

def booleanText : Bool → Text
  | true => ['t', 'r', 'u', 'e']
  | false => ['f', 'a', 'l', 's', 'e']

mutual

def Value.text : Value → Text
  | .null => nullText
  | .boolean b => booleanText b
  | .number n => n.text
  | .string ps => '"' :: quotedText ps
  | .emptyArray s => '[' :: (s.1 ++ [']'])
  | .array es => '[' :: es.text
  | .emptyObject s => '\x7b' :: (s.1 ++ ['\x7d'])
  | .object ms => '\x7b' :: ms.text

def Elements.text : Elements → Text
  | .last s v s' => s.1 ++ (v.text ++ (s'.1 ++ [']']))
  | .cons s v s' es => s.1 ++ (v.text ++ (s'.1 ++ ',' :: es.text))

def Members.text : Members → Text
  | .last s name s₁ s₂ v s' =>
    s.1 ++ '"' :: (quotedText name ++ (s₁.1 ++ ':' :: (s₂.1 ++ (v.text ++ (s'.1 ++ ['\x7d'])))))
  | .cons s name s₁ s₂ v s' ms =>
    s.1 ++ '"' :: (quotedText name ++
      (s₁.1 ++ ':' :: (s₂.1 ++ (v.text ++ (s'.1 ++ ',' :: ms.text)))))

end

/-- The text is the value's, with white space around it. -/
def Document (t : Text) (v : Value) : Prop := ∃ s s' : Spaces, t = s.1 ++ (v.text ++ s'.1)

def Members.toList : Members → List (Text × Value)
  | .last _ name _ _ v _ => [(unquote name, v)]
  | .cons _ name _ _ v _ ms => (unquote name, v) :: ms.toList

def Value.members? : Value → Option (List (Text × Value))
  | .emptyObject _ => some []
  | .object ms => some ms.toList
  | _ => none

example : unquote [.unicode 'd' '8' '3' 'd' (by decide), .unicode 'D' 'E' '0' '0' (by decide)] =
    [Char.ofNat 0x1F600] := by decide

end Calculator.Json
