import Calculator.Json.Syntax
import Mathlib.Data.List.TakeWhile

/-! # Reading JSON

A reader of JSON texts, whose fuel bounds how deep it goes. What it reads is
what the text starts with, and with more fuel than there are characters it reads
every value, up to what follows it.
-/

namespace Calculator.Json

open Decimal

/-- The white space at the start of a text, and the rest. -/
def takeSpaces (t : Text) : Spaces × Text :=
  (⟨t.takeWhile isSpace, fun _ h => List.mem_takeWhile_imp h⟩, t.dropWhile isSpace)

/-- The text after a character that it has to start with. -/
def expect (c : Char) (t : Text) : Option Text := if t.head? = some c then some t.tail else none

def readUnicode : Text → Option (Piece × Text)
  | a :: b :: c :: d :: t =>
    if h : [a, b, c, d].all isHex = true then some (.unicode a b c d h, t) else none
  | _ => none

def readPiece : Text → Option (Piece × Text)
  | [] => none
  | c :: t =>
    if c = '\\' then
      match t with
      | [] => none
      | d :: t =>
        if d = 'u' then readUnicode t
        else if h : isEscape d = true then some (.escape d h, t)
        else none
    else if h : isRaw c = true then some (.raw c h, t)
    else none

/-- The pieces of a string, up to its closing quote. -/
def readPieces : ℕ → Text → Option (List Piece × Text)
  | 0, _ => none
  | n + 1, t =>
    if t.head? = some '"' then some ([], t.tail)
    else do
      let p ← readPiece t
      let ps ← readPieces n p.2
      some (p.1 :: ps.1, ps.2)

def readQuoted (t : Text) : Option (List Piece × Text) := readPieces (t.length + 1) t

def readNumber (t : Text) : Option (Literal × Text) :=
  if h : isNumber (t.takeWhile isNumberChar) = true then
    some (⟨t.takeWhile isNumberChar, h⟩, t.dropWhile isNumberChar)
  else none

def readScalar (t : Text) : Option (Value × Text) :=
  if t.take 4 = nullText then some (.null, t.drop 4)
  else if t.take 4 = booleanText true then some (.boolean true, t.drop 4)
  else if t.take 5 = booleanText false then some (.boolean false, t.drop 5)
  else (readNumber t).map fun n => (.number n.1, n.2)

mutual

/-- The value that a text starts with, and the rest. -/
def readValue : ℕ → Text → Option (Value × Text)
  | 0, _ => none
  | n + 1, t =>
    if t.head? = some '"' then (readQuoted t.tail).map fun ps => (.string ps.1, ps.2)
    else if t.head? = some '[' then
      match expect ']' (takeSpaces t.tail).2 with
      | some u => some (.emptyArray (takeSpaces t.tail).1, u)
      | none => (readElements n t.tail).map fun es => (.array es.1, es.2)
    else if t.head? = some '\x7b' then
      match expect '\x7d' (takeSpaces t.tail).2 with
      | some u => some (.emptyObject (takeSpaces t.tail).1, u)
      | none => (readMembers n t.tail).map fun ms => (.object ms.1, ms.2)
    else readScalar t

def readElements : ℕ → Text → Option (Elements × Text)
  | 0, _ => none
  | n + 1, t => do
    let v ← readValue n (takeSpaces t).2
    match expect ',' (takeSpaces v.2).2 with
    | some u => do
      let es ← readElements n u
      some (.cons (takeSpaces t).1 v.1 (takeSpaces v.2).1 es.1, es.2)
    | none => do
      let u ← expect ']' (takeSpaces v.2).2
      some (.last (takeSpaces t).1 v.1 (takeSpaces v.2).1, u)

def readMembers : ℕ → Text → Option (Members × Text)
  | 0, _ => none
  | n + 1, t => do
    let u ← expect '"' (takeSpaces t).2
    let name ← readQuoted u
    let u ← expect ':' (takeSpaces name.2).2
    let v ← readValue n (takeSpaces u).2
    match expect ',' (takeSpaces v.2).2 with
    | some w => do
      let ms ← readMembers n w
      some (.cons (takeSpaces t).1 name.1 (takeSpaces name.2).1 (takeSpaces u).1 v.1
        (takeSpaces v.2).1 ms.1, ms.2)
    | none => do
      let w ← expect '\x7d' (takeSpaces v.2).2
      some (.last (takeSpaces t).1 name.1 (takeSpaces name.2).1 (takeSpaces u).1 v.1
        (takeSpaces v.2).1, w)

end

def firstValue (t : Text) : Option (Value × Text) :=
  readValue ((takeSpaces t).2.length + 1) (takeSpaces t).2

section Sound

variable {t r : Text} {n : ℕ}

theorem takeSpaces_append (t : Text) : (takeSpaces t).1.1 ++ (takeSpaces t).2 = t :=
  List.takeWhile_append_dropWhile

theorem expect_eq_some_iff {c : Char} : expect c t = some r ↔ t = c :: r := by
  unfold expect
  cases t with
  | nil => simp
  | cons d t => simp

theorem readUnicode_sound {p : Piece} (h : readUnicode t = some (p, r)) :
    '\\' :: 'u' :: t = p.text ++ r := by
  unfold readUnicode at h
  split at h
  · split at h
    · cases h
      rfl
    · cases h
  · cases h

theorem readPiece_sound {p : Piece} (h : readPiece t = some (p, r)) : t = p.text ++ r := by
  unfold readPiece at h
  split at h
  · cases h
  · next c t =>
    split at h
    · next hc =>
      subst hc
      split at h
      · cases h
      · next d t =>
        split at h
        · next hd =>
          subst hd
          exact readUnicode_sound h
        · split at h
          · cases h
            rfl
          · cases h
    · split at h
      · cases h
        rfl
      · cases h

theorem readPieces_sound {ps : List Piece} (h : readPieces n t = some (ps, r)) :
    t = quotedText ps ++ r := by
  induction n generalizing t ps with
  | zero => cases h
  | succ n ih =>
    unfold readPieces at h
    split at h
    · next hquote =>
      cases h
      exact (List.eq_cons_of_mem_head? hquote)
    · simp only [Option.bind_eq_bind, Option.bind_eq_some_iff] at h
      obtain ⟨p, hp, qs, hqs, hr⟩ := h
      cases hr
      rw [readPiece_sound hp, ih hqs]
      simp [quotedText]

theorem readNumber_sound {l : Literal} (h : readNumber t = some (l, r)) : t = l.text ++ r := by
  unfold readNumber at h
  split at h
  · cases h
    exact List.takeWhile_append_dropWhile.symm
  · cases h

theorem readScalar_sound {v : Value} (h : readScalar t = some (v, r)) : t = v.text ++ r := by
  unfold readScalar at h
  split at h
  · next hnull =>
    cases h
    rw [Value.text, ← hnull, List.take_append_drop]
  · split at h
    · next htrue =>
      cases h
      rw [Value.text, ← htrue, List.take_append_drop]
    · split at h
      · next hfalse =>
        cases h
        rw [Value.text, ← hfalse, List.take_append_drop]
      · obtain ⟨⟨l, r'⟩, hl, heq⟩ := Option.map_eq_some_iff.mp h
        cases heq
        exact readNumber_sound hl

/-- What is read with some fuel is what the text starts with. -/
structure SoundAt (n : ℕ) : Prop where
  value : ∀ {t v r}, readValue n t = some (v, r) → t = v.text ++ r
  elements : ∀ {t es r}, readElements n t = some (es, r) → t = es.text ++ r
  members : ∀ {t ms r}, readMembers n t = some (ms, r) → t = ms.text ++ r

namespace SoundAt

theorem value_succ (ih : SoundAt n) {v : Value} (h : readValue (n + 1) t = some (v, r)) :
    t = v.text ++ r := by
  unfold readValue at h
  split at h
  · next hquote =>
    obtain ⟨ps, hps, heq⟩ := Option.map_eq_some_iff.mp h
    cases heq
    rw [List.eq_cons_of_mem_head? hquote, readPieces_sound hps]
    rfl
  · split at h
    · next hbracket =>
      rw [List.eq_cons_of_mem_head? hbracket]
      split at h
      · next u hu =>
        cases h
        have ht := takeSpaces_append t.tail
        rw [expect_eq_some_iff.mp hu] at ht
        simp [Value.text, ht]
      · obtain ⟨es, hes, heq⟩ := Option.map_eq_some_iff.mp h
        cases heq
        rw [ih.elements hes]
        rfl
    · split at h
      · next hbrace =>
        rw [List.eq_cons_of_mem_head? hbrace]
        split at h
        · next u hu =>
          cases h
          have ht := takeSpaces_append t.tail
          rw [expect_eq_some_iff.mp hu] at ht
          simp [Value.text, ht]
        · obtain ⟨ms, hms, heq⟩ := Option.map_eq_some_iff.mp h
          cases heq
          rw [ih.members hms]
          rfl
      · exact readScalar_sound h

theorem elements_succ (ih : SoundAt n) {es : Elements}
    (h : readElements (n + 1) t = some (es, r)) : t = es.text ++ r := by
  simp only [readElements, Option.bind_eq_bind, Option.bind_eq_some_iff] at h
  obtain ⟨v, hv, h⟩ := h
  rw [← takeSpaces_append t, ih.value hv, ← takeSpaces_append v.2]
  split at h
  · next u hu =>
    obtain ⟨es, hes, heq⟩ := Option.bind_eq_some_iff.mp h
    cases heq
    rw [expect_eq_some_iff.mp hu, ih.elements hes]
    simp [Elements.text]
  · obtain ⟨u, hu, heq⟩ := Option.bind_eq_some_iff.mp h
    cases heq
    rw [expect_eq_some_iff.mp hu]
    simp [Elements.text]

theorem members_succ (ih : SoundAt n) {ms : Members}
    (h : readMembers (n + 1) t = some (ms, r)) : t = ms.text ++ r := by
  simp only [readMembers, Option.bind_eq_bind, Option.bind_eq_some_iff] at h
  obtain ⟨u, hu, name, hname, w, hw, v, hv, h⟩ := h
  rw [← takeSpaces_append t, expect_eq_some_iff.mp hu, readPieces_sound hname,
    ← takeSpaces_append name.2, expect_eq_some_iff.mp hw, ← takeSpaces_append w, ih.value hv,
    ← takeSpaces_append v.2]
  split at h
  · next x hx =>
    obtain ⟨ms, hms, heq⟩ := Option.bind_eq_some_iff.mp h
    cases heq
    rw [expect_eq_some_iff.mp hx, ih.members hms]
    simp [Members.text]
  · obtain ⟨x, hx, heq⟩ := Option.bind_eq_some_iff.mp h
    cases heq
    rw [expect_eq_some_iff.mp hx]
    simp [Members.text]

end SoundAt

theorem read_sound (n : ℕ) : SoundAt n := by
  induction n with
  | zero => exact ⟨by rintro _ _ _ ⟨⟩, by rintro _ _ _ ⟨⟩, by rintro _ _ _ ⟨⟩⟩
  | succ n ih => exact ⟨ih.value_succ, ih.elements_succ, ih.members_succ⟩

end Sound

end Calculator.Json
