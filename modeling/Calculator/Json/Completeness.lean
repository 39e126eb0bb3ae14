import Calculator.Json.Reader

/-! # Every value is read

With more fuel than the text of a value has characters, the reader finds the
value in front of anything that does not go on a number. A text starts with one
value at most, up to its white space.
-/

namespace Calculator.Json

open Decimal

variable {t u r : Text} {n : ℕ} {c d : Char}

theorem takeSpaces_of_append (s : Spaces) (h : isSpace c = false) :
    takeSpaces (s.1 ++ c :: t) = (s, c :: t) := by
  have htake : (s.1 ++ c :: t).takeWhile isSpace = s.1 := by
    rw [List.takeWhile_append_of_pos s.2, List.takeWhile_cons_of_neg (by simp [h]),
      List.append_nil]
  have hdrop : (s.1 ++ c :: t).dropWhile isSpace = c :: t := by
    rw [List.dropWhile_append_of_pos s.2, List.dropWhile_cons_of_neg (by simp [h])]
  exact Prod.ext (Subtype.ext htake) hdrop

@[simp] theorem expect_cons (c : Char) (t : Text) : expect c (c :: t) = some t := by
  simp [expect]

theorem expect_of_ne (h : d ≠ c) (t : Text) : expect c (d :: t) = none := by
  simp [expect, h]

theorem readPiece_text (p : Piece) (r : Text) : readPiece (p.text ++ r) = some (p, r) := by
  cases p with
  | raw c h =>
    have hc : c ≠ '\\' := by
      rintro rfl
      cases h
    simp [readPiece, Piece.text, hc, h]
  | escape c h =>
    have hc : c ≠ 'u' := by
      rintro rfl
      cases h
    simp [readPiece, Piece.text, hc, h]
  | unicode a b c d h =>
    simp only [Piece.text, List.cons_append, List.nil_append, readPiece, if_true, readUnicode]
    exact dif_pos h

theorem head_piece_text (p : Piece) : ∃ c u, p.text = c :: u ∧ c ≠ '"' := by
  cases p with
  | raw c h =>
    refine ⟨c, [], rfl, ?_⟩
    rintro rfl
    cases h
  | escape c h => exact ⟨'\\', [c], rfl, by decide⟩
  | unicode a b c d h => exact ⟨'\\', ['u', a, b, c, d], rfl, by decide⟩

theorem readPieces_text {ps : List Piece} (hn : ps.length < n) (r : Text) :
    readPieces n (quotedText ps ++ r) = some (ps, r) := by
  induction ps generalizing n with
  | nil =>
    cases n with
    | zero => exact absurd hn (Nat.not_lt_zero _)
    | succ n => simp [quotedText, readPieces]
  | cons p ps ih =>
    cases n with
    | zero => exact absurd hn (Nat.not_lt_zero _)
    | succ n =>
      obtain ⟨c, u, htext, hc⟩ := head_piece_text p
      have happend : quotedText (p :: ps) ++ r = p.text ++ (quotedText ps ++ r) := by
        simp [quotedText]
      have hhead : (p.text ++ (quotedText ps ++ r)).head? ≠ some '"' := by
        simpa [htext] using hc
      have hrest : readPieces n (quotedText ps ++ r) = some (ps, r) :=
        ih (Nat.lt_of_succ_lt_succ hn)
      rw [happend, readPieces, if_neg hhead, readPiece_text]
      simp [hrest]

theorem length_le_quotedText (ps : List Piece) : ps.length ≤ (quotedText ps).length := by
  induction ps with
  | nil => simp
  | cons p ps ih =>
    obtain ⟨c, u, htext, -⟩ := head_piece_text p
    have happend : quotedText (p :: ps) = p.text ++ quotedText ps := by simp [quotedText]
    rw [happend, htext, List.length_append, List.length_cons, List.length_cons]
    omega

theorem readQuoted_text (ps : List Piece) (r : Text) :
    readQuoted (quotedText ps ++ r) = some (ps, r) := by
  refine readPieces_text ?_ r
  rw [List.length_append]
  have := length_le_quotedText ps
  omega

def Stops (r : Text) : Prop := ∀ c ∈ r.head?, isNumberChar c = false

theorem stops_spaces (s : Spaces) : Stops s.1 := by
  intro c hc
  have hspace := s.2 c (List.mem_of_mem_head? hc)
  obtain rfl | rfl | rfl | rfl := isSpace_iff.mp hspace <;> rfl

theorem stops_append (s : Spaces) (hc : isNumberChar c = false) (r : Text) :
    Stops (s.1 ++ c :: r) := by
  obtain ⟨s, hs⟩ := s
  cases s with
  | nil =>
    rintro _ ⟨⟩
    exact hc
  | cons x s => exact fun d hd => stops_spaces ⟨x :: s, hs⟩ d hd

theorem isNumberChar_of_isDigit (h : c.isDigit = true) : isNumberChar c = true := by
  simp [isNumberChar, h]

theorem isNumberChar_of_scanDigits (h : (scanDigits t).isSome) :
    ∀ c ∈ t, isNumberChar c = true := by
  unfold scanDigits at h
  split at h
  · next hall =>
    intro c hc
    exact isNumberChar_of_isDigit (List.all_eq_true.mp hall.2 c hc)
  · cases h

theorem isNumberChar_of_scanSigned (h : (scanSigned t).isSome) :
    ∀ c ∈ t, isNumberChar c = true := by
  unfold scanSigned at h
  split at h
  · rw [Option.isSome_map] at h
    exact List.forall_mem_cons.mpr
      ⟨rfl, isNumberChar_of_scanDigits (Option.isSome_of_isSome_bind h)⟩
  · rw [Option.isSome_map] at h
    exact List.forall_mem_cons.mpr
      ⟨rfl, isNumberChar_of_scanDigits (Option.isSome_of_isSome_bind h)⟩
  · rw [Option.isSome_map] at h
    exact isNumberChar_of_scanDigits (Option.isSome_of_isSome_bind h)

theorem isNumberChar_of_scanExponent (h : (scanExponent t).isSome) :
    ∀ c ∈ t, isNumberChar c = true := by
  unfold scanExponent at h
  split at h
  · rintro c ⟨⟩
  · next c t =>
    split at h
    · next hc =>
      refine List.forall_mem_cons.mpr ⟨?_, isNumberChar_of_scanSigned h⟩
      rcases hc with rfl | rfl <;> rfl
    · cases h

theorem isNumberChar_of_scanFraction (h : ∀ c ∈ (scanFraction t).2, isNumberChar c = true) :
    ∀ c ∈ t, isNumberChar c = true := by
  unfold scanFraction at h
  split at h
  · next t =>
    refine List.forall_mem_cons.mpr ⟨rfl, ?_⟩
    rw [← List.takeWhile_append_dropWhile (p := Char.isDigit) (l := t)]
    refine List.forall_mem_append.mpr ⟨?_, h⟩
    intro c hc
    exact isNumberChar_of_isDigit (List.mem_takeWhile_imp hc)
  · exact h

theorem unsigned_cases (t : Text) : t = '-' :: unsigned t ∨ t = unsigned t := by
  unfold unsigned
  split
  · exact Or.inl rfl
  · exact Or.inr rfl

theorem isNumber_spec (h : isNumber t = true) :
    (∀ c ∈ t, isNumberChar c = true) ∧ ∃ c u, t = c :: u ∧ (c = '-' ∨ c.isDigit = true) := by
  simp only [isNumber, Bool.and_eq_true, decide_eq_true_eq] at h
  obtain ⟨⟨⟨hwhole, -⟩, -⟩, hexponent⟩ := h
  have hchars : ∀ c ∈ unsigned t, isNumberChar c = true := by
    rw [← List.takeWhile_append_dropWhile (p := Char.isDigit) (l := unsigned t)]
    refine List.forall_mem_append.mpr ⟨?_, ?_⟩
    · intro c hc
      exact isNumberChar_of_isDigit (List.mem_takeWhile_imp hc)
    · exact isNumberChar_of_scanFraction (isNumberChar_of_scanExponent hexponent)
  rcases unsigned_cases t with hsign | hsign
  · rw [hsign]
    exact ⟨List.forall_mem_cons.mpr ⟨rfl, hchars⟩, '-', unsigned t, rfl, Or.inl rfl⟩
  · rw [← hsign] at hwhole hchars
    refine ⟨hchars, ?_⟩
    cases t with
    | nil => exact absurd rfl hwhole
    | cons c t =>
      refine ⟨c, t, rfl, Or.inr ?_⟩
      by_contra hc
      exact hwhole (List.takeWhile_cons_of_neg hc)

theorem readNumber_text (l : Literal) (hr : Stops r) : readNumber (l.text ++ r) = some (l, r) := by
  have hchars := (isNumber_spec l.valid).1
  have htake : (l.text ++ r).takeWhile isNumberChar = l.text := by
    rw [List.takeWhile_append_of_pos hchars]
    cases r with
    | nil => simp
    | cons c r => simp [hr c rfl]
  have hdrop : (l.text ++ r).dropWhile isNumberChar = r := by
    rw [List.dropWhile_append_of_pos hchars]
    cases r with
    | nil => rfl
    | cons c r => simp [hr c rfl]
  unfold readNumber
  simp only [htake, hdrop, l.valid, dif_pos]

theorem ne_of_number (hc : c = '-' ∨ c.isDigit = true) (hd : d ≠ '-' ∧ d.isDigit = false) :
    c ≠ d := by
  rintro rfl
  rcases hc with rfl | hc
  · exact hd.1 rfl
  · rw [hd.2] at hc
    cases hc

theorem readScalar_text (l : Literal) (hr : Stops r) :
    readScalar (l.text ++ r) = some (.number l, r) := by
  obtain ⟨-, c, u, htext, hc⟩ := isNumber_spec l.valid
  have hne : ∀ n (d : Char) w, d ≠ '-' ∧ d.isDigit = false →
      (l.text ++ r).take (n + 1) ≠ d :: w := by
    intro n d w hd h
    rw [htext] at h
    exact ne_of_number hc hd (List.cons.inj h).1
  have hnull : (l.text ++ r).take 4 ≠ nullText := hne 3 'n' _ (by decide)
  have htrue : (l.text ++ r).take 4 ≠ booleanText true := hne 3 't' _ (by decide)
  have hfalse : (l.text ++ r).take 5 ≠ booleanText false := hne 4 'f' _ (by decide)
  rw [readScalar, if_neg hnull, if_neg htrue, if_neg hfalse, readNumber_text l hr]
  rfl

theorem head_value_text (v : Value) :
    ∃ c u, v.text = c :: u ∧ isSpace c = false ∧ c ≠ ']' := by
  cases v with
  | null => exact ⟨'n', _, rfl, by decide⟩
  | boolean b =>
    cases b
    · exact ⟨'f', _, rfl, by decide⟩
    · exact ⟨'t', _, rfl, by decide⟩
  | number l =>
    obtain ⟨-, c, u, htext, hc⟩ := isNumber_spec l.valid
    refine ⟨c, u, htext, ?_, ne_of_number hc (by decide)⟩
    simp [isSpace, ne_of_number hc]
  | string ps => exact ⟨'"', _, rfl, by decide⟩
  | emptyArray s => exact ⟨'[', _, rfl, by decide⟩
  | array es => exact ⟨'[', _, rfl, by decide⟩
  | emptyObject s => exact ⟨'\x7b', _, rfl, by decide⟩
  | object ms => exact ⟨'\x7b', _, rfl, by decide⟩

theorem takeSpaces_text (s : Spaces) (v : Value) (t : Text) :
    takeSpaces (s.1 ++ (v.text ++ t)) = (s, v.text ++ t) := by
  obtain ⟨c, u, htext, hspace, -⟩ := head_value_text v
  rw [htext]
  exact takeSpaces_of_append s hspace

theorem expect_elements_text (es : Elements) (r : Text) :
    expect ']' (takeSpaces (es.text ++ r)).2 = none := by
  have key : ∀ (s : Spaces) (v : Value) t,
      expect ']' (takeSpaces (s.1 ++ (v.text ++ t))).2 = none := by
    intro s v t
    obtain ⟨c, u, htext, -, hc⟩ := head_value_text v
    rw [takeSpaces_text, htext]
    exact expect_of_ne hc _
  cases es with
  | last s v s' => simpa [Elements.text] using key s v (s'.1 ++ ']' :: r)
  | cons s v s' es => simpa [Elements.text] using key s v (s'.1 ++ ',' :: (es.text ++ r))

theorem expect_members_text (ms : Members) (r : Text) :
    expect '\x7d' (takeSpaces (ms.text ++ r)).2 = none := by
  have key : ∀ (s : Spaces) t, expect '\x7d' (takeSpaces (s.1 ++ '"' :: t)).2 = none := by
    intro s t
    rw [takeSpaces_of_append s (by decide)]
    exact expect_of_ne (by decide) t
  cases ms with
  | last s name s₁ s₂ v s' =>
    rw [Members.text, List.append_assoc]
    exact key s _
  | cons s name s₁ s₂ v s' ms =>
    rw [Members.text, List.append_assoc]
    exact key s _

/-- Every text shorter than the fuel is read up to what follows it. -/
structure CompleteAt (n : ℕ) : Prop where
  value : ∀ v r, v.text.length < n → Stops r → readValue n (v.text ++ r) = some (v, r)
  elements : ∀ es r, es.text.length < n → readElements n (es.text ++ r) = some (es, r)
  members : ∀ ms r, ms.text.length < n → readMembers n (ms.text ++ r) = some (ms, r)

namespace CompleteAt

theorem value_succ (ih : CompleteAt n) (v : Value) (r : Text) (hn : v.text.length < n + 1)
    (hr : Stops r) : readValue (n + 1) (v.text ++ r) = some (v, r) := by
  cases v with
  | null => rfl
  | boolean b => cases b <;> rfl
  | number l =>
    obtain ⟨-, c, u, htext, hc⟩ := isNumber_spec l.valid
    have hread := readScalar_text l hr
    have hne : ∀ d, d ≠ '-' ∧ d.isDigit = false → (l.text ++ r).head? ≠ some d := by
      intro d hd
      rw [htext]
      exact fun h => ne_of_number hc hd (Option.some.inj h)
    rw [Value.text, readValue, if_neg (hne _ (by decide)), if_neg (hne _ (by decide)),
      if_neg (hne _ (by decide)), hread]
  | string ps => simp [Value.text, readValue, readQuoted_text]
  | emptyArray s =>
    have hs := takeSpaces_of_append (t := r) s (show isSpace ']' = false by decide)
    simp [Value.text, readValue, hs]
  | array es =>
    have hes := ih.elements es r (Nat.lt_of_succ_lt_succ hn)
    simp [Value.text, readValue, expect_elements_text, hes]
  | emptyObject s =>
    have hs := takeSpaces_of_append (t := r) s (show isSpace '\x7d' = false by decide)
    simp [Value.text, readValue, hs]
  | object ms =>
    have hms := ih.members ms r (Nat.lt_of_succ_lt_succ hn)
    simp [Value.text, readValue, expect_members_text, hms]

theorem elements_succ (ih : CompleteAt n) (es : Elements) (r : Text)
    (hn : es.text.length < n + 1) : readElements (n + 1) (es.text ++ r) = some (es, r) := by
  cases es with
  | last s v s' =>
    have hlen : v.text.length < n := by
      simp only [Elements.text, List.length_append, List.length_cons] at hn
      omega
    have hv := ih.value v (s'.1 ++ ']' :: r) hlen (stops_append s' (by decide) r)
    have hs' := takeSpaces_of_append (t := r) s' (show isSpace ']' = false by decide)
    have hne := expect_of_ne (show ']' ≠ ',' by decide) r
    simp [Elements.text, readElements, takeSpaces_text, hv, hs', hne]
  | cons s v s' es =>
    have hlen : v.text.length < n ∧ es.text.length < n := by
      simp only [Elements.text, List.length_append, List.length_cons] at hn
      omega
    have hv := ih.value v (s'.1 ++ ',' :: (es.text ++ r)) hlen.1 (stops_append s' (by decide) _)
    have hs' := takeSpaces_of_append (t := es.text ++ r) s' (show isSpace ',' = false by decide)
    have hes := ih.elements es r hlen.2
    simp [Elements.text, readElements, takeSpaces_text, hv, hs', hes]

theorem members_succ (ih : CompleteAt n) (ms : Members) (r : Text)
    (hn : ms.text.length < n + 1) : readMembers (n + 1) (ms.text ++ r) = some (ms, r) := by
  have hquote (s : Spaces) t := takeSpaces_of_append (t := t) s (show isSpace '"' = false by decide)
  have hcolon (s : Spaces) t := takeSpaces_of_append (t := t) s (show isSpace ':' = false by decide)
  cases ms with
  | last s name s₁ s₂ v s' =>
    have hlen : v.text.length < n := by
      simp only [Members.text, List.length_append, List.length_cons] at hn
      omega
    have hv := ih.value v (s'.1 ++ '\x7d' :: r) hlen (stops_append s' (by decide) r)
    have hs' := takeSpaces_of_append (t := r) s' (show isSpace '\x7d' = false by decide)
    have hne := expect_of_ne (show '\x7d' ≠ ',' by decide) r
    simp [Members.text, readMembers, takeSpaces_text, readQuoted_text, hquote, hcolon, hv, hs', hne]
  | cons s name s₁ s₂ v s' ms =>
    have hlen : v.text.length < n ∧ ms.text.length < n := by
      simp only [Members.text, List.length_append, List.length_cons] at hn
      omega
    have hv := ih.value v (s'.1 ++ ',' :: (ms.text ++ r)) hlen.1 (stops_append s' (by decide) _)
    have hs' := takeSpaces_of_append (t := ms.text ++ r) s' (show isSpace ',' = false by decide)
    have hms := ih.members ms r hlen.2
    simp [Members.text, readMembers, takeSpaces_text, readQuoted_text, hquote, hcolon, hv, hs', hms]

end CompleteAt

/-- With more fuel than characters, every value is read up to what follows it. -/
theorem read_complete (n : ℕ) : CompleteAt n := by
  induction n with
  | zero =>
    exact ⟨fun _ _ h => absurd h (Nat.not_lt_zero _), fun _ _ h => absurd h (Nat.not_lt_zero _),
      fun _ _ h => absurd h (Nat.not_lt_zero _)⟩
  | succ n ih => exact ⟨ih.value_succ, ih.elements_succ, ih.members_succ⟩

/-- A text is the document of a value exactly if the reader finds the value and
nothing but white space after it. -/
theorem document_iff {v : Value} :
    Document t v ↔ ∃ r, firstValue t = some (v, r) ∧ ∀ c ∈ r, isSpace c = true := by
  constructor
  · rintro ⟨s, s', rfl⟩
    refine ⟨s'.1, ?_, s'.2⟩
    unfold firstValue
    rw [takeSpaces_text]
    refine (read_complete _).value v s'.1 ?_ (stops_spaces s')
    rw [List.length_append]
    omega
  · rintro ⟨r, hread, hr⟩
    refine ⟨(takeSpaces t).1, ⟨r, hr⟩, ?_⟩
    rw [← (read_sound _).value hread, takeSpaces_append]

theorem Document.unique {v v' : Value} (h : Document t v) (h' : Document t v') : v = v' := by
  obtain ⟨r, hread, -⟩ := document_iff.mp h
  obtain ⟨r', hread', -⟩ := document_iff.mp h'
  rw [hread] at hread'
  cases hread'
  rfl

end Calculator.Json
