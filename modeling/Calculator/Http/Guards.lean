import Calculator.Http.AccessLog

/-! # Headers that guard a response

The security headers and the origin that may read a response are set inside of the
deadline. Every header that goes out has all of them, or what the handler inside sets
in their place, if the handler had started its response or returned in time, and
otherwise none.
-/

namespace Calculator.Http

open Decimal Backend Runs

def accessControlAllowOrigin : Text := "Access-Control-Allow-Origin".toList

def vary : Op := .set "Vary".toList ["Origin".toList]

/-- The middleware of cross-origin requests around what the handler does. -/
def cors (allowed : List Text) (r : Incoming) (inner : List Op) : List Op :=
  let origin := r.header.get "Origin".toList
  if allowed = [] then inner
  else if origin = [] ∨ !allowed.contains origin then vary :: inner
  else if r.method ≠ "OPTIONS".toList then
    vary :: .set accessControlAllowOrigin [origin] :: inner
  else preflight origin

def guarded (allowed : List Text) (r : Incoming) (inner : List Op) : List Op :=
  securityHeaders r.path ++ cors allowed r inner

def readableBy (allowed : List Text) (r : Incoming) : Option (List Text) :=
  let origin := r.header.get "Origin".toList
  if origin ≠ [] ∧ allowed.contains origin then some [origin] else none

/-- The field has the value, or one that the handler inside sets. -/
def Kept (inner : List Op) (h : Header) (name : Text) (value : Option (List Text)) : Prop :=
  h name = value ∨ ∃ values, Op.set name values ∈ inner ∧ h name = some values

theorem kept_nil_iff {h : Header} {name : Text} {value : Option (List Text)} :
    Kept [] h name value ↔ h name = value := by
  simp [Kept]

theorem Kept.congr {inner : List Op} {h h' : Header} {name : Text} {value : Option (List Text)}
    (hh : Kept inner h name value) (heq : h' name = h name) : Kept inner h' name value := by
  rwa [Kept, heq]

/-- The header guards a response to the request. -/
structure Guarded (allowed : List Text) (r : Incoming) (inner : List Op) (h : Header) : Prop where
  security : ∀ name values, Op.set name values ∈ securityHeaders r.path →
    Kept inner h name (some values)
  origin : Kept inner h accessControlAllowOrigin (readableBy allowed r)

/-- The header has none of the fields that guard a response. -/
structure Bare (r : Incoming) (h : Header) : Prop where
  security : ∀ name values, Op.set name values ∈ securityHeaders r.path → h name = none
  origin : h accessControlAllowOrigin = none

def IsGuard (r : Incoming) (name : Text) : Prop :=
  name = accessControlAllowOrigin ∨ ∃ values, Op.set name values ∈ securityHeaders r.path

def Op.isSet : Op → Bool
  | .set _ _ => true
  | .writeHeader _ | .write _ | .flush => false

def Op.Spares (r : Incoming) (o : Op) : Prop :=
  ∀ name values, o = .set name values → ¬ IsGuard r name

section Spares

variable {r : Incoming} {allowed : List Text} {inner : List Op} {o : Op}

theorem spares_of_isSet (h : o.isSet = false) : o.Spares r := by
  rintro name values rfl
  cases h

def securityNames : List Text := ["X-Content-Type-Options".toList, "X-Frame-Options".toList,
  "Referrer-Policy".toList, "Content-Security-Policy".toList, "Cache-Control".toList]

theorem mem_or_noStore {name path : Text} {values : List Text}
    (h : Op.set name values ∈ securityHeaders path) :
    name ∈ securityNames.dropLast ∨
      name = "Cache-Control".toList ∧ values = ["no-store".toList] := by
  rcases List.mem_append.mp h with h | h
  · left
    simp only [List.mem_cons, Op.set.injEq, List.not_mem_nil, or_false] at h
    rcases h with ⟨rfl, -⟩ | ⟨rfl, -⟩ | ⟨rfl, -⟩ | ⟨rfl, -⟩ <;> decide
  · split at h
    · cases List.mem_singleton.mp h
      exact Or.inr ⟨rfl, rfl⟩
    · cases h

theorem mem_securityNames {name path : Text} {values : List Text}
    (h : Op.set name values ∈ securityHeaders path) : name ∈ securityNames := by
  rcases mem_or_noStore h with hname | ⟨rfl, -⟩
  · exact List.dropLast_subset _ hname
  · decide

theorem spares_set {name : Text} {values : List Text}
    (h : name ∉ accessControlAllowOrigin :: securityNames) : (Op.set name values).Spares r := by
  rintro _ _ ⟨⟩ (rfl | ⟨values', hmem⟩)
  · exact h List.mem_cons_self
  · exact h (List.mem_cons_of_mem _ (mem_securityNames hmem))

theorem spares_ops (status : FinalStatus) (d : Document) :
    ∀ o ∈ Httpapi.ops status d, o.Spares r := by
  simp only [Httpapi.ops, List.forall_mem_cons, List.not_mem_nil, false_imp_iff, implies_true,
    and_true]
  exact ⟨spares_set (by decide), spares_set (by decide), spares_of_isSet rfl, spares_of_isSet rfl⟩

def openapiSpec (body : List UInt8) : List Op := [
  .set "Content-Type".toList ["application/yaml".toList],
  .set "Cache-Control".toList ["no-store".toList],
  .set "Content-Length".toList [Nat.toDigits 10 body.length],
  .writeHeader statusOK,
  .write (.bytes body)]

theorem noStore_of_mem {path : Text} {values : List Text}
    (h : Op.set "Cache-Control".toList values ∈ securityHeaders path) :
    values = ["no-store".toList] := by
  rcases mem_or_noStore h with hname | ⟨-, hvalues⟩
  · exact absurd hname (by decide)
  · exact hvalues

/-- It sets one of the guards, to the value that it has. -/
theorem guarded_openapiSpec {body : List UInt8} {h : Header}
    (hh : Guarded allowed r (openapiSpec body) h) : Guarded allowed r [] h := by
  have hname {name : Text} {values : List Text} (hset : Op.set name values ∈ openapiSpec body)
      (hguard : name ∈ accessControlAllowOrigin :: securityNames) :
      name = "Cache-Control".toList ∧ values = ["no-store".toList] := by
    simp only [openapiSpec, List.mem_cons, Op.set.injEq, reduceCtorEq, List.not_mem_nil,
      or_false] at hset
    rcases hset with ⟨rfl, -⟩ | h | ⟨rfl, -⟩
    · exact absurd hguard (by decide)
    · exact h
    · exact absurd hguard (by decide)
  constructor
  · intro name values hmem
    rcases hh.security name values hmem with heq | ⟨values', hset, heq⟩
    · exact Or.inl heq
    · obtain ⟨rfl, rfl⟩ := hname hset (List.mem_cons_of_mem _ (mem_securityNames hmem))
      exact Or.inl (heq.trans (congrArg some (noStore_of_mem hmem).symm))
  · rcases hh.origin with heq | ⟨values, hset, -⟩
    · exact Or.inl heq
    · exact absurd (hname hset List.mem_cons_self).1 (by decide)

end Spares

/-- The header of a handler after what it has done. -/
def stage (h : Header) : Op → Header
  | .set name values => h.set name values
  | .writeHeader _ | .write _ | .flush => h

def staged (ops : List Op) : Header := ops.foldl stage .empty

section Staged

variable {r : Incoming} {allowed : List Text} {inner ops sets rest : List Op} {h : Header}
  {name : Text}

theorem foldl_stage_of_not_mem (hops : ∀ o ∈ ops, ∀ values, o ≠ .set name values) :
    ops.foldl stage h name = h name := by
  induction ops generalizing h with
  | nil => rfl
  | cons o ops ih =>
    obtain ⟨ho, hops⟩ := List.forall_mem_cons.mp hops
    refine (ih hops).trans ?_
    cases o with
    | set other values =>
      apply Header.set_of_ne
      rintro rfl
      exact ho values rfl
    | writeHeader | write | flush => rfl

theorem foldl_stage_eq_or (ops : List Op) (h : Header) (name : Text) :
    ops.foldl stage h name = h name ∨
      ∃ values, Op.set name values ∈ ops ∧ ops.foldl stage h name = some values := by
  induction ops generalizing h with
  | nil => exact Or.inl rfl
  | cons o ops ih =>
    rcases ih (stage h o) with heq | ⟨values, hmem, heq⟩
    · rw [List.foldl_cons, heq]
      cases o with
      | set other values =>
        by_cases hother : name = other
        · subst hother
          exact Or.inr ⟨values, List.mem_cons_self, Header.set_self⟩
        · exact Or.inl (Header.set_of_ne hother)
      | writeHeader | write | flush => exact Or.inl rfl
    · exact Or.inr ⟨values, List.mem_cons_of_mem _ hmem, heq⟩

theorem staged_securityHeaders {path : Text} {values : List Text}
    (h : Op.set name values ∈ securityHeaders path) :
    staged (securityHeaders path) name = some values := by
  by_cases hapi : "/api/".toList.isPrefixOf path = true
  · rw [securityHeaders, if_pos hapi] at h ⊢
    simp only [List.cons_append, List.nil_append, List.mem_cons, Op.set.injEq, List.not_mem_nil,
      or_false] at h
    rcases h with ⟨rfl, rfl⟩ | ⟨rfl, rfl⟩ | ⟨rfl, rfl⟩ | ⟨rfl, rfl⟩ | ⟨rfl, rfl⟩ <;> rfl
  · rw [securityHeaders, if_neg hapi] at h ⊢
    simp only [List.append_nil, List.mem_cons, Op.set.injEq, List.not_mem_nil, or_false] at h
    rcases h with ⟨rfl, rfl⟩ | ⟨rfl, rfl⟩ | ⟨rfl, rfl⟩ | ⟨rfl, rfl⟩ <;> rfl

theorem isSet_securityHeaders (path : Text) : ∀ o ∈ securityHeaders path, o.isSet = true := by
  unfold securityHeaders
  split <;> simp [Op.isSet]

theorem staged_securityHeaders_origin (path : Text) :
    staged (securityHeaders path) accessControlAllowOrigin = none := by
  refine foldl_stage_of_not_mem fun o ho values heq => ?_
  rw [heq] at ho
  exact absurd (mem_securityNames ho) (by decide)

def Op.IsExtra (o : Op) : Prop := ∃ name values, o = .set name values ∧ name ∉ securityNames

theorem isExtra_set {values : List Text} (h : name ∉ securityNames) :
    (Op.set name values).IsExtra := ⟨_, _, rfl, h⟩

theorem guarded_staged {fields : List Op} (hfields : ∀ o ∈ fields, o.IsExtra)
    (horigin : fields.foldl stage (staged (securityHeaders r.path)) accessControlAllowOrigin =
      readableBy allowed r) : Guarded allowed r [] (staged (securityHeaders r.path ++ fields)) := by
  have hfold : staged (securityHeaders r.path ++ fields) =
      fields.foldl stage (staged (securityHeaders r.path)) := List.foldl_append
  rw [hfold]
  refine ⟨fun name values hmem => Or.inl ?_, Or.inl horigin⟩
  rw [foldl_stage_of_not_mem, staged_securityHeaders hmem]
  rintro o ho values' rfl
  obtain ⟨_, _, ⟨⟩, hextra⟩ := hfields _ ho
  exact hextra (mem_securityNames hmem)

theorem exists_sets_of_cors (fields rest : List Op) (hcors : cors allowed r inner = fields ++ rest)
    (hfields : ∀ o ∈ fields, o.IsExtra)
    (hrest : ∀ name values, Op.set name values ∈ rest → Op.set name values ∈ inner)
    (horigin : ∀ h : Header, h accessControlAllowOrigin = none →
      fields.foldl stage h accessControlAllowOrigin = readableBy allowed r) : ∃ sets rest,
    guarded allowed r inner = sets ++ rest ∧ (∀ o ∈ sets, o.isSet = true) ∧
    (∀ name values, Op.set name values ∈ rest → Op.set name values ∈ inner) ∧
    Guarded allowed r [] (staged sets) := by
  refine ⟨securityHeaders r.path ++ fields, rest, ?_, ?_, hrest,
    guarded_staged hfields (horigin _ (staged_securityHeaders_origin r.path))⟩
  · rw [guarded, hcors, List.append_assoc]
  · refine List.forall_mem_append.mpr ⟨isSet_securityHeaders r.path, fun o ho => ?_⟩
    obtain ⟨_, _, rfl, -⟩ := hfields o ho
    rfl

/-- The layers set their fields first, and what is set from then on is set inside. -/
theorem exists_sets (allowed : List Text) (r : Incoming) (inner : List Op) : ∃ sets rest,
    guarded allowed r inner = sets ++ rest ∧ (∀ o ∈ sets, o.isSet = true) ∧
    (∀ name values, Op.set name values ∈ rest → Op.set name values ∈ inner) ∧
    Guarded allowed r [] (staged sets) := by
  by_cases hallowed : allowed = []
  · have hreadable : readableBy allowed r = none := if_neg (by simp [hallowed])
    have hcors : cors allowed r inner = [] ++ inner := if_pos hallowed
    refine exists_sets_of_cors [] inner hcors nofun (fun _ _ => id) fun h hh => ?_
    rw [List.foldl_nil, hh, hreadable]
  by_cases horigin : r.header.get "Origin".toList = [] ∨
      !allowed.contains (r.header.get "Origin".toList)
  · have hreadable : readableBy allowed r = none :=
      if_neg (by simpa [imp_iff_not_or] using horigin)
    have hcors : cors allowed r inner = [vary] ++ inner := by
      simp only [cors, if_neg hallowed, if_pos horigin, List.singleton_append]
    refine exists_sets_of_cors [vary] inner hcors
      (List.forall_mem_singleton.mpr (isExtra_set (by decide))) (fun _ _ => id) fun h hh => ?_
    rw [hreadable, ← hh, List.foldl_cons, List.foldl_nil, vary, stage]
    exact Header.set_of_ne (by decide)
  have hreadable : readableBy allowed r = some [r.header.get "Origin".toList] :=
    if_pos (by simpa [not_or] using horigin)
  by_cases hmethod : r.method ≠ "OPTIONS".toList
  · let fields := [vary, .set accessControlAllowOrigin [r.header.get "Origin".toList]]
    have hcors : cors allowed r inner = fields ++ inner := by
      simp only [cors, if_neg hallowed, if_neg horigin, if_pos hmethod, fields, List.cons_append,
        List.nil_append]
    refine exists_sets_of_cors fields inner hcors ?_ (fun _ _ => id) fun h _ => ?_
    · simp only [fields, List.forall_mem_cons, List.not_mem_nil, false_imp_iff, implies_true,
        and_true]
      constructor <;> exact isExtra_set (by decide)
    · simp only [fields, List.foldl_cons, List.foldl_nil, stage, Header.set_self, hreadable]
  · let answer := preflight (r.header.get "Origin".toList)
    have hcors : cors allowed r inner = answer.take 6 ++ answer.drop 6 := by
      rw [List.take_append_drop, cors, if_neg hallowed, if_neg horigin, if_neg hmethod]
    refine exists_sets_of_cors (answer.take 6) (answer.drop 6) hcors ?_ ?_ fun h _ => ?_
    · simp only [answer, preflight, List.take_succ_cons, List.take_zero, List.forall_mem_cons,
        List.not_mem_nil, false_imp_iff, implies_true, and_true]
      refine ⟨isExtra_set ?_, isExtra_set ?_, isExtra_set ?_, isExtra_set ?_, isExtra_set ?_,
        isExtra_set ?_⟩ <;> decide
    · intro name values hmem
      cases List.mem_singleton.mp hmem
    · rw [hreadable]
      rfl

theorem guarded_of_prefix (hops : ops <+: guarded allowed r inner)
    (hanswers : ops = guarded allowed r inner ∨ ∃ o ∈ ops, o.isSet = false) :
    Guarded allowed r inner (staged ops) := by
  obtain ⟨sets, rest, heq, hsets, hrest, hguarded⟩ := exists_sets allowed r inner
  rw [heq] at hops hanswers
  have hle : sets <+: ops := by
    rcases hanswers with rfl | ⟨o, ho, hnot⟩
    · exact List.prefix_append _ _
    · refine (List.prefix_or_prefix_of_prefix hops (List.prefix_append _ _)).resolve_left ?_
      intro hle
      simp [hsets o (hle.subset ho)] at hnot
  obtain ⟨tail, rfl⟩ := hle
  have htail : tail ⊆ rest := ((List.prefix_append_right_inj _).mp hops).subset
  have hkept {name : Text} {value : Option (List Text)} (h : Kept [] (staged sets) name value) :
      Kept inner (staged (sets ++ tail)) name value := by
    have hfold : staged (sets ++ tail) = tail.foldl stage (staged sets) := List.foldl_append
    rw [Kept, hfold]
    rcases foldl_stage_eq_or tail (staged sets) name with hsame | ⟨values, hmem, hset⟩
    · exact Or.inl (hsame.trans (kept_nil_iff.mp h))
    · exact Or.inr ⟨values, hrest name values (htail hmem), hset⟩
  exact ⟨fun name values hmem => hkept (hguarded.security name values hmem),
    hkept hguarded.origin⟩

end Staged

/-- The header of the response, and every header that went out, is of one kind. -/
structure Uniform (Q : Header → Prop) (w : Wire) : Prop where
  header : Q w.header
  log : ∀ status header, .writeHeader status header ∈ w.log → Q header

section Writers

variable {Q : Header → Prop} {w : Wire} {h : Header} {c : Call} {r : Incoming}
  {allowed : List Text} {inner : List Op}

theorem Uniform.concat (hw : Uniform Q w) (hc : ∀ status header, c = .writeHeader status header →
    Q header) : Uniform Q { w with log := w.log ++ [c] } where
  header := hw.header
  log status header hmem := by
    rcases List.mem_append.mp hmem with hmem | hmem
    · exact hw.log status header hmem
    · exact hc status header (List.mem_singleton.mp hmem).symm

theorem keeps_uniform (Q : Header → Prop) : Keeps Q (fun _ => True) (Uniform Q) where
  header h := h.header
  withHeader h hq := ⟨hq, h.log⟩
  writeHeader h := h.concat (by rintro _ _ ⟨⟩; exact h.header)
  write h _ := h.concat nofun
  flush h := h.concat nofun

theorem Uniform.sent (hw : Uniform Q w) :
    ∀ status header, .writeHeader status header ∈ w.sent → Q header := by
  unfold Wire.sent
  split
  · intro status header hmem
    cases List.mem_singleton.mp hmem
    exact hw.header
  · exact hw.log

abbrev UniformChain (Q : Header → Prop) (w : Recorder (Recorder Wire)) : Prop :=
  Uniform Q w.inner.inner

theorem keeps_uniformChain (Q : Header → Prop) : Keeps Q (fun _ => True) (UniformChain Q) :=
  (keeps_uniform Q).recorder.recorder

theorem Guarded.commit {fields : Header} (h₀ : Header) (hfields : Guarded allowed r inner fields)
    (hbare : Bare r h₀) : Guarded allowed r inner (h₀.commit fields) where
  security name values hmem := by
    apply (hfields.security name values hmem).congr
    rw [Header.commit, hbare.security name values hmem, Option.or_none]
  origin := by
    apply hfields.origin.congr
    rw [Header.commit, hbare.origin, Option.or_none]

theorem Guarded.congr {h' : Header} (heq : ∀ name, IsGuard r name → h' name = h name)
    (hh : Guarded allowed r inner h) : Guarded allowed r inner h' where
  security name values hmem := (hh.security name values hmem).congr (heq name (Or.inr ⟨_, hmem⟩))
  origin := hh.origin.congr (heq _ (Or.inl rfl))

theorem Bare.congr {h' : Header} (heq : ∀ name, IsGuard r name → h' name = h name)
    (hh : Bare r h) : Bare r h' where
  security name values hmem := (heq name (Or.inr ⟨_, hmem⟩)).trans (hh.security name values hmem)
  origin := (heq _ (Or.inl rfl)).trans hh.origin

theorem set_of_isGuard {name other : Text} (hname : ¬ IsGuard r name) (values : List Text)
    (hother : IsGuard r other) : h.set name values other = h other := by
  apply Header.set_of_ne
  rintro rfl
  exact hname hother

/-- A kind of header that depends on the guards alone. -/
def OfGuards (r : Incoming) (Q : Header → Prop) : Prop :=
  ∀ h h' : Header, (∀ name, IsGuard r name → h' name = h name) → Q h → Q h'

theorem ofGuards_guarded : OfGuards r (Guarded allowed r inner) := fun _ _ heq hh => hh.congr heq

theorem ofGuards_bare : OfGuards r (Bare r) := fun _ _ heq hh => hh.congr heq

theorem OfGuards.within (hQ : OfGuards r Q) {o : Op} (ho : o.Spares r) :
    o.Within Q fun _ => True := by
  cases o with
  | set name values =>
    exact fun h => hQ h _ fun other => set_of_isGuard (ho name values rfl) values
  | writeHeader | write | flush => trivial

end Writers

section Deadline

open TimeoutWriter

variable {W : Type} [ResponseWriter W] {tw : TimeoutWriter W} {o : Op} {H : Header → Prop}
  {I : W → Prop}

theorem staged_apply (tw : TimeoutWriter W) (o : Op) : (o.apply tw).staged = stage tw.staged o := by
  have hhead (status : FinalStatus) : (tw.writeHeaderLocked status).staged = tw.staged := by
    unfold writeHeaderLocked
    split <;> rfl
  cases o with
  | set name values => rfl
  | writeHeader status => exact hhead status
  | write payload =>
    change (tw.write payload).1.staged = tw.staged
    unfold TimeoutWriter.write
    split
    · rfl
    · exact hhead statusOK
  | flush =>
    change tw.flush.staged = tw.staged
    unfold TimeoutWriter.flush
    split
    · rfl
    · exact hhead statusOK

theorem writeHeaderLocked_of_closed (hc : tw.closed = true) (status : FinalStatus) :
    tw.writeHeaderLocked status = tw := if_pos (by simp [hc])

theorem wroteHeader_apply_of_closed (hc : tw.closed = true) (o : Op) :
    (o.apply tw).wroteHeader = tw.wroteHeader := by
  cases o with
  | set name values => rfl
  | writeHeader status => exact congrArg wroteHeader (writeHeaderLocked_of_closed hc status)
  | write payload => exact congrArg (wroteHeader ∘ Prod.fst) (if_pos hc)
  | flush => exact congrArg wroteHeader (if_pos hc)

theorem wroteHeader_apply (hc : tw.closed = false) (ho : o.isSet = false) :
    (o.apply tw).wroteHeader = true := by
  have hhead (status : FinalStatus) : (tw.writeHeaderLocked status).wroteHeader = true := by
    unfold writeHeaderLocked
    split
    · next h => simpa [hc] using h
    · rfl
  cases o with
  | set name values => cases ho
  | writeHeader status => exact hhead status
  | write payload =>
    change (tw.write payload).1.wroteHeader = true
    unfold TimeoutWriter.write
    rw [if_neg (by simp [hc])]
    exact hhead statusOK
  | flush =>
    change tw.flush.wroteHeader = true
    unfold TimeoutWriter.flush
    rw [if_neg (by simp [hc])]
    exact hhead statusOK

theorem Keeps.apply_of_head (h : Keeps H (fun _ => True) I) (hc : tw.closed = false)
    (hhead : ∀ status, I (tw.writeHeaderLocked status).inner) (ho : o.isSet = false) :
    I (o.apply tw).inner := by
  cases o with
  | set name values => cases ho
  | writeHeader status => exact hhead status
  | write payload =>
    change I (tw.write payload).1.inner
    unfold TimeoutWriter.write
    rw [if_neg (by simp [hc])]
    exact h.write (hhead statusOK) trivial
  | flush =>
    change I tw.flush.inner
    unfold TimeoutWriter.flush
    rw [if_neg (by simp [hc])]
    exact h.flush (hhead statusOK)

end Deadline

section Runs

variable {allowed : List Text} {q : Incoming} {entropy : Entropy} {h₀ : Header}
  {inner : List Op} {exit : Exit} {Q : Header → Prop} {o : Op}
  {s t : Serving (Recorder (Recorder Wire))} {e : Event} {es : List Event}

/-- The handler does what is in the list, and returns once it is done. -/
structure Follows (l : List Op) (s : Serving (Recorder (Recorder Wire))) : Prop where
  sofar : s.ops <+: l
  whole : s.handler = .returned → s.ops = l

theorem Follows.of_next {l : List Op} (hn : (chain q entropy).next s e = some t)
    (ht : Follows l t) : Follows l s := by
  cases Around.occurs_of_next hn with
  | op hrun o =>
    exact ⟨(List.prefix_append _ _).trans ht.sofar, fun hend => by simp [hrun] at hend⟩
  | returns hrun | panics hrun => exact ⟨ht.sofar, fun hend => by simp [hrun] at hend⟩
  | ends | select => exact ⟨ht.sofar, ht.whole⟩
  | step hstep => cases Around.steps_of_step hstep <;> exact ⟨ht.sofar, ht.whole⟩

/-- The middleware was left with a handler that had returned in time. -/
def Phase.isComplete : Phase → Bool
  | .unwinding .complete | .finished .complete => true
  | _ => false

/-- The response is the handler's. -/
def OwnResponse (s : Serving (Recorder (Recorder Wire))) : Prop :=
  s.writer.wroteHeader = true ∨ s.phase.isComplete = true

instance (s : Serving (Recorder (Recorder Wire))) : Decidable (OwnResponse s) :=
  inferInstanceAs (Decidable (_ ∨ _))

/-- The headers of the handler guard the response, and those of others do not. -/
structure Ruled (allowed : List Text) (q : Incoming) (inner : List Op)
    (s : Serving (Recorder (Recorder Wire))) : Prop where
  staged : s.writer.staged = staged s.ops
  finishing : s.phase = .finishing → s.handler = .returned
  answering : s.phase = .answering → s.writer.wroteHeader = false
  own : OwnResponse s → UniformChain (Guarded allowed q inner) s.writer.inner
  other : ¬ OwnResponse s → UniformChain (Bare q) s.writer.inner
  idle : s.writer.wroteHeader = false → s.phase.isOpen = true → s.writer.inner.inner.inner.log = []

theorem ownResponse_of_open (hopen : s.phase.isOpen = true) :
    OwnResponse s ↔ s.writer.wroteHeader = true := by
  refine or_iff_left fun hcomplete => ?_
  cases hphase : s.phase <;> simp [hphase, Phase.isOpen, Phase.isComplete] at hopen hcomplete

theorem uniform_commit {w : Recorder (Recorder Wire)} {fields : Header}
    (hfields : Guarded allowed q inner fields) (hbare : UniformChain (Bare q) w)
    (hidle : w.inner.inner.log = []) : UniformChain (Guarded allowed q inner)
      (ResponseWriter.withHeader w ((ResponseWriter.header w).commit fields)) where
  header := hfields.commit _ hbare.header
  log status header hmem := by
    have hmem : Call.writeHeader status header ∈ w.inner.inner.log := hmem
    rw [hidle] at hmem
    cases hmem

theorem uniform_write (hQ : OfGuards q Q) {w : Recorder (Recorder Wire)}
    (hw : UniformChain Q w) (r : Request) (p : CatalogProblem) :
    UniformChain Q (Httpapi.write w r p) :=
  (keeps_uniformChain Q).applyAll hw fun o ho => hQ.within (spares_ops _ _ o ho)

theorem uniform_unwind (hQ : OfGuards q Q) {w : Recorder (Recorder Wire)}
    (hw : UniformChain Q w) (entropy : Entropy) (exit : Exit) :
    UniformChain Q ((chain q entropy).unwind exit w).1 := by
  have hwrite : Uniform Q (Httpapi.write w.inner ⟨q, []⟩ internalProblem).inner :=
    (keeps_uniform Q).recorder.applyAll hw fun o ho => hQ.within (spares_ops _ _ o ho)
  exact recover_preserves (I := fun rec => Uniform Q rec.inner) hw hwrite exit

namespace Ruled

theorem start (allowed : List Text) (inner : List Op) (entropy : Entropy) (hbare : Bare q h₀) :
    Ruled allowed q inner (serverChain q entropy h₀).start where
  staged := rfl
  finishing := nofun
  answering := nofun
  own h := h.elim nofun nofun
  other _ := by
    have hid : ¬ IsGuard q headerRequestID := by
      rintro (h | ⟨values, hmem⟩)
      · exact absurd h (by decide)
      · exact absurd (mem_securityNames hmem) (by decide)
    exact ⟨hbare.congr fun name => set_of_isGuard hid _, nofun⟩
  idle _ _ := rfl

theorem of_eq (h : Ruled allowed q inner s) (hinner : t.writer.inner = s.writer.inner)
    (hwrote : t.writer.wroteHeader = s.writer.wroteHeader) (hphase : t.phase = s.phase)
    (hstaged : t.writer.staged = Http.staged t.ops)
    (hreturned : s.handler = .returned → t.handler = .returned) : Ruled allowed q inner t := by
  have hown : OwnResponse t ↔ OwnResponse s := by rw [OwnResponse, OwnResponse, hwrote, hphase]
  refine ⟨hstaged, fun h' => hreturned (h.finishing (hphase ▸ h')), ?_, ?_, ?_, ?_⟩
  · rw [hwrote, hphase]
    exact h.answering
  · rw [hown, hinner]
    exact h.own
  · rw [hown, hinner]
    exact h.other
  · rw [hwrote, hphase, hinner]
    exact h.idle

theorem of_op (h : Ruled allowed q inner s) (hacc : Accounted q s) (hrun : s.handler = .running)
    (hops : s.ops ++ [o] <+: guarded allowed q inner) :
    Ruled allowed q inner { s with writer := o.apply s.writer, ops := s.ops ++ [o] } := by
  have hstage : Http.staged (s.ops ++ [o]) = stage (Http.staged s.ops) o := List.foldl_concat ..
  have hstaged : (o.apply s.writer).staged = Http.staged (s.ops ++ [o]) := by
    rw [staged_apply, h.staged, hstage]
  cases hc : s.writer.closed with
  | true =>
    exact h.of_eq (TimeoutWriter.apply_of_closed hc o).1 (wroteHeader_apply_of_closed hc o) rfl
      hstaged id
  | false =>
    cases ho : o.isSet with
    | true =>
      cases o with
      | set name values => exact h.of_eq rfl rfl rfl hstaged id
      | writeHeader | write | flush => cases ho
    | false =>
      have hopen : s.phase.isOpen = true := by
        by_contra hnot
        rcases hacc.shut (Bool.eq_false_of_not_eq_true hnot) with hend | hclosed
        · exact hend hrun
        · simp [hc] at hclosed
      have hwrote := wroteHeader_apply hc ho
      have hfields : Guarded allowed q inner s.writer.staged := by
        have hguarded := guarded_of_prefix hops
          (Or.inr ⟨o, List.mem_append_right _ (List.mem_singleton_self o), ho⟩)
        rw [hstage, ← h.staged] at hguarded
        cases o with
        | set name values => cases ho
        | writeHeader | write | flush => exact hguarded
      -- the first header takes everything staged with it
      have hhead (status : FinalStatus) :
          UniformChain (Guarded allowed q inner) (s.writer.writeHeaderLocked status).inner := by
        unfold TimeoutWriter.writeHeaderLocked
        split
        · next hw => exact h.own (Or.inl (by simpa [hc] using hw))
        · next hw =>
          have hw : s.writer.wroteHeader = false := by simpa [hc] using hw
          have hother := h.other (by simp [ownResponse_of_open hopen, hw])
          exact (keeps_uniformChain _).writeHeader
            (uniform_commit hfields hother (h.idle hw hopen))
      refine ⟨hstaged, h.finishing, ?_, ?_, ?_, ?_⟩
      · intro hphase
        have hphase : s.phase = .answering := hphase
        simp [hphase, Phase.isOpen] at hopen
      · exact fun _ => (keeps_uniformChain _).apply_of_head hc hhead ho
      · exact fun hother => absurd (Or.inl hwrote) hother
      · exact fun hidle => by simp [hwrote] at hidle

theorem of_phase (h : Ruled allowed q inner s) (hopen : s.phase.isOpen = true)
    (hwriter : t.writer = s.writer ∨ t.writer = s.writer.stop.1) (hops : t.ops = s.ops)
    (hcomplete : t.phase.isComplete = false)
    (hfinishing : t.phase = .finishing → t.handler = .returned)
    (hanswering : t.phase = .answering → s.writer.wroteHeader = false) :
    Ruled allowed q inner t := by
  obtain ⟨hinner, hwrote, hstaged⟩ : t.writer.inner = s.writer.inner ∧
      t.writer.wroteHeader = s.writer.wroteHeader ∧ t.writer.staged = s.writer.staged := by
    rcases hwriter with hwriter | hwriter <;> (rw [hwriter]; exact ⟨rfl, rfl, rfl⟩)
  have hown : OwnResponse t ↔ OwnResponse s := by
    rw [ownResponse_of_open hopen, OwnResponse, hcomplete, hwrote, or_iff_left Bool.false_ne_true]
  refine ⟨by rw [hstaged, hops, h.staged], hfinishing, fun h' => hwrote.trans (hanswering h'),
    ?_, ?_, fun hidle _ => ?_⟩
  · rw [hown, hinner]
    exact h.own
  · rw [hown, hinner]
    exact h.other
  · rw [hinner]
    exact h.idle (hwrote ▸ hidle) hopen

theorem of_select (h : Ruled allowed q inner s) (hphase : s.phase = .selecting) {branch : Branch}
    {phase : Phase} (hselect : Around.select s branch = some phase) :
    Ruled allowed q inner { s with phase := phase } := by
  have hopen : s.phase.isOpen = true := by rw [hphase]; rfl
  cases Around.selects_of_select hselect with
  | panicked _ => exact h.of_phase hopen (Or.inl rfl) rfl rfl nofun nofun
  | done hhandler => exact h.of_phase hopen (Or.inl rfl) rfl rfl (fun _ => hhandler) nofun
  | ctxDone _ => exact h.of_phase hopen (Or.inl rfl) rfl rfl nofun nofun

theorem of_finish (h : Ruled allowed q inner s) (hphase : s.phase = .finishing)
    (hfields : Guarded allowed q inner s.writer.staged) :
    Ruled allowed q inner { s with writer := s.writer.finish, phase := .unwinding .complete } := by
  have hopen : s.phase.isOpen = true := by rw [hphase]; rfl
  have hstaged : s.writer.finish.staged = s.writer.staged := by
    unfold TimeoutWriter.finish
    split <;> rfl
  have hcommitted : UniformChain (Guarded allowed q inner) s.writer.finish.inner := by
    unfold TimeoutWriter.finish
    split
    · next hw =>
      have hw : s.writer.wroteHeader = false := by simpa using hw
      exact uniform_commit hfields (h.other (by simp [ownResponse_of_open hopen, hw]))
        (h.idle hw hopen)
    · next hw => exact h.own (Or.inl (by simpa using hw))
  exact ⟨hstaged.trans h.staged, nofun, nofun, fun _ => hcommitted,
    fun hother => absurd (Or.inr rfl) hother, nofun⟩

theorem of_step (h : Ruled allowed q inner s) (hfollows : Follows (guarded allowed q inner) s)
    (hstep : (chain q entropy).step s = some t) : Ruled allowed q inner t := by
  cases Around.steps_of_step hstep with
  | finish hphase =>
    have hwhole := hfollows.whole (h.finishing hphase)
    exact h.of_finish hphase (h.staged ▸ guarded_of_prefix hfollows.sofar (Or.inl hwhole))
  | hangUp hphase | cutOff hphase =>
    exact h.of_phase (by rw [hphase]; rfl) (Or.inr rfl) rfl rfl nofun nofun
  | timeUp hphase _ hwrote =>
    exact h.of_phase (by rw [hphase]; rfl) (Or.inr rfl) rfl rfl nofun fun _ => hwrote
  | answer hphase =>
    have hwrote := h.answering hphase
    have hother : ¬ OwnResponse s := by simp [OwnResponse, hwrote, hphase, Phase.isComplete]
    refine ⟨h.staged, nofun, nofun, fun hown => ?_, fun _ => ?_, nofun⟩
    · simp [OwnResponse, hwrote, Phase.isComplete] at hown
    · exact uniform_write ofGuards_bare (h.other hother) _ _
  | @unwind exit hphase =>
    have hown : s.phase.isComplete = (Phase.finished exit).isComplete := by
      rw [hphase]
      cases exit <;> rfl
    refine ⟨h.staged, nofun, nofun, fun hown' => ?_, fun hother => ?_, nofun⟩
    · exact uniform_unwind ofGuards_guarded (h.own (hown'.imp_right hown.trans)) entropy exit
    · exact uniform_unwind ofGuards_bare
        (h.other fun hown' => hother (hown'.imp_right hown.symm.trans)) entropy exit

theorem next (h : Ruled allowed q inner s) (hacc : Accounted q s)
    (hn : (chain q entropy).next s e = some t)
    (ht : Follows (guarded allowed q inner) t) : Ruled allowed q inner t := by
  have hfollows := ht.of_next hn
  cases Around.occurs_of_next hn with
  | op hrun o => exact h.of_op hacc hrun ht.sofar
  | returns hrun | panics hrun =>
    exact h.of_eq rfl rfl rfl h.staged fun hend => by simp [hrun] at hend
  | ends => exact h.of_eq rfl rfl rfl h.staged id
  | select hphase hselect => exact h.of_select hphase hselect
  | step hstep => exact h.of_step hfollows hstep

end Ruled

/-- Whatever comes first, every header that goes out has all the guards if the response is
the handler's, where the handler inside sets none of them itself, and it has none of them
if it is the answer of the deadline or to a panic. -/
theorem guards_are_whole (hbare : Bare q h₀)
    (hrun : (serverChain q entropy h₀).Run (serverChain q entropy h₀).start es s)
    (hfollows : Follows (guarded allowed q inner) s) : ∀ status header,
      .writeHeader status header ∈ s.writer.inner.inner.inner.sent →
      (OwnResponse s → Guarded allowed q inner header) ∧ (¬ OwnResponse s → Bare q header) := by
  have hs : Accounted q s ∧ (Follows (guarded allowed q inner) s → Ruled allowed q inner s) := by
    refine hrun.preserves (I := fun s => Accounted q s ∧
      (Follows (guarded allowed q inner) s → Ruled allowed q inner s)) ?_ ?_
    · rintro s e t ⟨hacc, hruled⟩ - hn
      exact ⟨hacc.next hn, fun ht => (hruled (ht.of_next hn)).next hacc hn ht⟩
    · exact ⟨Accounted.start q entropy h₀, fun _ => Ruled.start allowed inner entropy hbare⟩
  have hruled := hs.2 hfollows
  intro status header hmem
  exact ⟨fun hown => (hruled.own hown).sent status header hmem,
    fun hother => (hruled.other hother).sent status header hmem⟩

/-- A request from an origin that may read the response. -/
def crossOrigin : Incoming := ⟨"GET".toList, ['/'], Header.empty.set "Origin".toList [['o']]⟩

/-- The deadline comes when every guard is set and nothing was sent: its answer has none. -/
theorem guards_are_whole_tooLate : ∃ s, ∃ es : List Event,
    (serverChain crossOrigin zeroEntropy .empty).Run
      (serverChain crossOrigin zeroEntropy .empty).start es s ∧
    s.phase = .finished .timedOut ∧
    s.ops = (guarded [['o']] crossOrigin [.flush]).dropLast ∧
    ∀ status header, .writeHeader status header ∈ s.writer.inner.inner.inner.sent →
      Bare crossOrigin header := by
  let l := guarded [['o']] crossOrigin [.flush]
  let es : List Event := l.dropLast.map .op ++
    [.ends .deadlineExceeded, .select .ctxDone, .step, .step, .step]
  obtain ⟨s, hrun, hs⟩ : ∃ s, (serverChain crossOrigin zeroEntropy .empty).Run
      (serverChain crossOrigin zeroEntropy .empty).start es s ∧
      (decide (s.phase = .finished .timedOut) && (decide (s.ops = l.dropLast) &&
        (decide (s.handler = .running) && decide (¬ OwnResponse s)))) = true :=
    Machine.exists_run_of_replay (by decide +kernel)
  simp only [Bool.and_eq_true, decide_eq_true_eq] at hs
  obtain ⟨hphase, hops, hhandler, hother⟩ := hs
  have hfollows : Follows l s := by
    refine ⟨hops ▸ List.dropLast_prefix l, fun hend => ?_⟩
    rw [hhandler] at hend
    cases hend
  refine ⟨s, es, hrun, hphase, hops, fun status header hmem => ?_⟩
  exact (guards_are_whole ⟨fun _ _ _ => rfl, rfl⟩ hrun hfollows status header hmem).2 hother

end Runs

end Calculator.Http
