import Calculator.Http.Panics

/-! # One request ID everywhere

The ID of a request is in its context for the layers inside, and in the header
of the response for the ones outside. It is the same in the header, in every
problem that is sent, and in the log.
-/

namespace Calculator.Http

open Decimal Backend Runs

def isRequestIDChar (c : Char) : Bool := c.isAlphanum || c = '_' || c = '-'

def isRequestID (id : Text) : Bool := id ≠ [] && id.length ≤ 64 && id.all isRequestIDChar

def base32Alphabet : Text := "ABCDEFGHIJKLMNOPQRSTUVWXYZ234567".toList

/-- The base-32 encoding without padding: five bits a character, with zeros after
the last bit. -/
def base32 (b : List UInt8) : Text :=
  let k := (8 * b.length + 4) / 5
  let n := b.foldl (fun n x => 256 * n + x.toNat) 0 * 2 ^ (5 * k - 8 * b.length)
  (List.range k).reverse.map fun i => base32Alphabet.getD (n / 32 ^ i % 32) 'A'

abbrev Entropy := { b : List UInt8 // b.length = 16 }

def newRequestID (entropy : Entropy) : Text := base32 entropy

/-- The ID of a request: its own, or else a new one. -/
def requestID (r : Incoming) (entropy : Entropy) : Text :=
  let id := r.header.get headerRequestID
  if isRequestID id then id else newRequestID entropy

theorem base32Alphabet_isRequestIDChar {i : ℕ} (h : i < 32) :
    isRequestIDChar (base32Alphabet.getD i 'A') = true := by
  decide +revert +kernel

theorem isRequestID_newRequestID (entropy : Entropy) :
    isRequestID (newRequestID entropy) = true := by
  obtain ⟨b, hb⟩ := entropy
  have hlength : (base32 b).length = 26 := by simp [base32, hb]
  have hne : base32 b ≠ [] := List.ne_nil_of_length_pos (by omega)
  simp only [isRequestID, newRequestID, hlength, Bool.and_eq_true, decide_eq_true_eq,
    List.all_eq_true]
  refine ⟨⟨decide_eq_true hne, by decide⟩, ?_⟩
  · intro c hc
    obtain ⟨i, -, rfl⟩ := List.mem_map.mp hc
    exact base32Alphabet_isRequestIDChar (Nat.mod_lt _ (by decide))

theorem isRequestID_requestID (r : Incoming) (entropy : Entropy) :
    isRequestID (requestID r entropy) = true := by
  unfold requestID
  dsimp only
  split
  · assumption
  · exact isRequestID_newRequestID entropy

theorem requestID_of_isRequestID {r : Incoming} (entropy : Entropy)
    (h : isRequestID (r.header.get headerRequestID) = true) :
    requestID r entropy = r.header.get headerRequestID := if_pos h

example : base32 [0x66, 0x6f] = "MZXQ".toList := by decide +kernel

variable {id : Text}

/-- The header has the ID, and nothing but the ID. -/
def HasID (id : Text) (h : Header) : Prop := h headerRequestID = some [id]

def Payload.HasID (id : Text) : Payload → Prop
  | .bytes _ => True
  | .document d => d.requestID = id

def Call.HasID (id : Text) : Call → Prop
  | .writeHeader _ header => Http.HasID id header
  | .write payload => payload.HasID id
  | .flush => True

/-- The ID is on the response, and on every problem that was sent. -/
structure Tagged (id : Text) (w : Wire) : Prop where
  header : HasID id w.header
  log : ∀ c ∈ w.log, c.HasID id

theorem Tagged.concat {w : Wire} (h : Tagged id w) {c : Call} (hc : c.HasID id) :
    Tagged id { w with log := w.log ++ [c] } :=
  ⟨h.header, List.forall_mem_append.mpr ⟨h.log, List.forall_mem_singleton.mpr hc⟩⟩

theorem keeps_tagged (id : Text) : Keeps (HasID id) (Payload.HasID id) (Tagged id) where
  header h := h.header
  withHeader h hid := ⟨hid, h.log⟩
  writeHeader h := h.concat h.header
  write h hid := h.concat hid
  flush h := h.concat trivial

theorem within_set {name : Text} (hname : name ≠ headerRequestID) (values : List Text) :
    (Op.set name values).Within (HasID id) (Payload.HasID id) :=
  fun _ h => (Header.set_of_ne (Ne.symm hname)).trans h

namespace Keeps

variable {W : Type} [ResponseWriter W] {I : W → Prop} {w : W} {r : Request}

theorem requestIDOf_eq (h : Keeps (HasID id) (Payload.HasID id) I) (hw : I w)
    (hr : r.contextID = [] ∨ r.contextID = id) : requestIDOf w r = id := by
  have hget : (ResponseWriter.header w).get headerRequestID = id := by
    rw [Header.get, h.header hw]
    rfl
  unfold requestIDOf
  split
  · next hne => exact hr.resolve_left hne
  · exact hget

theorem httpapiWrite (h : Keeps (HasID id) (Payload.HasID id) I) (hw : I w)
    (hr : r.contextID = [] ∨ r.contextID = id) (p : CatalogProblem) :
    I (Httpapi.write w r p) := by
  have hid : (Httpapi.document w r p).requestID = id := h.requestIDOf_eq hw hr
  refine h.applyAll hw ?_
  simp only [Httpapi.ops, List.forall_mem_cons, List.not_mem_nil, false_imp_iff, implies_true,
    and_true]
  exact ⟨within_set (by decide) _, within_set (by decide) _, trivial, hid⟩

end Keeps

def LogLine.requestID : LogLine → Text
  | .panicRecovered requestID _ _ _ => requestID
  | .request requestID _ _ _ _ => requestID

section Chain

variable {W : Type} [ResponseWriter W]

def logger (r : Request) (exit : Exit) (rec : Recorder W) : List LogLine :=
  match exit with
  | .panicked _ => []
  | _ => [.request (requestIDOf rec.inner r) r.method r.path rec.status rec.bytes]

def withRequestID (r : Incoming) (entropy : Entropy) : Request := ⟨r, requestID r entropy⟩

/-- The chain around the handler: recovery is outside of the context that has
the ID, and the log inside of it. -/
def chain (r : Incoming) (entropy : Entropy) : Around (Recorder (Recorder W)) where
  request := withRequestID r entropy
  unwind exit rec :=
    let lines := logger (withRequestID r entropy) exit rec
    let (inner, panicLines) := recover ⟨r, []⟩ exit rec.inner
    ({ rec with inner := inner }, lines ++ panicLines)

/-- The writer that the chain hands to the handler: the ID is set before. -/
def chainWriter (r : Incoming) (entropy : Entropy) (w : W) : Recorder (Recorder W) :=
  newRecorder ((Op.set headerRequestID [requestID r entropy]).apply (newRecorder w))

/-- Without a limit the handler is not wrapped, and runs on the same goroutine. -/
def Around.serveUnlimited (A : Around W) (w : W) (ops : List Op) (panic : Option PanicValue) :
    W × List LogLine :=
  A.unwind (panic.elim .complete .panicked) (Op.applyAll w ops)

end Chain

def serverChain (r : Incoming) (entropy : Entropy) (h₀ : Header) :
    Machine (Serving (Recorder (Recorder Wire))) Event :=
  (chain r entropy).machine (chainWriter r entropy ⟨h₀, []⟩)

/-- The handler leaves the ID alone, and sends its problems with its context. -/
def Op.Inner (r : Request) : Op → Prop
  | .set name _ => name ≠ headerRequestID
  | .write (.document d) =>
    ∃ (W : Type) (_ : ResponseWriter W) (w : W) (p : CatalogProblem), d = Httpapi.document w r p
  | .write (.bytes _) | .writeHeader _ | .flush => True

variable {r : Request} {o : Op}

theorem Op.Inner.within (hr : r.contextID ≠ []) (h : o.Inner r) :
    o.Within (HasID r.contextID) (Payload.HasID r.contextID) := by
  cases o with
  | set name values => exact within_set h values
  | write payload =>
    cases payload with
    | bytes b => trivial
    | document d =>
      obtain ⟨W, _, w, p, rfl⟩ := h
      exact if_pos hr
  | writeHeader | flush => trivial

def securityHeaders (path : Text) : List Op := [
  .set "X-Content-Type-Options".toList ["nosniff".toList],
  .set "X-Frame-Options".toList ["DENY".toList],
  .set "Referrer-Policy".toList ["no-referrer".toList],
  .set "Content-Security-Policy".toList ["default-src 'none'; frame-ancestors 'none'".toList]] ++
  if "/api/".toList.isPrefixOf path then [.set "Cache-Control".toList ["no-store".toList]] else []

def preflight (origin : Text) : List Op := [
  .set "Vary".toList ["Origin".toList],
  .set "Access-Control-Allow-Origin".toList [origin],
  .set "Access-Control-Allow-Methods".toList ["POST, GET, OPTIONS".toList],
  .set "Access-Control-Allow-Headers".toList ["Content-Type, X-Request-ID".toList],
  .set "Access-Control-Max-Age".toList ["600".toList],
  .set "Vary".toList ["Origin".toList, "Access-Control-Request-Method".toList,
    "Access-Control-Request-Headers".toList],
  .writeHeader ⟨204, by decide⟩]

def rateLimitedProblem : CatalogProblem := catalogProblem .rateLimited
  "too many requests; wait for the time in the Retry-After header and try again".toList []

/-- The answer to a client over its budget, who has to wait for some seconds. -/
def tooManyRequests {W : Type} [ResponseWriter W] (w : W) (r : Request) (wait : ℕ) : List Op :=
  .set "Retry-After".toList [Nat.toDigits 10 (max 1 wait)] ::
    Httpapi.ops (finalStatus rateLimitedProblem) (Httpapi.document w r rateLimitedProblem)

theorem inner_set {name : Text} (hname : name ≠ headerRequestID) (values : List Text) :
    (Op.set name values).Inner r := hname

theorem inner_ops {W : Type} [ResponseWriter W] (w : W) (r : Request) (p : CatalogProblem) :
    ∀ o ∈ Httpapi.ops (finalStatus p) (Httpapi.document w r p), o.Inner r := by
  simp only [Httpapi.ops, List.forall_mem_cons, List.not_mem_nil, false_imp_iff, implies_true,
    and_true]
  exact ⟨inner_set (by decide) _, inner_set (by decide) _, trivial, W, _, w, p, rfl⟩

theorem inner_securityHeaders (r : Request) (path : Text) :
    ∀ o ∈ securityHeaders path, o.Inner r := by
  refine List.forall_mem_append.mpr ⟨?_, ?_⟩
  · simp only [List.forall_mem_cons, List.not_mem_nil, false_imp_iff, implies_true, and_true]
    exact ⟨inner_set (by decide) _, inner_set (by decide) _, inner_set (by decide) _,
      inner_set (by decide) _⟩
  · split
    · exact List.forall_mem_singleton.mpr (inner_set (by decide) _)
    · exact nofun

theorem inner_preflight (r : Request) (origin : Text) : ∀ o ∈ preflight origin, o.Inner r := by
  simp only [preflight, List.forall_mem_cons, List.not_mem_nil, false_imp_iff, implies_true,
    and_true]
  exact ⟨inner_set (by decide) _, inner_set (by decide) _, inner_set (by decide) _,
    inner_set (by decide) _, inner_set (by decide) _, inner_set (by decide) _, trivial⟩

theorem inner_tooManyRequests {W : Type} [ResponseWriter W] (w : W) (r : Request) (wait : ℕ) :
    ∀ o ∈ tooManyRequests w r wait, o.Inner r :=
  List.forall_mem_cons.mpr ⟨inner_set (by decide) _, inner_ops w r _⟩

/-- What goes out and what is logged have the ID. -/
structure OneID (id : Text) (w : Recorder (Recorder Wire)) (log : List LogLine) : Prop where
  response : ∀ c ∈ w.inner.inner.sent, c.HasID id
  log : ∀ line ∈ log, line.requestID = id

variable {id : Text} {q : Incoming} {entropy : Entropy} {h₀ : Header} {exit : Exit}
  {w : Recorder (Recorder Wire)}

theorem Tagged.sent {w : Wire} (h : Tagged id w) : ∀ c ∈ w.sent, c.HasID id := by
  unfold Wire.sent
  split
  · exact List.forall_mem_singleton.mpr h.header
  · exact h.log

theorem keeps_chain (id : Text) : Keeps (HasID id) (Payload.HasID id)
    fun w : Recorder (Recorder Wire) => Tagged id w.inner.inner :=
  (keeps_tagged id).recorder.recorder

theorem tagged_chainWriter (q : Incoming) (entropy : Entropy) (h₀ : Header) :
    Tagged (requestID q entropy) (chainWriter q entropy (Wire.mk h₀ [])).inner.inner := by
  have hset : HasID (requestID q entropy) (h₀.set headerRequestID [requestID q entropy]) :=
    Header.set_self
  exact ⟨hset, nofun⟩

theorem recover_keeps {rec : Recorder Wire} (h : Tagged id rec.inner) (exit : Exit) :
    Tagged id (recover ⟨q, []⟩ exit rec).1.inner ∧
      ∀ line ∈ (recover ⟨q, []⟩ exit rec).2, line.requestID = id := by
  have hid : requestIDOf rec.inner ⟨q, []⟩ = id := (keeps_tagged id).requestIDOf_eq h (Or.inl rfl)
  have hwrite : Tagged id (Httpapi.write rec ⟨q, []⟩ internalProblem).inner :=
    (keeps_tagged id).recorder.httpapiWrite h (Or.inl rfl) _
  refine ⟨recover_preserves (I := fun rec => Tagged id rec.inner) h hwrite exit, ?_⟩
  intro line hline
  obtain ⟨panic, rfl⟩ := eq_of_mem_recover hline
  exact hid

theorem logger_requestID (h : Tagged id w.inner.inner) {r : Request} (hr : r.contextID = id)
    (exit : Exit) : ∀ line ∈ logger r exit w, line.requestID = id := by
  have hid : requestIDOf w.inner r = id :=
    (keeps_tagged id).recorder.requestIDOf_eq h (Or.inr hr)
  unfold logger
  split
  · exact nofun
  · exact List.forall_mem_singleton.mpr hid

theorem unwind_keeps (h : Tagged (requestID q entropy) w.inner.inner) (exit : Exit) :
    Tagged (requestID q entropy) ((chain q entropy).unwind exit w).1.inner.inner ∧
      ∀ line ∈ ((chain q entropy).unwind exit w).2, line.requestID = requestID q entropy := by
  obtain ⟨hwire, hlines⟩ := recover_keeps (q := q) h exit
  exact ⟨hwire, List.forall_mem_append.mpr ⟨logger_requestID h rfl exit, hlines⟩⟩

theorem requestID_ne (q : Incoming) (entropy : Entropy) : requestID q entropy ≠ [] := by
  intro hnil
  have hid := isRequestID_requestID q entropy
  rw [hnil] at hid
  cases hid

/-- The invariant of the chain in any order of its steps. -/
structure Identified (q : Incoming) (entropy : Entropy)
    (s : Serving (Recorder (Recorder Wire))) : Prop where
  writer : Keeps.Staged (HasID (requestID q entropy))
    (fun w => Tagged (requestID q entropy) w.inner.inner) s.writer
  log : ∀ line ∈ s.log, line.requestID = requestID q entropy

variable {s t : Serving (Recorder (Recorder Wire))} {e : Event} {es : List Event}

theorem Identified.next (h : Identified q entropy s)
    (he : ∀ o, e = .op o → o.Inner (withRequestID q entropy))
    (hn : (chain q entropy).next s e = some t) : Identified q entropy t where
  writer := Around.staged_of_next (keeps_chain _)
    (fun hw => (keeps_chain _).httpapiWrite hw (Or.inr rfl) _) (fun hw => (unwind_keeps hw _).1)
    h.writer (fun o ho => (he o ho).within (requestID_ne q entropy)) hn
  log := by
    cases Around.occurs_of_next hn with
    | op | returns | panics | ends | select => exact h.log
    | step hstep =>
      cases Around.steps_of_step hstep with
      | finish | hangUp | cutOff | timeUp | answer => exact h.log
      | @unwind exit =>
        exact List.forall_mem_append.mpr ⟨h.log, (unwind_keeps h.writer.1 exit).2⟩

/-- In every answer the ID is on the response, in the problem if it is one, and
in the log, and it is the one that came with the request if that can be used. -/
theorem one_request_id (q : Incoming) (entropy : Entropy) (h₀ : Header) :
    isRequestID (requestID q entropy) = true ∧
    (isRequestID (q.header.get headerRequestID) = true →
      requestID q entropy = q.header.get headerRequestID) ∧
    (∀ es s, (serverChain q entropy h₀).Run (serverChain q entropy h₀).start es s →
      (∀ e ∈ es, ∀ o, e = .op o → o.Inner (withRequestID q entropy)) →
      OneID (requestID q entropy) s.writer.inner s.log) ∧
    (∀ ops panic, (∀ o ∈ ops, o.Inner (withRequestID q entropy)) →
      OneID (requestID q entropy)
        ((chain q entropy).serveUnlimited
          (chainWriter q entropy (Wire.mk h₀ [])) ops panic).1
        ((chain q entropy).serveUnlimited
          (chainWriter q entropy (Wire.mk h₀ [])) ops panic).2) := by
  refine ⟨isRequestID_requestID q entropy, requestID_of_isRequestID entropy, ?_, ?_⟩
  · intro es s h hes
    have hs : Identified q entropy s := by
      refine (h.and_mem hes).preserves (fun hs he hn => hs.next he.2 hn) ⟨?_, nofun⟩
      exact Keeps.staged_new (tagged_chainWriter q entropy h₀)
    exact ⟨hs.writer.1.sent, hs.log⟩
  · intro ops panic hops
    have hwriter := (keeps_chain _).applyAll (tagged_chainWriter q entropy h₀) fun o ho =>
      (hops o ho).within (requestID_ne q entropy)
    obtain ⟨hwire, hlines⟩ := unwind_keeps hwriter (panic.elim .complete .panicked)
    exact ⟨hwire.sent, hlines⟩

def traced : Incoming := ⟨"GET".toList, ['/'], Header.empty.set headerRequestID [['x']]⟩

def zeroEntropy : Entropy := ⟨List.replicate 16 0, rfl⟩

/-- The ID of a request that is answered in time. -/
theorem one_request_id_traced : ∃ s, (serverChain traced zeroEntropy .empty).Run
      (serverChain traced zeroEntropy .empty).start
      [.op .flush, .returns, .select .done, .step, .step] s ∧
    requestID traced zeroEntropy = ['x'] ∧
    OneID (requestID traced zeroEntropy) s.writer.inner s.log ∧ s.log.length = 1 := by
  obtain ⟨-, hid, hall, -⟩ := one_request_id traced zeroEntropy .empty
  have h : (serverChain traced zeroEntropy .empty).Run (serverChain traced zeroEntropy .empty).start
      [.op .flush, .returns, .select .done, .step, .step] _ :=
    .cons trivial rfl <| .cons trivial rfl <| .cons trivial rfl <| .cons trivial rfl <|
      .cons trivial rfl <| .nil _
  refine ⟨_, h, hid (by decide +kernel), hall _ _ h ?_, rfl⟩
  rintro e he o rfl
  obtain rfl : o = .flush := by simpa using he
  trivial

end Calculator.Http
