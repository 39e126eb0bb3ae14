import Calculator.Http.Document
import Mathlib.Logic.Function.Basic

/-! # Response writers

The writer that a handler answers through, and the writers that middleware puts
around it: one that remembers what went out, and one that holds the header back
until the status is written and that can be closed.
-/

namespace Calculator.Http

open Decimal Backend

/-- The values of the header fields, by their canonical names. -/
abbrev Header := Text → Option (List Text)

namespace Header

def empty : Header := fun _ => none

def set (h : Header) (name : Text) (values : List Text) : Header :=
  Function.update h name (some values)

/-- The first value of a field, or the empty text. -/
def get (h : Header) (name : Text) : Text := ((h name).getD []).headD []

def commit (h staged : Header) : Header := fun name => (staged name).or (h name)

variable {h staged : Header} {name other : Text} {values : List Text}

@[simp] theorem set_self : h.set name values name = some values := Function.update_self _ _ _

theorem set_of_ne (hne : other ≠ name) : h.set name values other = h other :=
  Function.update_of_ne hne _ _

theorem commit_set : h.commit (staged.set name values) = (h.commit staged).set name values := by
  funext other
  by_cases hother : other = name
  · subst hother
    simp [commit]
  · simp [commit, set_of_ne hother]

end Header

inductive Payload where
  | bytes (b : List UInt8)
  | document (d : Document)
  deriving DecidableEq

def Payload.length : Payload → ℕ
  | .bytes b => b.length
  | .document d => byteLength d.json

/-- The header is a map that is shared: it is read, and put back with a change. -/
class ResponseWriter (W : Type) where
  header : W → Header
  withHeader : W → Header → W
  writeHeader : W → FinalStatus → W
  /-- The number of bytes that were written comes with the writer. -/
  write : W → Payload → W × ℕ
  flush : W → W

def statusOK : FinalStatus := ⟨200, by decide⟩

/-- What a handler does with its writer. -/
inductive Op where
  | set (name : Text) (values : List Text)
  | writeHeader (status : FinalStatus)
  | write (payload : Payload)
  | flush
  deriving DecidableEq

section Ops

open ResponseWriter

variable {W : Type} [ResponseWriter W]

def Op.apply (w : W) : Op → W
  | .set name values => withHeader w ((header w).set name values)
  | .writeHeader status => ResponseWriter.writeHeader w status
  | .write payload => (ResponseWriter.write w payload).1
  | .flush => ResponseWriter.flush w

def Op.applyAll (w : W) (ops : List Op) : W := ops.foldl Op.apply w

end Ops

/-- What a writer is asked to do. A status goes out with the header of that moment. -/
inductive Call where
  | writeHeader (status : FinalStatus) (header : Header)
  | write (payload : Payload)
  | flush

def Call.isWriteHeader : Call → Bool
  | .writeHeader _ _ => true
  | _ => false

/-- The writer underneath all others, which records what it receives. -/
structure Wire where
  header : Header
  log : List Call

namespace Wire

instance : ResponseWriter Wire where
  header := header
  withHeader w h := { w with header := h }
  writeHeader w status := { w with log := w.log ++ [.writeHeader status w.header] }
  write w payload := ({ w with log := w.log ++ [.write payload] }, payload.length)
  flush w := { w with log := w.log ++ [.flush] }

/-- What goes out once the handler has returned: a response that was not started
is sent with the implicit status. -/
def sent (w : Wire) : List Call := if w.log = [] then [.writeHeader statusOK w.header] else w.log

end Wire

structure Recorder (W : Type) where
  status : FinalStatus
  bytes : ℕ
  wroteHeader : Bool
  inner : W

def newRecorder {W : Type} (w : W) : Recorder W := ⟨statusOK, 0, false, w⟩

namespace Recorder

variable {W : Type} [ResponseWriter W]

def writeHeader (r : Recorder W) (status : FinalStatus) : Recorder W :=
  if r.wroteHeader then r
  else
    { r with
      wroteHeader := true
      status := status
      inner := ResponseWriter.writeHeader r.inner status }

def write (r : Recorder W) (payload : Payload) : Recorder W × ℕ :=
  let r := if !r.wroteHeader then r.writeHeader statusOK else r
  let (inner, n) := ResponseWriter.write r.inner payload
  ({ r with inner := inner, bytes := r.bytes + n }, n)

def flush (r : Recorder W) : Recorder W :=
  let r := if !r.wroteHeader then r.writeHeader statusOK else r
  { r with inner := ResponseWriter.flush r.inner }

instance : ResponseWriter (Recorder W) where
  header r := ResponseWriter.header r.inner
  withHeader r h := { r with inner := ResponseWriter.withHeader r.inner h }
  writeHeader := writeHeader
  write := write
  flush := flush

end Recorder

structure TimeoutWriter (W : Type) where
  inner : W
  /-- The header of the handler, until it writes a status. -/
  staged : Header
  wroteHeader : Bool
  closed : Bool

def newTimeoutWriter {W : Type} (w : W) : TimeoutWriter W := ⟨w, .empty, false, false⟩

namespace TimeoutWriter

variable {W : Type} [ResponseWriter W]

def commitHeaderLocked (tw : TimeoutWriter W) : TimeoutWriter W :=
  { tw with
    inner := ResponseWriter.withHeader tw.inner
      ((ResponseWriter.header tw.inner).commit tw.staged) }

def writeHeaderLocked (tw : TimeoutWriter W) (status : FinalStatus) : TimeoutWriter W :=
  if tw.closed || tw.wroteHeader then tw
  else
    let tw := { tw with wroteHeader := true }.commitHeaderLocked
    { tw with inner := ResponseWriter.writeHeader tw.inner status }

def write (tw : TimeoutWriter W) (payload : Payload) : TimeoutWriter W × ℕ :=
  if tw.closed then (tw, 0)
  else
    let tw := tw.writeHeaderLocked statusOK
    let (inner, n) := ResponseWriter.write tw.inner payload
    ({ tw with inner := inner }, n)

def flush (tw : TimeoutWriter W) : TimeoutWriter W :=
  if tw.closed then tw
  else
    let tw := tw.writeHeaderLocked statusOK
    { tw with inner := ResponseWriter.flush tw.inner }

instance : ResponseWriter (TimeoutWriter W) where
  header := staged
  withHeader tw h := { tw with staged := h }
  writeHeader := writeHeaderLocked
  write := write
  flush := flush

/-- The handler has returned in time, so what it staged is final. -/
def finish (tw : TimeoutWriter W) : TimeoutWriter W :=
  { if !tw.wroteHeader then tw.commitHeaderLocked else tw with closed := true }

/-- Close the writer, and say whether the response had been started. -/
def stop (tw : TimeoutWriter W) : TimeoutWriter W × Bool :=
  ({ tw with closed := true }, tw.wroteHeader)

variable {tw : TimeoutWriter W}

/-- Nothing passes a closed writer. -/
theorem apply_of_closed (h : tw.closed = true) (op : Op) :
    (op.apply tw).inner = tw.inner ∧ (op.apply tw).closed = true := by
  cases op with
  | set name values => exact ⟨rfl, h⟩
  | writeHeader status =>
    change (tw.writeHeaderLocked status).inner = _ ∧ (tw.writeHeaderLocked status).closed = _
    simp [writeHeaderLocked, h]
  | write payload =>
    change (tw.write payload).1.inner = _ ∧ (tw.write payload).1.closed = _
    simp [write, h]
  | flush =>
    change tw.flush.inner = _ ∧ tw.flush.closed = _
    simp [flush, h]

end TimeoutWriter

/-- An invariant of a writer, kept by whatever is done with it as long as the
headers and the payloads are of some kind. -/
structure Keeps (H : Header → Prop) (P : Payload → Prop) {W : Type} [ResponseWriter W]
    (I : W → Prop) : Prop where
  header : ∀ {w}, I w → H (ResponseWriter.header w)
  withHeader : ∀ {w h}, I w → H h → I (ResponseWriter.withHeader w h)
  writeHeader : ∀ {w status}, I w → I (ResponseWriter.writeHeader w status)
  write : ∀ {w payload}, I w → P payload → I (ResponseWriter.write w payload).1
  flush : ∀ {w}, I w → I (ResponseWriter.flush w)

/-- What is done leaves the headers and the payloads of their kind. -/
def Op.Within (H : Header → Prop) (P : Payload → Prop) : Op → Prop
  | .set name values => ∀ h, H h → H (h.set name values)
  | .write payload => P payload
  | .writeHeader _ | .flush => True

theorem Op.within_true (o : Op) : o.Within (fun _ => True) (fun _ => True) := by
  cases o with
  | set => exact fun _ _ => trivial
  | writeHeader | write | flush => trivial

namespace Keeps

variable {W : Type} [ResponseWriter W] {H : Header → Prop} {P : Payload → Prop} {I : W → Prop}
  {w : W} {o : Op}

theorem apply (h : Keeps H P I) (hw : I w) (ho : o.Within H P) : I (o.apply w) := by
  cases o with
  | set name values => exact h.withHeader hw (ho _ (h.header hw))
  | writeHeader status => exact h.writeHeader hw
  | write payload => exact h.write hw ho
  | flush => exact h.flush hw

theorem applyAll (h : Keeps H P I) (hw : I w) {ops : List Op} (hops : ∀ o ∈ ops, o.Within H P) :
    I (Op.applyAll w ops) := by
  induction ops generalizing w with
  | nil => exact hw
  | cons o ops ih =>
    obtain ⟨ho, hops⟩ := List.forall_mem_cons.mp hops
    exact ih (h.apply hw ho) hops

theorem recorder (h : Keeps H P I) : Keeps H P fun rec : Recorder W => I rec.inner := by
  have hhead {rec : Recorder W} {status : FinalStatus} (hrec : I rec.inner) :
      I (rec.writeHeader status).inner := by
    unfold Recorder.writeHeader
    split
    · exact hrec
    · exact h.writeHeader hrec
  have hensure {rec : Recorder W} (hrec : I rec.inner) :
      I (if !rec.wroteHeader then rec.writeHeader statusOK else rec).inner := by
    split
    · exact hhead hrec
    · exact hrec
  exact {
    header := h.header
    withHeader := h.withHeader
    writeHeader := hhead
    write := fun hrec hp => h.write (hensure hrec) hp
    flush := fun hrec => h.flush (hensure hrec) }

/-- The invariant underneath, and staged fields that leave headers of their kind. -/
def Staged (H : Header → Prop) (I : W → Prop) (tw : TimeoutWriter W) : Prop :=
  I tw.inner ∧ ∀ h, H h → H (h.commit tw.staged)

variable {tw : TimeoutWriter W}

omit [ResponseWriter W] in
theorem staged_new (hw : I w) : Staged H I (newTimeoutWriter w) := ⟨hw, fun _ hh => hh⟩

theorem commitHeaderLocked (h : Keeps H P I) (htw : Staged H I tw) :
    Staged H I tw.commitHeaderLocked :=
  ⟨h.withHeader htw.1 (htw.2 _ (h.header htw.1)), htw.2⟩

theorem writeHeaderLocked (h : Keeps H P I) (htw : Staged H I tw) (status : FinalStatus) :
    Staged H I (tw.writeHeaderLocked status) := by
  unfold TimeoutWriter.writeHeaderLocked
  split
  · exact htw
  · exact ⟨h.writeHeader (h.commitHeaderLocked htw).1, htw.2⟩

theorem apply_staged (h : Keeps H P I) (htw : Staged H I tw) (ho : o.Within H P) :
    Staged H I (o.apply tw) := by
  have hhead := h.writeHeaderLocked htw statusOK
  cases o with
  | set name values =>
    refine ⟨htw.1, fun h hh => ?_⟩
    change H (h.commit (tw.staged.set name values))
    rw [Header.commit_set]
    exact ho _ (htw.2 h hh)
  | writeHeader status => exact h.writeHeaderLocked htw status
  | write payload =>
    change Staged H I (tw.write payload).1
    unfold TimeoutWriter.write
    split
    · exact htw
    · exact ⟨h.write hhead.1 ho, hhead.2⟩
  | flush =>
    change Staged H I tw.flush
    unfold TimeoutWriter.flush
    split
    · exact htw
    · exact ⟨h.flush hhead.1, hhead.2⟩

theorem finish (h : Keeps H P I) (htw : Staged H I tw) : Staged H I tw.finish := by
  have hcommit := h.commitHeaderLocked htw
  unfold TimeoutWriter.finish
  split
  · exact hcommit
  · exact htw

end Keeps

structure Incoming where
  method : Text
  path : Text
  header : Header

structure Request extends Incoming where
  /-- The ID, which is empty if there is none. -/
  contextID : Text

def headerRequestID : Text := "X-Request-Id".toList

namespace Httpapi

variable {W : Type} [ResponseWriter W]

def document (w : W) (r : Request) (p : CatalogProblem) : Document where
  toProblem := p
  «instance» := r.path
  requestID :=
    if r.contextID ≠ [] then r.contextID
    else (ResponseWriter.header w).get headerRequestID

/-- What is done to send a document with a status. -/
def ops (status : FinalStatus) (d : Document) : List Op := [
  .set "Content-Type".toList ["application/problem+json".toList],
  .set "Content-Length".toList [Nat.toDigits 10 (byteLength d.json)],
  .writeHeader status,
  .write (.document d)]

def write (w : W) (r : Request) (p : CatalogProblem) : W :=
  Op.applyAll w (ops (finalStatus p) (document w r p))

end Httpapi

end Calculator.Http
