import Calculator.History.Persistence
import Calculator.Wire.Session

/-! # The history of a session against the server

The calculator together with its history, over page loads. What is recorded of an
answer is what the server computed, and it is still that when it is read back
from the storage.
-/

namespace Calculator.Wire

open Api Backend Binary Browser Decimal History Http Runs
open Store (Outcome Step step_of_next store)

structure App where
  calculator : Store.Session
  tab : Tab

def recorded (response : Api.CalculateResponse) : NewHistoryEntry :=
  ⟨response.operation, response.a, response.b, response.result⟩

inductive AppEvent where
  | key (key : Engine.Key)
  | clearAll
  | retry
  | setEvaluator (wired : Bool)
  /-- A request ends with an answer, which is recorded. -/
  | answered (ticket : ℕ) (response : Api.CalculateResponse) (id date : NonemptyText)
    (written : Bool)
  | failed (ticket : ℕ) (error : Store.Failure)
  /-- The result of a row of the history is recalled. -/
  | recallRow (row : HistoryEntry)
  | remove (id : Text) (written : Bool)
  | clearHistory (written : Bool)
  | reload (load : Load)

namespace App

def calculate (s : App) (e : Store.Event) : Option App :=
  (Store.next s.calculator e).map fun c => { s with calculator := c }

def next (s : App) : AppEvent → Option App
  | .key k => s.calculate (.key k)
  | .clearAll => s.calculate .clearAll
  | .retry => s.calculate .retry
  | .setEvaluator wired => s.calculate (.setEvaluator wired)
  | .answered ticket response id date written =>
    (s.calculate (.settle ticket (.answer ⟨response.result⟩))).map fun s =>
      { s with tab := s.tab.add ((recorded response).withMeta id date) written }
  | .failed ticket error => s.calculate (.settle ticket (.failure error))
  | .recallRow row => if row ∈ s.tab.entries then s.calculate (.recallValue row.result) else none
  | .remove id written => some { s with tab := s.tab.remove id written }
  | .clearHistory written => some { s with tab := s.tab.clear written }
  -- a page load forgets the calculator and every request
  | .reload load => some ⟨Store.fresh false, s.tab.reload load⟩

end App

def app (storage : LocalStorage Text Text) (load : Load) : Machine App AppEvent where
  start := ⟨Store.fresh false, (tab storage load).start⟩
  next := App.next

/-- Every request ends as one that the server answers, refuses or never gets. -/
def AppServed (h : Handler) (D : Reports) (s : App) : AppEvent → Prop
  | .answered ticket response _ _ _ => ∃ r answer, ∃ T : Transport,
      (ticket, r) ∈ s.calculator.inFlight ∧
      answerTo h D r = some answer ∧ T.client answer = .ok response.toJson
  | .failed ticket error => ∃ r, (ticket, r) ∈ s.calculator.inFlight ∧
      Settles h D r (.failure error)
  | .key _ | .clearAll | .retry | .setEvaluator _ | .recallRow _ | .remove _ _ | .clearHistory _
  | .reload _ => True

/-- The row is a calculation of the server. -/
def Computed (P : Primitives) (row : HistoryEntry) : Prop :=
  compute P ⟨row.operation, row.a, row.b.map Subtype.val⟩ = .ok row.result.1

section Rows

variable {P : Primitives} {r : Engine.CalculateRequest} {response : Api.CalculateResponse}
  {row : HistoryEntry}

/-- A negative zero makes no difference to what is computed. -/
theorem compute_withoutNegativeZero (P : Primitives) (r : Engine.CalculateRequest) :
    compute P ⟨r.operation, r.a.withoutNegativeZero, r.b.map Float64.withoutNegativeZero⟩ =
      compute P r := by
  have hidem (x : Float64) :
      x.withoutNegativeZero.withoutNegativeZero = x.withoutNegativeZero :=
    Float64.withoutNegativeZero_of_ne (Float64.withoutNegativeZero_ne x)
  unfold compute
  cases r.b with
  | none => simp only [Option.map_none, hidem]
  | some b => simp only [Option.map_some, hidem]

theorem computed_recorded (h : Echoes P r response) (id date : NonemptyText) :
    Computed P ((recorded response).withMeta id date) := by
  change compute P ⟨response.operation, response.a.1, response.b.map Subtype.val⟩ = _
  rw [h.operation, h.a, h.b, compute_withoutNegativeZero]
  exact h.result

/-- A row that was written and read back is the same calculation. -/
theorem Computed.onDisk (h : Computed P row) : Computed P row.onDisk := by
  have hb : row.onDisk.b.map Subtype.val =
      (row.b.map Subtype.val).map Float64.withoutNegativeZero := by
    rw [HistoryEntry.onDisk, Option.map_map, Option.map_map]
    rfl
  have hresult : row.onDisk.result.1 = row.result.1 :=
    Float64.withoutNegativeZero_of_ne (compute_ok h).2
  rw [Computed, hresult, hb]
  exact (compute_withoutNegativeZero P _).trans h

end Rows

section Runs

variable {P : Primitives} {h : Handler} {D : Reports} {storage : LocalStorage Text Text}
  {s t : App} {e : AppEvent} {es : List AppEvent} {c : Store.Session}

/-- The calculator tells the truth, and so does every row in memory and in storage. -/
structure Recorded (P : Primitives) (storage : LocalStorage Text Text) (s : App) : Prop where
  reachable : store.Reachable s.calculator
  truthful : Truthful P s.calculator
  stored : Stored storage s.tab
  entries : ∀ row ∈ s.tab.entries, Computed P row
  saved : ∀ l ∈ s.tab.saved, ∀ row ∈ l, Computed P row

namespace Recorded

theorem calculate (hreg : h.registry = newRegistry P) (hs : Recorded P storage s)
    {e : Store.Event} (hserved : Served h D s.calculator e) (hn : s.calculate e = some t) :
    Recorded P storage t := by
  obtain ⟨c, hc, rfl⟩ := Option.map_eq_some_iff.mp hn
  exact ⟨hs.reachable.next hc,
    hs.truthful.step hreg hs.reachable hserved (step_of_next hc), hs.stored, hs.entries, hs.saved⟩

theorem set (hs : Recorded P storage s) {l : List HistoryEntry} (hl : ∀ row ∈ l, Computed P row)
    (w : Bool) : Recorded P storage { s with tab := s.tab.set l w } where
  reachable := hs.reachable
  truthful := hs.truthful
  stored := hs.stored.set l w
  entries := hl
  saved := by
    cases w with
    | false => exact hs.saved
    | true =>
      rintro _ ⟨⟩
      exact hl

theorem add (hs : Recorded P storage s) {row : HistoryEntry} (hrow : Computed P row) (w : Bool) :
    Recorded P storage { s with tab := s.tab.add row w } := by
  apply hs.set
  intro row' hmem
  rcases List.mem_cons.mp (List.mem_of_mem_take hmem) with rfl | hmem
  · exact hrow
  · exact hs.entries row' hmem

theorem found (hinit : ∀ row ∈ History.found storage, Computed P row)
    (hs : Recorded P storage s) : ∀ row ∈ History.found s.tab.storage, Computed P row := by
  rw [hs.stored.found_eq]
  cases hsaved : s.tab.saved with
  | none => exact hinit
  | some l =>
    intro row hmem
    obtain ⟨row', hmem', rfl⟩ := List.mem_map.mp hmem
    exact (hs.saved l hsaved row' hmem').onDisk

end Recorded

theorem mem_entries_reload {t : Tab} {load : Load} {row : HistoryEntry}
    (hmem : row ∈ (t.reload load).entries) : row ∈ History.found t.storage := by
  cases hreads : load.reads with
  | true => rwa [entries_reload t hreads] at hmem
  | false =>
    rw [Tab.reload, readText, hreads] at hmem
    cases hmem

theorem Recorded.reload (hinit : ∀ row ∈ History.found storage, Computed P row)
    (hs : Recorded P storage s) (load : Load) :
    Recorded P storage ⟨Store.fresh false, s.tab.reload load⟩ where
  reachable := Machine.Reachable.start
  truthful := Truthful.fresh P false
  stored := hs.stored.reload load
  entries row hmem := hs.found hinit row (mem_entries_reload hmem)
  saved := hs.saved

theorem echoes_of_answered (hreg : h.registry = newRegistry P) {r : Engine.CalculateRequest}
    (harity : r.FitsArity) {answer : Answer} (hanswer : answerTo h D r = some answer)
    {T : Transport} {response : Api.CalculateResponse}
    (hclient : T.client answer = .ok response.toJson) : Echoes P r response := by
  by_cases hr : r.Sendable
  · obtain ⟨answer', hanswer', ⟨a, ha, hecho⟩ | ⟨c, e, he, -⟩⟩ := client_of_sendable hreg D T hr
    · cases hanswer.symm.trans hanswer'
      have hjson : a.toJson = response.toJson := Except.ok.inj (ha.symm.trans hclient)
      have hsome := calculateResponseSchema_toJson a
      rw [hjson, calculateResponseSchema_toJson] at hsome
      rw [Option.some.inj hsome]
      exact hecho
    · cases hanswer.symm.trans hanswer'
      cases he.symm.trans hclient
  · obtain ⟨detail, errs, hproblem⟩ := answerTo_of_not_sendable hreg D harity hr
    cases hanswer.symm.trans hproblem
    obtain ⟨e, he, -⟩ := client_problem T .validationFailed detail errs
    cases he.symm.trans hclient

theorem settles_of_answered {r : Engine.CalculateRequest} {answer : Answer}
    (hanswer : answerTo h D r = some answer) {T : Transport} {response : Api.CalculateResponse}
    (hclient : T.client answer = .ok response.toJson) :
    Settles h D r (.answer ⟨response.result⟩) := by
  apply Settles.exchanged T
  rw [exchange, hanswer, Option.bind_some, T.outcome_response, hclient, settlement,
    calculateResponseSchema_toJson, Option.map_some]

theorem Recorded.next (hreg : h.registry = newRegistry P)
    (hinit : ∀ row ∈ History.found storage, Computed P row) (hs : Recorded P storage s)
    (hserved : AppServed h D s e) (hn : s.next e = some t) : Recorded P storage t := by
  cases e with
  | key k => exact hs.calculate (h := h) (D := D) (e := .key k) hreg trivial hn
  | clearAll => exact hs.calculate (h := h) (D := D) (e := .clearAll) hreg trivial hn
  | retry => exact hs.calculate (h := h) (D := D) (e := .retry) hreg trivial hn
  | setEvaluator wired =>
    exact hs.calculate (h := h) (D := D) (e := .setEvaluator wired) hreg trivial hn
  | recallRow row =>
    obtain ⟨-, hn⟩ := Option.ite_none_right_eq_some.mp hn
    exact hs.calculate (h := h) (D := D) (e := .recallValue row.result) hreg trivial hn
  | failed ticket error =>
    exact hs.calculate (D := D) (e := .settle ticket (.failure error)) hreg hserved hn
  | answered ticket response id date w =>
    obtain ⟨u, hu, rfl⟩ := Option.map_eq_some_iff.mp hn
    obtain ⟨r, answer, T, hmem, hanswer, hclient⟩ := hserved
    have hsent := hs.truthful.inFlight (ticket, r) hmem
    have hecho := echoes_of_answered hreg (hs.truthful.sent ticket r hsent) hanswer hclient
    have hserved : Served h D s.calculator (.settle ticket (.answer ⟨response.result⟩)) :=
      ⟨r, hmem, settles_of_answered hanswer hclient⟩
    exact (hs.calculate hreg hserved hu).add (computed_recorded hecho id date) w
  | remove id w =>
    cases hn
    exact hs.set (fun row hmem => hs.entries row (List.mem_of_mem_filter hmem)) w
  | clearHistory w =>
    cases hn
    exact hs.set (by simp) w
  | reload load =>
    cases hn
    exact hs.reload hinit load

theorem recorded_start (hinit : ∀ row ∈ History.found storage, Computed P row) (load : Load) :
    Recorded P storage (app storage load).start where
  reachable := Machine.Reachable.start
  truthful := Truthful.fresh P false
  stored := Stored.start storage load
  entries row hmem := hinit row (mem_entries_reload hmem)
  saved := nofun

/-- In every run against the server, over page loads, failed writes and whatever else
the storage held, each row of the history is a calculation that the server would do
again with the same result. -/
theorem history_is_true (hreg : h.registry = newRegistry P)
    (hinit : ∀ row ∈ History.found storage, Computed P row) {load : Load}
    (hrun : (app storage load).RunWhen (AppServed h D) (app storage load).start es s) :
    ∀ row ∈ s.tab.entries, Computed P row :=
  (hrun.preserves (fun hs hserved hn => hs.next hreg hinit hserved hn)
    (recorded_start hinit load)).entries

end Runs

def rootResponse : Api.CalculateResponse :=
  ⟨.sqrt, ⟨Engine.one, Engine.isFinite_one⟩, none, ⟨Engine.one, Engine.isFinite_one⟩⟩

theorem answerTo_rootOfOne :
    answerTo unitHandler terse rootOfOne = some (.json 200 (responseBody rootResponse)) := by
  have hsend : rootOfOne.Sendable := Engine.sendable_sqrtRequest Engine.isFinite_one
  obtain ⟨answer, hanswer, hspec⟩ := answerTo_of_sendable (P := unit) (h := unitHandler) rfl terse
    hsend
  have hvalue : compute unit rootOfOne = .ok Engine.one := by decide +kernel
  have hone : Engine.one.withoutNegativeZero = Engine.one := by decide +kernel
  rw [hvalue] at hspec
  rw [hanswer, hspec, rootOfOne, hone]
  rfl

/-- The root of `1` is recorded, and still there after a page load. -/
theorem history_is_true_rootRun :
    let id : NonemptyText := ⟨['x'], by decide⟩
    let es : List AppEvent := [.setEvaluator true, .key (.digit 1), .key (.unary .sqrt),
      .answered 1 rootResponse id id true, .reload calmLoad]
    ∃ s, (app spoiled calmLoad).Run (app spoiled calmLoad).start es s ∧
      s.tab.entries.length = 1 ∧ ∀ row ∈ s.tab.entries, Computed unit row := by
  intro id es
  have hempty : History.found spoiled = [] := by decide +kernel
  have hanswered : AppServed unitHandler terse
      ⟨(store.replay (Store.fresh false) (rootRun.take 3)).get (by decide +kernel),
        (tab spoiled calmLoad).start⟩ (.answered 1 rootResponse id id true) :=
    ⟨rootOfOne, _, bare, by decide +kernel, answerTo_rootOfOne, client_json bare _⟩
  have hrun : ∃ s, (app spoiled calmLoad).RunWhen (AppServed unitHandler terse)
      (app spoiled calmLoad).start es s ∧ s.tab.entries.length = 1 := by
    refine ⟨_, .cons trivial rfl (.cons trivial rfl (.cons trivial rfl (.cons hanswered rfl
      (.cons trivial rfl (.nil _))))), ?_⟩
    decide +kernel
  obtain ⟨s, hrun, hlength⟩ := hrun
  exact ⟨s, hrun.run, hlength, history_is_true rfl (by simp [hempty]) hrun⟩

end Calculator.Wire
