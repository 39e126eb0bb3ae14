import Calculator.Components.Keys
import Calculator.Display.FormatNumber

/-! # The page

The keys of the page, as of its last render. A key that looks dead does nothing, and
the keyboard ignores most keys while the page looks busy. If the page is rendered in
time this makes no difference to the store, and in any case the store does nothing on
the page that it could not do by itself. A render whose main line cannot be written is
the end of the page: what takes its place has no keys.
-/

namespace Calculator.Components

open Binary Decimal Runs
open Store (Session store)

/-- The entry has as many digits as it can have. -/
def atCap (state : Engine.CalcState) : Bool :=
  state.phase.entering &&
    decide (Engine.maxEntryDigits ≤ (state.display.filter Char.isDigit).length)

def duplicate (state : Engine.CalcState) : Bool :=
  state.phase.entering && decide ('.' ∈ state.display)

/-- Whether the display shakes when a key is passed on. -/
def shakes (s : Store.CalculatorStore) : Engine.Key → Bool
  | .digit _ => s.pending || atCap s.calcState
  | .decimal => s.pending || duplicate s.calcState
  | .toggleSign | .backspace | .clearEntry | .operator _ | .evaluate | .unary _ => false

structure Page where
  session : Session
  /-- What the page shows, since it was last rendered. -/
  rendered : Store.CalculatorStore
  operations : List Api.OperationSpec
  shake : Bool
  pressedShortcut : Option Text
  /-- A render has failed, and all that is offered is to load the page again. -/
  hasError : Bool

inductive PageEvent where
  | keydown (e : KeyboardEvent)
  | clickKey (id : Text)
  | clickOperation (name : Text)
  | clickRetry
  | recallValue (value : Float64)
  | setEvaluator (wired : Bool)
  | settle (ticket : ℕ) (outcome : Store.Outcome)
  /-- The operations of the server have arrived. -/
  | discover (operations : List Api.OperationSpec)
  | render
  | shakeOver
  | pressedOver

def PageEvent.outlives : PageEvent → Bool
  | .settle _ _ => true
  | _ => false

def mainLine (s : Store.CalculatorStore) : Except Ecma.RangeError Text :=
  Display.formatMainValue s.calcState.display s.calcState.phase.entering

namespace Page

def press (p : Page) : Press → Page
  | .input key =>
    { p with
      shake := p.shake || shakes p.session.toCalculatorStore key
      session := p.session.input (Engine.press · key) }
  | .clearAll => { p with session := p.session.clearAll }

def keydown (p : Page) (e : KeyboardEvent) : Page :=
  match e.action with
  | none => p
  | some action =>
    if p.rendered.pending ∧ action ≠ .clearAll then p
    else { p.press (dispatch action) with pressedShortcut := some e.key }

def clickKey (p : Page) (id : Text) : Page :=
  match padKey id with
  | none => p
  | some key => if p.rendered.pending ∧ ¬ key.ignoresBusy then p else p.press key.press

def clickOperation (p : Page) (name : Text) : Page :=
  match extraKey p.operations name with
  | none => p
  | some operation =>
    match pressHandler operation.name with
    | none => p
    | some handler => if p.rendered.pending then p else p.press handler

/-- The button is there only if the page offers it. -/
def clickRetry (p : Page) : Page :=
  if p.rendered.canRetry then { p with session := p.session.retry } else p

def ask (p : Page) (e : Store.Event) : Option Page :=
  (store.next p.session e).map fun s => { p with session := s }

/-- If the main line throws, the calculator is unmounted and unwires the store. -/
def render (p : Page) : Page :=
  match mainLine p.session.toCalculatorStore with
  | .ok _ => { p with rendered := p.session.toCalculatorStore }
  | .error _ => { p with session := { p.session with evaluator := false }, hasError := true }

def mounted (p : Page) : PageEvent → Option Page
  | .keydown e => some (p.keydown e)
  | .clickKey id => some (p.clickKey id)
  | .clickOperation name => some (p.clickOperation name)
  | .clickRetry => some p.clickRetry
  | .recallValue value => some { p with session := p.session.recallValue value }
  | .setEvaluator wired => p.ask (.setEvaluator wired)
  | .settle ticket outcome => p.ask (.settle ticket outcome)
  | .discover operations => some { p with operations := operations }
  | .render => some p.render
  | .shakeOver => some { p with shake := false }
  | .pressedOver => some { p with pressedShortcut := none }

def next (p : Page) (e : PageEvent) : Option Page :=
  if p.hasError && !e.outlives then some p else p.mounted e

end Page

def page : Machine Page PageEvent where
  start :=
    let s := Store.fresh false
    ⟨s, s.toCalculatorStore, Api.fallbackOperations, false, none, false⟩
  next := Page.next

def Press.event : Press → Store.Event
  | .input key => .key key
  | .clearAll => .clearAll

def PageEvent.isKey : PageEvent → Bool
  | .keydown _ | .clickKey _ | .clickOperation _ => true
  | _ => false

/-- What a key of the calculator asks for, be it dead or alive. -/
def keyPress (p : Page) : PageEvent → Option Press
  | .keydown e => e.action.map dispatch
  | .clickKey id => (padKey id).map KeyDescriptor.press
  | .clickOperation name => (extraKey p.operations name).bind fun o => pressHandler o.name
  | _ => none

/-- What a key asks for, as long as there is a calculator. -/
def offered (p : Page) (e : PageEvent) : Option Press := if p.hasError then none else keyPress p e

section Keys

variable {p q : Page} {e : PageEvent} {a : Press}

theorem next_of_mounted (h : p.hasError = false) (e : PageEvent) : p.next e = p.mounted e :=
  if_neg (by simp [h])

theorem next_of_hasError (h : p.hasError = true) (he : e.outlives = false) : p.next e = some p :=
  if_pos (by simp [h, he])

theorem offered_eq_some_iff :
    offered p e = some a ↔ p.hasError = false ∧ keyPress p e = some a := by
  unfold offered
  cases p.hasError <;> simp

theorem next_press (p : Page) (a : Press) :
    store.next p.session a.event = some (p.press a).session := by
  cases a <;> rfl

theorem dispatch_eq_clearAll_iff {action : KeyAction} :
    dispatch action = .clearAll ↔ action = .clearAll := by
  cases action <;> simp [dispatch]

/-- A key is passed on unless the page looks busy, and then `AC` still is. -/
theorem next_of_offered (h : offered p e = some a) : ∃ q, p.next e = some q ∧
    if p.rendered.pending ∧ a ≠ .clearAll then q = p
    else ∃ shortcut, q = { p.press a with pressedShortcut := shortcut } := by
  obtain ⟨hmounted, h⟩ := offered_eq_some_iff.mp h
  rw [next_of_mounted hmounted]
  cases e with
  | keydown e =>
    obtain ⟨action, haction, rfl⟩ := Option.map_eq_some_iff.mp h
    refine ⟨_, rfl, ?_⟩
    simp only [Page.keydown, haction, ne_eq, dispatch_eq_clearAll_iff]
    split
    · rfl
    · exact ⟨some e.key, rfl⟩
  | clickKey id =>
    obtain ⟨key, hkey, rfl⟩ := Option.map_eq_some_iff.mp h
    refine ⟨_, rfl, ?_⟩
    simp only [Page.clickKey, hkey, ignoresBusy_iff (List.mem_of_find?_eq_some hkey), ne_eq]
    split
    · rfl
    · exact ⟨_, rfl⟩
  | clickOperation name =>
    obtain ⟨operation, hkey, hpress⟩ := Option.bind_eq_some_iff.mp h
    have hne : a ≠ .clearAll := by
      rintro rfl
      exact pressHandler_ne_clearAll operation.name hpress
    refine ⟨_, rfl, ?_⟩
    simp only [Page.clickOperation, hkey, hpress, hne, ne_eq, not_false_eq_true, and_true]
    split
    · rfl
    · exact ⟨_, rfl⟩
  | clickRetry | recallValue | setEvaluator | settle | discover | render | shakeOver
  | pressedOver => cases h

theorem next_of_not_offered (h : offered p e = none) (he : e.isKey = true) :
    p.next e = some p := by
  cases hmounted : p.hasError with
  | true =>
    apply next_of_hasError hmounted
    cases e with
    | keydown | clickKey | clickOperation => rfl
    | clickRetry | recallValue | setEvaluator | settle | discover | render | shakeOver
    | pressedOver => cases he
  | false =>
    rw [offered, hmounted, if_neg Bool.false_ne_true] at h
    rw [next_of_mounted hmounted]
    cases e with
    | keydown k =>
      have haction : k.action = none := Option.map_eq_none_iff.mp h
      simp [Page.mounted, Page.keydown, haction]
    | clickKey id =>
      have hkey : padKey id = none := Option.map_eq_none_iff.mp h
      simp [Page.mounted, Page.clickKey, hkey]
    | clickOperation name =>
      cases hkey : extraKey p.operations name with
      | none => simp [Page.mounted, Page.clickOperation, hkey]
      | some operation =>
        have hpress : pressHandler operation.name = none := by simpa [keyPress, hkey] using h
        simp [Page.mounted, Page.clickOperation, hkey, hpress]
    | clickRetry | recallValue | setEvaluator | settle | discover | render | shakeOver
    | pressedOver => cases he

end Keys

/-- What the calculator asks of the store, be the key dead or alive. -/
def pageAsks (p : Page) : PageEvent → Option Store.Event
  | .clickRetry => if p.rendered.canRetry then some .retry else none
  | .recallValue value => some (.recallValue value)
  | .setEvaluator wired => some (.setEvaluator wired)
  | .settle ticket outcome => some (.settle ticket outcome)
  | .render =>
    match mainLine p.session.toCalculatorStore with
    | .ok _ => none
    | .error _ => some (.setEvaluator false)
  | e => (keyPress p e).map Press.event

/-- What the store is asked for, as long as there is a calculator. -/
def asks (p : Page) (e : PageEvent) : Option Store.Event :=
  if p.hasError && !e.outlives then none else pageAsks p e

/-- A key is used only when the page does not still look busy. -/
def Prompt (p : Page) (e : PageEvent) : Prop :=
  offered p e ≠ none → p.rendered.pending = true → p.session.pending = true

instance (p : Page) (e : PageEvent) : Decidable (Prompt p e) :=
  inferInstanceAs (Decidable (_ → _ → _))

section Refinement

variable {p q : Page} {e : PageEvent} {es : List PageEvent} {s : Session}

theorem next_key_of_pending (hp : s.pending = true) (k : Engine.Key) :
    store.next s (.key k) = some s := by
  change some (s.input (Engine.press · k)) = some s
  rw [Session.input, if_pos hp]

theorem run_singleton {t : Session} {e : Store.Event} (h : store.next s e = some t) :
    store.Run s [e] t := .cons trivial h (.nil t)

theorem run_of_offered {a : Press} (h : offered p e = some a) (hn : p.next e = some q)
    (hprompt : p.rendered.pending = true → p.session.pending = true) :
    store.Run p.session [a.event] q.session := by
  obtain ⟨q', hq', hspec⟩ := next_of_offered h
  cases hn.symm.trans hq'
  split_ifs at hspec with hdead
  · obtain ⟨hbusy, hne⟩ := hdead
    subst hspec
    cases a with
    | input k => exact run_singleton (next_key_of_pending (hprompt hbusy) k)
    | clearAll => exact absurd rfl hne
  · obtain ⟨shortcut, rfl⟩ := hspec
    exact run_singleton (next_press p a)

theorem run_of_next (hprompt : Prompt p e) (hn : p.next e = some q) :
    store.Run p.session (asks p e).toList q.session := by
  by_cases hgone : (p.hasError && !e.outlives) = true
  · rw [Page.next, if_pos hgone] at hn
    cases hn
    rw [asks, if_pos hgone]
    exact .nil _
  have hn' : p.mounted e = some q := by rwa [Page.next, if_neg hgone] at hn
  rw [asks, if_neg hgone]
  have hkey (he : e.isKey = true) (hmounted : p.hasError = false) :
      store.Run p.session ((keyPress p e).map Press.event).toList q.session := by
    have hkeyPress : offered p e = keyPress p e := if_neg (by simp [hmounted])
    rw [← hkeyPress]
    cases ho : offered p e with
    | none =>
      cases (next_of_not_offered ho he).symm.trans hn
      exact .nil _
    | some a => exact run_of_offered ho hn (hprompt (by simp [ho]))
  cases e with
  | keydown _ | clickKey _ | clickOperation _ =>
    exact hkey rfl (by simpa [PageEvent.outlives] using hgone)
  | clickRetry =>
    cases hn'
    unfold pageAsks Page.clickRetry
    dsimp only
    split
    · exact run_singleton rfl
    · exact .nil _
  | recallValue value =>
    cases hn'
    exact run_singleton rfl
  | setEvaluator wired =>
    cases hn'
    exact run_singleton rfl
  | settle ticket outcome =>
    obtain ⟨t, ht, rfl⟩ := Option.map_eq_some_iff.mp hn'
    exact run_singleton ht
  | render =>
    cases hn'
    unfold pageAsks Page.render
    dsimp only
    split
    · exact .nil _
    · exact run_singleton rfl
  | discover | shakeOver | pressedOver =>
    cases hn'
    exact .nil _

theorem reachable_next (hs : store.Reachable p.session) (hn : p.next e = some q) :
    store.Reachable q.session := by
  by_cases hprompt : Prompt p e
  · exact hs.run (run_of_next hprompt hn)
  · obtain ⟨ho, hbusy, hidle⟩ : offered p e ≠ none ∧ p.rendered.pending = true ∧
        ¬ p.session.pending = true := by simpa [Prompt] using hprompt
    obtain ⟨a, ho⟩ := Option.ne_none_iff_exists'.mp ho
    obtain ⟨q', hq', hspec⟩ := next_of_offered ho
    cases hn.symm.trans hq'
    split_ifs at hspec with hdead
    · rwa [hspec]
    · obtain ⟨shortcut, rfl⟩ := hspec
      exact hs.next (next_press p a)

/-- How a key of the store is reached on the page. -/
def typed : Engine.Key → PageEvent
  | .digit digit => .keydown (plainKey [digit.char])
  | .decimal => .keydown (plainKey ['.'])
  | .toggleSign => .clickKey "toggle-sign".toList
  | .backspace => .keydown (plainKey "Backspace".toList)
  | .clearEntry => .keydown (plainKey "Delete".toList)
  | .operator .add => .keydown (plainKey ['+'])
  | .operator .subtract => .keydown (plainKey ['-'])
  | .operator .multiply => .keydown (plainKey ['*'])
  | .operator .divide => .keydown (plainKey ['/'])
  | .operator .power => .keydown (plainKey ['^'])
  | .evaluate => .keydown (plainKey "Enter".toList)
  | .unary .sqrt => .keydown (plainKey ['r'])
  | .unary .percent => .keydown (plainKey ['%'])

theorem offered_typed (h : p.hasError = false) (k : Engine.Key) :
    offered p (typed k) = some (.input k) := by
  rw [offered_eq_some_iff, and_iff_right h]
  cases k with
  | digit d =>
    have hall : ∀ d : Engine.Digit, (keyMap.lookup [d.char]).map dispatch =
        some (.input (.digit d)) := by decide
    exact hall d
  | operator op => cases op <;> rfl
  | unary op => cases op <;> rfl
  | decimal | toggleSign | backspace | clearEntry | evaluate => rfl

/-- A request is retried only where the main line can be written. -/
def RetryShown (s : Session) : Store.Event → Prop
  | .retry => ∃ t, mainLine s.toCalculatorStore = .ok t
  | _ => True

/-- A page with a calculator whose keys are alive. -/
def Live (p : Page) : Prop := p.hasError = false ∧ p.rendered.pending = false

theorem exists_run_of_offered {t : Session} {a : Press} (hp : Live p) (ho : offered p e = some a)
    (hn : store.next p.session a.event = some t) :
    ∃ es q, page.Run p es q ∧ Live q ∧ q.session = t := by
  obtain ⟨q, hq, hspec⟩ := next_of_offered ho
  rw [if_neg fun hdead => by simp [hp.2] at hdead] at hspec
  obtain ⟨shortcut, rfl⟩ := hspec
  refine ⟨[e], _, .cons trivial hq (.nil _), ?_, Option.some.inj ((next_press p a).symm.trans hn)⟩
  cases a <;> exact hp

/-- The page is rendered once more, so that it has the button. -/
theorem exists_run_of_canRetry {text : Text} (hp : Live p) (hpending : p.session.pending = false)
    (hcanRetry : p.session.canRetry = true)
    (hline : mainLine p.session.toCalculatorStore = .ok text) :
    ∃ es q, page.Run p es q ∧ Live q ∧ q.session = p.session.retry := by
  let shown : Page := { p with rendered := p.session.toCalculatorStore }
  have hrender : page.next p .render = some shown := by
    change p.next .render = _
    rw [next_of_mounted hp.1, Page.mounted, Page.render, hline]
  have hmounted : shown.hasError = false := hp.1
  have hretry : page.next shown .clickRetry =
      some { shown with session := shown.session.retry } := by
    change shown.next .clickRetry = _
    rw [next_of_mounted hmounted, Page.mounted, Page.clickRetry, if_pos hcanRetry]
  exact ⟨_, _, .cons trivial hrender (.cons trivial hretry (.nil _)), ⟨hp.1, hpending⟩, rfl⟩

/-- Every step of the store can be made on such a page, if the button for a retry can
be shown. -/
theorem exists_run_of_next {t : Session} {e : Store.Event} (hp : Live p)
    (hshown : RetryShown p.session e) (h : store.next p.session e = some t) :
    ∃ es q, page.Run p es q ∧ Live q ∧ q.session = t := by
  have hclick (e : PageEvent) {q : Page} (hn : p.mounted e = some q) (hlive : Live q)
      (hq : q.session = t) : ∃ es q, page.Run p es q ∧ Live q ∧ q.session = t :=
    ⟨[e], q, .cons trivial ((next_of_mounted hp.1 e).trans hn) (.nil q), hlive, hq⟩
  cases e with
  | key k => exact exists_run_of_offered hp (offered_typed hp.1 k) h
  | clearAll =>
    exact exists_run_of_offered (e := .keydown (plainKey "Escape".toList)) hp
      (offered_eq_some_iff.mpr ⟨hp.1, rfl⟩) h
  | retry =>
    cases h
    by_cases hc : p.session.pending = false ∧ p.session.canRetry = true
    · obtain ⟨text, hline⟩ := hshown
      exact exists_run_of_canRetry hp hc.1 hc.2 hline
    · refine ⟨[], p, .nil p, hp, ?_⟩
      rw [Session.retry, if_pos (by simpa [or_iff_not_imp_left] using hc)]
  | recallValue value => exact hclick (.recallValue value) rfl hp (Option.some.inj h)
  | setEvaluator wired => exact hclick (.setEvaluator wired) rfl hp (Option.some.inj h)
  | settle ticket outcome =>
    have hn : p.mounted (.settle ticket outcome) = some { p with session := t } := by
      rw [Page.mounted, Page.ask, h, Option.map_some]
    exact hclick _ hn hp rfl

/-- If every key is used on a page that does not still look busy, the store does what
the keys ask for, as if none of them were ever dead, for as long as the main line can be
written. Without that a key may be lost; the store still comes only to states that it can
come to by itself, and to all of those for which it need not retry where the main line
cannot be written. -/
theorem page_refines_store :
    (∀ es p, page.RunWhen Prompt page.start es p →
      store.Run store.start (page.project asks page.start es) p.session) ∧
    (∀ p, page.Reachable p → store.Reachable p.session) ∧
    ∀ es s, store.RunWhen RetryShown store.start es s →
      ∃ p, page.Reachable p ∧ p.hasError = false ∧ p.session = s := by
  refine ⟨fun es p h => ?_, fun p hp => ?_, fun es s h => ?_⟩
  · obtain ⟨t, hrun, rfl⟩ := h.simulate (R := fun p s => p.session = s) (f := asks) (N := store)
      (by
        rintro p e q _ rfl hprompt hn
        exact ⟨_, run_of_next hprompt hn, rfl⟩) rfl
    exact hrun
  · exact hp.induction (I := fun p => store.Reachable p.session) Machine.Reachable.start
      fun hs hn => reachable_next hs hn
  · obtain ⟨p, hp, hlive, rfl⟩ := h.preserves
      (I := fun s => ∃ p, page.Reachable p ∧ Live p ∧ p.session = s) (by
        rintro s e t ⟨p, hp, hlive, rfl⟩ hshown hn
        obtain ⟨es, q, hrun, hq⟩ := exists_run_of_next hlive hshown hn
        exact ⟨q, hp.run hrun, hq⟩)
      ⟨page.start, Machine.Reachable.start, ⟨rfl, rfl⟩, rfl⟩
    exact ⟨p, hp, hlive.1, rfl⟩

/-- A digit that is typed while the page is up to date, and one that is lost since the
page has not been rendered after the answer. -/
def slowPage : List PageEvent :=
  [.setEvaluator true, typed (.digit 9), typed (.unary .sqrt), .render, typed (.digit 4),
    .settle 1 (.answer ⟨Engine.one⟩)]

theorem slowPage_isSome : (page.replayWhen Prompt page.start slowPage).isSome := by
  decide +kernel

theorem page_refines_store_slowPage :
    let p := (page.replayWhen Prompt page.start slowPage).get slowPage_isSome
    store.Run store.start (page.project asks page.start slowPage) p.session ∧
      store.Reachable p.session ∧
      (p.next (typed (.digit 4))).map Page.session = some p.session := by
  intro p
  have h : page.RunWhen Prompt page.start slowPage p :=
    Machine.runWhen_replayWhen_get slowPage_isSome
  obtain ⟨hfollows, hreaches, -⟩ := page_refines_store
  exact ⟨hfollows slowPage p h, hreaches p ⟨slowPage, h.run⟩, by decide +kernel⟩

/-- A render of what is left of a number, and a digit that is typed in vain. -/
example :
    let p := page.replay page.start [.setEvaluator true, .recallValue (.ofRat false (1 / 10 ^ 7)),
      typed .backspace, typed .evaluate, .render, typed (.digit 5)]
    p.any (fun p => p.hasError && !p.session.evaluator && !p.session.calcState.phase.entering) =
      true := by
  decide +kernel

end Refinement

/-- Another zero is typed after a lone one, which takes it in. -/
def ZeroOnZero (s : Store.CalculatorStore) (k : Engine.Key) : Prop :=
  s.pending = false ∧ s.calcState.phase.entering = true ∧ s.calcState.display = ['0'] ∧
    k = .digit 0

section Feedback

variable {s : Session} {state : Engine.CalcState} {d : Engine.Digit}

theorem appendDigit_eq_self_iff {entry : Text} : Engine.appendDigit entry d = entry ↔
    Engine.maxEntryDigits ≤ (entry.filter Char.isDigit).length ∨ entry = ['0'] ∧ d = 0 := by
  unfold Engine.appendDigit Engine.countDigits
  split
  · next hcap => simp [hcap]
  · next hcap =>
    have hchar : d.char = '0' ↔ d = 0 := by
      revert d
      decide
    split
    · next hzero =>
      subst hzero
      simp [hchar, Engine.maxEntryDigits]
    · next hzero => simp [hcap, hzero]

theorem appendDecimal_eq_self_iff {entry : Text} :
    Engine.appendDecimal entry = entry ↔ '.' ∈ entry := by
  unfold Engine.appendDecimal
  split
  · next h => simp [h]
  · next h => simp [h]

theorem with_display_eq_self_iff {display : Text} :
    { state with display := display } = state ↔ display = state.display := by
  constructor
  · intro h
    exact congrArg Engine.CalcState.display h
  · rintro rfl
    rfl

theorem ne_of_opens {t : Engine.CalcState} (h : state.phase.entering = false)
    (ht : t.phase.entering = true) : t ≠ state := by
  rintro rfl
  rw [h] at ht
  cases ht

theorem inputDigit_eq_self_iff : (Engine.inputDigit state d).state = state ↔
    atCap state = true ∨ state.phase.entering = true ∧ state.display = ['0'] ∧ d = 0 := by
  cases hentering : state.phase.entering with
  | true =>
    rw [Engine.inputDigit_of_entering hentering, Engine.stay_state, with_display_eq_self_iff,
      appendDigit_eq_self_iff]
    simp [atCap, hentering]
  | false =>
    have hopens : (Engine.inputDigit state d).state.phase.entering = true := by
      cases hphase : state.phase <;> simp_all [Engine.inputDigit, Engine.Phase.entering]
    simp [atCap, hentering, ne_of_opens hentering hopens]

theorem inputDecimal_eq_self_iff :
    (Engine.inputDecimal state).state = state ↔ duplicate state = true := by
  cases hentering : state.phase.entering with
  | true =>
    rw [Engine.inputDecimal_of_entering hentering, Engine.stay_state, with_display_eq_self_iff,
      appendDecimal_eq_self_iff]
    simp [duplicate, hentering]
  | false =>
    have hopens : (Engine.inputDecimal state).state.phase.entering = true := by
      cases hphase : state.phase <;> simp_all [Engine.inputDecimal, Engine.Phase.entering]
    simp [duplicate, hentering, ne_of_opens hentering hopens]

theorem input_eq_self_iff {k : Engine.Key} (he : (Engine.press s.calcState k).effect = none) :
    s.input (Engine.press · k) = s ↔
      s.pending = true ∨ (Engine.press s.calcState k).state = s.calcState := by
  unfold Session.input
  split
  · next hp => simp [hp]
  · next hp =>
    rw [Session.apply, he]
    constructor
    · intro h
      exact Or.inr (congrArg (fun s : Session => s.calcState) h)
    · intro h
      dsimp only
      rw [h.resolve_left hp]

theorem effect_inputDigit (state : Engine.CalcState) (d : Engine.Digit) :
    (Engine.inputDigit state d).effect = none := by
  unfold Engine.inputDigit
  split <;> rfl

theorem effect_inputDecimal (state : Engine.CalcState) :
    (Engine.inputDecimal state).effect = none := by
  unfold Engine.inputDecimal
  split <;> rfl

/-- The display shakes at a digit or a point exactly if the store refuses it, another
zero after a lone one apart. -/
theorem shakes_iff {k : Engine.Key} (hk : k = .decimal ∨ ∃ d, k = .digit d) :
    shakes s.toCalculatorStore k = true ↔
      s.input (Engine.press · k) = s ∧ ¬ ZeroOnZero s.toCalculatorStore k := by
  rcases hk with rfl | ⟨d, rfl⟩
  · have hinput := input_eq_self_iff (s := s) (k := .decimal) (effect_inputDecimal s.calcState)
    rw [hinput, Engine.press, inputDecimal_eq_self_iff]
    simp [shakes, ZeroOnZero]
  · have hinput := input_eq_self_iff (s := s) (k := .digit d) (effect_inputDigit s.calcState d)
    have hcap : atCap s.calcState = true → s.calcState.display ≠ ['0'] := by
      intro hcap hzero
      simp [atCap, hzero, Engine.maxEntryDigits] at hcap
    rw [hinput, Engine.press, inputDigit_eq_self_iff]
    simp only [shakes, ZeroOnZero, Engine.Key.digit.injEq, Bool.or_eq_true]
    cases hp : s.pending with
    | true => simp
    | false =>
      simp only [Bool.false_eq_true, false_or, true_and]
      constructor
      · intro h
        exact ⟨Or.inl h, fun hz => hcap h hz.2.1⟩
      · rintro ⟨h | h, hz⟩
        · exact h
        · exact absurd h hz

/-- A digit or a point that is passed on makes the display shake exactly if the store
refuses it. While the page looks busy they are dropped without a sign. -/
theorem shake_is_honest {p : Page} {e : PageEvent} {k : Engine.Key}
    (ho : offered p e = some (.input k)) (hk : k = .decimal ∨ ∃ d, k = .digit d) :
    ∃ q, p.next e = some q ∧
      if p.rendered.pending = true then q = p
      else (q.shake = true ↔ p.shake = true ∨
        q.session = p.session ∧ ¬ ZeroOnZero p.session.toCalculatorStore k) := by
  obtain ⟨q, hq, hspec⟩ := next_of_offered ho
  refine ⟨q, hq, ?_⟩
  split
  · next hbusy => rwa [if_pos ⟨hbusy, nofun⟩] at hspec
  · next hbusy =>
    rw [if_neg fun hdead => hbusy hdead.1] at hspec
    obtain ⟨shortcut, rfl⟩ := hspec
    change (p.shake || shakes p.session.toCalculatorStore k) = true ↔ _
    rw [Bool.or_eq_true, shakes_iff hk]
    rfl

theorem point_isSome : (page.replay page.start [typed .decimal]).isSome := by decide +kernel

/-- A second point. -/
theorem shake_is_honest_point :
    let p := (page.replay page.start [typed .decimal]).get point_isSome
    ∃ q, p.next (typed .decimal) = some q ∧ q.shake = true := by
  intro p
  have hmounted : p.hasError = false := by decide +kernel
  obtain ⟨q, hq, hspec⟩ := shake_is_honest (offered_typed hmounted .decimal) (Or.inl rfl)
  have hsame : (p.next (typed .decimal)).map Page.session = some p.session := by decide +kernel
  have hlive : ¬ p.rendered.pending = true := by decide +kernel
  rw [hq, Option.map_some, Option.some.injEq] at hsame
  rw [if_neg hlive] at hspec
  exact ⟨q, hq, hspec.mpr (Or.inr ⟨hsame, fun hz => by cases hz.2.2.2⟩)⟩

end Feedback

end Calculator.Components
