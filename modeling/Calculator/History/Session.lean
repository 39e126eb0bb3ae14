import Calculator.History.Storage
import Calculator.Runs.Machine

/-! # The history over whole sessions

The list in memory and the one in storage part ways whenever a write fails and
meet again at a reload. Both are always a sublist of what was added, newest
first, and never longer than the bound.
-/

namespace Calculator.History

open Binary Decimal Engine Runs

def maxHistoryEntries : ℕ := 50

def historyVersion : ℕ := 1

def historyKey : Text := storageKey "history".toList historyVersion

def historyKeyPrefix : Text := "calc.history.v".toList

structure NewHistoryEntry where
  operation : OperationName
  a : FiniteNumber
  b : Option FiniteNumber
  result : FiniteNumber
  deriving DecidableEq

def NewHistoryEntry.withMeta (entry : NewHistoryEntry) (id date : NonemptyText) : HistoryEntry where
  id := id
  operation := entry.operation
  a := entry.a
  b := entry.b
  result := entry.result
  «at» := date

def loadInitialEntries (storage : Storage) : Storage × List HistoryEntry :=
  let migrated := migrateKeys storage historyKeyPrefix historyKey
  (migrated, (readJSON migrated historyKey historyListSchema).getD [])

structure Session where
  entries : List HistoryEntry
  storage : Storage
  /-- Everything that was added, newest first. -/
  added : List HistoryEntry
  /-- The list at the last write that succeeded. -/
  saved : Option (List HistoryEntry)

/-- The choices of `makeId` and the clock, and whether the write goes through. -/
inductive Event where
  | add (entry : NewHistoryEntry) (id date : NonemptyText) (written : Bool)
  | remove (id : Text) (written : Bool)
  | clear (written : Bool)
  | reload
  deriving DecidableEq

namespace Session

def set (s : Session) (entries : List HistoryEntry) (written : Bool) : Session where
  entries := entries
  storage := writeJSON s.storage historyKey (listToJson entries) written
  added := s.added
  saved := if written then some entries else s.saved

def add (s : Session) (x : HistoryEntry) (written : Bool) : Session :=
  { s.set ((x :: s.entries).take maxHistoryEntries) written with added := x :: s.added }

def remove (s : Session) (id : Text) (written : Bool) : Session :=
  s.set (s.entries.filter (·.id.1 ≠ id)) written

def clear (s : Session) (written : Bool) : Session := s.set [] written

def reload (s : Session) : Session :=
  { s with
    storage := (loadInitialEntries s.storage).1
    entries := (loadInitialEntries s.storage).2 }

def next (s : Session) : Event → Session
  | .add entry id date written => s.add (entry.withMeta id date) written
  | .remove id written => s.remove id written
  | .clear written => s.clear written
  | .reload => s.reload

def initial : Session := reload ⟨[], .empty, [], none⟩

end Session

def history : Machine Session Event where
  start := .initial
  next s e := some (s.next e)

def Event.entry? : Event → Option HistoryEntry
  | .add entry id date _ => some (entry.withMeta id date)
  | _ => none

def everAdded (es : List Event) : List HistoryEntry := (es.filterMap Event.entry?).reverse

variable {s t u : Session} {e : Event} {es fs : List Event} {x : HistoryEntry} {w : Bool}

theorem run_iff : history.Run s es t ↔ es.foldl Session.next s = t :=
  Machine.run_iff_foldl fun _ _ => rfl

theorem added_next (s : Session) (e : Event) :
    (s.next e).added = e.entry?.toList ++ s.added := by
  cases e <;> rfl

theorem added_eq (h : history.Run s es t) : t.added = everAdded es ++ s.added := by
  rw [← run_iff.mp h]
  clear h
  induction es generalizing s with
  | nil => rfl
  | cons e es ih =>
    rw [List.foldl_cons, ih, added_next]
    cases he : e.entry? <;> simp [everAdded, he]

/-- A list that could be the history after the additions. -/
structure Fits (added entries : List HistoryEntry) : Prop where
  length_le : entries.length ≤ maxHistoryEntries
  sublist : entries.Sublist added

namespace Fits

variable {added entries l : List HistoryEntry}

theorem nil : Fits added [] := ⟨Nat.zero_le _, List.nil_sublist _⟩

theorem of_sublist (h : Fits added entries) (hl : l.Sublist entries) : Fits added l :=
  ⟨hl.length_le.trans h.length_le, hl.trans h.sublist⟩

theorem mono (h : Fits added entries) : Fits (x :: added) entries :=
  ⟨h.length_le, h.sublist.cons x⟩

theorem take_cons (h : Fits added entries) :
    Fits (x :: added) ((x :: entries).take maxHistoryEntries) where
  length_le := List.length_take_le _ _
  sublist := (List.take_sublist _ _).trans (h.sublist.cons_cons x)

theorem nodup_ids (h : Fits added entries) (hids : (added.map HistoryEntry.id).Nodup) :
    (entries.map HistoryEntry.id).Nodup :=
  hids.sublist (h.sublist.map _)

end Fits

structure Kept (s : Session) : Prop where
  entries : Fits s.added s.entries
  saved : ∀ l ∈ s.saved, Fits s.added l
  stored : s.storage.getItem historyKey = s.saved.map fun l => some (listToJson l)

namespace Kept

theorem loadInitialEntries_eq (h : Kept s) :
    (loadInitialEntries s.storage).2 = s.saved.getD [] := by
  simp only [loadInitialEntries, readJSON, getItem_migrateKeys, h.stored]
  cases s.saved with
  | none => rfl
  | some l =>
    change (historyListSchema (listToJson l)).getD [] = l
    rw [historyListSchema_listToJson, Option.getD_some]

theorem entries_reload (h : Kept s) : s.reload.entries = s.saved.getD [] :=
  h.loadInitialEntries_eq

theorem initial : Kept .initial where
  entries := Fits.nil
  saved := nofun
  stored := rfl

theorem set (h : Kept s) {l : List HistoryEntry} (hl : Fits s.added l) : Kept (s.set l w) where
  entries := hl
  saved := by
    cases w with
    | false => exact h.saved
    | true =>
      rintro k ⟨⟩
      exact hl
  stored := by
    cases w with
    | false => exact h.stored
    | true => exact Storage.getItem_setItem

theorem cons (h : Kept s) : Kept { s with added := x :: s.added } where
  entries := h.entries.mono
  saved l hl := (h.saved l hl).mono
  stored := h.stored

theorem reload (h : Kept s) : Kept s.reload where
  entries := by
    rw [h.entries_reload]
    change Fits s.added _
    cases hsaved : s.saved with
    | none => exact Fits.nil
    | some l => exact h.saved l hsaved
  saved := h.saved
  stored := getItem_migrateKeys.trans h.stored

theorem next (h : Kept s) (e : Event) : Kept (s.next e) := by
  cases e with
  | add entry id date written => exact h.cons.set h.entries.take_cons
  | remove id written => exact h.set (h.entries.of_sublist List.filter_sublist)
  | clear written => exact h.set Fits.nil
  | reload => exact h.reload

theorem of_run (h : history.Run history.start es s) : Kept s := by
  refine h.preserves (I := Kept) ?_ initial
  rintro s e _ hs - ⟨⟩
  exact hs.next e

end Kept

/-- The event takes the entry out of the list: it removes its id, clears the
list, or pushes it out of the newest ones. -/
def Drops (s : Session) (x : HistoryEntry) : Event → Prop
  | .add entry id date _ => x ∈ (entry.withMeta id date :: s.entries).drop maxHistoryEntries
  | .remove id _ => x.id.1 = id
  | .clear _ => True
  | .reload => False

theorem drops_of_count_lt (he : e ≠ .reload)
    (h : (s.next e).entries.count x < s.entries.count x) : Drops s x e := by
  cases e with
  | add entry id date written =>
    have hsplit := congrArg (List.count x)
      (List.take_append_drop maxHistoryEntries (entry.withMeta id date :: s.entries))
    rw [List.count_append] at hsplit
    have hle := List.count_le_count_cons (a := x) (b := entry.withMeta id date) (l := s.entries)
    have hnext : ((entry.withMeta id date :: s.entries).take maxHistoryEntries).count x
        < s.entries.count x := h
    exact List.count_pos_iff.mp (by omega)
  | remove id written =>
    by_contra hne
    change ¬ x.id.1 = id at hne
    have hcount : (s.entries.filter (·.id.1 ≠ id)).count x < s.entries.count x := h
    rw [List.count_filter (by simpa using hne)] at hcount
    exact lt_irrefl _ hcount
  | clear written => trivial
  | reload => exact he rfl

/-- Between reloads an entry disappears in a step that takes it out. -/
theorem exists_drops (h : history.Run s fs t) (hfs : Event.reload ∉ fs)
    (hx : t.entries.count x < s.entries.count x) :
    ∃ p e u, p ++ [e] <+: fs ∧ history.Run s p u ∧ Drops u x e := by
  induction fs generalizing s with
  | nil =>
    cases Machine.runWhen_nil_iff.mp h
    exact absurd hx (lt_irrefl _)
  | cons e fs ih =>
    obtain ⟨s', -, hn, h⟩ := Machine.runWhen_cons_iff.mp h
    cases hn
    rw [List.mem_cons, not_or] at hfs
    obtain ⟨he, hfs⟩ := hfs
    by_cases hstep : (s.next e).entries.count x < s.entries.count x
    · exact ⟨[], e, s, by simp, .nil s, drops_of_count_lt (Ne.symm he) hstep⟩
    · obtain ⟨p, d, u, hp, hu, hd⟩ := ih h hfs (by omega)
      exact ⟨e :: p, d, u, by simpa using hp, .cons trivial rfl hu, hd⟩

/-- The history in every session: it is bounded, without repeated ids if none
is made twice, a sublist of what was added, it loses between reloads only what
is taken out, and a reload gives the list of the last write that succeeded. -/
theorem history_is_kept (h : history.Run history.start es s) :
    s.entries.length ≤ maxHistoryEntries ∧
    (((everAdded es).map HistoryEntry.id).Nodup → (s.entries.map HistoryEntry.id).Nodup) ∧
    s.entries.Sublist (everAdded es) ∧
    (∀ {fs t x}, history.Run s fs t → Event.reload ∉ fs →
      t.entries.count x < s.entries.count x →
      ∃ p e u, p ++ [e] <+: fs ∧ history.Run s p u ∧ Drops u x e) ∧
    (s.next .reload).entries = s.saved.getD [] := by
  have hkept := Kept.of_run h
  have hadded : s.added = everAdded es := (added_eq h).trans (List.append_nil _)
  have hfits : Fits (everAdded es) s.entries := hadded ▸ hkept.entries
  exact ⟨hfits.length_le, hfits.nodup_ids, hfits.sublist, exists_drops, hkept.entries_reload⟩

/-- The entry of a write that failed is gone after a reload. -/
theorem history_is_kept_failedWrite :
    let zero : FiniteNumber := ⟨.zero, rfl⟩
    let sum : NewHistoryEntry := ⟨.add, zero, some zero, zero⟩
    let root : NewHistoryEntry := ⟨.sqrt, zero, none, zero⟩
    let x := sum.withMeta ⟨['x'], by decide⟩ ⟨['t'], by decide⟩
    let y := root.withMeta ⟨['y'], by decide⟩ ⟨['u'], by decide⟩
    ∃ s, history.Run history.start [.add sum x.id x.at true, .add root y.id y.at false] s ∧
      s.entries = [y, x] ∧ (s.entries.map HistoryEntry.id).Nodup ∧
      (s.next .reload).entries = [x] := by
  intro zero sum root x y
  have h : history.Run history.start [.add sum x.id x.at true, .add root y.id y.at false] _ :=
    run_iff.mpr rfl
  obtain ⟨-, hids, -, -, hreload⟩ := history_is_kept h
  exact ⟨_, h, rfl, hids (by decide), hreload⟩

end Calculator.History
