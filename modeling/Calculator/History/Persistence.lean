import Calculator.Browser.Json
import Calculator.History.Migration
import Calculator.History.Session

/-! # The history as text

The list as it is kept in the browser: written as a JSON text, over whatever the
storage held before, and parsed and checked on the way back in. Every access may
fail. A list comes back as it was written, but for negative zeros.
-/

namespace Calculator.History

open Binary Browser Decimal Runs

section Helper

variable {α : Type}

/-- The value at a key, or nothing when the storage cannot be read, or the text is
missing, malformed or does not meet the schema. -/
def readText (reads : Bool) (storage : LocalStorage Text Text) (key : Text) (schema : Schema α) :
    Option α := do
  guard reads
  let raw ← storage.getItem key
  let parsed ← parse raw
  schema parsed

def writeText (storage : LocalStorage Text Text) (key : Text) (value : Json) (written : Bool) :
    LocalStorage Text Text :=
  if written then storage.setItem key (stringify value) else storage

end Helper

/-- The history in memory and the storage of the browser. -/
structure Tab where
  entries : List HistoryEntry
  storage : LocalStorage Text Text
  /-- The list at the last write that succeeded. -/
  saved : Option (List HistoryEntry)

structure Load where
  environment : Migration.Environment Text
  order : Order Text Text
  reads : Bool

/-- The choices of `makeId` and the clock, and whether the write goes through. -/
inductive TabEvent where
  | add (entry : NewHistoryEntry) (id date : NonemptyText) (written : Bool)
  | remove (id : Text) (written : Bool)
  | clear (written : Bool)
  | reload (load : Load)

namespace Tab

def set (t : Tab) (entries : List HistoryEntry) (written : Bool) : Tab where
  entries := entries
  storage := writeText t.storage historyKey (listToJson entries) written
  saved := if written then some entries else t.saved

def add (t : Tab) (x : HistoryEntry) (written : Bool) : Tab :=
  t.set ((x :: t.entries).take maxHistoryEntries) written

def remove (t : Tab) (id : Text) (written : Bool) : Tab :=
  t.set (t.entries.filter (·.id.1 ≠ id)) written

def clear (t : Tab) (written : Bool) : Tab := t.set [] written

/-- Old keys go first, and the list is read from what is left. -/
def reload (t : Tab) (load : Load) : Tab :=
  let migrated := Migration.migrateKeys load.environment load.order t.storage historyKeyPrefix
    historyKey
  { t with
    entries := (readText load.reads migrated historyKey historyListSchema).getD []
    storage := migrated }

def next (t : Tab) : TabEvent → Tab
  | .add entry id date written => t.add (entry.withMeta id date) written
  | .remove id written => t.remove id written
  | .clear written => t.clear written
  | .reload load => t.reload load

end Tab

def tab (storage : LocalStorage Text Text) (load : Load) : Machine Tab TabEvent where
  start := Tab.reload ⟨[], storage, none⟩ load
  next t e := some (t.next e)

/-- An entry as it is read back: JSON has no negative zero. -/
def FiniteNumber.onDisk (x : FiniteNumber) : FiniteNumber :=
  ⟨x.1.withoutNegativeZero, (Float64.isFinite_withoutNegativeZero x.1).trans x.2⟩

def HistoryEntry.onDisk (x : HistoryEntry) : HistoryEntry :=
  { x with a := x.a.onDisk, b := x.b.map FiniteNumber.onDisk, result := x.result.onDisk }

theorem written_toJson (x : FiniteNumber) : written x.toJson = x.onDisk.toJson := by
  rw [FiniteNumber.toJson, written, if_pos x.2]
  rfl

theorem written_entry (x : HistoryEntry) : written x.toJson = x.onDisk.toJson := by
  have hb : written ((x.b.map FiniteNumber.toJson).getD .null) =
      (x.onDisk.b.map FiniteNumber.toJson).getD .null := by
    unfold HistoryEntry.onDisk
    cases x.b with
    | none => rfl
    | some b => exact written_toJson b
  simp only [HistoryEntry.toJson, written, writtenMembers, hb, written_toJson]
  rfl

theorem distinct_entry (x : HistoryEntry) : Distinct x.toJson := by
  have hb : Distinct ((x.b.map FiniteNumber.toJson).getD .null) := by
    cases x.b with
    | none => trivial
    | some b => trivial
  rw [HistoryEntry.toJson, Distinct]
  exact ⟨by simp, trivial, trivial, hb, trivial, trivial, trivial, trivial⟩

theorem writtenItems_map (l : List HistoryEntry) :
    writtenItems (l.map HistoryEntry.toJson) =
      (l.map HistoryEntry.onDisk).map HistoryEntry.toJson := by
  induction l with
  | nil => rfl
  | cons x l ih => simp only [List.map_cons, writtenItems, written_entry, ih]

theorem distinct_listToJson (l : List HistoryEntry) : Distinct (listToJson l) := by
  rw [listToJson, Distinct]
  induction l with
  | nil => trivial
  | cons x l ih => exact ⟨distinct_entry x, ih⟩

theorem parse_listToJson (l : List HistoryEntry) :
    parse (stringify (listToJson l)) = some (listToJson (l.map HistoryEntry.onDisk)) := by
  rw [parse_stringify (distinct_listToJson l), listToJson, written, writtenItems_map]
  rfl

theorem readText_of_getItem {storage : LocalStorage Text Text} {l : List HistoryEntry}
    (h : storage.getItem historyKey = some (stringify (listToJson l))) :
    readText true storage historyKey historyListSchema = some (l.map HistoryEntry.onDisk) := by
  simp [readText, h, parse_listToJson, historyListSchema_listToJson]

/-- The migration leaves the current key alone, whatever throws. -/
theorem getItem_migrateKeys_current (load : Load) (storage : LocalStorage Text Text) :
    (Migration.migrateKeys load.environment load.order storage historyKeyPrefix
      historyKey).getItem historyKey = storage.getItem historyKey := by
  by_cases h : load.environment.Enumerates storage
  · apply LocalStorage.getItem_eq_of_mem_iff
    intro value
    rw [Migration.mem_items_migrateKeys h]
    exact and_iff_left fun hstale => absurd rfl (Migration.isStale_iff.mp hstale).2
  · rw [Migration.migrateKeys_of_not_enumerates h]

/-- What a page load that can read the storage finds there. -/
def found (storage : LocalStorage Text Text) : List HistoryEntry :=
  (readText true storage historyKey historyListSchema).getD []

theorem entries_reload (t : Tab) {load : Load} (hreads : load.reads = true) :
    (t.reload load).entries = found t.storage := by
  simp only [Tab.reload, found, readText, hreads, getItem_migrateKeys_current]

/-- The storage holds the list of the last write, or what it held at first. -/
structure Stored (storage : LocalStorage Text Text) (t : Tab) : Prop where
  saved : ∀ l ∈ t.saved, t.storage.getItem historyKey = some (stringify (listToJson l))
  unsaved : t.saved = none → t.storage.getItem historyKey = storage.getItem historyKey

namespace Stored

variable {storage : LocalStorage Text Text} {t : Tab}

theorem set (h : Stored storage t) (l : List HistoryEntry) (w : Bool) :
    Stored storage (t.set l w) := by
  cases w with
  | false => exact ⟨h.saved, h.unsaved⟩
  | true =>
    constructor
    · rintro k ⟨⟩
      exact LocalStorage.getItem_setItem
    · exact nofun

theorem reload (h : Stored storage t) (load : Load) : Stored storage (t.reload load) where
  saved l hl := (getItem_migrateKeys_current load t.storage).trans (h.saved l hl)
  unsaved hn := (getItem_migrateKeys_current load t.storage).trans (h.unsaved hn)

theorem next (h : Stored storage t) (e : TabEvent) : Stored storage (t.next e) := by
  cases e with
  | add _ _ _ w => exact h.set _ w
  | remove _ w => exact h.set _ w
  | clear w => exact h.set _ w
  | reload load => exact h.reload load

theorem start (storage : LocalStorage Text Text) (load : Load) :
    Stored storage (tab storage load).start :=
  reload (t := ⟨[], storage, none⟩) ⟨by simp, fun _ => rfl⟩ load

theorem of_run {load : Load} {es : List TabEvent}
    (h : (tab storage load).Run (tab storage load).start es t) : Stored storage t := by
  refine h.preserves (I := Stored storage) ?_ (start storage load)
  rintro s e _ hs - ⟨⟩
  exact hs.next e

theorem found_eq (h : Stored storage t) : found t.storage =
    match t.saved with
    | some l => l.map HistoryEntry.onDisk
    | none => found storage := by
  cases hs : t.saved with
  | some l => rw [found, readText_of_getItem (h.saved l hs), Option.getD_some]
  | none => rw [found, readText, h.unsaved hs, found, readText]

end Stored

/-- Whatever the storage held and whatever threw, a page load that can read the
storage gives the list of the last write that succeeded, without its negative zeros,
or the list that was there at first. -/
theorem reload_restores {storage : LocalStorage Text Text} {first load : Load}
    {es : List TabEvent} {t : Tab} (h : (tab storage first).Run (tab storage first).start es t)
    (hreads : load.reads = true) : (t.reload load).entries =
      match t.saved with
      | some l => l.map HistoryEntry.onDisk
      | none => found storage :=
  (entries_reload t hreads).trans (Stored.of_run h).found_eq

/-- A storage that holds something else under the key of the history. -/
def spoiled : LocalStorage Text Text :=
  ⟨[(historyKey, "[1,".toList), ("calc.history.v0".toList, "[]".toList)], by decide +kernel⟩

def calmLoad : Load := ⟨.calm, .keep, true⟩

/-- The entry of a write that failed is gone, and a negative zero is zero. -/
theorem reload_restores_spoiled :
    let zero : FiniteNumber := ⟨.zero, rfl⟩
    let x : NewHistoryEntry := ⟨.add, ⟨.negZero, rfl⟩, some zero, zero⟩
    let id : NonemptyText := ⟨['x'], by decide⟩
    let date : NonemptyText := ⟨['t'], by decide⟩
    ∃ t, (tab spoiled calmLoad).Run (tab spoiled calmLoad).start
        [.add x id date true, .add x id date false] t ∧
      t.entries.length = 2 ∧ (t.reload calmLoad).entries = [(x.withMeta id date).onDisk] := by
  intro zero x id date
  have h : (tab spoiled calmLoad).Run (tab spoiled calmLoad).start
      [.add x id date true, .add x id date false] _ :=
    .cons trivial rfl (.cons trivial rfl (.nil _))
  have hempty : (tab spoiled calmLoad).start.entries = [] := by decide +kernel
  refine ⟨_, h, ?_, ?_⟩
  · simp [Tab.next, Tab.add, Tab.set, hempty, maxHistoryEntries]
  · refine (reload_restores h rfl).trans ?_
    simp [Tab.next, Tab.add, Tab.set, hempty, maxHistoryEntries]

end Calculator.History
