import Calculator.History.Schema

/-! # Versioned storage

The browser's store of texts by key, and the helper through which every
persisted shape goes. A text is kept as what `JSON.parse` makes of it, which is
nothing if it is malformed.
-/

namespace Calculator.History

open Decimal

structure Storage where
  items : List (Text × Option Json)
  /-- A key is stored once. -/
  nodup : (items.map Prod.fst).Nodup

namespace Storage

def empty : Storage := ⟨[], List.nodup_nil⟩

def keys (storage : Storage) : List Text := storage.items.map Prod.fst

def getItem (storage : Storage) (key : Text) : Option (Option Json) := storage.items.lookup key

theorem nodup_filter {items : List (Text × Option Json)} (h : (items.map Prod.fst).Nodup)
    (key : Text) : ((items.filter (·.1 ≠ key)).map Prod.fst).Nodup :=
  h.sublist (List.filter_sublist.map Prod.fst)

def removeItem (storage : Storage) (key : Text) : Storage where
  items := storage.items.filter (·.1 ≠ key)
  nodup := nodup_filter storage.nodup key

theorem not_mem_keys_removeItem (storage : Storage) (key : Text) :
    key ∉ (storage.removeItem key).keys := by
  simp [keys, removeItem]

def setItem (storage : Storage) (key : Text) (value : Option Json) : Storage where
  items := (key, value) :: (storage.removeItem key).items
  nodup := (storage.removeItem key).nodup.cons (storage.not_mem_keys_removeItem key)

variable {storage : Storage} {key other : Text} {value : Option Json}

@[simp] theorem getItem_empty : empty.getItem key = none := rfl

@[simp] theorem getItem_setItem : (storage.setItem key value).getItem key = some value :=
  List.lookup_cons_self

theorem lookup_filter (items : List (Text × Option Json)) (h : other ≠ key) :
    (items.filter (·.1 ≠ key)).lookup other = items.lookup other := by
  induction items with
  | nil => rfl
  | cons item items ih =>
    obtain ⟨k, v⟩ := item
    by_cases hk : k = key
    · subst hk
      have hne : (other == k) = false := beq_false_of_ne h
      rw [List.filter_cons_of_neg (by simp), ih, List.lookup_cons, hne]
    · rw [List.filter_cons_of_pos (by simpa using hk), List.lookup_cons, List.lookup_cons, ih]

theorem getItem_removeItem (h : other ≠ key) :
    (storage.removeItem key).getItem other = storage.getItem other :=
  lookup_filter storage.items h

end Storage

def storageKey (name : Text) (version : ℕ) : Text :=
  "calc.".toList ++ name ++ ".v".toList ++ Nat.toDigits 10 version

/-- The value at a key, or nothing when it is missing, malformed or does not
meet the schema. -/
def readJSON {α : Type} (storage : Storage) (key : Text) (schema : Schema α) : Option α := do
  let raw ← storage.getItem key
  let parsed ← raw
  schema parsed

def writeJSON (storage : Storage) (key : Text) (value : Json) (written : Bool) : Storage :=
  if written then storage.setItem key (some value) else storage

def staleKeys (storage : Storage) (start currentKey : Text) : List Text :=
  storage.keys.filter fun key => start.isPrefixOf key && key != currentKey

/-- Every key with the given start is removed, except for the current one. -/
def migrateKeys (storage : Storage) (start currentKey : Text) : Storage :=
  (staleKeys storage start currentKey).foldl Storage.removeItem storage

section Helper

variable {storage : Storage} {key currentKey start : Text}

theorem getItem_foldl_removeItem {stale : List Text} (h : key ∉ stale) :
    (stale.foldl Storage.removeItem storage).getItem key = storage.getItem key := by
  induction stale generalizing storage with
  | nil => rfl
  | cons k stale ih =>
    rw [List.mem_cons, not_or] at h
    rw [List.foldl_cons, ih h.2, Storage.getItem_removeItem h.1]

@[simp] theorem getItem_migrateKeys :
    (migrateKeys storage start currentKey).getItem currentKey = storage.getItem currentKey := by
  apply getItem_foldl_removeItem
  simp [staleKeys]

end Helper

end Calculator.History
