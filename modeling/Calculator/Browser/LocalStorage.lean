import Mathlib.Data.List.Nodup
import Mathlib.Data.List.Perm.Basic
import Mathlib.Data.Nat.Notation

/-! # Web storage

A storage area holds values by key and numbers its keys, so that they can be
enumerated. The browser chooses their order, and may choose another one each
time a removal changes how many there are.
-/

namespace Calculator.Browser

/-- The order a browser gives the items that a removal leaves. -/
structure Order (κ ν : Type*) where
  arrange : List (κ × ν) → List (κ × ν)
  perm : ∀ items, (arrange items).Perm items

@[ext] structure LocalStorage (κ ν : Type*) where
  items : List (κ × ν)
  /-- A key is stored once. -/
  nodup : (items.map Prod.fst).Nodup

variable {κ ν : Type*}

def Order.keep : Order κ ν := ⟨id, fun _ => .rfl⟩

namespace LocalStorage

def length (storage : LocalStorage κ ν) : ℕ := storage.items.length

def keys (storage : LocalStorage κ ν) : List κ := storage.items.map Prod.fst

/-- The key with a number, or nothing past the last one. -/
def key (storage : LocalStorage κ ν) (i : ℕ) : Option κ := storage.keys[i]?

section Keys

variable {storage : LocalStorage κ ν} {key : κ}

@[simp] theorem length_keys : storage.keys.length = storage.length :=
  List.length_map _

theorem mem_keys_iff : key ∈ storage.keys ↔ ∃ value, (key, value) ∈ storage.items := by
  simp [keys]

theorem drop_keys {i : ℕ} (h : i < storage.length) :
    ∃ key, storage.key i = some key ∧ storage.keys.drop i = key :: storage.keys.drop (i + 1) := by
  have hi : i < storage.keys.length := by rwa [length_keys]
  exact ⟨storage.keys[i], List.getElem?_eq_getElem hi, List.drop_eq_getElem_cons hi⟩

end Keys

theorem lookup_eq_some_iff_mem [BEq κ] [LawfulBEq κ] {key : κ} {value : ν}
    {items : List (κ × ν)} (h : (items.map Prod.fst).Nodup) :
    items.lookup key = some value ↔ (key, value) ∈ items := by
  induction items with
  | nil => simp
  | cons item items ih =>
    obtain ⟨k, v⟩ := item
    rw [List.map_cons, List.nodup_cons] at h
    by_cases hk : key = k
    · subst hk
      have hne : (key, value) ∉ items := fun hm => h.1 (List.mem_map.mpr ⟨_, hm, rfl⟩)
      simp [hne, eq_comm]
    · have hb : (key == k) = false := beq_false_of_ne hk
      simp [List.lookup_cons, hb, hk, ih h.2]

variable [DecidableEq κ]

def getItem (storage : LocalStorage κ ν) (key : κ) : Option ν := storage.items.lookup key

theorem nodup_arrange (order : Order κ ν) {items : List (κ × ν)}
    (h : (items.map Prod.fst).Nodup) (key : κ) :
    ((order.arrange (items.filter (·.1 ≠ key))).map Prod.fst).Nodup :=
  ((order.perm _).map Prod.fst).nodup_iff.mpr (h.sublist (List.filter_sublist.map Prod.fst))

/-- A key that is not there is removed without a change of order. -/
def removeItem (order : Order κ ν) (storage : LocalStorage κ ν) (key : κ) : LocalStorage κ ν :=
  if key ∈ storage.keys then
    ⟨order.arrange (storage.items.filter (·.1 ≠ key)), nodup_arrange order storage.nodup key⟩
  else
    storage

/-- The value of a key, in place of the one it may have. -/
def setItem (storage : LocalStorage κ ν) (key : κ) (value : ν) : LocalStorage κ ν where
  items := (key, value) :: storage.items.filter (·.1 ≠ key)
  nodup := by
    rw [List.map_cons, List.nodup_cons]
    exact ⟨by simp, storage.nodup.sublist (List.filter_sublist.map Prod.fst)⟩

section Items

variable {order : Order κ ν} {storage other : LocalStorage κ ν} {key k : κ} {value : ν}

theorem getItem_eq_some_iff : storage.getItem key = some value ↔ (key, value) ∈ storage.items :=
  lookup_eq_some_iff_mem storage.nodup

theorem getItem_eq_of_mem_iff
    (h : ∀ value, (key, value) ∈ storage.items ↔ (key, value) ∈ other.items) :
    storage.getItem key = other.getItem key := by
  ext value
  simp only [getItem_eq_some_iff, h]

/-- A removal takes the item of its key and no other, in whatever order it
leaves the rest. -/
theorem mem_items_removeItem :
    (k, value) ∈ (storage.removeItem order key).items ↔ (k, value) ∈ storage.items ∧ k ≠ key := by
  rw [removeItem]
  split
  case isTrue => simp [(order.perm _).mem_iff]
  case isFalse h =>
    constructor
    · intro hm
      refine ⟨hm, ?_⟩
      rintro rfl
      exact h (mem_keys_iff.mpr ⟨value, hm⟩)
    · exact And.left

@[simp] theorem getItem_setItem : (storage.setItem key value).getItem key = some value :=
  List.lookup_cons_self

end Items

end LocalStorage

end Calculator.Browser
