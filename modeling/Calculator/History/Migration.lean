import Calculator.Browser.LocalStorage
import Calculator.History.Storage

/-! # Migration of stored keys

The helper's removal and migration on a browser's storage, where every access
may throw on its own. The migration first goes through the storage by number
for the stale keys and then removes them one by one, so that no removal shifts a
number that is still to come. Keys are lists over any alphabet.
-/

namespace Calculator.History.Migration

open Browser Decimal

variable {κ ν α : Type*}

/-- Whether there is a window, and which accesses of one call throw. -/
structure Environment (κ : Type*) where
  window : Bool
  touchThrows : Bool
  /-- The reads of the length, by the number of reads before. -/
  lengthThrows : ℕ → Bool
  keyThrows : ℕ → Bool
  /-- The storage is touched again for each removal. -/
  touchThrowsFor : κ → Bool
  removeItemThrows : κ → Bool

namespace Environment

def calm : Environment κ where
  window := true
  touchThrows := false
  lengthThrows _ := false
  keyThrows _ := false
  touchThrowsFor _ := false
  removeItemThrows _ := false

/-- The removal of a key throws, at the storage or at its item. -/
def Fails (env : Environment κ) (key : κ) : Prop :=
  env.touchThrowsFor key = true ∨ env.removeItemThrows key = true

/-- No access of an enumeration from a number on throws. -/
structure EnumeratesFrom (env : Environment κ) (storage : LocalStorage κ ν) (i : ℕ) : Prop where
  length : ∀ j, i ≤ j → j ≤ storage.length → env.lengthThrows j = false
  key : ∀ j, i ≤ j → j < storage.length → env.keyThrows j = false

/-- The storage is reached and enumerated to its end. -/
structure Enumerates (env : Environment κ) (storage : LocalStorage κ ν) : Prop where
  window : env.window = true
  touch : env.touchThrows = false
  reads : env.EnumeratesFrom storage 0

variable {env : Environment κ} {storage : LocalStorage κ ν} {i : ℕ}

theorem enumerates_calm : calm.Enumerates storage :=
  ⟨rfl, rfl, ⟨fun _ _ _ => rfl, fun _ _ _ => rfl⟩⟩

theorem enumeratesFrom_iff_of_lt (h : i < storage.length) :
    env.EnumeratesFrom storage i ↔
      env.lengthThrows i = false ∧ env.keyThrows i = false ∧
        env.EnumeratesFrom storage (i + 1) := by
  constructor
  · rintro ⟨hl, hk⟩
    exact ⟨hl i le_rfl h.le, hk i le_rfl h,
      fun j hj => hl j (i.le_succ.trans hj), fun j hj => hk j (i.le_succ.trans hj)⟩
  · rintro ⟨hl, hk, hr⟩
    constructor
    · intro j hj hs
      rcases hj.eq_or_lt with rfl | hj
      · exact hl
      · exact hr.length j hj hs
    · intro j hj hs
      rcases hj.eq_or_lt with rfl | hj
      · exact hk
      · exact hr.key j hj hs

theorem enumeratesFrom_length_iff :
    env.EnumeratesFrom storage storage.length ↔ env.lengthThrows storage.length = false := by
  constructor
  · intro h
    exact h.length _ le_rfl le_rfl
  · intro h
    constructor
    · intro j hj hs
      rwa [le_antisymm hs hj]
    · intro j hj hs
      exact absurd hs hj.not_gt

end Environment

def getStorage (window throws : Bool) (storage : LocalStorage κ ν) : Option (LocalStorage κ ν) :=
  if !window then none
  else if throws then none
  else some storage

def removeKey [DecidableEq κ] (env : Environment κ) (order : Order κ ν)
    (storage : LocalStorage κ ν) (key : κ) : LocalStorage κ ν :=
  match getStorage env.window (env.touchThrowsFor key) storage with
  | none => storage
  | some s => if env.removeItemThrows key then s else s.removeItem order key

section Definitions

variable [DecidableEq α]

def isStale (start currentKey key : List α) : Bool :=
  start.isPrefixOf key && key != currentKey

def pushStale (start currentKey : List α) (stale : List (List α)) :
    Option (List α) → List (List α)
  | none => stale
  | some key => if isStale start currentKey key then stale ++ [key] else stale

/-- The loop over the storage from a number on, or nothing when an access
throws. The length is read anew before each key. -/
def collectStale (env : Environment (List α)) (storage : LocalStorage (List α) ν)
    (start currentKey : List α) (i : ℕ) (stale : List (List α)) : Option (List (List α)) :=
  if env.lengthThrows i then none
  else if i < storage.length then
    if env.keyThrows i then none
    else collectStale env storage start currentKey (i + 1)
      (pushStale start currentKey stale (storage.key i))
  else some stale
termination_by storage.length - i

def migrateKeys (env : Environment (List α)) (order : Order (List α) ν)
    (storage : LocalStorage (List α) ν) (start currentKey : List α) : LocalStorage (List α) ν :=
  match getStorage env.window env.touchThrows storage with
  | none => storage
  | some s =>
    match collectStale env s start currentKey 0 [] with
    | none => s
    | some stale => stale.foldl (removeKey env order) s

end Definitions

section Removal

variable [DecidableEq κ] {env : Environment κ} {order : Order κ ν} {storage : LocalStorage κ ν}
  {key k : κ} {value : ν} {stale : List κ}

theorem removeKey_of_fails (h : env.Fails key) : removeKey env order storage key = storage := by
  rcases h with h | h
  · cases hw : env.window <;> simp [removeKey, getStorage, hw, h]
  · cases hw : env.window <;> cases ht : env.touchThrowsFor key <;>
      simp [removeKey, getStorage, hw, ht, h]

theorem removeKey_of_not_fails (hw : env.window = true) (h : ¬ env.Fails key) :
    removeKey env order storage key = storage.removeItem order key := by
  simp only [Environment.Fails, not_or, Bool.not_eq_true] at h
  simp [removeKey, getStorage, hw, h]

theorem mem_items_removeKey (hw : env.window = true) :
    (k, value) ∈ (removeKey env order storage key).items ↔
      (k, value) ∈ storage.items ∧ (k = key → env.Fails key) := by
  by_cases h : env.Fails key
  · simp [removeKey_of_fails h, h]
  · simp [removeKey_of_not_fails hw h, LocalStorage.mem_items_removeItem, h]

/-- A removal that throws does not keep the later ones from being tried. -/
theorem mem_items_foldl_removeKey (hw : env.window = true) :
    (k, value) ∈ (stale.foldl (removeKey env order) storage).items ↔
      (k, value) ∈ storage.items ∧ (k ∈ stale → env.Fails k) := by
  induction stale generalizing storage with
  | nil => simp
  | cons key stale ih =>
    rw [List.foldl_cons, ih, mem_items_removeKey hw, and_assoc]
    refine and_congr_right fun _ => ?_
    constructor
    · rintro ⟨hk, hs⟩ hm
      rcases List.mem_cons.mp hm with rfl | hm
      · exact hk rfl
      · exact hs hm
    · intro h
      refine ⟨?_, fun hm => h (List.mem_cons_of_mem key hm)⟩
      rintro rfl
      exact h List.mem_cons_self

theorem foldl_removeKey_of_fails (h : ∀ key ∈ stale, env.Fails key) :
    stale.foldl (removeKey env order) storage = storage := by
  induction stale with
  | nil => rfl
  | cons key stale ih =>
    rw [List.foldl_cons, removeKey_of_fails (h key List.mem_cons_self)]
    exact ih fun k hk => h k (List.mem_cons_of_mem key hk)

end Removal

section Enumeration

variable [DecidableEq α] {env : Environment (List α)} {storage : LocalStorage (List α) ν}
  {start currentKey key : List α} {stale : List (List α)} {i : ℕ}

theorem isStale_iff : isStale start currentKey key = true ↔ start <+: key ∧ key ≠ currentKey := by
  simp [isStale]

theorem collectStale_eq_some_iff {out : List (List α)} (hi : i ≤ storage.length) :
    collectStale env storage start currentKey i stale = some out ↔
      env.EnumeratesFrom storage i ∧
        out = stale ++ (storage.keys.drop i).filter (isStale start currentKey) := by
  fun_induction collectStale env storage start currentKey i stale with
  | case1 i stale hl =>
    suffices ¬ env.EnumeratesFrom storage i by simp [this]
    intro h
    simp [h.length i le_rfl hi] at hl
  | case2 i stale hl hlt hk =>
    suffices ¬ env.EnumeratesFrom storage i by simp [this]
    intro h
    simp [h.key i le_rfl hlt] at hk
  | case3 i stale hl hlt hk ih =>
    obtain ⟨key, hkey, hdrop⟩ := LocalStorage.drop_keys hlt
    have hpush : pushStale start currentKey stale (storage.key i) ++
        (storage.keys.drop (i + 1)).filter (isStale start currentKey) =
          stale ++ (storage.keys.drop i).filter (isStale start currentKey) := by
      rw [hkey, hdrop, List.filter_cons, pushStale]
      split <;> simp
    rw [ih hlt, hpush, Environment.enumeratesFrom_iff_of_lt hlt]
    simp only [Bool.not_eq_true] at hl hk
    simp only [hl, hk, true_and]
  | case4 i stale hl hge =>
    obtain rfl : i = storage.length := le_antisymm hi (not_lt.mp hge)
    simp only [Bool.not_eq_true] at hl
    have hnil : storage.keys.drop storage.length = [] := by simp [List.drop_eq_nil_iff]
    simp [Environment.enumeratesFrom_length_iff, hl, hnil, eq_comm]

end Enumeration

section Migrating

variable [DecidableEq α] {env env' : Environment (List α)} {order order' : Order (List α) ν}
  {storage : LocalStorage (List α) ν} {start currentKey key : List α} {value : ν}

theorem migrateKeys_of_enumerates (h : env.Enumerates storage) :
    migrateKeys env order storage start currentKey =
      (storage.keys.filter (isStale start currentKey)).foldl (removeKey env order) storage := by
  have hc : collectStale env storage start currentKey 0 [] =
      some (storage.keys.filter (isStale start currentKey)) :=
    (collectStale_eq_some_iff storage.length.zero_le).mpr ⟨h.reads, rfl⟩
  simp [migrateKeys, getStorage, h.window, h.touch, hc]

theorem migrateKeys_of_not_enumerates (h : ¬ env.Enumerates storage) :
    migrateKeys env order storage start currentKey = storage := by
  rw [migrateKeys, getStorage]
  cases hw : env.window with
  | false => rfl
  | true =>
    cases ht : env.touchThrows with
    | true => rfl
    | false =>
      have hc : collectStale env storage start currentKey 0 [] = none := by
        rw [Option.eq_none_iff_forall_not_mem]
        intro stale hs
        exact h ⟨hw, ht, ((collectStale_eq_some_iff storage.length.zero_le).mp hs).1⟩
      simp [hc]

/-- The items left are those that are not stale or whose removal throws. -/
theorem mem_items_migrateKeys (h : env.Enumerates storage) :
    (key, value) ∈ (migrateKeys env order storage start currentKey).items ↔
      (key, value) ∈ storage.items ∧ (isStale start currentKey key = true → env.Fails key) := by
  rw [migrateKeys_of_enumerates h, mem_items_foldl_removeKey h.window]
  refine and_congr_right fun hm => ?_
  have hk : key ∈ storage.keys := LocalStorage.mem_keys_iff.mpr ⟨value, hm⟩
  simp [List.mem_filter, hk]

theorem mem_keys_migrateKeys (h : env.Enumerates storage) :
    key ∈ (migrateKeys env order storage start currentKey).keys ↔
      key ∈ storage.keys ∧ (isStale start currentKey key = true → env.Fails key) := by
  simp only [LocalStorage.mem_keys_iff, mem_items_migrateKeys h, exists_and_right]

theorem getItem_migrateKeys_of_mem (h : env.Enumerates storage)
    (hk : key ∈ (migrateKeys env order storage start currentKey).keys) :
    (migrateKeys env order storage start currentKey).getItem key = storage.getItem key := by
  have hf := ((mem_keys_migrateKeys h).mp hk).2
  apply LocalStorage.getItem_eq_of_mem_iff
  intro value
  rw [mem_items_migrateKeys h]
  exact and_iff_left hf

theorem migrateKeys_eq_self
    (h : ∀ key ∈ storage.keys, isStale start currentKey key = true → env.Fails key) :
    migrateKeys env order storage start currentKey = storage := by
  by_cases he : env.Enumerates storage
  · rw [migrateKeys_of_enumerates he]
    apply foldl_removeKey_of_fails
    intro key hk
    rw [List.mem_filter] at hk
    exact h key hk.1 hk.2
  · exact migrateKeys_of_not_enumerates he

/-- A second call changes nothing where it fails as the first one did. -/
theorem migrateKeys_migrateKeys_of_fails (h : env.Enumerates storage)
    (hf : ∀ key ∈ storage.keys, isStale start currentKey key = true →
      env.Fails key → env'.Fails key) :
    migrateKeys env' order' (migrateKeys env order storage start currentKey) start currentKey =
      migrateKeys env order storage start currentKey := by
  apply migrateKeys_eq_self
  intro key hk hs
  obtain ⟨hm, hfails⟩ := (mem_keys_migrateKeys h).mp hk
  exact hf key hm hs (hfails hs)

/-- An enumeration that completes costs exactly the stale keys whose removal
does not throw, and one that does not complete costs nothing. A second call
changes nothing after one whose removals all went through, nor when the same
accesses throw again. -/
theorem migrateKeys_exact :
    (env.Enumerates storage →
      (∀ key, key ∈ (migrateKeys env order storage start currentKey).keys ↔
        key ∈ storage.keys ∧ (¬ start <+: key ∨ key = currentKey ∨ env.Fails key)) ∧
      ∀ key ∈ (migrateKeys env order storage start currentKey).keys,
        (migrateKeys env order storage start currentKey).getItem key = storage.getItem key) ∧
    (¬ env.Enumerates storage → migrateKeys env order storage start currentKey = storage) ∧
    (env.Enumerates storage →
      (∀ key ∈ storage.keys, start <+: key → key ≠ currentKey → ¬ env.Fails key) →
      ∀ env' order',
        migrateKeys env' order' (migrateKeys env order storage start currentKey)
          start currentKey = migrateKeys env order storage start currentKey) ∧
    ∀ order',
      migrateKeys env order' (migrateKeys env order storage start currentKey) start currentKey =
        migrateKeys env order storage start currentKey := by
  refine ⟨fun h => ⟨?_, ?_⟩, migrateKeys_of_not_enumerates, ?_, ?_⟩
  · intro key
    rw [mem_keys_migrateKeys h, isStale_iff]
    refine and_congr_right fun _ => ?_
    rw [imp_iff_not_or, not_and_or, not_ne_iff, or_assoc]
  · intro key hk
    exact getItem_migrateKeys_of_mem h hk
  · intro h hf env' order'
    apply migrateKeys_migrateKeys_of_fails h
    intro key hk hs hfails
    rw [isStale_iff] at hs
    exact absurd hfails (hf key hk hs.1 hs.2)
  · intro order'
    by_cases h : env.Enumerates storage
    · exact migrateKeys_migrateKeys_of_fails h fun _ _ _ hf => hf
    · rw [migrateKeys_of_not_enumerates h, migrateKeys_of_not_enumerates h]

end Migrating

section Session

variable {storage : Storage} {start currentKey key : Text} {order : Order Text (Option Json)}

def ofStorage (storage : Storage) : LocalStorage Text (Option Json) :=
  ⟨storage.items, storage.nodup⟩

theorem ofStorage_removeItem :
    ofStorage (storage.removeItem key) = (ofStorage storage).removeItem .keep key := by
  ext1
  rw [LocalStorage.removeItem]
  split
  case isTrue => rfl
  case isFalse h =>
    refine List.filter_eq_self.mpr ?_
    rintro ⟨k, v⟩ hm
    suffices k ≠ key by simpa
    rintro rfl
    exact h (LocalStorage.mem_keys_iff.mpr ⟨v, hm⟩)

theorem ofStorage_migrateKeys :
    ofStorage (History.migrateKeys storage start currentKey) =
      migrateKeys .calm .keep (ofStorage storage) start currentKey := by
  rw [migrateKeys_of_enumerates Environment.enumerates_calm, History.migrateKeys]
  apply (List.foldl_hom ofStorage ?_).symm
  intro storage key
  exact ofStorage_removeItem.symm

theorem getItem_ofStorage : (ofStorage storage).getItem key = storage.getItem key := by
  ext value
  rw [LocalStorage.getItem_eq_some_iff]
  exact (LocalStorage.lookup_eq_some_iff_mem storage.nodup).symm

theorem getItem_migrateKeys_ofStorage :
    (migrateKeys .calm order (ofStorage storage) start currentKey).getItem key =
      (History.migrateKeys storage start currentKey).getItem key := by
  rw [← getItem_ofStorage, ofStorage_migrateKeys]
  apply LocalStorage.getItem_eq_of_mem_iff
  intro value
  simp only [mem_items_migrateKeys Environment.enumerates_calm]

end Session

end Calculator.History.Migration
