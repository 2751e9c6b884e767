import KyaOs.Fifo.Queue
import KyaOs.Js.Number
import KyaOs.Utils.JsonMembers

/-!
# A map whose entries expire

`TtlCache`: a bound on the entries, the oldest inserted first to go, and a time to live. What
`Date.now()` shows is handed to each operation.
-/

open Js

namespace KyaOs

structure TtlEntry (T : Type) where
  value : T
  expiresAt : JsNumber

structure TtlOptions where
  ttlMs : JsNumber
  maxEntries : JsNumber

/-- Nothing is stored at all. -/
def TtlOptions.Disabled (options : TtlOptions) : Prop :=
  options.ttlMs.le (.ofNat 0) = true ∨ options.maxEntries.le (.ofNat 0) = true

/-- The entries of the map, and its keys as they were inserted. -/
structure TtlCache (T : Type) where
  entries : List (JsString × TtlEntry T) := []
  insertionOrder : List JsString := []

namespace TtlCache

variable {T : Type}

def delete (cache : TtlCache T) (key : JsString) : TtlCache T where
  entries := withoutKeys cache.entries (· = key)
  insertionOrder := cache.insertionOrder.erase key

/-- The value under a key, and the cache, from which an expired entry is deleted. -/
def get (cache : TtlCache T) (now : ℚ) (key : JsString) : Option T × TtlCache T :=
  match cache.entries.lookup key with
  | none => (none, cache)
  | some entry =>
    if entry.expiresAt.lt (.finite now) then (none, cache.delete key)
    else (some entry.value, cache)

/-- `Date.now() + ttlMs`. -/
def expiry (now : ℚ) : JsNumber → JsNumber
  | .finite ttlMs => .nearest (now + ttlMs)
  | ttlMs => ttlMs

/-- The loop that makes room: the oldest keys go while the map is full. -/
def evict (maxEntries : JsNumber) (entries : List (JsString × TtlEntry T)) :
    List JsString → TtlCache T
  | [] => { entries, insertionOrder := [] }
  | oldest :: rest =>
    if maxEntries.le (.ofNat entries.length) then
      evict maxEntries (if oldest = [] then entries else withoutKeys entries (· = oldest)) rest
    else { entries, insertionOrder := oldest :: rest }

def set (options : TtlOptions) (cache : TtlCache T) (now : ℚ) (key : JsString) (value : T) :
    TtlCache T :=
  if options.ttlMs.le (.ofNat 0) ∨ options.maxEntries.le (.ofNat 0) then cache
  else
    let replaced := if (cache.entries.lookup key).isSome then cache.delete key else cache
    let kept := evict options.maxEntries replaced.entries replaced.insertionOrder
    { entries := assignMember key ⟨value, expiry now options.ttlMs⟩ kept.entries
      insertionOrder := kept.insertionOrder ++ [key] }

def deleteWhere (cache : TtlCache T) (predicate : JsString → Bool) : TtlCache T :=
  ((cache.entries.map Prod.fst).filter predicate).foldl delete cache

def clear : TtlCache T := {}

/-- Each entry's value is one that may stand under its key. -/
def Holds (P : JsString → T → Prop) (cache : TtlCache T) : Prop :=
  ∀ key entry, (key, entry) ∈ cache.entries → P key entry.value

variable {P : JsString → T → Prop} {cache cache' : TtlCache T} {key : JsString} {value : T}
  {now : ℚ}

theorem Holds.mono (h : cache.Holds P) (hsub : cache'.entries ⊆ cache.entries) :
    cache'.Holds P :=
  fun key entry hmem => h key entry (hsub hmem)

theorem holds_clear : (clear : TtlCache T).Holds P := fun _ _ hmem => nomatch hmem

theorem delete_sublist (cache : TtlCache T) (key : JsString) :
    (cache.delete key).entries.Sublist cache.entries :=
  List.filter_sublist

theorem get_sublist (cache : TtlCache T) (now : ℚ) (key : JsString) :
    (cache.get now key).2.entries.Sublist cache.entries := by
  rw [get]
  split
  · exact List.Sublist.refl _
  · split_ifs
    · exact cache.delete_sublist key
    · exact List.Sublist.refl _

theorem get_subset (cache : TtlCache T) (now : ℚ) (key : JsString) :
    (cache.get now key).2.entries ⊆ cache.entries :=
  (cache.get_sublist now key).subset

theorem mem_of_lookup {entry : TtlEntry T} (h : cache.entries.lookup key = some entry) :
    (key, entry) ∈ cache.entries := by
  obtain ⟨before, after, hlisted, -⟩ := List.lookup_eq_some_iff.mp h
  simp [hlisted]

/-- A hit is an entry of its key. -/
theorem Holds.of_get (h : cache.Holds P) (hhit : (cache.get now key).1 = some value) :
    P key value := by
  rw [get] at hhit
  split at hhit
  · cases hhit
  · rename_i entry hlookup
    split_ifs at hhit with hexpired
    cases hhit
    exact h key entry (mem_of_lookup hlookup)

/-- The loop passes an empty key over without deleting it. -/
theorem evict_eq (maxEntries : JsNumber) (entries : List (JsString × TtlEntry T))
    (order : List JsString) : evict maxEntries entries order =
      ⟨(Fifo.makeRoom (fun size => maxEntries.le (.ofNat size)) (· = []) entries order).1,
        (Fifo.makeRoom (fun size => maxEntries.le (.ofNat size)) (· = []) entries order).2⟩ := by
  induction order generalizing entries with
  | nil => rfl
  | cons oldest rest ih =>
      simp only [evict, Fifo.makeRoom, Fifo.without, withoutKeys, decide_eq_true_eq, ih, decide_not]
      split_ifs <;> rfl

theorem evict_sublist (maxEntries : JsNumber) (entries : List (JsString × TtlEntry T))
    (order : List JsString) : (evict maxEntries entries order).entries.Sublist entries := by
  rw [evict_eq]
  exact Fifo.makeRoom_sublist _ _ _ _

theorem Holds.set (h : cache.Holds P) (options : TtlOptions) (now : ℚ) (hvalue : P key value) :
    (cache.set options now key value).Holds P := by
  rw [TtlCache.set]
  by_cases hoff : options.ttlMs.le (.ofNat 0) = true ∨ options.maxEntries.le (.ofNat 0) = true
  · rw [if_pos hoff]
    exact h
  · rw [if_neg hoff]
    have hreplaced : (if (cache.entries.lookup key).isSome then cache.delete key
        else cache).Holds P := by
      split_ifs
      · exact h.mono (cache.delete_sublist key).subset
      · exact h
    intro key' entry hmem
    obtain hnew | hold := mem_assignMember hmem
    · cases hnew
      exact hvalue
    · exact hreplaced key' entry ((evict_sublist _ _ _).subset hold)

/-- Without time to live or room nothing is stored. -/
theorem set_disabled {options : TtlOptions} (h : options.Disabled) :
    cache.set options now key value = cache := by
  rw [TtlOptions.Disabled] at h
  rw [TtlCache.set, if_pos h]

/-- After a `set` the key has the new entry, and the other keys have what they had. -/
theorem entry_of_mem_set {options : TtlOptions} (h : ¬ options.Disabled) {key' : JsString}
    {entry : TtlEntry T} (hmem : (key', entry) ∈ (cache.set options now key value).entries) :
    (key' = key ∧ entry = ⟨value, expiry now options.ttlMs⟩) ∨
      (key' ≠ key ∧ (key', entry) ∈ cache.entries) := by
  rw [TtlOptions.Disabled] at h
  rw [TtlCache.set, if_neg h] at hmem
  obtain hnew | hold := mem_assignMember hmem
  · cases hnew
    exact .inl ⟨rfl, rfl⟩
  · have hreplaced := (evict_sublist _ _ _).subset hold
    split_ifs at hreplaced with hpresent
    · obtain ⟨hkept, hne⟩ := List.mem_filter.mp hreplaced
      exact .inr ⟨by simpa using hne, hkept⟩
    · refine .inr ⟨?_, hreplaced⟩
      rintro rfl
      rw [Option.not_isSome_iff_eq_none, List.lookup_eq_none_iff] at hpresent
      simpa using hpresent _ hreplaced

/-- After a `set` the key has the new value, and the other keys have what they had. -/
theorem mem_set {options : TtlOptions} (h : ¬ options.Disabled) {key' : JsString}
    {entry : TtlEntry T} (hmem : (key', entry) ∈ (cache.set options now key value).entries) :
    (key' = key ∧ entry.value = value) ∨ (key' ≠ key ∧ (key', entry) ∈ cache.entries) :=
  (entry_of_mem_set h hmem).imp_left fun ⟨hkey, hentry⟩ => ⟨hkey, by rw [hentry]⟩

theorem foldl_delete_sublist (keys : List JsString) (cache : TtlCache T) :
    (keys.foldl delete cache).entries.Sublist cache.entries := by
  induction keys generalizing cache with
  | nil => exact List.Sublist.refl _
  | cons key rest ih => exact (ih _).trans (cache.delete_sublist key)

theorem deleteWhere_subset (cache : TtlCache T) (predicate : JsString → Bool) :
    (cache.deleteWhere predicate).entries ⊆ cache.entries :=
  (foldl_delete_sublist _ _).subset

theorem not_mem_foldl_delete {keys : List JsString} {entry : TtlEntry T} (hkey : key ∈ keys) :
    (key, entry) ∉ (keys.foldl delete cache).entries := by
  induction keys generalizing cache with
  | nil => cases hkey
  | cons first rest ih =>
      rw [List.foldl_cons]
      cases List.mem_cons.mp hkey with
      | inl hfirst =>
          subst hfirst
          intro hmem
          have hdeleted := (foldl_delete_sublist rest _).subset hmem
          simp [delete, withoutKeys] at hdeleted
      | inr hrest => exact ih hrest

/-- No key that the predicate picks is left. -/
theorem deleteWhere_removes {predicate : JsString → Bool} (hkey : predicate key = true)
    (entry : TtlEntry T) : (key, entry) ∉ (cache.deleteWhere predicate).entries := by
  intro hmem
  have hpicked : key ∈ (cache.entries.map Prod.fst).filter predicate :=
    List.mem_filter.mpr ⟨List.mem_map_of_mem (deleteWhere_subset _ _ hmem), hkey⟩
  exact not_mem_foldl_delete hpicked hmem

end TtlCache

end KyaOs
