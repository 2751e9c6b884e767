import KyaOs.Runs.Logged
import KyaOs.Utils.TtlCache
import Mathlib.Tactic.Linarith

/-!
# The order of a TTL cache

`insertionOrder` lists the stored keys in the order of their latest `set`, as long as no `set` is
to evict the empty key: it is taken off the order, and its entry stays.
-/

namespace KyaOs

open Js Fifo Runs

/-- What `Date.now()` shows: a whole number of milliseconds, at most 100 000 000 days from 1970. -/
structure TimeValue where
  ms : Int
  inRange : |ms| ≤ 8640000000000000

inductive TtlOperation (T : Type) where
  | get (now : TimeValue) (key : JsString)
  | set (now : TimeValue) (key : JsString) (value : T)
  | delete (key : JsString)
  | deleteWhere (predicate : JsString → Bool)
  | clear

variable {T : Type}

namespace TtlCache

def keys (cache : TtlCache T) : List JsString := cache.entries.map Prod.fst

def entryOf (cache : TtlCache T) (key : JsString) : Option (TtlEntry T) := cache.entries.lookup key

def apply (options : TtlOptions) (cache : TtlCache T) : TtlOperation T → TtlCache T
  | .get now key => (cache.get now.ms key).2
  | .set now key value => cache.set options now.ms key value
  | .delete key => cache.delete key
  | .deleteWhere predicate => cache.deleteWhere predicate
  | .clear => clear

/-- `entries.size >= maxEntries`. -/
def isFull (options : TtlOptions) (cache : TtlCache T) : Bool :=
  options.maxEntries.le (.ofNat cache.entries.length)

/-- The key that an operation sets. -/
def keySet : TtlCache T × TtlOperation T → Option JsString
  | (_, .set _ key _) => some key
  | (_, .get ..) | (_, .delete _) | (_, .deleteWhere _) | (_, .clear) => none

/-- The operation sets the key again, deletes it, finds it expired or evicts it. -/
def Ends (options : TtlOptions) (key : JsString) : TtlCache T × TtlOperation T → Prop
  | (cache, .get now key') => key' = key ∧ (cache.get now.ms key').1 = none
  | (cache, .set now key' value) =>
      key' = key ∨ key ∈ cache.keys ∧ key ∉ (cache.set options now.ms key' value).keys
  | (_, .delete key') => key' = key
  | (_, .deleteWhere predicate) => predicate key = true
  | (_, .clear) => True

end TtlCache

/-- `max(maxEntries, 0)`. -/
def TtlOptions.room (options : TtlOptions) : JsNumber :=
  if options.maxEntries.le (.ofNat 0) then .ofNat 0 else options.maxEntries

/-- `Date.now() + ttlMs` is rounded up past `now`, which the sum itself does not reach. -/
def TtlOptions.RoundsPast (options : TtlOptions) (time now : TimeValue) : Prop :=
  match options.ttlMs with
  | .finite ttlMs => time.ms + ttlMs < now.ms ∧
      (JsNumber.nearest (time.ms + ttlMs)).lt (.finite now.ms) = false
  | .infinity _ | .nan => False

abbrev TtlRun (T : Type) := Logged (TtlCache T) (TtlOperation T)

namespace TtlRun

def empty : TtlRun T := { state := {} }

/-- The keys as they were set. -/
def sets (run : TtlRun T) : List JsString := run.log.filterMap TtlCache.keySet

variable (options : TtlOptions)

def step (run : TtlRun T) (operation : TtlOperation T) : TtlRun T :=
  run.next (TtlCache.apply options) operation

/-- The value is that of the latest `set` of the key, and nothing has ended it since. -/
def Stands (run : TtlRun T) (key : JsString) (value : T) (time : TimeValue) : Prop :=
  ∃ before cache after, run.log = before ++ (cache, .set time key value) :: after ∧
    ∀ made ∈ after, ¬ TtlCache.Ends options key made

/-- The order lists the stored keys, each once and as they were set, and they are not too many. -/
structure Sound (run : TtlRun T) : Prop where
  listed : ∀ key, key ∈ run.state.insertionOrder ↔ key ∈ run.state.keys
  ordered : InOrder run.sets run.state.insertionOrder
  bounded : (JsNumber.ofNat run.state.entries.length).le options.room = true

/-- A `get` returns what was set last and at most `ttlMs` ago. A `set` of a new key at capacity
evicts the oldest key and no other, and a `set` of a stored key evicts none. -/
def Does (run : TtlRun T) : TtlOperation T → Prop
  | .get now key => ∀ value, (run.state.get now.ms key).1 = some value →
      ∃ time, run.Stands options key value time ∧
        (JsNumber.finite (now.ms - time.ms)).le options.ttlMs = true
  | .set now key value =>
      (key ∉ run.state.keys → run.state.entries ≠ [] → run.state.isFull options = true →
        DropsOldest run.sets run.state.keys run.state.entryOf
          (run.state.set options now.ms key value).entryOf key) ∧
      (key ∈ run.state.keys → ∀ other, other ≠ key →
        (run.state.set options now.ms key value).entryOf other = run.state.entryOf other)
  | .delete _ | .deleteWhere _ | .clear => True

/-- A `set` that adds a key does not step over a `maxEntries` between two numbers of entries, and
at capacity the oldest key is not empty. A `get` of a stored key has a `ttlMs` that is a number,
and no expiry of the key is rounded past it. -/
def InTurn (run : TtlRun T) : TtlOperation T → Prop
  | .get now key => key ∈ run.state.keys → options.ttlMs ≠ .nan ∧
      ∀ value time, run.Stands options key value time → ¬ options.RoundsPast time now
  | .set _ key _ => ¬ options.Disabled → key ∉ run.state.keys →
      (run.state.isFull options = false →
        (JsNumber.ofNat (run.state.entries.length + 1)).le options.maxEntries = true) ∧
      (run.state.isFull options = true → run.state.insertionOrder.head? ≠ some [])
  | .delete _ | .deleteWhere _ | .clear => True

/-- What is asked of every state and every operation of a run. -/
def KeepsBijection (operations : List (TtlOperation T)) : Prop :=
  EveryState (step options) (Sound options) empty operations ∧
    EveryStep (step options) (Does options) empty operations

end TtlRun

namespace TtlCache

variable {options : TtlOptions} {cache : TtlCache T} {key other : JsString} {value : T} {now : ℚ}

/-- The order is that of the map. -/
def Aligned (cache : TtlCache T) : Prop := cache.insertionOrder = cache.keys

theorem delete_entries : (cache.delete key).entries = without cache.entries key := by
  simp only [delete, withoutKeys, without, decide_not]

theorem keys_delete : (cache.delete key).keys = cache.keys.filter (· ≠ key) := by
  rw [keys, delete_entries, map_fst_without, keys]

theorem Aligned.delete (h : cache.Aligned) (hkeys : cache.keys.Nodup) (key : JsString) :
    (cache.delete key).Aligned := by
  rw [Aligned, keys_delete, TtlCache.delete, h, hkeys.erase_eq_filter]
  exact List.filter_congr fun other _ => by rw [bne, beq_eq_decide, decide_not]

theorem nodup_delete (hkeys : cache.keys.Nodup) : (cache.delete key).keys.Nodup :=
  ((cache.delete_sublist key).map Prod.fst).nodup hkeys

theorem Aligned.deleteWhere (h : cache.Aligned) (hkeys : cache.keys.Nodup)
    (predicate : JsString → Bool) : (cache.deleteWhere predicate).Aligned := by
  have hall : ∀ (picked : List JsString) (cache : TtlCache T), cache.Aligned → cache.keys.Nodup →
      (picked.foldl TtlCache.delete cache).Aligned := by
    intro picked
    induction picked with
    | nil => exact fun _ h _ => h
    | cons first rest ih =>
        exact fun cache h hkeys => ih _ (h.delete hkeys first) (nodup_delete hkeys)
  exact hall _ cache h hkeys

theorem Aligned.get (h : cache.Aligned) (hkeys : cache.keys.Nodup) (now : ℚ) (key : JsString) :
    (cache.get now key).2.Aligned := by
  rw [TtlCache.get]
  split
  · exact h
  · split_ifs
    · exact h.delete hkeys key
    · exact h

theorem entryOf_isSome_iff : (cache.entryOf key).isSome = true ↔ key ∈ cache.keys := by
  rw [Option.isSome_iff_ne_none, entryOf, Ne, List.lookup_eq_none_iff, keys, List.mem_map]
  push Not
  exact exists_congr fun entry => and_congr_right fun _ => by
    rw [Ne, bne_iff_ne, not_not, eq_comm]

/-- What a `get` does not find is not there afterwards. -/
theorem not_mem_get_of_none {entry : TtlEntry T} (h : (cache.get now key).1 = none) :
    (key, entry) ∉ (cache.get now key).2.entries := by
  rw [get] at h ⊢
  split at h
  · rename_i hlookup
    rw [List.lookup_eq_none_iff] at hlookup
    exact fun hmem => by simpa using hlookup _ hmem
  · rename_i found hlookup
    split_ifs at h with hexpired
    simp [hexpired, TtlCache.delete, withoutKeys]

/-- The key's own entry is gone. -/
def replaced (cache : TtlCache T) (key : JsString) : TtlCache T :=
  if (cache.entries.lookup key).isSome then cache.delete key else cache

/-- What a `set` keeps. -/
def kept (options : TtlOptions) (cache : TtlCache T) (key : JsString) : TtlCache T :=
  evict options.maxEntries (cache.replaced key).entries (cache.replaced key).insertionOrder

theorem replaced_of_mem (h : key ∈ cache.keys) : cache.replaced key = cache.delete key :=
  if_pos (entryOf_isSome_iff.mpr h)

theorem replaced_of_notMem (h : key ∉ cache.keys) : cache.replaced key = cache :=
  if_neg (mt entryOf_isSome_iff.mp h)

theorem notMem_replaced : key ∉ (cache.replaced key).keys := by
  by_cases h : key ∈ cache.keys
  · simp [replaced_of_mem h, keys_delete]
  · rwa [replaced_of_notMem h]

theorem replaced_sublist (cache : TtlCache T) (key : JsString) :
    (cache.replaced key).entries.Sublist cache.entries := by
  rw [replaced]
  split_ifs
  · exact cache.delete_sublist key
  · exact List.Sublist.refl _

theorem kept_sublist (options : TtlOptions) (cache : TtlCache T) (key : JsString) :
    (cache.kept options key).entries.Sublist (cache.replaced key).entries :=
  evict_sublist _ _ _

theorem notMem_kept : key ∉ (cache.kept options key).keys := fun hmem =>
  notMem_replaced (((kept_sublist options cache key).map Prod.fst).subset hmem)

theorem set_eq (h : ¬ options.Disabled) : cache.set options now key value =
    ⟨(cache.kept options key).entries ++ [(key, ⟨value, expiry now options.ttlMs⟩)],
      (cache.kept options key).insertionOrder ++ [key]⟩ := by
  rw [TtlOptions.Disabled] at h
  rw [set, if_neg h, ← assignMember_new _ notMem_kept]
  rfl

theorem entryOf_set_of_ne (h : ¬ options.Disabled) (hne : other ≠ key) :
    (cache.set options now key value).entryOf other = (cache.kept options key).entryOf other := by
  rw [set_eq h, entryOf, List.lookup_append, entryOf]
  simp [List.lookup_cons, beq_false_of_ne hne]

theorem kept_of_room (h : (cache.replaced key).isFull options = false) :
    cache.kept options key = cache.replaced key := by
  rw [kept, evict_eq, makeRoom_of_room h]

/-- At capacity an oldest key that is not empty goes. -/
theorem kept_of_full {oldest : JsString} {rest : List JsString} (hnew : key ∉ cache.keys)
    (haligned : cache.Aligned) (hkeys : cache.keys.Nodup) (hfirst : cache.keys = oldest :: rest)
    (holdest : oldest ≠ []) (hfull : cache.isFull options = true)
    (hroom : options.maxEntries.le (.ofNat (cache.entries.length - 1)) = false) :
    cache.kept options key = ⟨without cache.entries oldest, rest⟩ := by
  have hone := length_without hkeys (hfirst ▸ List.mem_cons_self)
  have hroomed : makeRoom (fun size => options.maxEntries.le (.ofNat size)) (· = []) cache.entries
      (oldest :: rest) = (without cache.entries oldest, rest) := by
    refine makeRoom_first (decide_eq_false holdest) hfull ?_
    rwa [show (without cache.entries oldest).length = cache.entries.length - 1 by omega]
  rw [kept, replaced_of_notMem hnew, evict_eq, haligned, hfirst, hroomed]

theorem keys_without_first {oldest : JsString} {rest : List JsString} (hkeys : cache.keys.Nodup)
    (hfirst : cache.keys = oldest :: rest) :
    (without cache.entries oldest).map Prod.fst = rest := by
  have hnodup := hfirst ▸ hkeys
  rw [map_fst_without, show cache.entries.map Prod.fst = oldest :: rest from hfirst,
    List.filter_cons_of_neg (by simp), List.filter_eq_self]
  exact fun other hother => decide_eq_true fun hsame =>
    (List.nodup_cons.mp hnodup).1 (hsame ▸ hother)

/-- The empty key is never evicted. -/
theorem entryOf_kept_empty (options : TtlOptions) (hnew : key ∉ cache.keys) (h : [] ∈ cache.keys) :
    ((cache.kept options key).entryOf []).isSome = true := by
  obtain ⟨entry, hentry, hkey⟩ := List.mem_map.mp h
  rw [entryOf_isSome_iff, kept, replaced_of_notMem hnew, evict_eq]
  exact List.mem_map.mpr ⟨entry, makeRoom_keeps (decide_eq_true hkey) hentry, hkey⟩

end TtlCache

theorem TtlOptions.RoundsPast.live {options : TtlOptions} {time now : TimeValue}
    (h : options.RoundsPast time now) :
    (TtlCache.expiry time.ms options.ttlMs).lt (.finite now.ms) = false := by
  cases hms : options.ttlMs with
  | finite ttlMs =>
      simp only [RoundsPast, hms] at h
      exact h.2
  | infinity negative => simp [RoundsPast, hms] at h
  | nan => simp [RoundsPast, hms] at h

/-- What has not expired was set at most `ttlMs` ago, unless its expiry was rounded up. -/
theorem age_le_iff {options : TtlOptions} (h : ¬ options.Disabled) {time now : TimeValue}
    (hlive : (TtlCache.expiry time.ms options.ttlMs).lt (.finite now.ms) = false) :
    (JsNumber.finite (now.ms - time.ms)).le options.ttlMs = true ↔
      options.ttlMs ≠ .nan ∧ ¬ options.RoundsPast time now := by
  have hon : options.ttlMs.le (.ofNat 0) = false :=
    Bool.eq_false_iff.mpr fun hle => h (.inl hle)
  cases hms : options.ttlMs with
  | finite ttlMs =>
      rw [hms, TtlCache.expiry] at hlive
      simp only [JsNumber.le_finite, TtlOptions.RoundsPast, hms, hlive, and_true, not_lt]
      exact ⟨fun hage => ⟨nofun, by linarith⟩, fun hage => by linarith [hage.2]⟩
  | infinity negative =>
      cases negative with
      | false => simp [TtlOptions.RoundsPast, hms, JsNumber.le, JsNumber.lt]
      | true => simp [hms, JsNumber.le, JsNumber.lt, JsNumber.ofNat] at hon
  | nan => simp [JsNumber.le]

namespace TtlRun

variable {options : TtlOptions} {run : TtlRun T} {operation : TtlOperation T}

/-- The stored keys stand in the order of their latest `set`, and each entry is of a `set` that
nothing has ended. -/
structure Inv (options : TtlOptions) (run : TtlRun T) : Prop where
  ordered : InOrder run.sets run.state.keys
  stands : ∀ key entry, (key, entry) ∈ run.state.entries → ¬ options.Disabled ∧
    ∃ time, entry.expiresAt = TtlCache.expiry time.ms options.ttlMs ∧
      run.Stands options key entry.value time

theorem sets_step : (run.step options operation).sets =
    run.sets ++ (TtlCache.keySet (run.state, operation)).toList := by
  rw [step, Logged.next, sets, List.filterMap_append, sets]
  cases h : TtlCache.keySet (run.state, operation) <;> simp [h]

theorem Stands.step {key : JsString} {value : T} {time : TimeValue}
    (h : run.Stands options key value time)
    (hends : ¬ TtlCache.Ends options key (run.state, operation)) :
    (run.step options operation).Stands options key value time := by
  obtain ⟨before, cache, after, hlog, hafter⟩ := h
  refine ⟨before, cache, after ++ [(run.state, operation)], ?_, ?_⟩
  · rw [TtlRun.step, Logged.next, hlog, List.append_assoc, List.cons_append]
  · intro made hmade
    obtain hold | hlast := List.mem_append.mp hmade
    · exact hafter made hold
    · obtain rfl := List.mem_singleton.mp hlast
      exact hends

/-- The latest `set` of a key is one. -/
theorem Stands.time_unique {key : JsString} {value value' : T} {time time' : TimeValue}
    (h : run.Stands options key value time) (h' : run.Stands options key value' time') :
    time = time' := by
  obtain ⟨before, cache, after, hlog, hafter⟩ := h
  obtain ⟨before', cache', after', hlog', hafter'⟩ := h'
  have hboth := hlog.symm.trans hlog'
  obtain ⟨between, -, hrest⟩ | ⟨between, -, hrest⟩ := List.append_eq_append_iff.mp hboth
  · cases between with
    | nil =>
        cases hrest
        rfl
    | cons first between =>
        cases hrest
        exact absurd (.inl rfl) (hafter _ (List.mem_append_right _ List.mem_cons_self))
  · cases between with
    | nil =>
        cases hrest
        rfl
    | cons first between =>
        cases hrest
        exact absurd (.inl rfl) (hafter' _ (List.mem_append_right _ List.mem_cons_self))

theorem stands_set (run : TtlRun T) (key : JsString) (value : T) (now : TimeValue) :
    (run.step options (.set now key value)).Stands options key value now :=
  ⟨run.log, run.state, [], rfl, fun _ hmade => nomatch hmade⟩

theorem Inv.disabled (h : run.Inv options) (hoff : options.Disabled) : run.state.entries = [] :=
  List.eq_nil_iff_forall_not_mem.mpr fun entry hentry => (h.stands entry.1 entry.2 hentry).1 hoff

theorem inv_empty : (empty : TtlRun T).Inv options :=
  ⟨InOrder.nil, fun _ _ hmem => nomatch hmem⟩

/-- What is stored after an operation was so before and is not ended, or is what it sets. -/
theorem entry_of_step {key : JsString} {entry : TtlEntry T} (hinv : run.Inv options)
    (h : (key, entry) ∈ (run.step options operation).state.entries) :
    ((key, entry) ∈ run.state.entries ∧ ¬ TtlCache.Ends options key (run.state, operation)) ∨
      ∃ now value, operation = .set now key value ∧ ¬ options.Disabled ∧
        entry = ⟨value, TtlCache.expiry now.ms options.ttlMs⟩ := by
  cases operation with
  | get now key' =>
      have hold := run.state.get_subset now.ms key' h
      refine .inl ⟨hold, ?_⟩
      rintro ⟨rfl, hnone⟩
      exact TtlCache.not_mem_get_of_none hnone h
  | set now key' value =>
      by_cases hoff : options.Disabled
      · simp only [step, Logged.next, TtlCache.apply, TtlCache.set_disabled hoff] at h
        rw [hinv.disabled hoff] at h
        cases h
      · obtain ⟨rfl, rfl⟩ | ⟨hne, hold⟩ := TtlCache.entry_of_mem_set hoff h
        · exact .inr ⟨now, value, rfl, hoff, rfl⟩
        · refine .inl ⟨hold, ?_⟩
          rintro (rfl | ⟨-, hevicted⟩)
          · exact hne rfl
          · exact hevicted (List.mem_map_of_mem h)
  | delete key' =>
      obtain ⟨hold, hne⟩ := List.mem_filter.mp h
      exact .inl ⟨hold, fun hsame => by simp [show key' = key from hsame] at hne⟩
  | deleteWhere predicate =>
      exact .inl ⟨run.state.deleteWhere_subset predicate h,
        fun hpicked => TtlCache.deleteWhere_removes hpicked entry h⟩
  | clear => cases h

/-- An operation that adds no key leaves the keys in order. -/
theorem ordered_of_sublist (h : run.Inv options)
    (hset : TtlCache.keySet (run.state, operation) = none)
    (hsub : (run.step options operation).state.entries.Sublist run.state.entries) :
    InOrder (run.step options operation).sets (run.step options operation).state.keys := by
  rw [sets_step, hset, Option.toList_none, List.append_nil]
  exact h.ordered.sublist (hsub.map Prod.fst)

theorem Inv.ordered_step (h : run.Inv options) (operation : TtlOperation T) :
    InOrder (run.step options operation).sets (run.step options operation).state.keys := by
  cases operation with
  | get now key => exact ordered_of_sublist h rfl (run.state.get_sublist now.ms key)
  | set now key value =>
      by_cases hoff : options.Disabled
      · simp only [step, Logged.next, TtlCache.apply, TtlCache.set_disabled hoff, TtlCache.keys,
          h.disabled hoff]
        exact InOrder.nil
      · have hsub := (TtlCache.kept_sublist options run.state key).trans
          (run.state.replaced_sublist key)
        rw [sets_step, TtlCache.keySet, Option.toList_some]
        simp only [step, Logged.next, TtlCache.apply, TtlCache.set_eq hoff, TtlCache.keys,
          List.map_append, List.map_singleton]
        exact (h.ordered.sublist (hsub.map Prod.fst)).concat TtlCache.notMem_kept
  | delete key => exact ordered_of_sublist h rfl (run.state.delete_sublist key)
  | deleteWhere predicate => exact ordered_of_sublist h rfl (TtlCache.foldl_delete_sublist _ _)
  | clear => exact InOrder.nil

theorem Inv.step (h : run.Inv options) (operation : TtlOperation T) :
    (run.step options operation).Inv options := by
  refine ⟨h.ordered_step operation, fun key entry hmem => ?_⟩
  obtain ⟨hold, hends⟩ | ⟨now, value, rfl, hon, rfl⟩ := entry_of_step h hmem
  · obtain ⟨hon, time, hexpires, hstands⟩ := h.stands key entry hold
    exact ⟨hon, time, hexpires, hstands.step hends⟩
  · exact ⟨hon, now, rfl, run.stands_set key value now⟩

/-- The order is sound exactly when it is that of the map. -/
theorem sound_iff (h : run.Inv options) : run.Sound options ↔ run.state.Aligned ∧
    (JsNumber.ofNat run.state.entries.length).le options.room = true := by
  constructor
  · intro hsound
    exact ⟨hsound.ordered.eq_of_mem_iff h.ordered hsound.listed, hsound.bounded⟩
  · rintro ⟨haligned, hbounded⟩
    exact ⟨fun key => by rw [haligned], haligned ▸ h.ordered, hbounded⟩

/-- There is room for none unless `maxEntries` is no number. -/
theorem zero_le_room_iff :
    (JsNumber.ofNat 0).le options.room = true ↔ options.maxEntries ≠ .nan := by
  rw [TtlOptions.room]
  cases h : options.maxEntries with
  | finite maxEntries =>
      refine iff_of_true ?_ nofun
      split_ifs with hle
      · rfl
      · rw [JsNumber.ofNat, JsNumber.le_finite] at hle ⊢
        exact (not_le.mp hle).le
  | infinity negative => cases negative <;> simp [JsNumber.le, JsNumber.lt, JsNumber.ofNat]
  | nan => simp [JsNumber.le]

theorem room_eq (h : ¬ options.Disabled) : options.room = options.maxEntries :=
  if_neg fun hle => h (.inr hle)

/-- An operation that adds no key leaves the cache sound when it leaves its order that of the
map. -/
theorem Sound.of_sublist (h : run.Sound options) (hinv : run.Inv options)
    (hsub : (run.step options operation).state.entries.Sublist run.state.entries)
    (haligned : (run.step options operation).state.Aligned) :
    (run.step options operation).Sound options :=
  (sound_iff (hinv.step operation)).mpr
    ⟨haligned, JsNumber.ofNat_le_of_le h.bounded hsub.length_le⟩

/-- A hit is of the latest `set`, and too old only where `ttlMs` is no number or its expiry was
rounded up. -/
theorem get_iff (hinv : run.Inv options) (now : TimeValue) (key : JsString) :
    run.Does options (.get now key) ↔ run.InTurn options (.get now key) := by
  simp only [Does, InTurn]
  constructor
  · intro h hmem
    obtain ⟨entry, hlookup⟩ := Option.isSome_iff_exists.mp (TtlCache.entryOf_isSome_iff.mpr hmem)
    rw [TtlCache.entryOf] at hlookup
    obtain ⟨hon, time, hexpires, hstands⟩ := hinv.stands key entry
      (TtlCache.mem_of_lookup hlookup)
    have hage : (TtlCache.expiry time.ms options.ttlMs).lt (.finite now.ms) = false →
        options.ttlMs ≠ .nan ∧ ¬ options.RoundsPast time now := by
      intro hlive
      obtain ⟨time', hstands', hage⟩ := h entry.value (by
        rw [TtlCache.get, hlookup]
        simp [hexpires, hlive])
      obtain rfl := hstands.time_unique hstands'
      exact (age_le_iff hon hlive).mp hage
    refine ⟨?_, ?_⟩
    · intro hnan
      exact (hage (by simp [hnan, TtlCache.expiry, JsNumber.lt])).1 hnan
    · intro value time' hstands' hrounds
      obtain rfl := hstands.time_unique hstands'
      exact (hage hrounds.live).2 hrounds
  · intro h value hhit
    rw [TtlCache.get] at hhit
    split at hhit
    · cases hhit
    · rename_i entry hlookup
      split_ifs at hhit with hexpired
      cases hhit
      have hmem := TtlCache.mem_of_lookup hlookup
      obtain ⟨hon, time, hexpires, hstands⟩ := hinv.stands key entry hmem
      rw [hexpires, Bool.not_eq_true] at hexpired
      obtain ⟨hnumber, hexact⟩ := h (List.mem_map_of_mem hmem)
      exact ⟨time, hstands, (age_le_iff hon hexpired).mpr ⟨hnumber, hexact _ time hstands⟩⟩

section Set

variable {now : TimeValue} {key : JsString} {value : T}

/-- The entries and the order after a `set`. -/
theorem state_set (h : ¬ options.Disabled) : (run.step options (.set now key value)).state =
    ⟨(run.state.kept options key).entries ++
        [(key, ⟨value, TtlCache.expiry now.ms options.ttlMs⟩)],
      (run.state.kept options key).insertionOrder ++ [key]⟩ :=
  TtlCache.set_eq h

theorem aligned_set (h : ¬ options.Disabled) (hkept : (run.state.kept options key).Aligned) :
    (run.step options (.set now key value)).state.Aligned := by
  rw [state_set h, TtlCache.Aligned, hkept, TtlCache.keys, TtlCache.keys, List.map_append]
  rfl

/-- A `set` of a stored key keeps the others. -/
theorem set_stored (value : T) (now : TimeValue) (hinv : run.Inv options) (h : run.Sound options)
    (hon : ¬ options.Disabled) (hmem : key ∈ run.state.keys) :
    (run.step options (.set now key value)).Sound options ∧ ∀ other, other ≠ key →
      (run.state.set options now.ms key value).entryOf other = run.state.entryOf other := by
  obtain ⟨haligned, hbounded⟩ := (sound_iff hinv).mp h
  have hone : (run.state.delete key).entries.length + 1 = run.state.entries.length := by
    rw [TtlCache.delete_entries]
    exact length_without hinv.ordered.nodup hmem
  have hkept : run.state.kept options key = run.state.delete key := by
    rw [TtlCache.kept_of_room, TtlCache.replaced_of_mem hmem]
    rw [TtlCache.replaced_of_mem hmem, TtlCache.isFull]
    exact JsNumber.not_le_of_lt (room_eq hon ▸ hbounded) (by omega)
  refine ⟨(sound_iff (hinv.step _)).mpr ⟨aligned_set hon ?_, ?_⟩, fun other hother => ?_⟩
  · exact hkept ▸ haligned.delete hinv.ordered.nodup key
  · rw [state_set hon, hkept, List.length_append, List.length_singleton, hone]
    exact hbounded
  · rw [TtlCache.entryOf_set_of_ne hon hother, hkept, TtlCache.entryOf, TtlCache.delete_entries,
      lookup_without, if_neg hother, TtlCache.entryOf]

/-- A `set` of a new key with room for it. -/
theorem set_room_iff (value : T) (now : TimeValue) (hinv : run.Inv options)
    (h : run.Sound options) (hon : ¬ options.Disabled) (hnew : key ∉ run.state.keys)
    (hroom : run.state.isFull options = false) :
    (run.step options (.set now key value)).Sound options ↔
      (JsNumber.ofNat (run.state.entries.length + 1)).le options.maxEntries = true := by
  have hkept : run.state.kept options key = run.state := by
    rw [TtlCache.kept_of_room, TtlCache.replaced_of_notMem hnew]
    rwa [TtlCache.replaced_of_notMem hnew]
  have haligned : (run.step options (.set now key value)).state.Aligned :=
    aligned_set hon (hkept.symm ▸ ((sound_iff hinv).mp h).1)
  rw [sound_iff (hinv.step _), and_iff_right haligned, state_set hon, hkept, room_eq hon,
    List.length_append, List.length_singleton]

theorem pos_of_full (hon : ¬ options.Disabled) (hfull : run.state.isFull options = true) :
    0 < run.state.entries.length := by
  rw [Nat.pos_iff_ne_zero]
  intro hzero
  rw [TtlCache.isFull, hzero] at hfull
  exact hon (.inr hfull)

/-- A `set` of a new key at capacity evicts the oldest key exactly when that is not empty. -/
theorem set_full_iff (value : T) (now : TimeValue) (hinv : run.Inv options)
    (h : run.Sound options) (hon : ¬ options.Disabled) (hnew : key ∉ run.state.keys)
    (hfull : run.state.isFull options = true) :
    DropsOldest run.sets run.state.keys run.state.entryOf
        (run.state.set options now.ms key value).entryOf key ∧
      (run.step options (.set now key value)).Sound options ↔
        run.state.insertionOrder.head? ≠ some [] := by
  obtain ⟨haligned, hbounded⟩ := (sound_iff hinv).mp h
  rw [room_eq hon] at hbounded
  have hpos := pos_of_full hon hfull
  obtain ⟨oldest, rest, hfirst⟩ : ∃ oldest rest, run.state.keys = oldest :: rest := by
    rw [← List.ne_nil_iff_exists_cons, ← List.length_pos_iff]
    rwa [TtlCache.keys, List.length_map]
  have holdest : IsOldest run.sets run.state.keys oldest := by
    have hordered := hinv.ordered
    rw [hfirst] at hordered ⊢
    exact hordered.isOldest
  have hhead : run.state.insertionOrder.head? = some oldest := by
    rw [haligned, hfirst, List.head?_cons]
  rw [hhead, Ne, Option.some_inj]
  constructor
  · rintro ⟨⟨oldest', holdest', hdrops⟩, -⟩ rfl
    obtain rfl := holdest.unique holdest'
    have hne : [] ≠ key := fun hsame => hnew (hsame ▸ holdest.1)
    have hgone := hdrops [] hne
    rw [if_pos rfl, TtlCache.entryOf_set_of_ne hon hne] at hgone
    have hkept := TtlCache.entryOf_kept_empty options hnew holdest.1
    rw [hgone] at hkept
    cases hkept
  · intro hne
    have hkept := TtlCache.kept_of_full hnew haligned hinv.ordered.nodup hfirst hne hfull
      (JsNumber.not_le_of_lt hbounded (by omega))
    have hone := length_without hinv.ordered.nodup holdest.1
    refine ⟨⟨oldest, holdest, fun other hother => ?_⟩,
      (sound_iff (hinv.step _)).mpr ⟨aligned_set hon ?_, ?_⟩⟩
    · rw [TtlCache.entryOf_set_of_ne hon hother, hkept, TtlCache.entryOf, lookup_without,
        TtlCache.entryOf]
    · rw [hkept, TtlCache.Aligned, TtlCache.keys,
        TtlCache.keys_without_first hinv.ordered.nodup hfirst]
    · rw [state_set hon, hkept, List.length_append, List.length_singleton, hone, room_eq hon]
      exact hbounded

end Set

theorem step_iff (hinv : run.Inv options) (h : run.Sound options) :
    run.Does options operation ∧ (run.step options operation).Sound options ↔
      run.InTurn options operation := by
  have haligned := ((sound_iff hinv).mp h).1
  have hnodup := hinv.ordered.nodup
  cases operation with
  | get now key =>
      rw [get_iff hinv]
      exact and_iff_left (h.of_sublist hinv (run.state.get_sublist now.ms key)
        (haligned.get hnodup now.ms key))
  | set now key value =>
      simp only [Does, InTurn]
      by_cases hoff : options.Disabled
      · have hsame : (run.step options (.set now key value)).state = run.state :=
          TtlCache.set_disabled hoff
        have hsound := h.of_sublist hinv (hsame ▸ List.Sublist.refl _) (hsame.symm ▸ haligned)
        have hnone : key ∉ run.state.keys := by
          rw [TtlCache.keys, hinv.disabled hoff]
          exact List.not_mem_nil
        exact iff_of_true ⟨⟨fun _ hne => absurd (hinv.disabled hoff) hne,
          fun hmem => absurd hmem hnone⟩, hsound⟩ fun hon => absurd hoff hon
      · by_cases hmem : key ∈ run.state.keys
        · obtain ⟨hsound, hkept⟩ := set_stored value now hinv h hoff hmem
          exact iff_of_true ⟨⟨fun hnew => absurd hmem hnew, fun _ => hkept⟩, hsound⟩
            fun _ hnew => absurd hmem hnew
        · cases hfull : run.state.isFull options with
          | false =>
              have hroom := set_room_iff value now hinv h hoff hmem hfull
              simpa [hmem, hoff] using hroom
          | true =>
              have hevicts := set_full_iff value now hinv h hoff hmem hfull
              have hne : run.state.entries ≠ [] :=
                List.ne_nil_of_length_pos (pos_of_full hoff hfull)
              simpa [hmem, hoff, hne] using hevicts
  | delete key =>
      exact and_iff_left (h.of_sublist hinv (run.state.delete_sublist key)
        (haligned.delete hnodup key))
  | deleteWhere predicate =>
      exact and_iff_left (h.of_sublist hinv (TtlCache.foldl_delete_sublist _ _)
        (haligned.deleteWhere hnodup predicate))
  | clear => exact and_iff_left (h.of_sublist hinv (List.nil_sublist _) rfl)

/-- The order lists the stored keys in a run whose operations all come in turn and in no other. -/
theorem ttlCache_keepsBijection_iff (options : TtlOptions) (operations : List (TtlOperation T)) :
    KeepsBijection options operations ↔ options.maxEntries ≠ .nan ∧
      EveryStep (step options) (InTurn options) empty operations := by
  have hempty : (empty : TtlRun T).Sound options ↔ options.maxEntries ≠ .nan := by
    rw [sound_iff inv_empty, and_iff_right (show (empty : TtlRun T).state.Aligned from rfl)]
    exact zero_le_room_iff
  rw [KeepsBijection, throughout_iff inv_empty (fun _ operation hinv => hinv.step operation)
    fun _ _ hinv hsound => step_iff hinv hsound, hempty]

section Sample

def sampleTime : TimeValue := ⟨0, by decide⟩

/-- A value under the empty key, and one under another key. -/
def emptyKeyFirst : List (TtlOperation Nat) :=
  [.set sampleTime [] 1, .set sampleTime (js "b") 2]

def emptyKeyRun : TtlRun Nat := emptyKeyFirst.foldl (step ⟨.ofNat 10, .ofNat 1⟩) empty

/-- Where there is room for one entry, the empty key leaves the order and not the map. A bound of
one and a half is stepped over. -/
theorem emptyKey_unlisted :
    emptyKeyRun.state.keys = [[], js "b"] ∧ emptyKeyRun.state.insertionOrder = [js "b"] ∧
      ¬ KeepsBijection ⟨.ofNat 10, .ofNat 1⟩ emptyKeyFirst ∧
      ¬ KeepsBijection ⟨.ofNat 10, .finite (3 / 2)⟩ emptyKeyFirst := by
  refine ⟨by decide +kernel, by decide +kernel, fun h => ?_, fun h => ?_⟩
  · have hsound : Sound ⟨.ofNat 10, .ofNat 1⟩ _ := h.1.last
    exact absurd hsound.bounded (by decide +kernel)
  · have hsound : Sound ⟨.ofNat 10, .finite (3 / 2)⟩ _ := h.1.last
    exact absurd hsound.bounded (by decide +kernel)

end Sample

end TtlRun

end KyaOs
