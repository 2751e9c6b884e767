import Mathlib.Data.List.Dedup
import Mathlib.Data.List.Nodup
import Mathlib.Data.List.Perm.Subperm
import Mathlib.Data.List.TakeWhile

/-!
# First in, first out

Keys in the order in which they were last listed, and the loop that takes keys off a queue
until a bounded map has room. The queue may hold keys that the map has lost.
-/

namespace Fifo

variable {K V : Type*} [DecidableEq K] {key other : K} {listed keys keys' : List K}

/-- The keys stand each once, in the order in which they were last listed. -/
def InOrder (listed keys : List K) : Prop := keys.Sublist listed.dedup

instance : Decidable (InOrder listed keys) :=
  inferInstanceAs (Decidable (keys.Sublist listed.dedup))

/-- Every other key was listed after this one was for the last time. -/
def IsOldest (listed keys : List K) (key : K) : Prop :=
  key ∈ keys ∧ ∀ other ∈ keys, other ≠ key →
    ∃ before after, listed = before ++ key :: after ∧ key ∉ after ∧ other ∈ after

/-- The oldest key is gone and no other is, that of the new entry aside. -/
def DropsOldest (listed keys : List K) (old new : K → Option V) (entered : K) : Prop :=
  ∃ oldest, IsOldest listed keys oldest ∧
    ∀ key, key ≠ entered → new key = if key = oldest then none else old key

theorem dedup_concat (listed : List K) (key : K) :
    (listed ++ [key]).dedup = listed.dedup.filter (· ≠ key) ++ [key] := by
  induction listed with
  | nil => rfl
  | cons first rest ih =>
      rw [List.cons_append, List.dedup_cons, List.dedup_cons, ih]
      by_cases hlater : first ∈ rest
      · rw [if_pos hlater, if_pos (List.mem_append_left _ hlater)]
      · rw [if_neg hlater]
        by_cases hsame : first = key
        · simp [hsame]
        · rw [if_neg (by simp [hlater, hsame]), List.filter_cons_of_pos (by simpa using hsame),
            List.cons_append]

/-- A sublist of distinct keys is what is picked by its members. -/
theorem filter_mem_eq_of_sublist (hnodup : listed.Nodup) (h : keys.Sublist listed) :
    listed.filter (· ∈ keys) = keys := by
  have hself : keys.filter (· ∈ keys) = keys :=
    List.filter_eq_self.mpr fun key hkey => decide_eq_true hkey
  have hsub : keys.Sublist (listed.filter (· ∈ keys)) := by
    simpa only [hself] using h.filter fun key => decide (key ∈ keys)
  refine (hsub.eq_of_length_le ?_).symm
  refine (List.subperm_of_subset (hnodup.filter _) fun key hkey => ?_).length_le
  simpa using (List.mem_filter.mp hkey).2

theorem IsOldest.unique (h : IsOldest listed keys key) (h' : IsOldest listed keys other) :
    key = other := by
  by_contra hne
  obtain ⟨before, after, hlisted, hlast, hafter⟩ := h.2 other h'.1 (Ne.symm hne)
  obtain ⟨before', after', hlisted', hlast', hafter'⟩ := h'.2 key h.1 hne
  rw [hlisted] at hlisted'
  -- The last listing of one is before the last of the other, and the other way round.
  obtain ⟨between, hbefore, hsplit⟩ | ⟨between, hbefore, hsplit⟩ :=
    List.append_eq_append_iff.mp hlisted'
  · cases between with
    | nil => exact hne (List.cons.inj hsplit).1
    | cons first rest =>
        obtain ⟨-, rfl⟩ := List.cons.inj hsplit
        exact hlast (by simp [hafter'])
  · cases between with
    | nil => exact hne (List.cons.inj hsplit).1.symm
    | cons first rest =>
        obtain ⟨-, rfl⟩ := List.cons.inj hsplit
        exact hlast' (by simp [hafter])

namespace InOrder

theorem nil : InOrder listed [] := List.nil_sublist _

theorem nodup (h : InOrder listed keys) : keys.Nodup :=
  List.Nodup.sublist h (List.nodup_dedup listed)

theorem sublist (h : InOrder listed keys) (hsub : keys'.Sublist keys) : InOrder listed keys' :=
  hsub.trans h

/-- A new key comes last. -/
theorem concat (h : InOrder listed keys) (hnew : key ∉ keys) :
    InOrder (listed ++ [key]) (keys ++ [key]) := by
  have hkept : keys.filter (· ≠ key) = keys :=
    List.filter_eq_self.mpr fun other hother => by
      simpa using fun hsame : other = key => hnew (hsame ▸ hother)
  rw [InOrder, dedup_concat, ← hkept]
  exact (h.filter _).append (List.Sublist.refl _)

/-- Keys in order stand in one way. -/
theorem eq_of_mem_iff (h : InOrder listed keys) (h' : InOrder listed keys')
    (hmem : ∀ key, key ∈ keys ↔ key ∈ keys') : keys = keys' := by
  rw [← filter_mem_eq_of_sublist (List.nodup_dedup listed) h,
    ← filter_mem_eq_of_sublist (List.nodup_dedup listed) h']
  simp only [hmem]

/-- The first of the keys is the oldest. -/
theorem isOldest (h : InOrder listed (key :: keys)) : IsOldest listed (key :: keys) key := by
  refine ⟨List.mem_cons_self, fun other hother hne => ?_⟩
  have hmem : other ∈ keys := (List.mem_cons.mp hother).resolve_left hne
  rw [InOrder] at h
  induction listed with
  | nil => cases h
  | cons first rest ih =>
      have hearlier : (key :: keys).Sublist rest.dedup → ∃ before after,
          first :: rest = before ++ key :: after ∧ key ∉ after ∧ other ∈ after := by
        intro hrest
        obtain ⟨before, after, rfl, hlast, hafter⟩ := ih hrest
        exact ⟨first :: before, after, rfl, hlast, hafter⟩
      rw [List.dedup_cons] at h
      split_ifs at h with hlater
      · exact hearlier h
      · cases h with
        | cons _ hrest => exact hearlier hrest
        | cons_cons _ hkeys =>
            exact ⟨[], rest, rfl, hlater, List.mem_dedup.mp (hkeys.subset hmem)⟩

theorem exists_isOldest (h : InOrder listed keys) (hne : keys ≠ []) :
    ∃ oldest, IsOldest listed keys oldest := by
  cases keys with
  | nil => exact absurd rfl hne
  | cons key rest => exact ⟨key, h.isOldest⟩

end InOrder

/-- The entries of the other keys. -/
def without (entries : List (K × V)) (key : K) : List (K × V) :=
  entries.filter fun entry => entry.1 ≠ key

/-- Keys are taken off the queue, and out of the map unless they are kept, while the map is
full. -/
def makeRoom (full : Nat → Bool) (kept : K → Bool) (entries : List (K × V)) :
    List K → List (K × V) × List K
  | [] => (entries, [])
  | key :: queue =>
    if full entries.length then
      makeRoom full kept (if kept key then entries else without entries key) queue
    else (entries, key :: queue)

variable {entries : List (K × V)} {full : Nat → Bool} {kept : K → Bool} {queue stale : List K}

theorem map_fst_without : (without entries key).map Prod.fst =
    (entries.map Prod.fst).filter (· ≠ key) := by
  rw [without, List.filter_map]
  rfl

theorem without_eq_self (h : key ∉ entries.map Prod.fst) : without entries key = entries := by
  refine List.filter_eq_self.mpr fun entry hentry => ?_
  simpa using fun hsame : entry.1 = key => h (hsame ▸ List.mem_map_of_mem hentry)

theorem length_without (hkeys : (entries.map Prod.fst).Nodup) (h : key ∈ entries.map Prod.fst) :
    (without entries key).length + 1 = entries.length := by
  have hlength : (without entries key).length = ((entries.map Prod.fst).erase key).length := by
    rw [hkeys.erase_eq_filter, ← List.length_map Prod.fst, map_fst_without]
    simp only [ne_eq, decide_not]
    rfl
  rw [hlength, List.length_erase_of_mem h, List.length_map]
  have hpos := List.length_pos_of_mem h
  rw [List.length_map] at hpos
  omega

theorem lookup_without [BEq K] [LawfulBEq K] (entries : List (K × V)) (key other : K) :
    (without entries key).lookup other = if other = key then none else entries.lookup other := by
  induction entries with
  | nil => simp [without]
  | cons entry rest ih =>
      rw [without] at ih
      rw [without, List.filter_cons]
      by_cases hsame : entry.1 = key
      · rw [if_neg (by simpa using hsame), ih]
        by_cases hother : other = key
        · rw [if_pos hother, if_pos hother]
        · rw [if_neg hother, if_neg hother, List.lookup_cons,
            beq_false_of_ne fun hfound => hother (hfound.trans hsame)]
      · rw [if_pos (by simpa using hsame), List.lookup_cons, List.lookup_cons, ih]
        by_cases hother : other = key
        · rw [beq_false_of_ne fun hfound => hsame (hfound.symm.trans hother)]
        · rw [if_neg hother, if_neg hother]

theorem makeRoom_of_room (h : full entries.length = false) :
    makeRoom full kept entries queue = (entries, queue) := by
  cases queue with
  | nil => rfl
  | cons key queue => rw [makeRoom, h, if_neg Bool.false_ne_true]

/-- Keys that the map has lost are passed over. -/
theorem makeRoom_stale (h : ∀ key ∈ stale, key ∉ entries.map Prod.fst)
    (hfull : full entries.length = true) :
    makeRoom full kept entries (stale ++ queue) = makeRoom full kept entries queue := by
  induction stale with
  | nil => rfl
  | cons key rest ih =>
      obtain ⟨hkey, hrest⟩ := List.forall_mem_cons.mp h
      rw [List.cons_append, makeRoom, if_pos hfull, without_eq_self hkey, ite_self, ih hrest]

/-- One key that the map has makes the room, unless it is kept. -/
theorem makeRoom_first (hkept : kept key = false) (hfull : full entries.length = true)
    (hroom : full (without entries key).length = false) :
    makeRoom full kept entries (key :: queue) = (without entries key, queue) := by
  rw [makeRoom, if_pos hfull, hkept, if_neg Bool.false_ne_true, makeRoom_of_room hroom]

/-- In a full map that has one key too many, the first key that it still has makes the room. -/
theorem exists_makeRoom (kept : K → Bool) (hkeys : (entries.map Prod.fst).Nodup)
    (hqueue : ∃ key ∈ queue, key ∈ entries.map Prod.fst) (hkept : ∀ key, kept key = false)
    (hfull : full entries.length = true) (hroom : full (entries.length - 1) = false) :
    ∃ stale key rest, queue = stale ++ key :: rest ∧ (∀ key ∈ stale, key ∉ entries.map Prod.fst) ∧
      key ∈ entries.map Prod.fst ∧
      makeRoom full kept entries queue = (without entries key, rest) := by
  obtain ⟨key, hfirst⟩ : ∃ key, queue.find? (fun key => key ∈ entries.map Prod.fst) = some key := by
    rw [← Option.isSome_iff_exists, List.find?_isSome]
    simpa using hqueue
  obtain ⟨hkey, stale, rest, rfl, hstale⟩ := List.find?_eq_some_iff_append.mp hfirst
  have hkey : key ∈ entries.map Prod.fst := of_decide_eq_true hkey
  have hlost : ∀ key ∈ stale, key ∉ entries.map Prod.fst := fun key hkey => by
    simpa only [Bool.not_eq_true', decide_eq_false_iff_not] using hstale key hkey
  have hone : (without entries key).length = entries.length - 1 := by
    have hlength := length_without hkeys hkey
    omega
  refine ⟨stale, key, rest, rfl, hlost, hkey, ?_⟩
  rw [makeRoom_stale hlost hfull, makeRoom_first (hkept key) hfull (hone ▸ hroom)]

/-- No key of the map stands ahead of its first in the queue but that one. -/
theorem ahead_iff (hstale : ∀ key ∈ stale, key ∉ keys) (hfirst : other ∈ keys) (hkey : key ∈ keys) :
    (∀ ahead ∈ (stale ++ other :: queue).takeWhile (· ≠ key), ahead ∉ keys) ↔ other = key := by
  have hpassed : ∀ lost ∈ stale, decide (lost ≠ key) = true := fun lost hlost =>
    decide_eq_true fun hsame => hstale lost hlost (hsame ▸ hkey)
  rw [List.takeWhile_append_of_pos hpassed]
  by_cases hsame : other = key
  · simpa [hsame] using hstale
  · refine iff_of_false (fun h => h other ?_ hfirst) hsame
    simp [hsame]

theorem makeRoom_sublist (full : Nat → Bool) (kept : K → Bool) (entries : List (K × V))
    (queue : List K) : (makeRoom full kept entries queue).1.Sublist entries := by
  induction queue generalizing entries with
  | nil => exact List.Sublist.refl _
  | cons key queue ih =>
      rw [makeRoom]
      split_ifs
      · exact ih entries
      · exact (ih _).trans List.filter_sublist
      · exact List.Sublist.refl _

/-- A key that is still in the map is still in the queue. -/
theorem makeRoom_queued (h : ∀ key ∈ entries.map Prod.fst, key ∈ queue)
    (hkept : ∀ key, kept key = false) :
    ∀ key ∈ (makeRoom full kept entries queue).1.map Prod.fst,
      key ∈ (makeRoom full kept entries queue).2 := by
  induction queue generalizing entries with
  | nil => exact h
  | cons first queue ih =>
      rw [makeRoom, hkept, if_neg Bool.false_ne_true]
      split_ifs
      · refine ih fun key hkey => ?_
        rw [map_fst_without, List.mem_filter] at hkey
        exact (List.mem_cons.mp (h key hkey.1)).resolve_left (by simpa using hkey.2)
      · exact h

/-- What is kept stays in the map. -/
theorem makeRoom_keeps {entry : K × V} (hkept : kept entry.1 = true) (h : entry ∈ entries) :
    entry ∈ (makeRoom full kept entries queue).1 := by
  induction queue generalizing entries with
  | nil => exact h
  | cons first queue ih =>
      rw [makeRoom]
      split_ifs with hfull hfirst
      · exact ih h
      · refine ih (List.mem_filter.mpr ⟨h, ?_⟩)
        simpa using fun hsame : entry.1 = first => hfirst (hsame ▸ hkept)
      · exact h

end Fifo
