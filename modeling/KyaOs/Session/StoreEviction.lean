import KyaOs.Fifo.Queue
import KyaOs.Runs.Logged
import KyaOs.Session.RemovedSessions

/-!
# Eviction from the session store

A deleted id stays in `insertionOrder`. Once its session is stored again, the entry that was
left stands for the new session, which is then evicted in its place among the older ones.
-/

namespace KyaOs.Session

open Js Fifo Runs

inductive StoreOperation where
  | set (sessionId : JsString) (session : Nat)
  | delete (sessionId : JsString)
  | cleanup
  | clear

namespace MemorySessionStore

def size (store : MemorySessionStore) : Nat := store.sessions.length

/-- `size >= maxSessions`. -/
def isFull (maxSessions : JsNumber) (size : Nat) : Bool := maxSessions.le (.ofNat size)

def apply (maxSessions : JsNumber) (store : MemorySessionStore) :
    StoreOperation → MemorySessionStore
  | .set sessionId session => store.set maxSessions sessionId session
  | .delete sessionId => store.delete sessionId
  | .cleanup => store.cleanup
  | .clear => clear

/-- The id that an operation inserts: a `set` does when it finds its id absent. -/
def insertedId : MemorySessionStore × StoreOperation → Option JsString
  | (store, .set sessionId _) => if sessionId ∈ store.ids then none else some sessionId
  | (_, .delete _) | (_, .cleanup) | (_, .clear) => none

end MemorySessionStore

abbrev StoreRun := Logged MemorySessionStore StoreOperation

namespace StoreRun

def empty : StoreRun := { state := {} }

/-- The ids as they were inserted. -/
def insertions (run : StoreRun) : List JsString := run.log.filterMap MemorySessionStore.insertedId

variable (maxSessions : JsNumber)

def step (run : StoreRun) (operation : StoreOperation) : StoreRun :=
  run.next (MemorySessionStore.apply maxSessions) operation

structure Sound (run : StoreRun) : Prop where
  bounded : (JsNumber.ofNat run.state.size).le maxSessions = true
  listed : ∀ sessionId ∈ run.state.ids, sessionId ∈ run.state.insertionOrder

/-- A `set` of a new id at capacity removes the session inserted first and no other. -/
def EvictsOldest (run : StoreRun) : StoreOperation → Prop
  | .set sessionId session => sessionId ∉ run.state.ids →
      MemorySessionStore.isFull maxSessions run.state.size = true →
        DropsOldest run.insertions run.state.ids run.state.get
          (run.state.set maxSessions sessionId session).get sessionId
  | .delete _ | .cleanup | .clear => True

/-- A `set` of a new id does not step over a `maxSessions` between two numbers of sessions, and
at capacity finds no session but the oldest with an entry ahead of the oldest's first. -/
def InTurn (run : StoreRun) : StoreOperation → Prop
  | .set sessionId _ => sessionId ∉ run.state.ids →
      (MemorySessionStore.isFull maxSessions run.state.size = false →
        (JsNumber.ofNat (run.state.size + 1)).le maxSessions = true) ∧
      (MemorySessionStore.isFull maxSessions run.state.size = true →
        ∀ oldest, IsOldest run.insertions run.state.ids oldest →
          ∀ other ∈ run.state.insertionOrder.takeWhile (· ≠ oldest), other ∉ run.state.ids)
  | .delete _ | .cleanup | .clear => True

/-- In every state the store is sound, and every `set` evicts the oldest session. -/
def KeepsNewest (operations : List StoreOperation) : Prop :=
  EveryState (step maxSessions) (Sound maxSessions) empty operations ∧
    EveryStep (step maxSessions) (EvictsOldest maxSessions) empty operations

end StoreRun

namespace MemorySessionStore

variable {maxSessions : JsNumber} {store : MemorySessionStore} {sessionId other : JsString}
  {session : Nat}

theorem evictFrom_eq (sessions : List (JsString × Nat)) (order : List JsString) :
    evictFrom maxSessions sessions order =
      ⟨(makeRoom (isFull maxSessions) (fun _ => false) sessions order).1,
        (makeRoom (isFull maxSessions) (fun _ => false) sessions order).2⟩ := by
  induction order generalizing sessions with
  | nil => rfl
  | cons oldest rest ih =>
      rw [evictFrom, makeRoom, isFull]
      split_ifs with hfull hkept
      · cases hkept
      · rw [ih]
        rfl
      · rfl

theorem ids_set_of_mem (maxSessions : JsNumber) (session : Nat) (h : sessionId ∈ store.ids) :
    (store.set maxSessions sessionId session).ids = store.ids := by
  rw [set, if_pos h, ids, List.map_map, ids]
  refine List.map_congr_left fun entry _ => ?_
  by_cases hsame : entry.1 = sessionId <;> simp [hsame]

theorem length_ids : store.ids.length = store.size := List.length_map _

/-- A session under a new id, after `evictIfNeeded`. -/
theorem set_of_notMem (maxSessions : JsNumber) (session : Nat) (h : sessionId ∉ store.ids) :
    store.set maxSessions sessionId session =
      ⟨(store.evictIfNeeded maxSessions).sessions ++ [(sessionId, session)],
        (store.evictIfNeeded maxSessions).insertionOrder ++ [sessionId]⟩ := by
  rw [set, if_neg h]

theorem evictIfNeeded_of_room (h : isFull maxSessions store.size = false) :
    store.evictIfNeeded maxSessions = store := by
  rw [evictIfNeeded, evictFrom_eq, makeRoom_of_room h]

/-- At capacity the first id in `insertionOrder` that is stored is evicted. -/
theorem evictIfNeeded_of_full (hids : store.ids.Nodup) (hne : store.ids ≠ [])
    (hlisted : ∀ sessionId ∈ store.ids, sessionId ∈ store.insertionOrder)
    (hfull : isFull maxSessions store.size = true)
    (hroom : isFull maxSessions (store.size - 1) = false) :
    ∃ stale first rest, store.insertionOrder = stale ++ first :: rest ∧
      (∀ other ∈ stale, other ∉ store.ids) ∧ first ∈ store.ids ∧
      store.evictIfNeeded maxSessions = ⟨without store.sessions first, rest⟩ := by
  obtain ⟨sessionId, hmem⟩ := List.exists_mem_of_ne_nil _ hne
  obtain ⟨stale, first, rest, horder, hstale, hfirst, hroomed⟩ :=
    exists_makeRoom (fun _ => false) hids ⟨sessionId, hlisted sessionId hmem, hmem⟩
      (fun _ => rfl) hfull hroom
  refine ⟨stale, first, rest, horder, hstale, hfirst, ?_⟩
  rw [evictIfNeeded, evictFrom_eq, hroomed]

theorem get_isSome (h : sessionId ∈ store.ids) : (store.get sessionId).isSome := by
  rw [Option.isSome_iff_ne_none, get, Ne, List.lookup_eq_none_iff]
  obtain ⟨entry, hentry, rfl⟩ := List.mem_map.mp h
  exact fun hnone => by simpa using hnone entry hentry

/-- What a `set` of a new id leaves under the other ids when it evicts one. -/
theorem get_set_of_evicted {first : JsString} {rest : List JsString} (hnew : sessionId ∉ store.ids)
    (hevicted : store.evictIfNeeded maxSessions = ⟨without store.sessions first, rest⟩)
    (hother : other ≠ sessionId) :
    (store.set maxSessions sessionId session).get other =
      if other = first then none else store.get other := by
  rw [set_of_notMem _ _ hnew, hevicted, get, List.lookup_append, lookup_without, get]
  simp [List.lookup_cons, beq_false_of_ne hother]

end MemorySessionStore

namespace StoreRun

variable {maxSessions : JsNumber} {run : StoreRun} {operation : StoreOperation}

/-- The stored ids stand in the order of their insertions, and all in `insertionOrder`. -/
structure Inv (run : StoreRun) : Prop where
  ordered : InOrder run.insertions run.state.ids
  listed : ∀ sessionId ∈ run.state.ids, sessionId ∈ run.state.insertionOrder

theorem insertions_step : (run.step maxSessions operation).insertions =
    run.insertions ++ (MemorySessionStore.insertedId (run.state, operation)).toList := by
  rw [step, Logged.next, insertions, List.filterMap_append, insertions]
  cases h : MemorySessionStore.insertedId (run.state, operation) <;> simp [h]

theorem Inv.set (h : run.Inv) (sessionId : JsString) (session : Nat) :
    (run.step maxSessions (.set sessionId session)).Inv := by
  by_cases hmem : sessionId ∈ run.state.ids
  · have hids := MemorySessionStore.ids_set_of_mem maxSessions session hmem
    refine ⟨?_, ?_⟩
    · rw [insertions_step, MemorySessionStore.insertedId, if_pos hmem]
      simpa [step, Logged.next, MemorySessionStore.apply, hids] using h.ordered
    · have hstored := h.listed
      simp only [step, Logged.next, MemorySessionStore.apply, hids]
      rwa [MemorySessionStore.set, if_pos hmem]
  · have hset := MemorySessionStore.set_of_notMem maxSessions session hmem
    rw [MemorySessionStore.evictIfNeeded, MemorySessionStore.evictFrom_eq] at hset
    have hleft := (makeRoom_sublist (MemorySessionStore.isFull maxSessions) (fun _ => false)
      run.state.sessions run.state.insertionOrder).map Prod.fst
    refine ⟨?_, ?_⟩
    · rw [insertions_step, MemorySessionStore.insertedId, if_neg hmem]
      simp only [step, Logged.next, MemorySessionStore.apply, hset, MemorySessionStore.ids,
        List.map_append, List.map_singleton, Option.toList_some]
      exact (h.ordered.sublist hleft).concat fun hkept => hmem (hleft.subset hkept)
    · simp only [step, Logged.next, MemorySessionStore.apply, hset, MemorySessionStore.ids,
        List.map_append, List.map_singleton, List.mem_append]
      exact fun other hother =>
        hother.imp_left (makeRoom_queued h.listed (fun _ => rfl) other)

theorem Inv.step (h : run.Inv) (operation : StoreOperation) :
    (run.step maxSessions operation).Inv := by
  cases operation with
  | set sessionId session => exact h.set sessionId session
  | delete sessionId =>
      have hleft : (run.state.delete sessionId).ids.Sublist run.state.ids :=
        List.filter_sublist.map Prod.fst
      refine ⟨?_, fun other hother => h.listed other (hleft.subset hother)⟩
      rw [insertions_step, MemorySessionStore.insertedId, Option.toList_none, List.append_nil]
      exact h.ordered.sublist hleft
  | cleanup =>
      refine ⟨?_, fun other hother => ?_⟩
      · rw [insertions_step, MemorySessionStore.insertedId, Option.toList_none, List.append_nil]
        exact h.ordered
      · exact List.mem_filter.mpr ⟨h.listed other hother, decide_eq_true hother⟩
  | clear => exact ⟨InOrder.nil, fun other hother => nomatch hother⟩

theorem inv_empty : empty.Inv := ⟨InOrder.nil, fun _ hmem => nomatch hmem⟩

/-- An operation that stores nothing new leaves a sound store sound. -/
theorem Sound.step (h : run.Sound maxSessions) (hinv : run.Inv)
    (hsize : (run.step maxSessions operation).state.size ≤ run.state.size) :
    (run.step maxSessions operation).Sound maxSessions :=
  ⟨JsNumber.ofNat_le_of_le h.bounded hsize, (hinv.step operation).listed⟩

section New

variable {sessionId : JsString}

/-- A `set` of a new id with room for it. -/
theorem set_room_iff (session : Nat) (hinv : run.Inv) (hnew : sessionId ∉ run.state.ids)
    (hroom : MemorySessionStore.isFull maxSessions run.state.size = false) :
    (run.step maxSessions (.set sessionId session)).Sound maxSessions ↔
      (JsNumber.ofNat (run.state.size + 1)).le maxSessions = true := by
  have hsize : (run.step maxSessions (.set sessionId session)).state.size = run.state.size + 1 := by
    simp only [StoreRun.step, Logged.next, MemorySessionStore.apply,
      MemorySessionStore.set_of_notMem _ _ hnew, MemorySessionStore.evictIfNeeded_of_room hroom,
      MemorySessionStore.size, List.length_append, List.length_singleton]
  constructor
  · intro h
    exact hsize ▸ h.bounded
  · intro h
    exact ⟨hsize ▸ h, (hinv.step _).listed⟩

/-- A `set` of a new id at capacity evicts one session, and the oldest exactly when no other
stored session has an entry ahead of it. -/
theorem set_full_iff (session : Nat) (hmax : (JsNumber.ofNat 1).le maxSessions = true)
    (hinv : run.Inv) (h : run.Sound maxSessions) (hnew : sessionId ∉ run.state.ids)
    (hfull : MemorySessionStore.isFull maxSessions run.state.size = true) :
    (run.step maxSessions (.set sessionId session)).Sound maxSessions ∧
      (DropsOldest run.insertions run.state.ids run.state.get
        (run.state.set maxSessions sessionId session).get sessionId ↔
          ∀ oldest, IsOldest run.insertions run.state.ids oldest →
            ∀ other ∈ run.state.insertionOrder.takeWhile (· ≠ oldest), other ∉ run.state.ids) := by
  have hpos : 0 < run.state.size := by
    rw [Nat.pos_iff_ne_zero]
    intro hzero
    rw [MemorySessionStore.isFull, hzero, JsNumber.not_le_of_lt hmax Nat.zero_lt_one] at hfull
    cases hfull
  have hne : run.state.ids ≠ [] := by
    rwa [← List.length_pos_iff, MemorySessionStore.length_ids]
  obtain ⟨stale, first, rest, horder, hstale, hfirst, hevicted⟩ :=
    MemorySessionStore.evictIfNeeded_of_full hinv.ordered.nodup hne hinv.listed hfull
      (JsNumber.not_le_of_lt h.bounded (Nat.sub_lt hpos Nat.zero_lt_one))
  have hget : ∀ other, other ≠ sessionId →
      (run.state.set maxSessions sessionId session).get other =
        if other = first then none else run.state.get other := fun other =>
    MemorySessionStore.get_set_of_evicted hnew hevicted
  refine ⟨h.step hinv ?_, ?_, ?_⟩
  · have hone := length_without hinv.ordered.nodup hfirst
    simp only [StoreRun.step, Logged.next, MemorySessionStore.apply,
      MemorySessionStore.set_of_notMem _ _ hnew, hevicted, MemorySessionStore.size,
      List.length_append, List.length_singleton]
    exact hone.le
  · rintro ⟨oldest, holdest, hdrops⟩ oldest' holdest'
    -- What is gone is the first stored id in `insertionOrder`, so that is the oldest.
    have hgone := hdrops first fun hsame => hnew (hsame ▸ hfirst)
    rw [hget first fun hsame => hnew (hsame ▸ hfirst), if_pos rfl] at hgone
    have hsame : first = oldest := by
      by_contra hother
      rw [if_neg hother] at hgone
      simpa [← hgone] using MemorySessionStore.get_isSome hfirst
    rw [horder, ← holdest.unique holdest']
    exact (ahead_iff hstale hfirst holdest.1).mpr hsame
  · intro hturn
    obtain ⟨oldest, holdest⟩ := hinv.ordered.exists_isOldest hne
    have hahead := hturn oldest holdest
    rw [horder, ahead_iff hstale hfirst holdest.1] at hahead
    exact ⟨first, hahead ▸ holdest, hget⟩

end New

theorem step_iff (hmax : (JsNumber.ofNat 1).le maxSessions = true) (hinv : run.Inv)
    (h : run.Sound maxSessions) :
    run.EvictsOldest maxSessions operation ∧ (run.step maxSessions operation).Sound maxSessions ↔
      run.InTurn maxSessions operation := by
  cases operation with
  | set sessionId session =>
      simp only [EvictsOldest, InTurn]
      by_cases hmem : sessionId ∈ run.state.ids
      · have hsize : (run.step maxSessions (.set sessionId session)).state.size ≤
            run.state.size := by
          rw [← MemorySessionStore.length_ids, ← MemorySessionStore.length_ids]
          exact (congrArg List.length (MemorySessionStore.ids_set_of_mem _ _ hmem)).le
        exact ⟨fun _ hnew => absurd hmem hnew,
          fun _ => ⟨fun hnew => absurd hmem hnew, h.step hinv hsize⟩⟩
      · cases hfull : MemorySessionStore.isFull maxSessions run.state.size with
        | false =>
            have hroom := set_room_iff session hinv hmem hfull
            simpa [hmem] using hroom
        | true =>
            obtain ⟨hsound, holdest⟩ := set_full_iff session hmax hinv h hmem hfull
            simpa [hmem, hsound] using holdest
  | delete sessionId =>
      exact ⟨fun _ => trivial, fun _ => ⟨trivial, h.step hinv (List.length_filter_le _ _)⟩⟩
  | cleanup => exact ⟨fun _ => trivial, fun _ => ⟨trivial, h.step hinv (Nat.le_refl _)⟩⟩
  | clear => exact ⟨fun _ => trivial, fun _ => ⟨trivial, h.step hinv (Nat.zero_le _)⟩⟩

/-- The store keeps to `maxSessions` and evicts the oldest session, in a run whose `set`s all come
in turn and in no other. -/
theorem memorySessionStore_evictsOldest_iff {maxSessions : JsNumber}
    (hmax : (JsNumber.ofNat 1).le maxSessions = true) (operations : List StoreOperation) :
    KeepsNewest maxSessions operations ↔
      EveryStep (step maxSessions) (InTurn maxSessions) empty operations := by
  have hempty : empty.Sound maxSessions :=
    ⟨JsNumber.ofNat_le_of_le hmax (Nat.zero_le 1), fun _ hmem => nomatch hmem⟩
  rw [KeepsNewest, throughout_iff inv_empty (fun _ operation hinv => hinv.step operation)
    fun _ _ hinv hsound => step_iff hmax hinv hsound]
  exact and_iff_right hempty

section Sample

/-- A third session in a store for two. -/
def sampleOperations : List StoreOperation :=
  [.set (js "a") 0, .set (js "b") 1, .set (js "c") 2]

theorem memorySessionStore_evictsOldest_iff_sample :
    KeepsNewest (.ofNat 2) sampleOperations := by
  rw [memorySessionStore_evictsOldest_iff (by decide)]
  refine ⟨fun _ => ⟨fun _ => by decide +kernel, fun hfull => absurd hfull (by decide +kernel)⟩,
    fun _ => ⟨fun _ => by decide +kernel, fun hfull => absurd hfull (by decide +kernel)⟩,
    fun _ => ⟨fun hroom => absurd hroom (by decide +kernel), fun _ oldest holdest => ?_⟩, trivial⟩
  have hfirst : IsOldest [js "a", js "b"] [js "a", js "b"] (js "a") :=
    InOrder.isOldest (by decide +kernel)
  obtain rfl := hfirst.unique holdest
  decide +kernel

/-- A session is deleted and stored again, after another one. -/
def reinsertion : List StoreOperation :=
  [.set (js "a") 0, .set (js "b") 1, .delete (js "a"), .set (js "a") 2]

def reinsertedRun : StoreRun := reinsertion.foldl (step (.ofNat 2)) empty

/-- The entry that the deletion left puts the newer session first. A bound of one and a half is
stepped over. -/
theorem reinserted_evicted :
    IsOldest reinsertedRun.insertions reinsertedRun.state.ids (js "b") ∧
      (reinsertedRun.state.set (.ofNat 2) (js "c") 3).ids = [js "b", js "c"] ∧
      ¬ KeepsNewest (.ofNat 2) (reinsertion ++ [.set (js "c") 3]) ∧
      ¬ KeepsNewest (.finite (3 / 2)) [.set (js "a") 0, .set (js "b") 1] := by
  have hrun : reinsertedRun.insertions = [js "a", js "b", js "a"] ∧
      reinsertedRun.state.ids = [js "b", js "a"] := by decide +kernel
  have holdest : IsOldest reinsertedRun.insertions reinsertedRun.state.ids (js "b") := by
    rw [hrun.1, hrun.2]
    exact InOrder.isOldest (by decide +kernel)
  refine ⟨holdest, by decide +kernel, fun h => ?_, fun h => ?_⟩
  · obtain ⟨oldest, holdest', hdrops⟩ := h.2.2.2.2.2.1 (by decide +kernel) (by decide +kernel)
    obtain rfl := holdest.unique holdest'
    have hgone := hdrops (js "b") (by decide +kernel)
    rw [if_pos rfl] at hgone
    exact absurd hgone (by decide +kernel)
  · have hbounded : Sound (.finite (3 / 2)) _ := h.1.last
    exact absurd hbounded.bounded (by decide +kernel)

end Sample

end StoreRun

end KyaOs.Session
