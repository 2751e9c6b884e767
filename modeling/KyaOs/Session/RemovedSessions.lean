import KyaOs.Concurrency.Actions
import KyaOs.Session.Manager

/-!
# Removed sessions

A `getSession` writes back the session it read. Where the session was removed in between, it
is stored again; where none is, a removed session stays removed. What a `getSession` returns
had not expired when it read the clock.
-/

namespace KyaOs.Session

open Js Concurrency

namespace MemorySessionStore

variable {store : MemorySessionStore} {maxSessions : JsNumber} {sessionId : JsString}
  {number : Nat}

theorem mem_ids_delete {other : JsString} :
    other ∈ (store.delete sessionId).ids ↔ other ∈ store.ids ∧ other ≠ sessionId := by
  simp only [ids, delete, List.mem_map, List.mem_filter, decide_eq_true_eq]
  constructor
  · rintro ⟨entry, ⟨hmem, hne⟩, rfl⟩
    exact ⟨⟨entry, hmem, rfl⟩, hne⟩
  · rintro ⟨⟨entry, hmem, rfl⟩, hne⟩
    exact ⟨entry, ⟨hmem, hne⟩, rfl⟩

theorem ids_evictFrom (sessions : List (JsString × Nat)) (order : List JsString) :
    (evictFrom maxSessions sessions order).ids ⊆ sessions.map Prod.fst := by
  induction order generalizing sessions with
  | nil => exact List.Subset.refl _
  | cons oldest rest ih =>
      unfold evictFrom
      split
      · exact List.Subset.trans (ih _) (List.map_subset _ (List.filter_subset_self _))
      · exact List.Subset.refl _

/-- A `set` adds its own id at most. -/
theorem ids_set {other : JsString} (h : other ∈ (store.set maxSessions sessionId number).ids) :
    other ∈ store.ids ∨ other = sessionId := by
  unfold set at h
  split at h
  · rename_i hmem
    obtain ⟨entry, hentry, rfl⟩ := List.mem_map.mp h
    obtain ⟨old, hold, rfl⟩ := List.mem_map.mp hentry
    split
    · exact .inr rfl
    · exact .inl (List.mem_map_of_mem hold)
  · simp only [ids, List.map_append, List.mem_append, List.map_singleton,
      List.mem_singleton] at h
    obtain hevicted | rfl := h
    · exact .inl (ids_evictFrom _ _ hevicted)
    · exact .inr rfl

theorem mem_ids_set : sessionId ∈ (store.set maxSessions sessionId number).ids := by
  unfold set
  split
  · rename_i hmem
    obtain ⟨entry, hentry, rfl⟩ := List.mem_map.mp hmem
    refine List.mem_map.mpr ⟨(entry.1, number), ?_, rfl⟩
    exact List.mem_map.mpr ⟨entry, hentry, if_pos rfl⟩
  · simp [ids]

theorem mem_ids_of_get (h : store.get sessionId = some number) : sessionId ∈ store.ids := by
  obtain ⟨before, after, hsessions, -⟩ := List.lookup_eq_some_iff.mp h
  rw [ids, hsessions]
  simp

end MemorySessionStore

/-- The idle time or the lifetime of a session is exceeded. -/
def Exceeded (config : SessionConfig) (session : SessionContext) (now : Int) : Prop :=
  (session.ttlMinutes.scale 60).ltInt (now - session.lastActivity) = true ∨
    ∃ lifetime, config.absoluteSessionLifetime = some lifetime ∧
      (lifetime.scale 60).ltInt (now - session.createdAt) = true

theorem exceeded_iff {config : SessionConfig} {session : SessionContext} {now : Int} :
    (isIdle session now || isOutlived config session now) = true ↔
      Exceeded config session now := by
  rw [Bool.or_eq_true, Exceeded, isIdle, isOutlived]
  cases config.absoluteSessionLifetime with
  | none => simp
  | some lifetime => simp

/-- What a `getSession` gives had not expired when it read the clock. -/
def SessionPhase.Live (config : SessionConfig) : SessionPhase → Prop
  | .returned _ now read (some _) => ∃ session, read = some session ∧ ¬ Exceeded config session now
  | _ => True

namespace SessionWorld

def ReturnsLive (config : SessionConfig) (w : SessionWorld) : Prop :=
  ∀ call phase, w.calls call = some phase → phase.Live config

/-- A removed session is neither stored nor given to a `getSession` that started after its
removal, and no `getSession` gives a session that has expired. -/
structure StaysRemoved (config : SessionConfig) (w : SessionWorld) : Prop where
  stored : ∀ sessionId ∈ w.removed, sessionId ∉ w.store.ids
  later : ∀ call now read result, w.calls call = some (.returned true now read result) →
    result = none
  live : w.ReturnsLive config

/-- A `getSession` that writes back finds its session still stored, and no handshake draws
the id of a removed session. -/
def WritesInTime (config : SessionConfig) (w : SessionWorld) : SessionAction → Prop
  | .checkSession call now => ∀ sessionId number late session,
      w.calls call = some (.got sessionId number late) → w.objects number = some session →
        ¬ Exceeded config session now → sessionId ∈ w.store.ids
  | .storeSession call => ∀ request now sessionId,
      w.calls call = some (.named request now sessionId) → sessionId ∉ w.removed
  | _ => True

/-- The worlds every interleaving of calls can reach. -/
inductive Reaches (config : SessionConfig) : SessionWorld → Prop
  | start : Reaches config .empty
  | act {w w' : SessionWorld} {action : SessionAction} :
      Reaches config w → w.act config action = some w' → Reaches config w'

/-- The worlds of the runs whose writes are all in time. -/
inductive ReachesInTime (config : SessionConfig) : SessionWorld → Prop
  | start : ReachesInTime config .empty
  | act {w w' : SessionWorld} {action : SessionAction} :
      ReachesInTime config w → w.act config action = some w' → w.WritesInTime config action →
      ReachesInTime config w'

variable {config : SessionConfig} {w w' : SessionWorld} {action : SessionAction}

theorem ReachesInTime.reaches (h : ReachesInTime config w) : Reaches config w := by
  induction h with
  | start => exact .start
  | act _ hact _ ih => exact ih.act hact

/-- Call `call` has moved to `phase`, the others stand as they did. -/
structure Moves (w : SessionWorld) (call : Nat) (phase : SessionPhase) (w' : SessionWorld) :
    Prop where
  moved : w'.calls call = some phase
  others : ∀ other, other ≠ call → w'.calls other = w.calls other

theorem moves_setPhase {w₁ : SessionWorld} (hcalls : w₁.calls = w.calls) (call : Nat)
    (phase : SessionPhase) : w.Moves call phase (w₁.setPhase call phase) where
  moved := Function.update_self call _ _
  others other hother := (Function.update_of_ne hother _ _).trans (congrFun hcalls other)

theorem moves_check (call : Nat) (sessionId : JsString) (number : Nat) (late : Bool)
    (session : SessionContext) (now : Int) :
    ∃ result, w.Moves call (.returned late now (some session) result)
      (w.check config call sessionId number late session now) ∧
        (result.isSome = true → ¬ Exceeded config session now) := by
  unfold check
  split
  · exact ⟨none, moves_setPhase (by rfl) call _, fun hresult => absurd hresult Bool.false_ne_true⟩
  · rename_i hlive
    exact ⟨some number, moves_setPhase (by rfl) call _, fun _ hexceeded =>
      hlive (exceeded_iff.mpr hexceeded)⟩

/-- Every action moves one call, and only to a live session. -/
theorem moves_of_act (h : w.act config action = some w') :
    ∃ call phase, w.Moves call phase w' ∧ phase.Live config := by
  cases action with
  | validateHandshake call request now =>
      simp only [act] at h
      split_ifs at h
      split at h
      · cases h
        refine ⟨call, _, moves_setPhase (by rfl) call _, ?_⟩
        cases refuseHandshake config request now <;> trivial
      · cases h
  | admitNonce call consumed =>
      simp only [act] at h
      split at h
      · cases h
        refine ⟨call, _, moves_setPhase (by rfl) call _, ?_⟩
        cases consumed with
        | error error => trivial
        | ok consumed => cases consumed <;> trivial
      · cases h
  | randomBytes call bytes =>
      simp only [act] at h
      split at h
      · cases h
        refine ⟨call, _, moves_setPhase (by rfl) call _, ?_⟩
        cases bytes <;> trivial
      · cases h
  | storeSession call =>
      simp only [act] at h
      split at h
      · cases h
        exact ⟨call, _, moves_setPhase (by rfl) call _, trivial⟩
      · cases h
  | getSession call sessionId =>
      simp only [act] at h
      split at h
      · cases h
        refine ⟨call, _, moves_setPhase (by rfl) call _, ?_⟩
        cases w.store.get sessionId <;> trivial
      · cases h
  | checkSession call now =>
      simp only [act] at h
      split_ifs at h
      split at h
      · obtain ⟨session, -, rfl⟩ := Option.map_eq_some_iff.mp h
        obtain ⟨result, hmoves, hlive⟩ := @moves_check config { w with clock := now } call _ _ _
          session now
        refine ⟨call, _, ⟨hmoves.moved, hmoves.others⟩, ?_⟩
        cases result with
        | none => trivial
        | some number => exact ⟨session, rfl, hlive rfl⟩
      · cases h
  | cleanup call now =>
      simp only [act] at h
      split_ifs at h
      split at h
      · cases h
        exact ⟨call, _, moves_setPhase (by rfl) call _, trivial⟩
      · cases h
  | sweep call =>
      simp only [act] at h
      split at h
      · split at h
        all_goals
          cases h
          exact ⟨call, _, moves_setPhase (by rfl) call _, trivial⟩
      · cases h
  | clearSessions call =>
      simp only [act] at h
      split at h
      · cases h
        exact ⟨call, _, moves_setPhase (by rfl) call _, trivial⟩
      · cases h

theorem ReturnsLive.act (h : w.ReturnsLive config) (hact : w.act config action = some w') :
    w'.ReturnsLive config := by
  obtain ⟨call, phase, hmoves, hlive⟩ := moves_of_act hact
  intro other phase' hother
  by_cases hsame : other = call
  · subst hsame
    rw [hmoves.moved] at hother
    cases hother
    exact hlive
  · exact h other phase' (hmoves.others other hsame ▸ hother)

theorem returnsLive_of_reaches (h : Reaches config w) : w.ReturnsLive config := by
  induction h with
  | start =>
      intro call phase hphase
      cases hphase
  | act _ hact ih => exact ih.act hact

/-- The session of a call that goes on was stored, and the call started before any removal. -/
def Awaited (w : SessionWorld) : SessionPhase → Prop
  | .got sessionId _ late =>
      late = false ∧ (sessionId ∈ w.store.ids ∨ sessionId ∈ w.removed)
  | .returned late _ _ result => late = true → result = none
  | _ => True

structure Inv (w : SessionWorld) : Prop where
  stored : ∀ sessionId ∈ w.removed, sessionId ∉ w.store.ids
  awaited : ∀ call phase, w.calls call = some phase → w.Awaited phase

/-- What was stored or removed is so still. -/
def Keeps (w w' : SessionWorld) : Prop :=
  ∀ sessionId, sessionId ∈ w.store.ids ∨ sessionId ∈ w.removed →
    sessionId ∈ w'.store.ids ∨ sessionId ∈ w'.removed

theorem Inv.moved (h : w.Inv) {call : Nat} {phase : SessionPhase} (hmoves : w.Moves call phase w')
    (hstored : ∀ sessionId ∈ w'.removed, sessionId ∉ w'.store.ids) (hkeeps : w.Keeps w')
    (hawaited : w'.Awaited phase) : w'.Inv := by
  refine ⟨hstored, ?_⟩
  intro other phase' hother
  by_cases hsame : other = call
  · subst hsame
    rw [hmoves.moved] at hother
    cases hother
    exact hawaited
  · have hold := h.awaited other phase' (hmoves.others other hsame ▸ hother)
    cases phase' with
    | got sessionId number late => exact ⟨hold.1, hkeeps sessionId hold.2⟩
    | returned late now read result => exact hold
    | checked | admitted | named | shaken | sweeping | done => trivial

/-- A call moves on and leaves the store as it is. -/
theorem Inv.quiet (h : w.Inv) {w₁ : SessionWorld} (hcalls : w₁.calls = w.calls)
    (hstore : w₁.store = w.store) (hremoved : w₁.removed = w.removed) (call : Nat)
    {phase : SessionPhase} (hawaited : w.Awaited phase) : (w₁.setPhase call phase).Inv := by
  have hkeeps : w.Keeps (w₁.setPhase call phase) := by
    intro sessionId hmem
    rw [show (w₁.setPhase call phase).store = w.store from hstore,
      show (w₁.setPhase call phase).removed = w.removed from hremoved]
    exact hmem
  refine h.moved (moves_setPhase hcalls call phase) ?_ hkeeps ?_
  · intro sessionId hmem
    rw [show (w₁.setPhase call phase).removed = w.removed from hremoved] at hmem
    rw [show (w₁.setPhase call phase).store = w.store from hstore]
    exact h.stored sessionId hmem
  · cases phase with
    | got sessionId number late => exact ⟨hawaited.1, hkeeps sessionId hawaited.2⟩
    | returned late now read result => exact hawaited
    | checked | admitted | named | shaken | sweeping | done => trivial

/-- A change of the store brings nothing back when it adds no removed id. -/
theorem stored_setStore {store : MemorySessionStore} :
    (∀ sessionId ∈ (w.setStore store).removed, sessionId ∉ store.ids) ↔
      ∀ sessionId ∈ w.removed, sessionId ∉ store.ids := by
  constructor
  · intro h sessionId hmem
    exact h sessionId (List.mem_append_left _ hmem)
  · intro h sessionId hmem
    obtain hold | hnew := List.mem_append.mp hmem
    · exact h sessionId hold
    · simpa using (List.mem_filter.mp hnew).2

theorem keeps_setStore {store : MemorySessionStore} : w.Keeps (w.setStore store) := by
  intro sessionId hmem
  obtain hstored | hremoved := hmem
  · by_cases hstill : sessionId ∈ store.ids
    · exact .inl hstill
    · exact .inr (List.mem_append_right _ (List.mem_filter.mpr ⟨hstored, by simpa using hstill⟩))
  · exact .inr (List.mem_append_left _ hremoved)

/-- A call changes the store without bringing anything back. -/
theorem Inv.write (h : w.Inv) {w₁ : SessionWorld} {store : MemorySessionStore} {call : Nat}
    {phase : SessionPhase} (hcalls : w₁.calls = w.calls) (hstore : w₁.store = w.store)
    (hremoved : w₁.removed = w.removed)
    (hadds : ∀ sessionId ∈ w.removed, sessionId ∉ store.ids)
    (hphase : ∀ sessionId number late, phase ≠ .got sessionId number late)
    (hawaited : w.Awaited phase) : ((w₁.setStore store).setPhase call phase).Inv := by
  have hkeeps : w₁.Keeps (w₁.setStore store) := keeps_setStore
  refine h.moved (@moves_setPhase w (w₁.setStore store) hcalls call phase) ?_ ?_ ?_
  · exact stored_setStore.mpr (hremoved ▸ hadds)
  · intro sessionId hmem
    rw [← hstore, ← hremoved] at hmem
    exact hkeeps sessionId hmem
  · cases phase with
    | got sessionId number late => exact absurd rfl (hphase sessionId number late)
    | returned late now read result => exact hawaited
    | checked | admitted | named | shaken | sweeping | done => trivial

theorem Inv.check (h : w.Inv) {call : Nat} {sessionId : JsString} {number : Nat} {late : Bool}
    {session : SessionContext} {now : Int} (hlate : late = false)
    (hwrites : ¬ Exceeded config session now → sessionId ∈ w.store.ids) :
    (w.check config call sessionId number late session now).Inv := by
  unfold SessionWorld.check
  split
  · refine h.write (by rfl) (by rfl) (by rfl) ?_ nofun fun _ => rfl
    intro other hremoved hmem
    exact h.stored other hremoved (MemorySessionStore.mem_ids_delete.mp hmem).1
  · rename_i hlive
    have hpresent := hwrites fun hexceeded => hlive (exceeded_iff.mpr hexceeded)
    refine h.write (by rfl) (by rfl) (by rfl) ?_ nofun fun htrue => ?_
    · intro other hremoved hmem
      obtain hold | rfl := MemorySessionStore.ids_set hmem
      · exact h.stored other hremoved hold
      · exact h.stored other hremoved hpresent
    · rw [hlate] at htrue
      cases htrue

theorem Inv.act (h : w.Inv) (hact : w.act config action = some w')
    (hwrites : w.WritesInTime config action) : w'.Inv := by
  cases action with
  | validateHandshake call request now =>
      simp only [SessionWorld.act] at hact
      split_ifs at hact
      split at hact
      · cases hact
        refine h.quiet (by rfl) (by rfl) (by rfl) call ?_
        cases refuseHandshake config request now <;> trivial
      · cases hact
  | admitNonce call consumed =>
      simp only [SessionWorld.act] at hact
      split at hact
      · cases hact
        refine h.quiet (by rfl) (by rfl) (by rfl) call ?_
        cases consumed with
        | error error => trivial
        | ok consumed => cases consumed <;> trivial
      · cases hact
  | randomBytes call bytes =>
      simp only [SessionWorld.act] at hact
      split at hact
      · cases hact
        refine h.quiet (by rfl) (by rfl) (by rfl) call ?_
        cases bytes <;> trivial
      · cases hact
  | storeSession call =>
      simp only [SessionWorld.act] at hact
      split at hact
      · rename_i request now sessionId hphase
        cases hact
        have hfresh := hwrites request now sessionId hphase
        refine h.write (by rfl) (by rfl) (by rfl) ?_ nofun trivial
        intro other hremoved hmem
        obtain hold | rfl := MemorySessionStore.ids_set hmem
        · exact h.stored other hremoved hold
        · exact hfresh hremoved
      · cases hact
  | getSession call sessionId =>
      simp only [SessionWorld.act] at hact
      split at hact
      · cases hact
        refine h.quiet (by rfl) (by rfl) (by rfl) call ?_
        cases hget : w.store.get sessionId with
        | none => exact fun _ => rfl
        | some number =>
            have hmem := MemorySessionStore.mem_ids_of_get hget
            exact ⟨decide_eq_false fun hremoved => h.stored sessionId hremoved hmem, .inl hmem⟩
      · cases hact
  | checkSession call now =>
      simp only [SessionWorld.act] at hact
      split_ifs at hact
      split at hact
      · rename_i sessionId number late hphase
        obtain ⟨session, hobject, rfl⟩ := Option.map_eq_some_iff.mp hact
        have hawaited := h.awaited call _ hphase
        have hinv : SessionWorld.Inv { w with clock := now } := ⟨h.stored, h.awaited⟩
        exact hinv.check hawaited.1 (hwrites sessionId number late session hphase hobject)
      · cases hact
  | cleanup call now =>
      simp only [SessionWorld.act] at hact
      split_ifs at hact
      split at hact
      · cases hact
        exact h.quiet (by rfl) (by rfl) (by rfl) call trivial
      · cases hact
  | sweep call =>
      simp only [SessionWorld.act] at hact
      split at hact
      · split at hact
        · cases hact
          refine h.write (by rfl) (by rfl) (by rfl) ?_ nofun trivial
          intro other hremoved hmem
          exact h.stored other hremoved (MemorySessionStore.mem_ids_delete.mp hmem).1
        · cases hact
          exact h.write (by rfl) (by rfl) (by rfl) h.stored nofun trivial
      · cases hact
  | clearSessions call =>
      simp only [SessionWorld.act] at hact
      split at hact
      · cases hact
        exact h.write (by rfl) (by rfl) (by rfl) (fun _ _ => List.not_mem_nil) nofun trivial
      · cases hact

theorem inv_of_reachesInTime (h : ReachesInTime config w) : w.Inv := by
  induction h with
  | start => exact ⟨fun _ hmem => absurd hmem List.not_mem_nil, fun _ _ hphase => nomatch hphase⟩
  | act _ hact hwrites ih => exact ih.act hact hwrites

/-- A write that is not in time stores a removed session again. -/
theorem Inv.writesInTime (h : w.Inv) (hact : w.act config action = some w')
    (hstored : ∀ sessionId ∈ w'.removed, sessionId ∉ w'.store.ids) :
    w.WritesInTime config action := by
  cases action with
  | storeSession call =>
      intro request now sessionId hphase hremoved
      simp only [SessionWorld.act, hphase] at hact
      cases hact
      exact hstored sessionId (List.mem_append_left _ hremoved) MemorySessionStore.mem_ids_set
  | checkSession call now =>
      intro sessionId number late session hphase hobject hlive
      obtain hmem | hremoved := (h.awaited call _ hphase).2
      · exact hmem
      · simp only [SessionWorld.act, hphase, hobject, Option.map_some] at hact
        split_ifs at hact
        cases hact
        rw [SessionWorld.check, if_neg (mt exceeded_iff.mp hlive)] at hstored
        exact absurd MemorySessionStore.mem_ids_set
          (hstored sessionId (List.mem_append_left _ hremoved))
  | validateHandshake | admitNonce | randomBytes | getSession | cleanup | sweep
  | clearSessions => trivial

theorem Inv.staysRemoved (h : w.Inv) (hlive : w.ReturnsLive config) : w.StaysRemoved config where
  stored := h.stored
  later call _ _ _ hphase := h.awaited call _ hphase rfl
  live := hlive

/-- No run returns an expired session, and a run of writes in time keeps removed sessions
removed up to its first write that is not. -/
theorem removed_staysRemoved (config : SessionConfig) :
    (∀ w, Reaches config w → w.ReturnsLive config) ∧
      ∀ w, ReachesInTime config w → w.StaysRemoved config ∧
        ∀ action w', w.act config action = some w' →
          (w'.StaysRemoved config ↔ w.WritesInTime config action) := by
  refine ⟨fun w => returnsLive_of_reaches, fun w hreaches => ?_⟩
  have hinv := inv_of_reachesInTime hreaches
  have hlive := returnsLive_of_reaches hreaches.reaches
  refine ⟨hinv.staysRemoved hlive, fun action w' hact => ⟨fun h => ?_, fun hwrites => ?_⟩⟩
  · exact hinv.writesInTime hact h.stored
  · exact (hinv.act hact hwrites).staysRemoved (hlive.act hact)

section Sample

def sampleConfig : SessionConfig where
  runtime := sampleRuntime

def sampleRequest : HandshakeRequest where
  nonce := js "n"
  audience := js "did:web:a"
  timestamp := .ofNat 100
  agentDid := none

def sampleId : JsString := generateSessionId (List.replicate 16 0)

/-- Whether a write is in time, as computed. -/
def writesInTime (config : SessionConfig) (w : SessionWorld) : SessionAction → Bool
  | .checkSession call now =>
      match w.calls call with
      | some (.got sessionId number _) => (w.objects number).all fun session =>
          isIdle session now || isOutlived config session now || decide (sessionId ∈ w.store.ids)
      | _ => true
  | .storeSession call =>
      match w.calls call with
      | some (.named _ _ sessionId) => decide (sessionId ∉ w.removed)
      | _ => true
  | _ => true

theorem writesInTime_iff {action : SessionAction} :
    writesInTime config w action = true ↔ w.WritesInTime config action := by
  cases action with
  | checkSession call now =>
      rw [writesInTime, WritesInTime]
      split
      · rename_i sessionId number late hphase
        rw [Option.all_eq_true]
        constructor
        · intro h _ _ _ session hgot hobject hlive
          cases hphase.symm.trans hgot
          have hwrites := h session hobject
          rw [Bool.or_eq_true, exceeded_iff, decide_eq_true_eq] at hwrites
          exact hwrites.resolve_left hlive
        · intro h session hobject
          rw [Bool.or_eq_true, exceeded_iff, decide_eq_true_eq, or_iff_not_imp_left]
          exact h sessionId number late session hphase hobject
      · rename_i hphase
        exact iff_of_true rfl fun _ _ _ _ hgot => absurd hgot (hphase _ _ _)
  | storeSession call =>
      rw [writesInTime, WritesInTime]
      split
      · rename_i request now sessionId hphase
        rw [decide_eq_true_eq]
        constructor
        · intro h _ _ _ hnamed
          cases hphase.symm.trans hnamed
          exact h
        · exact fun h => h request now sessionId hphase
      · rename_i hphase
        exact iff_of_true rfl fun _ _ _ hnamed => absurd hnamed (hphase _ _ _)
  | _ => exact iff_of_true rfl trivial

instance (config : SessionConfig) (w : SessionWorld) (action : SessionAction) :
    Decidable (w.WritesInTime config action) :=
  decidable_of_iff _ writesInTime_iff

def sampleRun (config : SessionConfig) (actions : List SessionAction) : Option SessionWorld :=
  actions.foldlM (fun w action => w.act config action) .empty

theorem reaches_of_sampleRun {actions : List SessionAction}
    (h : sampleRun config actions = some w) : Reaches config w :=
  kept_of_foldlM (fun _ _ _ hreaches hact => hreaches.act hact) .start h

theorem reachesInTime_of_run {actions : List SessionAction}
    (h : actions.foldlM (allowedAct (act · config) (fun w => w.WritesInTime config)) .empty =
      some w) : ReachesInTime config w := by
  refine kept_of_foldlM (fun _ _ _ hreaches hact => ?_) .start h
  obtain ⟨hwrites, hact⟩ := allowedAct_eq_some hact
  exact hreaches.act hact hwrites

/-- A handshake, and a `getSession` that reads its session. -/
def readActions : List SessionAction :=
  [.validateHandshake 0 sampleRequest 100, .admitNonce 0 (.ok true),
    .randomBytes 0 (.ok (List.replicate 16 0)), .storeSession 0, .getSession 1 sampleId]

/-- The session is read and written back, then cleared; a `getSession` that starts after finds
none. -/
def clearedActions : List SessionAction :=
  readActions ++ [.checkSession 1 101, .clearSessions 2, .getSession 3 sampleId]

def isCleared (w : SessionWorld) : Bool :=
  decide (sampleId ∈ w.removed) && (match w.calls 1 with
    | some (.returned _ _ _ result) => result.isSome
    | _ => false) && match w.calls 3 with
    | some (.returned late _ _ result) => late && result.isNone
    | _ => false

theorem removed_staysRemoved_sample : ∃ w, isCleared w = true ∧ w.StaysRemoved sampleConfig := by
  have hrun : (clearedActions.foldlM (allowedAct (act · sampleConfig)
      (fun w => w.WritesInTime sampleConfig)) .empty).any isCleared = true := by decide +kernel
  obtain ⟨w, hw, hcleared⟩ := (Option.any_eq_true _ _).mp hrun
  exact ⟨w, hcleared,
    ((removed_staysRemoved sampleConfig).2 w (reachesInTime_of_run hw)).1⟩

/-- `call`, which started after the removal, gave the session. -/
def givesRemoved (call : Nat) (w : SessionWorld) : Bool :=
  match w.calls call with
  | some (.returned true _ _ (some _)) => true
  | _ => false

/-- The session is cleared before the `getSession` goes on, which stores it again: a
`getSession` that starts after gives it. -/
theorem removed_storedAgain :
    ∃ w, Reaches sampleConfig w ∧ sampleId ∈ w.removed ∧ sampleId ∈ w.store.ids ∧
      givesRemoved 3 w = true ∧ ¬ w.StaysRemoved sampleConfig := by
  have hrun : (sampleRun sampleConfig (readActions ++ [.clearSessions 2, .checkSession 1 101,
      .getSession 3 sampleId, .checkSession 3 101])).any
        (fun w => decide (sampleId ∈ w.removed ∧ sampleId ∈ w.store.ids) && givesRemoved 3 w) =
          true := by decide +kernel
  obtain ⟨w, hw, hfound⟩ := (Option.any_eq_true _ _).mp hrun
  rw [Bool.and_eq_true, decide_eq_true_eq] at hfound
  obtain ⟨⟨hremoved, hmem⟩, hgives⟩ := hfound
  exact ⟨w, reaches_of_sampleRun hw, hremoved, hmem, hgives, fun h => h.stored _ hremoved hmem⟩

end Sample

end SessionWorld

end KyaOs.Session
