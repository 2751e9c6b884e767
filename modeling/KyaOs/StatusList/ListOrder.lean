import KyaOs.StatusList.Manager

/-!
# The order of the tasks of a status list

What each action of a call does, said once, and that the tasks of each list stand in one chain, in
the order their calls took its lock.
-/

namespace KyaOs

open Js PromiseChain

/-- Bits written one after another. -/
def applyUpdates (updates : List (Nat × Bool)) (bits : List Bool) : List Bool :=
  updates.foldl (fun bits update => bits.set update.1 update.2) bits

/-- The last of the updates of one index. -/
def lastUpdate (updates : List (Nat × Bool)) (index : Nat) : Option Bool :=
  ((updates.filter (·.1 = index)).getLast?).map (·.2)

theorem applyUpdates_concat (updates : List (Nat × Bool)) (update : Nat × Bool)
    (bits : List Bool) :
    applyUpdates (updates ++ [update]) bits =
      (applyUpdates updates bits).set update.1 update.2 := by
  rw [applyUpdates, List.foldl_append]
  rfl

@[simp] theorem length_applyUpdates (updates : List (Nat × Bool)) (bits : List Bool) :
    (applyUpdates updates bits).length = bits.length := by
  induction updates using List.reverseRecOn with
  | nil => rfl
  | append_singleton updates update ih => rw [applyUpdates_concat, List.length_set, ih]

theorem lastUpdate_concat (updates : List (Nat × Bool)) (update : Nat × Bool) (index : Nat) :
    lastUpdate (updates ++ [update]) index =
      if update.1 = index then some update.2 else lastUpdate updates index := by
  by_cases h : update.1 = index
  · simp [lastUpdate, List.filter_append, h]
  · simp [lastUpdate, List.filter_append, h]

/-- Each index holds what was last written to it: no update reaches another index. -/
theorem getElem?_applyUpdates (updates : List (Nat × Bool)) (size : Nat) {index : Nat}
    (hindex : index < size) :
    (applyUpdates updates (List.replicate size false))[index]? =
      some ((lastUpdate updates index).getD false) := by
  induction updates using List.reverseRecOn with
  | nil => simp [applyUpdates, lastUpdate, hindex]
  | append_singleton updates update ih =>
      rw [applyUpdates_concat, lastUpdate_concat]
      by_cases h : update.1 = index
      · subst h
        rw [List.getElem?_set_self (by simpa using hindex), if_pos rfl]
        rfl
      · rw [List.getElem?_set_ne h, if_neg h, ih]

variable {Proof : Type}

/-- The bits a stored credential stands for. -/
def listBits (codec : GzipCodec) (statusList : StatusListCredential Proof) :
    Except Error (List Bool) :=
  (inflatedBits codec statusList.encodedList).map bitsOf

/-- The update a task made to a list, when its call is among those that stored one. -/
def storedUpdate (written : List Nat) (list : JsString) : Nat × StatusTask → Option (Nat × Bool)
  | (call, .update credentialStatus revoked) =>
      if credentialStatus.statusListCredential = list ∧ call ∈ written then
        some (decimalValue credentialStatus.statusListIndex, revoked)
      else none
  | (_, .ensure _ _) => none

/-- The updates on one list that were stored, in the order their calls were made. -/
def StatusWorld.applied (w : StatusWorld Proof) (list : JsString) : List (Nat × Bool) :=
  w.locked.filterMap (storedUpdate w.written list)

section Credentials

variable {manager : StatusListManager Proof}

theorem parseStatusListIndex_ok {raw : JsString} {index : Nat}
    (h : parseStatusListIndex raw = .ok index) : index = decimalValue raw := by
  rw [parseStatusListIndex] at h
  split at h
  · cases h
  · split at h
    · cases h
    · exact (Except.ok.inj h).symm

theorem decode_ok {codec : GzipCodec} {encodedList : JsString} {bitstring : BitstringManager}
    (h : BitstringManager.decode codec encodedList = .ok bitstring) :
    inflatedBits codec encodedList = .ok bitstring.bits ∧
      bitstring.size = (bitsOf bitstring.bits).length := by
  obtain ⟨bytes, hbytes, h⟩ := bind_eq_ok.mp h
  cases h
  exact ⟨(decodeStatusListPayload_ok hbytes).1, by simp⟩

/-- An update writes one bit of the list it was prepared from. -/
theorem updatedCredential_ok (hcodec : manager.codec.RoundTrips) {sign : SigningFunction Proof}
    {statusList updated : StatusListCredential Proof} {credentialStatus : CredentialStatus}
    {revoked : Bool} {bits : List Bool} (hbits : listBits manager.codec statusList = .ok bits)
    (h : manager.updatedCredential sign statusList credentialStatus revoked = .ok updated) :
    listBits manager.codec updated =
      .ok (bits.set (decimalValue credentialStatus.statusListIndex) revoked) := by
  obtain ⟨bitstring, hdecode, h⟩ := bind_eq_ok.mp h
  obtain ⟨index, hindex, h⟩ := bind_eq_ok.mp h
  obtain ⟨bitstring', hset, h⟩ := bind_eq_ok.mp h
  obtain ⟨encodedList, hencode, h⟩ := bind_eq_ok.mp h
  obtain ⟨canonicalVC, -, h⟩ := bind_eq_ok.mp h
  obtain ⟨proof, -, h⟩ := bind_eq_ok.mp h
  cases h
  have hinflated := (decode_ok hdecode).1
  rw [listBits, hinflated] at hbits
  cases hbits
  rw [listBits, inflatedBits_encode hcodec hencode, ← parseStatusListIndex_ok hindex]
  exact congrArg Except.ok (setBit_ok hset).2.1

theorem newBits_ok {arrayLimit : Nat} {size : JsNumber} {bytes : List UInt8}
    (h : newBits arrayLimit size = .ok bytes) : ∃ count, bytes = List.replicate count 0 := by
  cases size with
  | finite q =>
      rw [newBits] at h
      split at h
      · exact ⟨_, (Except.ok.inj h).symm⟩
      · cases h
  | infinity _ => cases h
  | nan => exact ⟨0, (Except.ok.inj h).symm⟩

/-- A created list is all zero. -/
theorem createdCredential_ok (hcodec : manager.codec.RoundTrips) {sign : SigningFunction Proof}
    {purpose : StatusPurpose} {now : JsString} {created : StatusListCredential Proof}
    {capacity : Nat} (h : manager.createdCredential sign purpose now = .ok (created, capacity)) :
    listBits manager.codec created = .ok (List.replicate capacity false) := by
  obtain ⟨bytes, hbytes, h⟩ := bind_eq_ok.mp h
  obtain ⟨encodedList, hencode, h⟩ := bind_eq_ok.mp h
  obtain ⟨canonicalVC, -, h⟩ := bind_eq_ok.mp h
  obtain ⟨proof, -, h⟩ := bind_eq_ok.mp h
  cases h
  obtain ⟨count, rfl⟩ := newBits_ok hbytes
  rw [listBits, inflatedBits_encode hcodec hencode, List.length_replicate, ← bitsOf_zeros]
  rfl

theorem allocatedEntry_ok {purpose : StatusPurpose} {index capacity : Nat}
    {outcome : StatusOutcome} (h : manager.allocatedEntry purpose index capacity = .ok outcome) :
    index < capacity ∧ ∃ entry, outcome = .allocated purpose index entry ∧
      entry.statusListIndex = decimalText index := by
  rw [StatusListManager.allocatedEntry] at h
  split at h
  · cases h
  · rename_i hindex
    cases h
    exact ⟨by omega, _, rfl, rfl⟩

end Credentials

/-- Everything one step of a call can do. -/
inductive StatusStep (manager : StatusListManager Proof) (w : StatusWorld Proof) :
    StatusWorld Proof → Prop
  | enter {call : Nat} {task : StatusTask} :
      ((∃ credentialStatus revoked, w.calls call = none ∧
          task = .update credentialStatus revoked) ∨
        ∃ purpose index, w.calls call = some (.allocated purpose index) ∧
          task = .ensure purpose index) →
      StatusStep manager w (w.enterLock manager call task)
  | refused {call : Nat} (error : Error) :
      w.calls call = none → StatusStep manager w (w.setPhase call (.ended none (.error error)))
  | allocate {call : Nat} (purpose : StatusPurpose) :
      w.calls call = none →
      StatusStep manager w
        { w.setPhase call (.allocated purpose (w.indexCounters (manager.statusListId purpose))) with
          indexCounters := Function.update w.indexCounters (manager.statusListId purpose)
            (w.indexCounters (manager.statusListId purpose) + 1) }
  | unread {call : Nat} {task : StatusTask} {previous : Option Nat} (error : Error) :
      w.calls call = some (.queued task previous) → w.hasSettled previous = true →
      StatusStep manager w (w.setPhase call (.ended (some task) (.error error)))
  | load {call : Nat} {task : StatusTask} {previous : Option Nat} :
      w.calls call = some (.queued task previous) → w.hasSettled previous = true →
      StatusStep manager w
        (w.setPhase call (.loaded task (w.statusLists (task.list manager))))
  | proceed {call : Nat} {task : StatusTask} {statusList : Option (StatusListCredential Proof)}
      (sign : SigningFunction Proof) (now : JsString) :
      w.calls call = some (.loaded task statusList) →
      StatusStep manager w
        (w.setPhase call (StatusWorld.proceed manager task statusList sign now))
  | unstored {call : Nat} {task : StatusTask} {credential : StatusListCredential Proof}
      {outcome : Except Error StatusOutcome} (error : Error) :
      w.calls call = some (.signed task credential outcome) →
      StatusStep manager w (w.setPhase call (.ended (some task) (.error error)))
  | store {call : Nat} {task : StatusTask} {credential : StatusListCredential Proof}
      {outcome : Except Error StatusOutcome} :
      w.calls call = some (.signed task credential outcome) →
      StatusStep manager w (w.store manager call task credential outcome)

theorem statusStep_of_act {manager : StatusListManager Proof} {w w' : StatusWorld Proof}
    {action : StatusAction Proof} (h : w.act manager action = some w') :
    StatusStep manager w w' := by
  cases action with
  | updateStatus call credentialStatus revoked =>
      simp only [StatusWorld.act] at h
      split at h
      · rename_i hnew
        cases h
        exact .enter (.inl ⟨_, _, hnew, rfl⟩)
      · cases h
  | allocateStatusEntry call purpose storage =>
      simp only [StatusWorld.act] at h
      split at h
      · cases h
      · rename_i error hnew
        cases h
        exact .refused error hnew
      · rename_i hnew
        cases h
        exact .allocate purpose hnew
  | withListLock call =>
      simp only [StatusWorld.act] at h
      split at h
      · rename_i hallocated
        cases h
        exact .enter (.inr ⟨_, _, hallocated, rfl⟩)
      · cases h
  | getStatusList call storage =>
      simp only [StatusWorld.act] at h
      split at h
      · rename_i error hqueued
        split at h
        · rename_i hsettled
          cases h
          exact .unread error hqueued hsettled
        · cases h
      · rename_i hqueued
        split at h
        · rename_i hsettled
          cases h
          exact .load hqueued hsettled
        · cases h
      · cases h
  | signCredential call sign now =>
      simp only [StatusWorld.act] at h
      split at h
      · rename_i hloaded
        cases h
        exact .proceed sign now hloaded
      · cases h
  | setStatusList call storage =>
      simp only [StatusWorld.act] at h
      split at h
      · rename_i error hsigned
        cases h
        exact .unstored error hsigned
      · rename_i hsigned
        cases h
        exact .store hsigned
      · cases h

/-- What a task has ready to store, by the list it was given. -/
inductive Prepared (manager : StatusListManager Proof) :
    Option (StatusListCredential Proof) → StatusTask → StatusListCredential Proof →
      Except Error StatusOutcome → Prop
  | update {statusList updated : StatusListCredential Proof} {credentialStatus : CredentialStatus}
      {revoked : Bool} (sign : SigningFunction Proof) :
      manager.updatedCredential sign statusList credentialStatus revoked = .ok updated →
      Prepared manager (some statusList) (.update credentialStatus revoked) updated (.ok .updated)
  | ensure {created : StatusListCredential Proof} {purpose : StatusPurpose} {index capacity : Nat}
      (sign : SigningFunction Proof) (now : JsString) :
      manager.createdCredential sign purpose now = .ok (created, capacity) →
      Prepared manager none (.ensure purpose index) created
        (manager.allocatedEntry purpose index capacity)

theorem proceed_cases (manager : StatusListManager Proof) (task : StatusTask)
    (statusList : Option (StatusListCredential Proof)) (sign : SigningFunction Proof)
    (now : JsString) :
    (∃ credential outcome,
      StatusWorld.proceed manager task statusList sign now = .signed task credential outcome ∧
        Prepared manager statusList task credential outcome) ∨
    ∃ outcome, StatusWorld.proceed manager task statusList sign now =
        .ended (some task) outcome ∧
      ∀ answer, outcome = .ok answer → ∃ purpose index existing decoded,
        task = .ensure purpose index ∧ statusList = some existing ∧
          BitstringManager.decode manager.codec existing.encodedList = .ok decoded ∧
          manager.allocatedEntry purpose index decoded.size = .ok answer := by
  cases task with
  | update credentialStatus revoked =>
      cases statusList with
      | none => exact .inr ⟨_, rfl, nofun⟩
      | some statusList =>
          simp only [StatusWorld.proceed]
          split
          · rename_i credential hupdated
            exact .inl ⟨_, _, rfl, .update sign hupdated⟩
          · exact .inr ⟨_, rfl, nofun⟩
  | ensure purpose index =>
      cases statusList with
      | none =>
          simp only [StatusWorld.proceed]
          split
          · rename_i credential capacity hcreated
            exact .inl ⟨_, _, rfl, .ensure sign now hcreated⟩
          · exact .inr ⟨_, rfl, nofun⟩
      | some existing =>
          simp only [StatusWorld.proceed]
          split
          · rename_i decoded hdecoded
            exact .inr ⟨_, rfl, fun answer hanswer =>
              ⟨purpose, index, existing, decoded, rfl, rfl, hdecoded, hanswer⟩⟩
          · exact .inr ⟨_, rfl, nofun⟩

section Order

variable {manager : StatusListManager Proof} {w w' : StatusWorld Proof}

/-- How far a call's task has come in its list's chain. -/
def StatusPhase.stage : StatusPhase Proof → Option Stage
  | .allocated _ _ => none
  | .queued _ previous => some (.waiting previous)
  | .loaded _ _ => some .running
  | .signed _ _ _ => some .running
  | .ended (some _) _ => some .settled
  | .ended none _ => none

/-- The chains of tasks behind the locks of a world. -/
def StatusWorld.chain (manager : StatusListManager Proof) (w : StatusWorld Proof) :
    Chain JsString where
  entered := w.locked.map fun entry => (entry.1, entry.2.list manager)
  last := w.updateLocks
  stage call := (w.calls call).bind StatusPhase.stage

theorem chain_stage {call : Nat} {phase : StatusPhase Proof} (h : w.calls call = some phase) :
    (w.chain manager).stage call = phase.stage := by
  simp [StatusWorld.chain, h]

theorem chain_setPhase (call : Nat) (phase : StatusPhase Proof) :
    ((w.setPhase call phase).chain manager).stage =
      Function.update ((w.chain manager).stage) call phase.stage := by
  funext other
  by_cases h : other = call
  · subst h
    simp [StatusWorld.chain, StatusWorld.setPhase]
  · simp [StatusWorld.chain, StatusWorld.setPhase, h]

/-- A phase at another stage moves the call's task there. -/
theorem chain_moved {call : Nat} {phase : StatusPhase Proof} (stage : Stage)
    (hstage : phase.stage = some stage) :
    (w.setPhase call phase).chain manager = (w.chain manager).setStage call stage := by
  rw [Chain.setStage, ← hstage, ← chain_setPhase]
  rfl

/-- A phase at the same stage moves nothing. -/
theorem chain_still {call : Nat} {phase : StatusPhase Proof}
    (hstage : phase.stage = (w.chain manager).stage call) :
    (w.setPhase call phase).chain manager = w.chain manager := by
  have hsame : ((w.setPhase call phase).chain manager).stage = (w.chain manager).stage := by
    rw [chain_setPhase, hstage, Function.update_eq_self]
  rw [StatusWorld.chain, StatusWorld.chain, Chain.mk.injEq]
  exact ⟨rfl, rfl, hsame⟩

theorem chain_enterLock (call : Nat) (task : StatusTask) :
    (w.enterLock manager call task).chain manager =
      (w.chain manager).enter call (task.list manager) := by
  rw [StatusWorld.chain, Chain.enter, Chain.mk.injEq]
  refine ⟨by simp [StatusWorld.enterLock, StatusWorld.chain], rfl, funext fun other => ?_⟩
  by_cases h : other = call
  · subst h
    simp [StatusWorld.enterLock, StatusWorld.chain, StatusPhase.stage]
  · simp [StatusWorld.enterLock, StatusWorld.chain, h]

theorem mayStart_of_hasSettled {call : Nat} {task : StatusTask} {previous : Option Nat}
    (hqueued : w.calls call = some (.queued task previous)) (h : w.hasSettled previous = true) :
    (w.chain manager).MayStart call := by
  refine ⟨previous, chain_stage hqueued, fun earlier hearlier => ?_⟩
  subst hearlier
  simp only [StatusWorld.hasSettled] at h
  split at h
  · rename_i hended
    exact chain_stage hended
  · cases h

theorem StatusStep.ordered (h : StatusStep manager w w') (hw : (w.chain manager).Ordered) :
    (w'.chain manager).Ordered := by
  cases h with
  | @enter call task hfresh =>
      rw [chain_enterLock]
      refine hw.step (.enter _ ?_)
      rcases hfresh with ⟨_, _, hnew, -⟩ | ⟨_, _, hallocated, -⟩
      · simp [StatusWorld.chain, hnew]
      · exact chain_stage hallocated
  | refused error hnew =>
      rw [chain_still]
      · exact hw
      · simp [StatusWorld.chain, hnew, StatusPhase.stage]
  | allocate purpose hnew =>
      change ((w.setPhase _ (.allocated purpose _)).chain manager).Ordered
      rw [chain_still]
      · exact hw
      · simp [StatusWorld.chain, hnew, StatusPhase.stage]
  | @unread call task previous error hqueued hsettled =>
      have hstart := hw.step (.start (mayStart_of_hasSettled hqueued hsettled))
      have hrunning : ((w.chain manager).setStage call .running).stage call = some .running :=
        Function.update_self _ _ _
      have hsettle := hstart.step (.settle hrunning)
      rw [chain_moved .settled rfl]
      simpa [Chain.setStage] using hsettle
  | load hqueued hsettled =>
      rw [chain_moved .running rfl]
      exact hw.step (.start (mayStart_of_hasSettled hqueued hsettled))
  | @proceed call task statusList sign now hloaded =>
      have hrunning : (w.chain manager).stage call = some .running := chain_stage hloaded
      rcases proceed_cases manager task statusList sign now with
        ⟨credential, outcome, hphase, -⟩ | ⟨outcome, hphase, -⟩
      · rw [hphase, chain_still (by rw [hrunning]; rfl)]
        exact hw
      · rw [hphase, chain_moved .settled rfl]
        exact hw.step (.settle hrunning)
  | unstored error hsigned =>
      rw [chain_moved .settled rfl]
      exact hw.step (.settle (chain_stage hsigned))
  | @store call task credential outcome hsigned =>
      change ((w.setPhase call (.ended (some task) outcome)).chain manager).Ordered
      rw [chain_moved .settled rfl]
      exact hw.step (.settle (chain_stage hsigned))

end Order

end KyaOs
