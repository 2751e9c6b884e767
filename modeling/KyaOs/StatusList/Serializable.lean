import KyaOs.StatusList.ListContent

/-!
# Status-list writes are serializable

The calls of any interleaving keep `StatusInv`: the tasks of each list run one at
a time, in the order their calls took its lock, so each stored list is the
all-zero list with the successful updates applied in that order.
-/

namespace KyaOs

open Js PromiseChain

variable {Proof : Type}

section Runs

variable (manager : StatusListManager Proof) (w : StatusWorld Proof)

def StatusWorld.Ended (call : Nat) : Prop :=
  ∃ task outcome, w.calls call = some (.ended task outcome)

/-- A call can take its next step, whatever it is answered there. -/
def StatusWorld.CanProceed (call : Nat) : Prop :=
  (∀ storage, (w.act manager (.getStatusList call storage)).isSome) ∨
    (∀ sign now, (w.act manager (.signCredential call sign now)).isSome) ∨
    ∀ storage, (w.act manager (.setStatusList call storage)).isSome

/-- What holds of a world every interleaving can reach. -/
structure StatusWorld.Serializable : Prop where
  /-- A stored list is the all-zero list with the stored updates applied, in the order of their
  calls. -/
  bits : ∀ list statusList, w.statusLists list = some statusList →
    ∃ size, listBits manager.codec statusList =
      .ok (applyUpdates (w.applied list) (List.replicate size false))
  written : ∀ call, call ∈ w.written ↔ w.Updated call
  /-- A bit is what the last update of its own index made it. -/
  bit : ∀ list statusList bits index, w.statusLists list = some statusList →
    listBits manager.codec statusList = .ok bits → index < bits.length →
      bits[index]? = some ((lastUpdate (w.applied list) index).getD false)
  /-- Only an update that succeeds changes a stored list: no creation does, and no failed call. -/
  kept : ∀ action w', w.act manager action = some w' →
    ∀ list statusList, w.statusLists list = some statusList →
      w'.statusLists list = some statusList ∨
        ∃ call credentialStatus revoked credential, action = .setStatusList call (.ok ()) ∧
          credentialStatus.statusListCredential = list ∧
          w' = w.store manager call (.update credentialStatus revoked) credential (.ok .updated)
  ended : ∀ action w', w.act manager action = some w' → ∀ call task outcome,
    w.calls call = some (.ended task outcome) → w'.calls call = some (.ended task outcome)
  /-- A call whose elders on its list have all ended, however they ended, can go on. -/
  unblocked : ∀ before call task after, w.locked = before ++ (call, task) :: after →
    (∀ earlier ∈ before, earlier.2.list manager = task.list manager → w.Ended earlier.1) →
      w.Ended call ∨ w.CanProceed manager call
  enters : ∀ call purpose index, w.calls call = some (.allocated purpose index) →
    (w.act manager (.withListLock call)).isSome
  distinct : ∀ a b taskA taskB purpose indexA indexB entryA entryB, a ≠ b →
    w.calls a = some (.ended taskA (.ok (.allocated purpose indexA entryA))) →
    w.calls b = some (.ended taskB (.ok (.allocated purpose indexB entryB))) →
      indexA ≠ indexB
  within : ∀ call task purpose index entry,
    w.calls call = some (.ended task (.ok (.allocated purpose index entry))) →
      entry.statusListIndex = decimalText index ∧ w.Holds manager purpose index

variable {manager w}

theorem StatusInv.unblocked (h : StatusInv manager w) {before after : List (Nat × StatusTask)}
    {call : Nat} {task : StatusTask} (hlocked : w.locked = before ++ (call, task) :: after)
    (hbefore : ∀ earlier ∈ before, earlier.2.list manager = task.list manager →
      w.Ended earlier.1) :
    w.Ended call ∨ w.CanProceed manager call := by
  have hentered : (w.chain manager).entered =
      before.map (fun entry => (entry.1, entry.2.list manager)) ++ (call, task.list manager) ::
        after.map fun entry => (entry.1, entry.2.list manager) := by
    simp [StatusWorld.chain, hlocked]
  have hsettled : ∀ earlier,
      (earlier, task.list manager) ∈ before.map (fun entry => (entry.1, entry.2.list manager)) →
        (w.chain manager).stage earlier = some .settled := by
    intro earlier hmem
    obtain ⟨⟨earlier, task'⟩, hmem', hpair⟩ := List.mem_map.mp hmem
    obtain ⟨rfl, hlist⟩ := Prod.mk.inj hpair
    obtain ⟨ended, outcome, hended⟩ := hbefore _ hmem' hlist
    have hknown := (h.ordered.known earlier).mp
      ⟨task.list manager, hentered ▸ List.mem_append_left _ hmem⟩
    rw [chain_stage hended] at hknown ⊢
    cases ended with
    | some ended => rfl
    | none => exact (hknown rfl).elim
  have hstage : ∀ stage, (w.chain manager).stage call = some stage →
      ∃ phase, w.calls call = some phase ∧ phase.stage = some stage :=
    fun stage hstage => Option.bind_eq_some_iff.mp hstage
  rcases h.ordered.not_blocked hentered hsettled with hended | hrunning | hstart
  · obtain ⟨phase, hphase, hstage⟩ := hstage _ hended
    cases phase with
    | ended task outcome => exact .inl ⟨task, outcome, hphase⟩
    | _ => cases hstage
  · obtain ⟨phase, hphase, hstage⟩ := hstage _ hrunning
    cases phase with
    | loaded task statusList =>
        exact .inr (.inr (.inl fun sign now => by simp [StatusWorld.act, hphase]))
    | signed task credential outcome =>
        exact .inr (.inr (.inr fun storage => by cases storage <;> simp [StatusWorld.act, hphase]))
    | ended task outcome => cases task <;> cases hstage
    | _ => cases hstage
  · obtain ⟨predecessor, hwaiting, hfree⟩ := hstart
    obtain ⟨phase, hphase, hstage'⟩ := hstage _ hwaiting
    cases phase with
    | queued task previous =>
        cases hstage'
        have hsettled : w.hasSettled predecessor = true := by
          cases predecessor with
          | none => rfl
          | some earlier =>
              obtain ⟨phase, hphase', hstage'⟩ := Option.bind_eq_some_iff.mp (hfree earlier rfl)
              cases phase with
              | ended task outcome =>
                  cases task with
                  | some task => simp [StatusWorld.hasSettled, hphase']
                  | none => cases hstage'
              | _ => cases hstage'
        exact .inr (.inl fun storage => by
          cases storage <;> simp [StatusWorld.act, hphase, hsettled])
    | ended task outcome => cases task <;> cases hstage'
    | _ => cases hstage'

/-- Status-list writes are serializable. -/
theorem statusLists_serializable (hcodec : manager.codec.RoundTrips)
    (h : StatusReachable manager w) : w.Serializable manager where
  bits := (h.inv hcodec).content.listed
  written := (h.inv hcodec).content.written
  bit := by
    intro list statusList bits index hlist hbits hindex
    obtain ⟨size, hsize⟩ := (h.inv hcodec).content.listed list statusList hlist
    rw [hsize] at hbits
    cases hbits
    exact getElem?_applyUpdates _ _ (by simpa using hindex)
  kept := fun action w' hact list statusList hlist =>
    kept_or_updated hact (h.inv hcodec).content hlist
  ended := fun action w' hact call task outcome hended =>
    (statusStep_of_act hact).ended hended
  unblocked := fun before call task after => (h.inv hcodec).unblocked
  enters := fun call purpose index hallocated => by simp [StatusWorld.act, hallocated]
  distinct := by
    intro a b taskA taskB purpose indexA indexB entryA entryB hne ha hb hindex
    have hcontent := (h.inv hcodec).content
    exact hne ((h.inv hcodec).tickets.distinct a b (purpose, indexA) (hcontent.ticket ha)
      (hindex ▸ hcontent.ticket hb))
  within := by
    intro call task purpose index entry hended
    have hphase := (h.inv hcodec).content.phase call _ hended
    cases task with
    | some task => exact (hphase.2 purpose index entry rfl).2
    | none =>
        obtain ⟨error, herror⟩ := hphase
        cases herror

/-- The world a list of actions leads to. -/
def afterStatusActions (manager : StatusListManager Proof) :
    List (StatusAction Proof) → StatusWorld Proof → Option (StatusWorld Proof)
  | [], w => some w
  | action :: rest, w => (w.act manager action).bind (afterStatusActions manager rest)

theorem reachable_of_actions {actions : List (StatusAction Proof)} {w' : StatusWorld Proof}
    (hw : StatusReachable manager w) (h : afterStatusActions manager actions w = some w') :
    StatusReachable manager w' := by
  induction actions generalizing w with
  | nil =>
      cases h
      exact hw
  | cons action rest ih =>
      obtain ⟨next, hnext, hrest⟩ := Option.bind_eq_some_iff.mp h
      exact ih (hw.act hnext) hrest

/-- GZIP of the two bitstrings the run below writes; any other byte string is told
apart by a header of its own. -/
def oneByteGzip : GzipCodec where
  compress bytes :=
    if bytes = [0x00] then
      [0x1f, 0x8b, 0x08, 0, 0, 0, 0, 0, 0, 0x03, 0x63, 0, 0, 0x8d, 0xef, 0x02, 0xd2, 1, 0, 0, 0]
    else if bytes = [0x80] then
      [0x1f, 0x8b, 0x08, 0, 0, 0, 0, 0, 0, 0x03, 0x6b, 0, 0, 0xad, 0x6c, 0xba, 0x3f, 1, 0, 0, 0]
    else 0x1f :: 0x8b :: 0x08 :: 0x01 :: bytes
  decompress compressed :=
    if compressed =
      [0x1f, 0x8b, 0x08, 0, 0, 0, 0, 0, 0, 0x03, 0x63, 0, 0, 0x8d, 0xef, 0x02, 0xd2, 1, 0, 0, 0]
    then .ok [0x00]
    else if compressed =
      [0x1f, 0x8b, 0x08, 0, 0, 0, 0, 0, 0, 0x03, 0x6b, 0, 0, 0xad, 0x6c, 0xba, 0x3f, 1, 0, 0, 0]
    then .ok [0x80]
    else .ok (compressed.drop 4)

theorem oneByteGzip_roundTrips : oneByteGzip.RoundTrips := by
  intro bytes
  by_cases hzero : bytes = [0x00]
  · subst hzero
    decide +kernel
  · by_cases hset : bytes = [0x80]
    · subst hset
      decide +kernel
    · simp [oneByteGzip, hzero, hset]

/-- A manager of one-byte lists. -/
def oneByteManager : StatusListManager Unit where
  codec := oneByteGzip
  did := js "did:web:issuer"
  keyId := js "did:web:issuer#key"
  canonicalizeJSON credential := .ok credential.encodedList
  defaultListSize := some (.ofNat 8)
  arrayLimit := 2 ^ 32

/-- An entry is allocated, then revoked. -/
def allocateThenRevoke : List (StatusAction Unit) :=
  let entry : CredentialStatus :=
    { id := none
      type := js "StatusList2021Entry"
      statusPurpose := js "revocation"
      statusListIndex := js "0"
      statusListCredential := oneByteManager.statusListId .revocation }
  [.allocateStatusEntry 0 .revocation (.ok ()), .withListLock 0, .getStatusList 0 (.ok ()),
    .signCredential 0 (fun _ _ _ => .ok ()) (js "2026-01-01T00:00:00.000Z"),
    .setStatusList 0 (.ok ()), .updateStatus 1 entry true, .getStatusList 1 (.ok ()),
    .signCredential 1 (fun _ _ _ => .ok ()) (js "2026-01-01T00:00:00.000Z"),
    .setStatusList 1 (.ok ())]

theorem statusLists_serializable_allocateThenRevoke :
    ∃ w, afterStatusActions oneByteManager allocateThenRevoke .empty = some w ∧
      w.applied (oneByteManager.statusListId .revocation) = [(0, true)] ∧
      w.Serializable oneByteManager := by
  have hrun : ((afterStatusActions oneByteManager allocateThenRevoke .empty).map fun w =>
      w.applied (oneByteManager.statusListId .revocation)) = some [(0, true)] := by
    decide +kernel
  obtain ⟨w, hw, happlied⟩ := Option.map_eq_some_iff.mp hrun
  exact ⟨w, hw, happlied,
    statusLists_serializable oneByteGzip_roundTrips (reachable_of_actions .start hw)⟩

end Runs

end KyaOs
