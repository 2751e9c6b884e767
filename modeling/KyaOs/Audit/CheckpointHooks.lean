import KyaOs.Audit.CheckpointRuns

/-!
# The lifecycle hooks of checkpoints

No hook is lost: an inserted checkpoint's hook has completed, is in the hands of a call, or
is pending. The pending list is oldest first as long as a call whose hook fails finds only
newer checkpoints pending; which hook fails first decides whether it does.
-/

namespace KyaOs.Audit

open Js PromiseChain

variable {D : Type} {options : AuditCheckpointBuilderOptions D}

namespace CheckpointWorld

variable {w w' : CheckpointWorld D} {action : CheckpointAction D}

/-- What the hooks of a builder keep: none is lost, and the pending ones as well as those a
call runs one after the other are in ascending tree size. -/
structure Lifecycle (w : CheckpointWorld D) : Prop where
  covered : w.Covered
  pending : ∀ key, Ascending (w.pending key)
  due : ∀ call ledger returned due, w.calls call = some (.hooking ledger returned due) →
    Ascending due

/-- The worlds every interleaving of calls can reach. -/
inductive Reaches (options : AuditCheckpointBuilderOptions D) : CheckpointWorld D → Prop
  | start : Reaches options .empty
  | act {w w' : CheckpointWorld D} {action : CheckpointAction D} :
      Reaches options w → w.act options action = some w' → Reaches options w'

/-- The worlds of the runs that put every failed hook back in order. -/
inductive ReachesInOrder (options : AuditCheckpointBuilderOptions D) : CheckpointWorld D → Prop
  | start : ReachesInOrder options .empty
  | act {w w' : CheckpointWorld D} {action : CheckpointAction D} :
      ReachesInOrder options w → w.act options action = some w' → w.PutsBackInOrder action →
      ReachesInOrder options w'

theorem ReachesInOrder.reaches (h : ReachesInOrder options w) : Reaches options w := by
  induction h with
  | start => exact .start
  | act _ hact _ ih => exact ih.act hact

theorem inv_empty : (empty : CheckpointWorld D).Inv where
  locked := ⟨_, locked_empty⟩
  latest checkpoint hmem := by cases hmem
  knows call phase hphase := by cases hphase
  pending key checkpoint hmem := by cases hmem
  covered checkpoint hmem := by cases hmem

theorem inv_of_reaches (h : Reaches options w) : w.Inv := by
  induction h with
  | start => exact inv_empty
  | act _ hact ih =>
      obtain ⟨ordered, hstep, -⟩ := transition_of_act hact
      exact ih.transition hstep

theorem lifecycle_empty : (empty : CheckpointWorld D).Lifecycle where
  covered checkpoint hmem := by cases hmem
  pending key := List.Pairwise.nil
  due call ledger returned due hphase := by cases hphase

/-- One call has moved on, with its hooks in order. -/
theorem Lifecycle.moved (h : w.Lifecycle) (hinv : w'.Inv) {call : Nat}
    {phase' : CheckpointPhase D} (hmoves : w.Moves call phase' w')
    (hpending : ∀ key, Ascending (w'.pending key))
    (hdue : ∀ ledger returned due, phase' = .hooking ledger returned due → Ascending due) :
    w'.Lifecycle := by
  refine ⟨hinv.covered, hpending, ?_⟩
  intro other ledger returned due hother
  by_cases hsame : other = call
  · subst hsame
    rw [hmoves.moved] at hother
    exact hdue ledger returned due (Option.some.inj hother)
  · rw [hmoves.others other hsame] at hother
    exact h.due other ledger returned due hother

theorem ascending_of_runHooks {ledger ledger' : AuditLedgerRef}
    {returned returned' : SignedAuditCheckpoint D} {due due' : List (SignedAuditCheckpoint D)}
    (h : Ascending due) (hphase : runHooks ledger returned due = .hooking ledger' returned' due') :
    Ascending due' := by
  cases due with
  | nil => cases hphase
  | cons first rest =>
      cases hphase
      exact h

theorem Lifecycle.takeOver (h : w.Lifecycle) {call : Nat} {ledger : AuditLedgerRef}
    {returned : SignedAuditCheckpoint D} {w₁ : CheckpointWorld D}
    {fresh : List (SignedAuditCheckpoint D)} (hcalls : w₁.calls = w.calls)
    (hfailed : w₁.failedHooks = w.failedHooks)
    (hinv : (w₁.takeOver call ledger returned fresh).Inv)
    (hfresh : Ascending (w.pending (ledgerKey ledger) ++ fresh)) :
    (w₁.takeOver call ledger returned fresh).Lifecycle := by
  have hpendings : w₁.pending = w.pending := by
    funext key
    rw [CheckpointWorld.pending, hfailed]
    rfl
  have hmoves := moves_takeOver w₁ call ledger returned fresh
  rw [hpendings] at hmoves
  refine h.moved hinv ⟨hmoves.moved, fun other hother =>
    (hmoves.others other hother).trans (congrFun hcalls other)⟩ ?_ ?_
  · intro key
    have hpending : (w₁.takeOver call ledger returned fresh).pending key =
        if key = ledgerKey ledger then [] else w.pending key := by
      rw [← hpendings]
      exact pending_update
    rw [hpending]
    split
    · exact List.Pairwise.nil
    · exact h.pending key
  · exact fun ledger' returned' due => ascending_of_runHooks hfresh

/-- Exactly the failed hooks that are put back out of order break the order. -/
theorem Lifecycle.transition_iff (h : w.Lifecycle) (hinv : w.Inv) {ordered : Prop}
    (hstep : w.Transition w' ordered) : w'.Lifecycle ↔ ordered := by
  have hinv' := hinv.transition hstep
  cases hstep with
  | @enter call ledger hnone =>
      refine iff_true_intro (@Lifecycle.moved _ _ _ h hinv' call _
        ⟨Function.update_self call _ _, fun other hother => Function.update_of_ne hother _ _⟩
        h.pending ?_)
      intro _ _ _ hphase
      cases hphase
  | @start call ledger previous entries hphase hsettled =>
      refine iff_true_intro (h.moved hinv' (moves_setPhase w call _) h.pending ?_)
      intro _ _ _ hphase
      cases hphase
  | @refuse call ledger previous error hphase hsettled =>
      refine iff_true_intro (h.moved hinv' (moves_fail w call ledger error) ?_ ?_)
      · intro key
        rw [CheckpointWorld.pending, CheckpointWorld.fail, setPhase, release_failedHooks]
        exact h.pending key
      · intro _ _ _ hphase
        cases hphase
  | @fail call phase error hphase hholding =>
      refine iff_true_intro (h.moved hinv' (moves_fail w call phase.ledger error) ?_ ?_)
      · intro key
        rw [CheckpointWorld.pending, CheckpointWorld.fail, setPhase, release_failedHooks]
        exact h.pending key
      · intro _ _ _ hphase
        cases hphase
  | @read call ledger entries hphase =>
      refine iff_true_intro (h.moved hinv' (moves_setPhase w call _) h.pending ?_)
      intro _ _ _ hphase
      cases hphase
  | @sign call ledger entries previous checkpoint hphase hkey hnewer =>
      refine iff_true_intro (h.moved hinv' (moves_setPhase w call _) h.pending ?_)
      intro _ _ _ hphase
      cases hphase
  | @keep call phase checkpoint hphase hholding =>
      refine iff_true_intro (h.takeOver rfl rfl hinv' ?_)
      rw [List.append_nil]
      exact h.pending _
  | @insert call ledger checkpoint hphase =>
      refine iff_true_intro (h.takeOver rfl rfl hinv' ?_)
      obtain ⟨-, hnewest⟩ := hinv.knows call _ hphase
      refine List.pairwise_append.mpr ⟨h.pending _, List.pairwise_singleton _ _, ?_⟩
      intro older holder newer hnewer
      cases List.mem_singleton.mp hnewer
      obtain ⟨hinserted, hkey⟩ := hinv.pending _ older holder
      exact hnewest older hinserted hkey
  | @complete call ledger checkpoint done rest hphase =>
      have hmoved := moves_setPhase w call (runHooks ledger checkpoint rest)
      refine iff_true_intro (h.moved hinv' ⟨hmoved.moved, hmoved.others⟩ h.pending ?_)
      have hrest := (h.due call _ _ _ hphase).of_cons
      exact fun ledger' returned' due => ascending_of_runHooks hrest
  | @putBack call ledger checkpoint due error hphase =>
      have hpending : ∀ key, (w.putBack call ledger due error).pending key =
          if key = ledgerKey ledger then due ++ w.pending (ledgerKey ledger)
          else w.pending key := fun key => pending_update
      constructor
      · intro hkept
        have hback := hkept.pending (ledgerKey ledger)
        rw [hpending, if_pos rfl] at hback
        exact (List.pairwise_append.mp hback).2.2
      · intro hordered
        have hmoved := moves_setPhase w call (.ended ledger (.error error))
        refine h.moved hinv' ⟨hmoved.moved, hmoved.others⟩ ?_ ?_
        · intro key
          rw [hpending]
          split
          · exact List.pairwise_append.mpr ⟨h.due call _ _ _ hphase, h.pending _, hordered⟩
          · exact h.pending key
        · intro _ _ _ hended
          cases hended
  | other => exact iff_true_intro ⟨hinv'.covered, h.pending, h.due⟩

theorem lifecycle_of_reachesInOrder (h : ReachesInOrder options w) : w.Lifecycle := by
  induction h with
  | start => exact lifecycle_empty
  | act hbefore hact hordered ih =>
      obtain ⟨ordered, hstep, hiff⟩ := transition_of_act hact
      exact (ih.transition_iff (inv_of_reaches hbefore.reaches) hstep).mpr (hiff.mpr hordered)

/-- No hook is ever lost; the hooks stay in order in every run whose failed hooks are put
back in order, and the first that is not breaks it. -/
theorem lifecycleHooks_inOrder (options : AuditCheckpointBuilderOptions D) :
    (∀ w : CheckpointWorld D, Reaches options w → w.Covered) ∧
      ∀ w : CheckpointWorld D, ReachesInOrder options w → w.Lifecycle ∧
        ∀ action w', w.act options action = some w' →
          (w'.Lifecycle ↔ w.PutsBackInOrder action) := by
  refine ⟨fun w h => (inv_of_reaches h).covered, ?_⟩
  intro w h
  have hkept := lifecycle_of_reachesInOrder h
  refine ⟨hkept, ?_⟩
  intro action w' hact
  obtain ⟨ordered, hstep, hiff⟩ := transition_of_act hact
  exact (hkept.transition_iff (inv_of_reaches h.reaches) hstep).trans hiff

section Sample

def hookDigest : Digest := js "sha256:" ++ List.replicate 64 0x30

def hookOptions : AuditCheckpointBuilderOptions SampleDouble where
  numbers := sampleDoubles
  sha256 _ := .ok hookDigest
  signer := { did := js "did:web:recorder.example", kid := js "#key", alg := .EdDSA }
  auditCheckpointCoreSchema _ := true
  schemaError := .nonError

def hookLedger : AuditLedgerRef := { ledgerId := js "ledger", ledgerEpochId := js "epoch" }

def hookEntry (sequence : Nat) : SignedAuditEntry SampleDouble where
  core := { hookLedger with
    schema := js "entry", sequence, previousEntryDigest := none, recordedAt := .zero
    recorder := hookOptions.signer, eventDigest := hookDigest, event := .null
    evidenceManifestDigest := hookDigest, integritySuite := js "suite" }
  eventDigest := hookDigest
  entryDigest := hookDigest
  receiptCore := { hookLedger with
    schema := js "receipt", sequence, eventId := js "event", entryDigest := hookDigest
    previousEntryDigest := none, recordedAt := .zero, recorder := hookOptions.signer
    integritySuite := js "suite" }
  jws := js "jws"

def hookJournal (size : Nat) : List (SignedAuditEntry SampleDouble) :=
  (List.range size).map hookEntry

/-- The checkpoint of a journal of `size` entries. -/
def hookCheckpoint (size : Nat) (previous : Option (SignedAuditCheckpoint SampleDouble)) :
    SignedAuditCheckpoint SampleDouble where
  core := checkpointCore hookOptions hookLedger (hookEntry 0) (hookEntry (size - 1)) size hookDigest
    previous .zero
  checkpointDigest := hookDigest
  jws := js "jws"

theorem signCheckpoint_hook {size : Nat} {previous : Option (SignedAuditCheckpoint SampleDouble)}
    (hsize : 0 < size)
    (hroot : root hookOptions.sha256 ((hookJournal size).map (·.entryDigest)) = .ok hookDigest)
    (hcanonical : isCanonical sampleDoubles (hookCheckpoint size previous).core.toJson = true) :
    signCheckpoint hookOptions hookLedger (hookJournal size) previous (fun _ => .ok (js "jws"))
      .zero = .ok (hookCheckpoint size previous) := by
  obtain ⟨size, rfl⟩ := Nat.exists_eq_succ_of_ne_zero hsize.ne'
  obtain ⟨hwellFormed, hsupported⟩ := canonical_of_isCanonical _ hcanonical
  obtain ⟨text, htext⟩ := (canonicalizeJson_eq_ok sampleDoubles_prints hwellFormed).mpr hsupported
  have hhash : hashAuditValue hookOptions.numbers hookOptions.sha256 .checkpoint
      (hookCheckpoint (size + 1) previous).core.toJson = .ok hookDigest :=
    hashAuditValue_eq_ok.mpr ⟨text, htext, rfl⟩
  have hfirst : (hookJournal (size + 1)).head? = some (hookEntry 0) := by
    simp [hookJournal, List.range_succ_eq_map]
  have hlast : (hookJournal (size + 1)).getLast? = some (hookEntry size) := by
    simp [hookJournal, List.range_succ]
  have hlength : (hookJournal (size + 1)).length = size + 1 := by simp [hookJournal]
  simp only [signCheckpoint, hfirst, hlast, hlength, hroot]
  exact bind_eq_ok.mpr ⟨_, rfl, bind_eq_ok.mpr ⟨hookDigest, congrArg thrown hhash,
    bind_eq_ok.mpr ⟨text, congrArg thrown htext, rfl⟩⟩⟩

variable {w : CheckpointWorld SampleDouble}

/-- A call stores the checkpoint of a journal and runs the pending hooks and its own. -/
def stored (w : CheckpointWorld SampleDouble) (call size : Nat)
    (checkpoint : SignedAuditCheckpoint SampleDouble) : CheckpointWorld SampleDouble :=
  let started := (w.enter call hookLedger).setPhase call (.snapshot hookLedger (hookJournal size))
  let latest := w.store.getLatest hookLedger
  ((started.setPhase call (.read hookLedger (hookJournal size) latest)).setPhase call
    (.signed hookLedger checkpoint)).put call hookLedger checkpoint

theorem reaches_stored {call size : Nat} {checkpoint : SignedAuditCheckpoint SampleDouble}
    (h : ReachesInOrder hookOptions w) (hnone : w.calls call = none)
    (hsettled : (w.enter call hookLedger).hasSettled (w.ledgerTails (ledgerKey hookLedger)) = true)
    (hsize : 0 < size)
    (hplan : planCheckpoint hookOptions hookLedger (hookJournal size)
      (w.store.getLatest hookLedger) (fun _ => .ok (js "jws")) .zero = .ok (.put checkpoint)) :
    ReachesInOrder hookOptions (stored w call size checkpoint) := by
  obtain ⟨size, rfl⟩ := Nat.exists_eq_succ_of_ne_zero hsize.ne'
  have hqueued : (w.enter call hookLedger).calls call =
      some (.queued hookLedger (w.ledgerTails (ledgerKey hookLedger))) :=
    Function.update_self call _ _
  have henter : ReachesInOrder hookOptions (w.enter call hookLedger) := by
    refine @ReachesInOrder.act _ _ _ _ (.createCheckpoint call hookLedger) h ?_ trivial
    simp only [CheckpointWorld.act, hnone]
  have hstart : ReachesInOrder hookOptions ((w.enter call hookLedger).setPhase call
      (.snapshot hookLedger (hookJournal (size + 1)))) := by
    refine @ReachesInOrder.act _ _ _ _ (.snapshotAtHead call (.ok (hookJournal (size + 1)))) henter
      ?_ trivial
    obtain ⟨first, rest, hjournal⟩ : ∃ first rest, hookJournal (size + 1) = first :: rest :=
      ⟨_, _, by rw [hookJournal, List.range_succ_eq_map, List.map_cons]⟩
    simp only [CheckpointWorld.act, hqueued, hsettled, if_true, hjournal]
  have hread : ReachesInOrder hookOptions (((w.enter call hookLedger).setPhase call
      (.snapshot hookLedger (hookJournal (size + 1)))).setPhase call
        (.read hookLedger (hookJournal (size + 1)) (w.store.getLatest hookLedger))) := by
    refine @ReachesInOrder.act _ _ _ _ (.getLatest call (.ok ())) hstart ?_ trivial
    simp only [CheckpointWorld.act, setPhase, Function.update_self]
    rfl
  have hsigned := @ReachesInOrder.act _ _ _ _
    (.signCheckpoint call (fun _ => .ok (js "jws")) .zero) hread
    (by simp only [CheckpointWorld.act, setPhase, Function.update_self, hplan]; rfl) trivial
  exact @ReachesInOrder.act _ _ _ _ (.putIfAbsent call (.ok ())) hsigned
    (by simp only [CheckpointWorld.act, Function.update_self]; rfl) trivial

def olderCheckpoint : SignedAuditCheckpoint SampleDouble := hookCheckpoint 1 none

def newerCheckpoint : SignedAuditCheckpoint SampleDouble := hookCheckpoint 2 (some olderCheckpoint)

/-- Two calls run their hooks at the same time. -/
def bothHooking : CheckpointWorld SampleDouble :=
  stored (stored empty 1 1 olderCheckpoint) 2 2 newerCheckpoint

theorem reaches_bothHooking : ReachesInOrder hookOptions bothHooking := by
  have hfirst : ReachesInOrder hookOptions (stored empty 1 1 olderCheckpoint) := by
    refine reaches_stored .start rfl rfl (by decide) ?_
    exact bind_eq_ok.mpr ⟨_, signCheckpoint_hook (by decide) (by decide +kernel)
      (by decide +kernel), rfl⟩
  refine reaches_stored hfirst rfl rfl (by decide) ?_
  have hextends : assertExtends hookOptions olderCheckpoint (hookJournal 2) = .ok () := by
    have hroot : root hookOptions.sha256
        (((hookJournal 2).take 1).map (·.entryDigest)) = .ok hookDigest := by decide +kernel
    have hsize : ¬ (hookJournal 2).length < olderCheckpoint.core.treeSize := by decide
    rw [assertExtends, if_neg hsize]
    exact bind_eq_ok.mpr ⟨hookDigest, congrArg thrown hroot, if_neg (by decide +kernel)⟩
  refine bind_eq_ok.mpr ⟨(), hextends, ?_⟩
  rw [if_neg (by decide)]
  exact bind_eq_ok.mpr ⟨_, signCheckpoint_hook (by decide) (by decide +kernel)
    (by decide +kernel), rfl⟩

/-- The older hook has failed. -/
def olderFailed : CheckpointWorld SampleDouble :=
  bothHooking.putBack 1 hookLedger [olderCheckpoint] (.other .nonError)

/-- Then the newer one has. -/
def bothFailed : CheckpointWorld SampleDouble :=
  olderFailed.putBack 2 hookLedger [newerCheckpoint] (.other .nonError)

theorem reaches_olderFailed : ReachesInOrder hookOptions olderFailed := by
  refine @ReachesInOrder.act _ _ _ _ (.hook 1 (.error (.other .nonError))) reaches_bothHooking
    rfl ?_
  intro ledger checkpoint due hphase a _ b hb
  have hhooking : bothHooking.calls 1 = some (.hooking hookLedger olderCheckpoint
    [olderCheckpoint]) := rfl
  rw [hhooking] at hphase
  cases hphase
  have hnone : bothHooking.pending (ledgerKey hookLedger) = [] := rfl
  rw [hnone] at hb
  cases hb

theorem act_bothFailed :
    olderFailed.act hookOptions (.hook 2 (.error (.other .nonError))) = some bothFailed := rfl

theorem lifecycleHooks_inOrder_sample :
    olderFailed.Covered ∧ olderFailed.Lifecycle ∧
      (bothFailed.Lifecycle ↔ olderFailed.PutsBackInOrder (.hook 2 (.error (.other .nonError)))) :=
  ⟨(lifecycleHooks_inOrder hookOptions).1 _ reaches_olderFailed.reaches,
    ((lifecycleHooks_inOrder hookOptions).2 _ reaches_olderFailed).1,
    ((lifecycleHooks_inOrder hookOptions).2 _ reaches_olderFailed).2 _ _ act_bothFailed⟩

/-- Where the older hook fails first, the newer checkpoint is put back before it. -/
theorem lifecycleHooks_outOfOrder : ∃ w, Reaches hookOptions w ∧ ¬ w.Lifecycle := by
  refine ⟨bothFailed, reaches_olderFailed.reaches.act act_bothFailed, ?_⟩
  intro hkept
  have hpending : bothFailed.pending (ledgerKey hookLedger) =
    [newerCheckpoint, olderCheckpoint] := rfl
  have hascending := hkept.pending (ledgerKey hookLedger)
  rw [hpending] at hascending
  have hlt : newerCheckpoint.OlderThan olderCheckpoint :=
    (List.pairwise_cons.mp hascending).1 _ List.mem_cons_self
  have hsizes : (2 : Nat) < 1 := hlt
  exact absurd hsizes (by decide)

end Sample

end CheckpointWorld

end KyaOs.Audit
