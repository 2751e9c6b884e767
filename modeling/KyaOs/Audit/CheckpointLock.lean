import KyaOs.Audit.CheckpointBuilder

/-!
# The lock of a checkpoint builder

What each action does to the world, said once, and that the calls of one ledger stand in one chain
of promises: one of them holds the ledger's lock.
-/

namespace KyaOs.Audit

open Js PromiseChain

variable {D : Type} {options : AuditCheckpointBuilderOptions D}

def SignedAuditCheckpoint.OlderThan (left right : SignedAuditCheckpoint D) : Prop :=
  left.core.treeSize < right.core.treeSize

/-- In ascending tree size. -/
def Ascending (checkpoints : List (SignedAuditCheckpoint D)) : Prop :=
  checkpoints.Pairwise SignedAuditCheckpoint.OlderThan

theorem signCheckpoint_ok {ledger : AuditLedgerRef} {entries : List (SignedAuditEntry D)}
    {previous : Option (SignedAuditCheckpoint D)} {sign : JsString → Except AuditError JsString}
    {now : D} {checkpoint : SignedAuditCheckpoint D}
    (h : signCheckpoint options ledger entries previous sign now = .ok checkpoint) :
    checkpoint.key = ledgerKey ledger ∧ checkpoint.core.treeSize = entries.length := by
  unfold signCheckpoint at h
  split at h
  · obtain ⟨rootDigest, -, h⟩ := bind_eq_ok.mp h
    dsimp only at h
    split at h
    · cases h
    · obtain ⟨digest, -, h⟩ := bind_eq_ok.mp h
      obtain ⟨text, -, h⟩ := bind_eq_ok.mp h
      obtain ⟨jws, -, h⟩ := bind_eq_ok.mp h
      cases h
      exact ⟨rfl, rfl⟩
  · cases h

theorem assertExtends_ok {previous : SignedAuditCheckpoint D}
    {entries : List (SignedAuditEntry D)} (h : assertExtends options previous entries = .ok ()) :
    previous.core.treeSize ≤ entries.length := by
  unfold assertExtends at h
  split at h
  · cases h
  · rename_i hsize
    exact Nat.le_of_not_lt hsize

/-- A checkpoint to store is newer than the latest one. -/
theorem planCheckpoint_put {ledger : AuditLedgerRef} {entries : List (SignedAuditEntry D)}
    {previous : Option (SignedAuditCheckpoint D)} {sign : JsString → Except AuditError JsString}
    {now : D} {checkpoint : SignedAuditCheckpoint D}
    (h : planCheckpoint options ledger entries previous sign now = .ok (.put checkpoint)) :
    checkpoint.key = ledgerKey ledger ∧
      ∀ latest, previous = some latest → latest.OlderThan checkpoint := by
  cases previous with
  | none =>
      obtain ⟨signed, hsigned, h⟩ := bind_eq_ok.mp h
      cases h
      exact ⟨(signCheckpoint_ok hsigned).1, fun latest hlatest => by cases hlatest⟩
  | some latest =>
      obtain ⟨⟨⟩, hextends, h⟩ := bind_eq_ok.mp h
      split at h
      · cases h
      · rename_i hsize
        obtain ⟨signed, hsigned, h⟩ := bind_eq_ok.mp h
        cases h
        obtain ⟨hkey, hlength⟩ := signCheckpoint_ok hsigned
        refine ⟨hkey, ?_⟩
        rintro _ ⟨⟩
        have hle := assertExtends_ok hextends
        rw [SignedAuditCheckpoint.OlderThan, hlength]
        omega

namespace CheckpointWorld

/-- What an action does to the world; `ordered` is what it takes for the pending lists to
stay in order. -/
inductive Transition (w : CheckpointWorld D) : CheckpointWorld D → Prop → Prop
  | enter {call : Nat} {ledger : AuditLedgerRef} : w.calls call = none →
      Transition w (w.enter call ledger) True
  | start {call : Nat} {ledger : AuditLedgerRef} {previous : Option Nat}
      {entries : List (SignedAuditEntry D)} :
      w.calls call = some (.queued ledger previous) → w.hasSettled previous = true →
      Transition w (w.setPhase call (.snapshot ledger entries)) True
  | refuse {call : Nat} {ledger : AuditLedgerRef} {previous : Option Nat} {error : AuditError} :
      w.calls call = some (.queued ledger previous) → w.hasSettled previous = true →
      Transition w (w.fail call ledger error) True
  | fail {call : Nat} {phase : CheckpointPhase D} {error : AuditError} :
      w.calls call = some phase → phase.isHolding = true →
      Transition w (w.fail call phase.ledger error) True
  | read {call : Nat} {ledger : AuditLedgerRef} {entries : List (SignedAuditEntry D)} :
      w.calls call = some (.snapshot ledger entries) →
      Transition w (w.setPhase call (.read ledger entries (w.store.getLatest ledger))) True
  | sign {call : Nat} {ledger : AuditLedgerRef} {entries : List (SignedAuditEntry D)}
      {previous : Option (SignedAuditCheckpoint D)} {checkpoint : SignedAuditCheckpoint D} :
      w.calls call = some (.read ledger entries previous) →
      checkpoint.key = ledgerKey ledger →
      (∀ latest, previous = some latest → latest.OlderThan checkpoint) →
      Transition w (w.setPhase call (.signed ledger checkpoint)) True
  | keep {call : Nat} {phase : CheckpointPhase D} {checkpoint : SignedAuditCheckpoint D} :
      w.calls call = some phase → phase.isHolding = true →
      Transition w (w.takeOver call phase.ledger checkpoint []) True
  | insert {call : Nat} {ledger : AuditLedgerRef} {checkpoint : SignedAuditCheckpoint D} :
      w.calls call = some (.signed ledger checkpoint) →
      Transition w ({ w with
        store := w.store.insert checkpoint
        inserted := w.inserted ++ [checkpoint] }.takeOver call ledger checkpoint
          [checkpoint]) True
  | complete {call : Nat} {ledger : AuditLedgerRef} {checkpoint done : SignedAuditCheckpoint D}
      {rest : List (SignedAuditCheckpoint D)} :
      w.calls call = some (.hooking ledger checkpoint (done :: rest)) →
      Transition w { w.setPhase call (runHooks ledger checkpoint rest) with
        completed := w.completed ++ [done] } True
  | putBack {call : Nat} {ledger : AuditLedgerRef} {checkpoint : SignedAuditCheckpoint D}
      {due : List (SignedAuditCheckpoint D)} {error : AuditError} :
      w.calls call = some (.hooking ledger checkpoint due) →
      Transition w (w.putBack call ledger due error)
        (∀ a ∈ due, ∀ b ∈ w.pending (ledgerKey ledger), a.OlderThan b)
  | other {checkpoint : SignedAuditCheckpoint D} :
      Transition w { w with store := (w.store.putIfAbsent checkpoint).2 } True

/-- Where a hook fails, everything the call had still to run is older than what is pending
on its ledger by now. -/
def PutsBackInOrder (w : CheckpointWorld D) : CheckpointAction D → Prop
  | .hook call (.error _) =>
    ∀ ledger checkpoint due, w.calls call = some (.hooking ledger checkpoint due) →
      ∀ a ∈ due, ∀ b ∈ w.pending (ledgerKey ledger), a.OlderThan b
  | _ => True

variable {w w' : CheckpointWorld D} {action : CheckpointAction D}

theorem transition_of_put {call : Nat} {ledger : AuditLedgerRef}
    {checkpoint : SignedAuditCheckpoint D}
    (hphase : w.calls call = some (.signed ledger checkpoint)) :
    w.Transition (w.put call ledger checkpoint) True := by
  unfold put MemoryAuditCheckpointStore.putIfAbsent
  cases w.store.checkpoints
      (checkpointKey checkpoint.core.toAuditLedgerRef checkpoint.core.treeSize) with
  | none => exact .insert hphase
  | some existing =>
      by_cases hsame : existing.checkpointDigest = checkpoint.checkpointDigest
      · simp only [if_pos hsame]
        exact .keep hphase rfl
      · simp only [if_neg hsame]
        exact .fail hphase rfl

theorem transition_of_act (h : w.act options action = some w') :
    ∃ ordered, w.Transition w' ordered ∧ (ordered ↔ w.PutsBackInOrder action) := by
  cases action with
  | createCheckpoint call ledger =>
      simp only [act] at h
      split at h
      · rename_i hnone
        cases h
        exact ⟨True, .enter hnone, Iff.rfl⟩
      · cases h
  | snapshotAtHead call journal =>
      simp only [act] at h
      split at h
      · rename_i ledger previous hphase
        split at h
        · rename_i hsettled
          split at h
          all_goals cases h
          · exact ⟨True, .refuse hphase hsettled, Iff.rfl⟩
          · exact ⟨True, .refuse hphase hsettled, Iff.rfl⟩
          · exact ⟨True, .start hphase hsettled, Iff.rfl⟩
        · cases h
      · cases h
  | getLatest call storage =>
      simp only [act] at h
      split at h
      · rename_i ledger entries error hphase
        cases h
        exact ⟨True, .fail hphase rfl, Iff.rfl⟩
      · rename_i ledger entries _ hphase
        cases h
        exact ⟨True, .read hphase, Iff.rfl⟩
      · cases h
  | signCheckpoint call sign now =>
      simp only [act] at h
      split at h
      · rename_i ledger entries previous hphase
        split at h
        · cases h
          exact ⟨True, .fail hphase rfl, Iff.rfl⟩
        · cases h
          exact ⟨True, .keep hphase rfl, Iff.rfl⟩
        · rename_i checkpoint hplan
          cases h
          obtain ⟨hkey, hnewer⟩ := planCheckpoint_put hplan
          exact ⟨True, .sign hphase hkey hnewer, Iff.rfl⟩
      · cases h
  | putIfAbsent call storage =>
      simp only [act] at h
      split at h
      · rename_i ledger checkpoint error hphase
        cases h
        exact ⟨True, .fail hphase rfl, Iff.rfl⟩
      · rename_i ledger checkpoint _ hphase
        cases h
        exact ⟨True, transition_of_put hphase, Iff.rfl⟩
      · cases h
  | hook call result =>
      simp only [act] at h
      split at h
      · rename_i ledger checkpoint due error hphase
        cases h
        refine ⟨_, .putBack hphase, ?_⟩
        constructor
        · intro hordered ledger' checkpoint' due' hphase'
          rw [hphase] at hphase'
          cases hphase'
          exact hordered
        · intro hordered
          exact hordered ledger checkpoint due hphase
      · rename_i ledger checkpoint done rest _ hphase
        cases h
        exact ⟨True, .complete hphase, Iff.rfl⟩
      · cases h
  | other checkpoint =>
      cases h
      exact ⟨True, .other, Iff.rfl⟩

/-- The promise, if any, has settled. -/
def Settled (chain : Chain JsString) (promise : Option Nat) : Prop :=
  ∀ call, promise = some call → chain.stage call = some .settled

/-- Where a call stands in its ledger's chain of promises. -/
def Stands (chain : Chain JsString) (call : Nat) : CheckpointPhase D → Prop
  | .queued _ previous => ∃ predecessor, chain.stage call = some (.waiting predecessor) ∧
      (previous = predecessor ∨ previous = none ∧ Settled chain predecessor)
  | .snapshot .. | .read .. | .signed .. => chain.stage call = some .running
  | .hooking .. | .ended .. => chain.stage call = some .settled

theorem Stands.running {chain : Chain JsString} {call : Nat} {phase : CheckpointPhase D}
    (h : Stands chain call phase) (hholding : phase.isHolding = true) :
    chain.stage call = some .running := by
  cases phase with
  | snapshot | read | signed => exact h
  | queued | hooking | ended => cases hholding

theorem Stands.settled {chain : Chain JsString} {call : Nat} {phase : CheckpointPhase D}
    (h : Stands chain call phase) (hleft : phase.hasLeft = true) :
    chain.stage call = some .settled := by
  cases phase with
  | hooking | ended => exact h
  | queued | snapshot | read | signed => cases hleft

/-- Only call `call` has changed, to `phase`. -/
structure Moves (w : CheckpointWorld D) (call : Nat) (phase : CheckpointPhase D)
    (w' : CheckpointWorld D) : Prop where
  moved : w'.calls call = some phase
  others : ∀ other, other ≠ call → w'.calls other = w.calls other

theorem moves_setPhase (w : CheckpointWorld D) (call : Nat) (phase : CheckpointPhase D) :
    w.Moves call phase (w.setPhase call phase) where
  moved := Function.update_self call _ _
  others _ hother := Function.update_of_ne hother _ _

@[simp] theorem release_calls (w : CheckpointWorld D) (call : Nat) (key : JsString) :
    (w.release call key).calls = w.calls := by
  unfold release
  split <;> rfl

@[simp] theorem release_store (w : CheckpointWorld D) (call : Nat) (key : JsString) :
    (w.release call key).store = w.store := by
  unfold release
  split <;> rfl

@[simp] theorem release_failedHooks (w : CheckpointWorld D) (call : Nat) (key : JsString) :
    (w.release call key).failedHooks = w.failedHooks := by
  unfold release
  split <;> rfl

@[simp] theorem release_inserted (w : CheckpointWorld D) (call : Nat) (key : JsString) :
    (w.release call key).inserted = w.inserted := by
  unfold release
  split <;> rfl

@[simp] theorem release_completed (w : CheckpointWorld D) (call : Nat) (key : JsString) :
    (w.release call key).completed = w.completed := by
  unfold release
  split <;> rfl

/-- A released promise is no longer last on its ledger. -/
theorem release_tails (w : CheckpointWorld D) (call : Nat) (key other : JsString) :
    (w.release call key).ledgerTails other = w.ledgerTails other ∨
      (w.release call key).ledgerTails other = none ∧ w.ledgerTails other = some call := by
  unfold release
  split
  · rename_i htail
    by_cases hkey : other = key
    · subst hkey
      exact .inr ⟨Function.update_self other _ _, htail⟩
    · exact .inl (Function.update_of_ne hkey _ _)
  · exact .inl rfl

theorem moves_fail (w : CheckpointWorld D) (call : Nat) (ledger : AuditLedgerRef)
    (error : AuditError) :
    w.Moves call (.ended ledger (.error error)) (w.fail call ledger error) := by
  have hmoves := moves_setPhase (w.release call (ledgerKey ledger)) call
    (.ended ledger (.error error))
  exact ⟨hmoves.moved, fun other hother => by rw [fail, hmoves.others other hother, release_calls]⟩

theorem moves_takeOver (w : CheckpointWorld D) (call : Nat) (ledger : AuditLedgerRef)
    (checkpoint : SignedAuditCheckpoint D) (fresh : List (SignedAuditCheckpoint D)) :
    w.Moves call (runHooks ledger checkpoint (w.pending (ledgerKey ledger) ++ fresh))
      (w.takeOver call ledger checkpoint fresh) := by
  have hmoves := moves_setPhase (w.release call (ledgerKey ledger)) call
    (runHooks ledger checkpoint (w.pending (ledgerKey ledger) ++ fresh))
  refine ⟨hmoves.moved, fun other hother => ?_⟩
  have hothers := hmoves.others other hother
  rw [release_calls] at hothers
  exact hothers

/-- The calls take their locks as the tasks of a chain of promises. -/
structure Locked (w : CheckpointWorld D) (chain : Chain JsString) : Prop where
  ordered : chain.Ordered
  fresh : ∀ call, w.calls call = none → chain.stage call = none
  entered : ∀ call phase, w.calls call = some phase → (call, phase.key) ∈ chain.entered
  stands : ∀ call phase, w.calls call = some phase → Stands chain call phase
  tails : ∀ key, w.ledgerTails key = chain.last key ∨
    w.ledgerTails key = none ∧ Settled chain (chain.last key)

namespace Locked

variable {chain chain' : Chain JsString} {call : Nat} {phase phase' : CheckpointPhase D}

/-- One call holds the lock of a ledger. -/
theorem unique (h : w.Locked chain) {other : Nat} (hphase : w.calls call = some phase)
    (hother : w.calls other = some phase') (hholding : phase.isHolding = true)
    (hholding' : phase'.isHolding = true) (hkey : phase'.key = phase.key) : other = call :=
  h.ordered.running_unique (hkey ▸ h.entered other phase' hother) (h.entered call phase hphase)
    ((h.stands other phase' hother).running hholding')
    ((h.stands call phase hphase).running hholding)

/-- One call has moved on, and so has its task. -/
theorem moved (h : w.Locked chain) (hphase : w.calls call = some phase)
    (hmoves : w.Moves call phase' w') (hkey : phase'.key = phase.key) (hordered : chain'.Ordered)
    (hentered : chain'.entered = chain.entered) (hlast : chain'.last = chain.last)
    (hothers : ∀ other, other ≠ call → chain'.stage other = chain.stage other)
    (hsettled : chain.stage call = some .settled → chain'.stage call = some .settled)
    (hstands : Stands chain' call phase')
    (htails : ∀ key, w'.ledgerTails key = w.ledgerTails key ∨
      w'.ledgerTails key = none ∧ w.ledgerTails key = some call ∧
        chain'.stage call = some .settled) : w'.Locked chain' := by
  have hkept : ∀ promise, Settled chain promise → Settled chain' promise := by
    intro promise hpromise other hother
    by_cases hsame : other = call
    · subst hsame
      exact hsettled (hpromise other hother)
    · rw [hothers other hsame]
      exact hpromise other hother
  refine ⟨hordered, ?_, ?_, ?_, ?_⟩
  · intro other hnone
    have hne : other ≠ call := by
      rintro rfl
      rw [hmoves.moved] at hnone
      cases hnone
    rw [hothers other hne]
    exact h.fresh other (hmoves.others other hne ▸ hnone)
  · intro other phase'' hother
    rw [hentered]
    by_cases hsame : other = call
    · subst hsame
      rw [hmoves.moved] at hother
      cases hother
      exact hkey ▸ h.entered other phase hphase
    · exact h.entered other phase'' (hmoves.others other hsame ▸ hother)
  · intro other phase'' hother
    by_cases hsame : other = call
    · subst hsame
      rw [hmoves.moved] at hother
      cases hother
      exact hstands
    · have hold := h.stands other phase'' (hmoves.others other hsame ▸ hother)
      cases phase'' with
      | queued ledger previous =>
          obtain ⟨predecessor, hwaiting, hprevious⟩ := hold
          refine ⟨predecessor, by rw [hothers other hsame, hwaiting], ?_⟩
          exact hprevious.imp_right fun hnone => ⟨hnone.1, hkept _ hnone.2⟩
      | snapshot | read | signed | hooking | ended => exact (hothers other hsame).trans hold
  · intro key
    rw [hlast]
    obtain hsame | ⟨hnone, hcall, hleft⟩ := htails key
    · rw [hsame]
      exact (h.tails key).imp_right fun hnone => ⟨hnone.1, hkept _ hnone.2⟩
    · refine .inr ⟨hnone, ?_⟩
      obtain hchain | ⟨hdropped, -⟩ := h.tails key
      · intro other hother
        rw [← hchain, hcall] at hother
        cases hother
        exact hleft
      · rw [hcall] at hdropped
        cases hdropped

/-- A call goes on inside the locked section, or outside it. -/
theorem keep (h : w.Locked chain) (hphase : w.calls call = some phase)
    (hmoves : w.Moves call phase' w') (hkey : phase'.key = phase.key)
    (hstands : Stands chain call phase') (htails : w'.ledgerTails = w.ledgerTails) :
    w'.Locked chain :=
  h.moved hphase hmoves hkey h.ordered rfl rfl (fun _ _ => rfl) (fun hsettled => hsettled) hstands
    fun key => .inl (congrFun htails key)

/-- A call leaves the locked section. -/
theorem leave (h : w.Locked chain) (hphase : w.calls call = some phase)
    (hholding : phase.isHolding = true) (hmoves : w.Moves call phase' w')
    (hkey : phase'.key = phase.key) (hleft : phase'.hasLeft = true)
    (htails : ∀ key, w'.ledgerTails key = w.ledgerTails key ∨
      w'.ledgerTails key = none ∧ w.ledgerTails key = some call) :
    w'.Locked (chain.setStage call .settled) := by
  have hrunning := (h.stands call phase hphase).running hholding
  have hsettled : (chain.setStage call .settled).stage call = some .settled :=
    Function.update_self call _ _
  refine h.moved hphase hmoves hkey (h.ordered.step (.settle hrunning)) rfl rfl ?_
    (fun _ => hsettled) ?_ ?_
  · exact fun other hother => Function.update_of_ne hother _ _
  · cases phase' with
    | hooking | ended => exact hsettled
    | queued | snapshot | read | signed => cases hleft
  · exact fun key => (htails key).imp_right fun hnone => ⟨hnone.1, hnone.2, hsettled⟩

/-- A call whose predecessor has settled gets the lock. -/
theorem start (h : w.Locked chain) {ledger : AuditLedgerRef} {previous : Option Nat}
    (hphase : w.calls call = some (.queued ledger previous))
    (hsettled : w.hasSettled previous = true) (entries : List (SignedAuditEntry D)) :
    (w.setPhase call (.snapshot ledger entries)).Locked (chain.setStage call .running) := by
  obtain ⟨predecessor, hwaiting, hprevious⟩ := h.stands call _ hphase
  have hmay : chain.MayStart call := by
    refine ⟨predecessor, hwaiting, ?_⟩
    intro earlier hearlier
    obtain rfl | ⟨-, hdone⟩ := hprevious
    · subst hearlier
      simp only [hasSettled, Option.any_eq_true] at hsettled
      obtain ⟨phase, hearlier, hleft⟩ := hsettled
      exact (h.stands earlier phase hearlier).settled hleft
    · exact hdone earlier hearlier
  have hrunning : (chain.setStage call .running).stage call = some .running :=
    Function.update_self call _ _
  refine h.moved hphase (moves_setPhase w call _) rfl (h.ordered.step (.start hmay)) rfl rfl ?_ ?_
    hrunning (fun key => .inl rfl)
  · exact fun other hother => Function.update_of_ne hother _ _
  · intro hdone
    rw [hwaiting] at hdone
    cases hdone

theorem enter (h : w.Locked chain) {ledger : AuditLedgerRef} (hnone : w.calls call = none) :
    (w.enter call ledger).Locked (chain.enter call (ledgerKey ledger)) := by
  have hfresh := h.fresh call hnone
  have hstage : ∀ other, other ≠ call →
      (chain.enter call (ledgerKey ledger)).stage other = chain.stage other :=
    fun other hother => Function.update_of_ne hother _ _
  have hcalls : ∀ other, other ≠ call → (w.enter call ledger).calls other = w.calls other :=
    fun other hother => Function.update_of_ne hother _ _
  have hcall : (w.enter call ledger).calls call =
      some (.queued ledger (w.ledgerTails (ledgerKey ledger))) := Function.update_self call _ _
  have hkept : ∀ promise, Settled chain promise →
      Settled (chain.enter call (ledgerKey ledger)) promise := by
    intro promise hpromise other hother
    have hne : other ≠ call := by
      rintro rfl
      have hdone := hpromise other hother
      rw [hfresh] at hdone
      cases hdone
    rw [hstage other hne]
    exact hpromise other hother
  refine ⟨h.ordered.step (.enter _ hfresh), ?_, ?_, ?_, ?_⟩
  · intro other hother
    have hne : other ≠ call := by
      rintro rfl
      rw [hcall] at hother
      cases hother
    rw [hstage other hne]
    exact h.fresh other (hcalls other hne ▸ hother)
  · intro other phase hother
    by_cases hsame : other = call
    · subst hsame
      rw [hcall] at hother
      cases hother
      exact List.mem_append_right _ List.mem_cons_self
    · exact List.mem_append_left _ (h.entered other phase (hcalls other hsame ▸ hother))
  · intro other phase hother
    by_cases hsame : other = call
    · subst hsame
      rw [hcall] at hother
      cases hother
      refine ⟨chain.last (ledgerKey ledger), Function.update_self other _ _, ?_⟩
      exact (h.tails (ledgerKey ledger)).imp_right fun hdropped => ⟨hdropped.1, hkept _ hdropped.2⟩
    · have hold := h.stands other phase (hcalls other hsame ▸ hother)
      cases phase with
      | queued ledger' previous =>
          obtain ⟨predecessor, hwaiting, hprevious⟩ := hold
          refine ⟨predecessor, by rw [hstage other hsame, hwaiting], ?_⟩
          exact hprevious.imp_right fun hdropped => ⟨hdropped.1, hkept _ hdropped.2⟩
      | snapshot | read | signed | hooking | ended => exact (hstage other hsame).trans hold
  · intro key
    by_cases hkey : key = ledgerKey ledger
    · subst hkey
      exact .inl (by simp [CheckpointWorld.enter, Chain.enter])
    · simpa only [CheckpointWorld.enter, Chain.enter, Function.update_of_ne hkey] using
        (h.tails key).imp_right fun hdropped => ⟨hdropped.1, hkept _ hdropped.2⟩

end Locked

theorem locked_empty : (empty : CheckpointWorld D).Locked ⟨[], fun _ => none, fun _ => none⟩ where
  ordered := ordered_empty
  fresh _ _ := rfl
  entered call phase hphase := by cases hphase
  stands call phase hphase := by cases hphase
  tails _ := .inl rfl

end CheckpointWorld

end KyaOs.Audit
