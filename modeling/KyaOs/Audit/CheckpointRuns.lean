import KyaOs.Audit.CheckpointLock

/-!
# What every run of a checkpoint builder keeps

An inserted checkpoint's hook has completed, is in the hands of a call, or is pending, and what a
call knows of its ledger stays true while it holds the lock.
-/

namespace KyaOs.Audit

open Js PromiseChain

variable {D : Type} {options : AuditCheckpointBuilderOptions D}

namespace CheckpointWorld

variable {w w' : CheckpointWorld D} {action : CheckpointAction D}

/-- A call has the checkpoint's hook in hand. -/
def Running (w : CheckpointWorld D) (checkpoint : SignedAuditCheckpoint D) : Prop :=
  ∃ call ledger returned due, w.calls call = some (.hooking ledger returned due) ∧
    checkpoint ∈ due

/-- No hook is lost. -/
def Covered (w : CheckpointWorld D) : Prop :=
  ∀ checkpoint ∈ w.inserted, checkpoint ∈ w.completed ∨ w.Running checkpoint ∨
    checkpoint ∈ w.pending checkpoint.key

/-- What a call knows of the checkpoints this builder inserted on its ledger. -/
def Knows (inserted : List (SignedAuditCheckpoint D)) : CheckpointPhase D → Prop
  | .read ledger _ previous => ∀ checkpoint ∈ inserted, checkpoint.key = ledgerKey ledger →
      ∃ latest, previous = some latest ∧ checkpoint.core.treeSize ≤ latest.core.treeSize
  | .signed ledger signed => signed.key = ledgerKey ledger ∧
      ∀ checkpoint ∈ inserted, checkpoint.key = ledgerKey ledger → checkpoint.OlderThan signed
  | .hooking ledger _ due =>
      ∀ checkpoint ∈ due, checkpoint ∈ inserted ∧ checkpoint.key = ledgerKey ledger
  | .queued .. | .snapshot .. | .ended .. => True

/-- It still knows it after other insertions, if it holds no lock on their ledger. -/
theorem Knows.append {inserted fresh : List (SignedAuditCheckpoint D)}
    {phase : CheckpointPhase D} (h : Knows inserted phase)
    (hfresh : phase.isHolding = true → ∀ checkpoint ∈ fresh, checkpoint.key ≠ phase.key) :
    Knows (inserted ++ fresh) phase := by
  cases phase with
  | read ledger entries previous =>
      intro checkpoint hmem hkey
      obtain hold | hnew := List.mem_append.mp hmem
      · exact h checkpoint hold hkey
      · exact absurd hkey (hfresh rfl checkpoint hnew)
  | signed ledger signed =>
      refine ⟨h.1, ?_⟩
      intro checkpoint hmem hkey
      obtain hold | hnew := List.mem_append.mp hmem
      · exact h.2 checkpoint hold hkey
      · exact absurd hkey (hfresh rfl checkpoint hnew)
  | hooking ledger returned due =>
      intro checkpoint hmem
      exact (h checkpoint hmem).imp_left fun hold => List.mem_append_left _ hold
  | queued | snapshot | ended => trivial

/-- The store's latest checkpoint of a ledger is at least as new as these. -/
def LatestCovers (store : MemoryAuditCheckpointStore D)
    (inserted : List (SignedAuditCheckpoint D)) : Prop :=
  ∀ checkpoint ∈ inserted, ∃ latest, store.latest checkpoint.key = some latest ∧
    checkpoint.core.treeSize ≤ latest.core.treeSize

structure Inv (w : CheckpointWorld D) : Prop where
  locked : ∃ chain, w.Locked chain
  latest : LatestCovers w.store w.inserted
  knows : ∀ call phase, w.calls call = some phase → Knows w.inserted phase
  pending : ∀ key, ∀ checkpoint ∈ w.pending key, checkpoint ∈ w.inserted ∧ checkpoint.key = key
  covered : w.Covered

section Store

variable {store : MemoryAuditCheckpointStore D} {inserted : List (SignedAuditCheckpoint D)}

theorem size_le_newest (current : Option (SignedAuditCheckpoint D))
    (checkpoint : SignedAuditCheckpoint D) :
    checkpoint.core.treeSize ≤
        (MemoryAuditCheckpointStore.newest current checkpoint).core.treeSize ∧
      ∀ latest, current = some latest → latest.core.treeSize ≤
        (MemoryAuditCheckpointStore.newest current checkpoint).core.treeSize := by
  cases current with
  | none => exact ⟨Nat.le_refl _, fun latest hlatest => by cases hlatest⟩
  | some current =>
      simp only [MemoryAuditCheckpointStore.newest, Option.some.injEq, forall_eq']
      split <;> omega

/-- The latest checkpoint only gets newer. -/
theorem latestCovers_insert (h : LatestCovers store inserted)
    (checkpoint : SignedAuditCheckpoint D) :
    LatestCovers (store.insert checkpoint) (inserted ++ [checkpoint]) := by
  have hnewest := size_le_newest (store.latest checkpoint.key) checkpoint
  intro other hmem
  by_cases hkey : other.key = checkpoint.key
  · refine ⟨_, by rw [hkey]; exact Function.update_self _ _ _, ?_⟩
    obtain hold | hnew := List.mem_append.mp hmem
    · obtain ⟨latest, hlatest, hle⟩ := h other hold
      exact hle.trans (hnewest.2 latest (hkey ▸ hlatest))
    · cases List.mem_singleton.mp hnew
      exact hnewest.1
  · obtain hold | hnew := List.mem_append.mp hmem
    · obtain ⟨latest, hlatest, hle⟩ := h other hold
      exact ⟨latest, (Function.update_of_ne hkey _ _).trans hlatest, hle⟩
    · exact absurd (congrArg _ (List.mem_singleton.mp hnew)) hkey

theorem latestCovers_putIfAbsent (h : LatestCovers store inserted)
    (checkpoint : SignedAuditCheckpoint D) :
    LatestCovers (store.putIfAbsent checkpoint).2 inserted := by
  unfold MemoryAuditCheckpointStore.putIfAbsent
  split
  · split <;> exact h
  · exact fun other hmem => latestCovers_insert h checkpoint other (List.mem_append_left _ hmem)

end Store

/-- One call has moved on, and what it inserted is covered. -/
theorem Inv.moved (h : w.Inv) {call : Nat} {phase' : CheckpointPhase D}
    {fresh : List (SignedAuditCheckpoint D)} (hmoves : w.Moves call phase' w')
    (hlocked : ∃ chain, w'.Locked chain) (hinserted : w'.inserted = w.inserted ++ fresh)
    (hlatest : LatestCovers w'.store w'.inserted) (hknows : Knows w'.inserted phase')
    (hfresh : ∀ other phase, other ≠ call → w.calls other = some phase →
      phase.isHolding = true → ∀ checkpoint ∈ fresh, checkpoint.key ≠ phase.key)
    (hpending : ∀ key, ∀ checkpoint ∈ w'.pending key,
      checkpoint ∈ w'.inserted ∧ checkpoint.key = key)
    (hcovered : w'.Covered) : w'.Inv := by
  refine ⟨hlocked, hlatest, ?_, hpending, hcovered⟩
  intro other phase hother
  by_cases hsame : other = call
  · subst hsame
    rw [hmoves.moved] at hother
    cases hother
    exact hknows
  · rw [hmoves.others other hsame] at hother
    rw [hinserted]
    exact (h.knows other phase hother).append (hfresh other phase hsame hother)

/-- What other calls have in hand stays in hand. -/
theorem Running.moved {call : Nat} {phase' : CheckpointPhase D}
    {checkpoint : SignedAuditCheckpoint D} (h : w.Running checkpoint)
    (hmoves : w.Moves call phase' w') :
    w'.Running checkpoint ∨ ∃ ledger returned due,
      w.calls call = some (.hooking ledger returned due) ∧ checkpoint ∈ due := by
  obtain ⟨other, ledger, returned, due, hother, hmem⟩ := h
  by_cases hsame : other = call
  · subst hsame
    exact .inr ⟨ledger, returned, due, hother, hmem⟩
  · exact .inl ⟨other, ledger, returned, due, (hmoves.others other hsame).trans hother, hmem⟩

/-- A call that has no hook in hand moves on; nothing is inserted. -/
theorem Inv.quiet (h : w.Inv) {call : Nat} {phase' : CheckpointPhase D}
    (hmoves : w.Moves call phase' w')
    (hnot : ∀ ledger returned due, w.calls call ≠ some (.hooking ledger returned due))
    (hlocked : ∃ chain, w'.Locked chain) (hinserted : w'.inserted = w.inserted)
    (hcompleted : w'.completed = w.completed) (hstore : w'.store = w.store)
    (hfailed : w'.failedHooks = w.failedHooks) (hknows : Knows w.inserted phase') : w'.Inv := by
  have hpending : w'.pending = w.pending := by
    funext key
    rw [CheckpointWorld.pending, hfailed]
    rfl
  refine @Inv.moved _ _ _ h _ _ [] hmoves hlocked (by rw [hinserted, List.append_nil])
    ?_ ?_ ?_ ?_ ?_
  · rw [hstore, hinserted]
    exact h.latest
  · rw [hinserted]
    exact hknows
  · intro _ _ _ _ _ checkpoint hmem
    cases hmem
  · rw [hpending, hinserted]
    exact h.pending
  · intro checkpoint hmem
    rw [hinserted] at hmem
    rw [hcompleted, hpending]
    obtain hdone | hrunning | hwaits := h.covered checkpoint hmem
    · exact .inl hdone
    · obtain hrunning' | ⟨ledger, returned, due, hphase, -⟩ := hrunning.moved hmoves
      · exact .inr (.inl hrunning')
      · exact absurd hphase (hnot ledger returned due)
    · exact .inr (.inr hwaits)

section Hooks

variable {call : Nat} {ledger : AuditLedgerRef} {returned : SignedAuditCheckpoint D}
  {due : List (SignedAuditCheckpoint D)}

theorem runHooks_of_mem {checkpoint : SignedAuditCheckpoint D} (hmem : checkpoint ∈ due) :
    runHooks ledger returned due = .hooking ledger returned due := by
  cases due with
  | nil => cases hmem
  | cons first rest => rfl

theorem hasLeft_runHooks : (runHooks ledger returned due).hasLeft = true := by
  cases due <;> rfl

theorem key_runHooks : (runHooks ledger returned due).key = ledgerKey ledger := by
  cases due <;> rfl

theorem knows_runHooks {inserted : List (SignedAuditCheckpoint D)}
    (h : ∀ checkpoint ∈ due, checkpoint ∈ inserted ∧ checkpoint.key = ledgerKey ledger) :
    Knows inserted (runHooks ledger returned due) := by
  cases due with
  | nil => trivial
  | cons first rest => exact h

theorem stands_runHooks {chain : Chain JsString} (h : chain.stage call = some .settled) :
    Stands chain call (runHooks ledger returned due) := by
  cases due <;> exact h

theorem pending_update {failedHooks : JsString → Option (List (SignedAuditCheckpoint D))}
    {key other : JsString} {entry : Option (List (SignedAuditCheckpoint D))} :
    (Function.update failedHooks key entry other).getD [] =
      if other = key then entry.getD [] else (failedHooks other).getD [] := by
  by_cases hkey : other = key
  · rw [if_pos hkey, hkey, Function.update_self]
  · rw [if_neg hkey, Function.update_of_ne hkey]

/-- A call leaves the locked section with what it inserted there and takes the pending hooks
of its ledger over. -/
theorem Inv.takeOver (h : w.Inv) {phase : CheckpointPhase D} {w₁ : CheckpointWorld D}
    {fresh : List (SignedAuditCheckpoint D)} (hphase : w.calls call = some phase)
    (hholding : phase.isHolding = true) (hcalls : w₁.calls = w.calls)
    (htails : w₁.ledgerTails = w.ledgerTails) (hfailed : w₁.failedHooks = w.failedHooks)
    (hcompleted : w₁.completed = w.completed) (hinserted : w₁.inserted = w.inserted ++ fresh)
    (hlatest : LatestCovers w₁.store w₁.inserted)
    (hfresh : ∀ checkpoint ∈ fresh, checkpoint.key = phase.key) :
    (w₁.takeOver call phase.ledger returned fresh).Inv := by
  have hpendings : w₁.pending = w.pending := by
    funext key
    rw [CheckpointWorld.pending, hfailed]
    rfl
  have hmoves₁ := moves_takeOver w₁ call phase.ledger returned fresh
  have hmoves : w.Moves call (runHooks phase.ledger returned (w₁.pending phase.key ++ fresh))
      (w₁.takeOver call phase.ledger returned fresh) :=
    ⟨hmoves₁.moved, fun other hother => (hmoves₁.others other hother).trans (congrFun hcalls other)⟩
  have hinserted' : (w₁.takeOver call phase.ledger returned fresh).inserted =
      w.inserted ++ fresh := (release_inserted w₁ call phase.key).trans hinserted
  have hdue : ∀ checkpoint ∈ w₁.pending phase.key ++ fresh,
      checkpoint ∈ w.inserted ++ fresh ∧ checkpoint.key = phase.key := by
    intro checkpoint hmem
    obtain hold | hnew := List.mem_append.mp hmem
    · rw [hpendings] at hold
      exact (h.pending _ checkpoint hold).imp_left (List.mem_append_left _)
    · exact ⟨List.mem_append_right _ hnew, hfresh checkpoint hnew⟩
  have hpending' : ∀ key, (w₁.takeOver call phase.ledger returned fresh).pending key =
      if key = phase.key then [] else w.pending key := by
    intro key
    rw [← hpendings]
    exact pending_update
  refine h.moved hmoves ?_ hinserted' ?_ ?_ ?_ ?_ ?_
  · obtain ⟨chain, hlocked⟩ := h.locked
    refine ⟨_, hlocked.leave hphase hholding hmoves key_runHooks hasLeft_runHooks ?_⟩
    intro key
    rw [← htails]
    exact release_tails w₁ call phase.key key
  · rw [hinserted', ← hinserted]
    exact (congrArg (LatestCovers · w₁.inserted) (release_store w₁ call phase.key)).mpr hlatest
  · rw [hinserted']
    exact knows_runHooks hdue
  · intro other phase' hother hphase' hholding' checkpoint hmem hkey
    obtain ⟨chain, hlocked⟩ := h.locked
    exact hother (hlocked.unique hphase hphase' hholding hholding'
      (hkey.symm.trans (hfresh checkpoint hmem)))
  · intro key checkpoint hmem
    rw [hpending'] at hmem
    split at hmem
    · cases hmem
    · rw [hinserted']
      exact (h.pending key checkpoint hmem).imp_left (List.mem_append_left _)
  · have hrunning : ∀ checkpoint ∈ w₁.pending phase.key ++ fresh,
        (w₁.takeOver call phase.ledger returned fresh).Running checkpoint := by
      intro checkpoint hmem
      exact ⟨call, phase.ledger, returned, _, hmoves.moved.trans (congrArg some
        (runHooks_of_mem hmem)), hmem⟩
    intro checkpoint hmem
    rw [hinserted'] at hmem
    obtain hold | hnew := List.mem_append.mp hmem
    · obtain hdone | hinHand | hwaits := h.covered checkpoint hold
      · exact .inl ((release_completed w₁ call phase.key).trans hcompleted ▸ hdone)
      · obtain hinHand' | ⟨_, _, _, hhooking, -⟩ := hinHand.moved hmoves
        · exact .inr (.inl hinHand')
        · rw [hphase] at hhooking
          cases hhooking
          cases hholding
      · by_cases hkey : checkpoint.key = phase.key
        · refine .inr (.inl (hrunning checkpoint (List.mem_append_left _ ?_)))
          rw [hpendings, ← hkey]
          exact hwaits
        · exact .inr (.inr (by rwa [hpending', if_neg hkey]))
    · exact .inr (.inl (hrunning checkpoint (List.mem_append_right _ hnew)))

/-- A hook has completed. -/
theorem Inv.complete (h : w.Inv) {done : SignedAuditCheckpoint D}
    {rest : List (SignedAuditCheckpoint D)}
    (hphase : w.calls call = some (.hooking ledger returned (done :: rest))) :
    ({ w.setPhase call (runHooks ledger returned rest) with
        completed := w.completed ++ [done] } : CheckpointWorld D).Inv := by
  have hmoved := moves_setPhase w call (runHooks ledger returned rest)
  have hmoves : w.Moves call (runHooks ledger returned rest)
      ({ w.setPhase call (runHooks ledger returned rest) with
        completed := w.completed ++ [done] }) := ⟨hmoved.moved, hmoved.others⟩
  have hdue := h.knows call _ hphase
  refine @Inv.moved _ _ _ h _ _ [] hmoves ?_ (List.append_nil _).symm h.latest ?_ ?_ h.pending ?_
  · obtain ⟨chain, hlocked⟩ := h.locked
    refine ⟨chain, hlocked.keep hphase hmoves key_runHooks (stands_runHooks ?_) rfl⟩
    exact hlocked.stands call _ hphase
  · exact knows_runHooks fun checkpoint hmem => hdue checkpoint (List.mem_cons_of_mem _ hmem)
  · intro _ _ _ _ _ checkpoint hmem
    cases hmem
  · intro checkpoint hmem
    obtain hdone | hrunning | hwaits := h.covered checkpoint hmem
    · exact .inl (List.mem_append_left _ hdone)
    · obtain hrunning' | ⟨_, _, _, hhooking, hdue⟩ := hrunning.moved hmoves
      · exact .inr (.inl hrunning')
      · rw [hphase] at hhooking
        cases hhooking
        cases List.mem_cons.mp hdue with
        | inl hsame => exact .inl (List.mem_append_right _ (List.mem_singleton.mpr hsame))
        | inr hrest =>
            exact .inr (.inl ⟨call, ledger, returned, rest,
              hmoves.moved.trans (congrArg some (runHooks_of_mem hrest)), hrest⟩)
    · exact .inr (.inr hwaits)

/-- A hook has failed. -/
theorem Inv.putBack (h : w.Inv) {error : AuditError}
    (hphase : w.calls call = some (.hooking ledger returned due)) :
    (w.putBack call ledger due error).Inv := by
  have hmoved := moves_setPhase w call (.ended ledger (.error error))
  have hmoves : w.Moves call (.ended ledger (.error error)) (w.putBack call ledger due error) :=
    ⟨hmoved.moved, hmoved.others⟩
  have hdue := h.knows call _ hphase
  have hpending' : ∀ key, (w.putBack call ledger due error).pending key =
      if key = ledgerKey ledger then due ++ w.pending (ledgerKey ledger) else w.pending key :=
    fun key => pending_update
  refine @Inv.moved _ _ _ h _ _ [] hmoves ?_ (List.append_nil _).symm h.latest trivial ?_ ?_ ?_
  · obtain ⟨chain, hlocked⟩ := h.locked
    have hstands := hlocked.stands call _ hphase
    exact ⟨chain, hlocked.keep hphase hmoves rfl hstands rfl⟩
  · intro _ _ _ _ _ checkpoint hmem
    cases hmem
  · intro key checkpoint hmem
    rw [hpending'] at hmem
    split at hmem
    · rename_i hkey
      subst hkey
      obtain hback | hwaits := List.mem_append.mp hmem
      · exact hdue checkpoint hback
      · exact h.pending _ checkpoint hwaits
    · exact h.pending key checkpoint hmem
  · intro checkpoint hmem
    obtain hdone | hrunning | hwaits := h.covered checkpoint hmem
    · exact .inl hdone
    · obtain hrunning' | ⟨_, _, _, hhooking, hback⟩ := hrunning.moved hmoves
      · exact .inr (.inl hrunning')
      · rw [hphase] at hhooking
        cases hhooking
        refine .inr (.inr ?_)
        rw [hpending', if_pos (hdue checkpoint hback).2]
        exact List.mem_append_left _ hback
    · refine .inr (.inr ?_)
      rw [hpending']
      split
      · rename_i hkey
        exact List.mem_append_right _ (hkey ▸ hwaits)
      · exact hwaits

end Hooks

/-- A call fails inside the locked section. -/
theorem Inv.fail (h : w.Inv) {call : Nat} {phase : CheckpointPhase D} {error : AuditError}
    (hphase : w.calls call = some phase) (hholding : phase.isHolding = true) :
    (w.fail call phase.ledger error).Inv := by
  have hmoves := moves_fail w call phase.ledger error
  refine h.quiet hmoves ?_ ?_ (release_inserted _ _ _) (release_completed _ _ _)
    (release_store _ _ _) (release_failedHooks _ _ _) trivial
  · intro ledger returned due hhooking
    rw [hphase] at hhooking
    cases hhooking
    cases hholding
  · obtain ⟨chain, hlocked⟩ := h.locked
    exact ⟨_, hlocked.leave hphase hholding hmoves rfl rfl fun key => release_tails w call _ key⟩

/-- A call gets the lock. -/
theorem Inv.start (h : w.Inv) {call : Nat} {ledger : AuditLedgerRef} {previous : Option Nat}
    (hphase : w.calls call = some (.queued ledger previous))
    (hsettled : w.hasSettled previous = true) (entries : List (SignedAuditEntry D)) :
    (w.setPhase call (.snapshot ledger entries)).Inv := by
  refine h.quiet (moves_setPhase w call _) ?_ ?_ rfl rfl rfl rfl trivial
  · intro ledger returned due hhooking
    rw [hphase] at hhooking
    cases hhooking
  · obtain ⟨chain, hlocked⟩ := h.locked
    exact ⟨_, hlocked.start hphase hsettled entries⟩

theorem Inv.transition (h : w.Inv) {ordered : Prop} (hstep : w.Transition w' ordered) : w'.Inv := by
  cases hstep with
  | @enter call ledger hnone =>
      have hmoves : w.Moves call (.queued ledger (w.ledgerTails (ledgerKey ledger)))
          (w.enter call ledger) :=
        ⟨Function.update_self call _ _, fun other hother => Function.update_of_ne hother _ _⟩
      refine h.quiet hmoves ?_ ?_ rfl rfl rfl rfl trivial
      · intro ledger returned due hhooking
        rw [hnone] at hhooking
        cases hhooking
      · obtain ⟨chain, hlocked⟩ := h.locked
        exact ⟨_, hlocked.enter hnone⟩
  | start hphase hsettled => exact h.start hphase hsettled _
  | @refuse call ledger previous error hphase hsettled =>
      -- The call takes the lock and leaves it in one step.
      have hstarted := h.start hphase hsettled []
      have hheld : (w.setPhase call (.snapshot ledger [])).calls call =
          some (.snapshot ledger []) := Function.update_self call _ _
      have hfailed := @Inv.fail _ _ hstarted _ _ error hheld rfl
      have hsame : (w.setPhase call (.snapshot ledger [])).fail call ledger error =
          w.fail call ledger error := by
        unfold CheckpointWorld.fail release setPhase
        split <;> simp
      exact hsame ▸ hfailed
  | fail hphase hholding => exact h.fail hphase hholding
  | @read call ledger entries hphase =>
      have hmoves := moves_setPhase w call (.read ledger entries (w.store.getLatest ledger))
      refine h.quiet hmoves ?_ ?_ rfl rfl rfl rfl ?_
      · intro ledger returned due hhooking
        rw [hphase] at hhooking
        cases hhooking
      · obtain ⟨chain, hlocked⟩ := h.locked
        have hstands := hlocked.stands call _ hphase
        exact ⟨chain, hlocked.keep hphase hmoves rfl hstands rfl⟩
      · intro checkpoint hmem hkey
        obtain ⟨latest, hlatest, hle⟩ := h.latest checkpoint hmem
        exact ⟨latest, by rw [← hlatest, hkey]; rfl, hle⟩
  | @sign call ledger entries previous checkpoint hphase hkey hnewer =>
      have hmoves := moves_setPhase w call (.signed ledger checkpoint)
      refine h.quiet hmoves ?_ ?_ rfl rfl rfl rfl ⟨hkey, ?_⟩
      · intro ledger returned due hhooking
        rw [hphase] at hhooking
        cases hhooking
      · obtain ⟨chain, hlocked⟩ := h.locked
        have hstands := hlocked.stands call _ hphase
        exact ⟨chain, hlocked.keep hphase hmoves rfl hstands rfl⟩
      · intro other hmem hother
        obtain ⟨latest, hlatest, hle⟩ := h.knows call _ hphase other hmem hother
        exact Nat.lt_of_le_of_lt hle (hnewer latest hlatest)
  | keep hphase hholding =>
      refine h.takeOver hphase hholding rfl rfl rfl rfl (List.append_nil _).symm h.latest ?_
      intro checkpoint hmem
      cases hmem
  | @insert call ledger checkpoint hphase =>
      refine h.takeOver hphase rfl rfl rfl rfl rfl rfl (latestCovers_insert h.latest checkpoint) ?_
      intro other hmem
      cases List.mem_singleton.mp hmem
      exact (h.knows call _ hphase).1
  | complete hphase => exact h.complete hphase
  | putBack hphase => exact h.putBack hphase
  | other =>
      obtain ⟨⟨chain, hlocked⟩, hlatest, hknows, hpending, hcovered⟩ := h
      refine ⟨⟨chain, ?_⟩, latestCovers_putIfAbsent hlatest _, hknows, hpending, hcovered⟩
      exact ⟨hlocked.ordered, hlocked.fresh, hlocked.entered, hlocked.stands, hlocked.tails⟩

end CheckpointWorld

end KyaOs.Audit
