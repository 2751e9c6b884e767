import KyaOs.StatusList.ListOrder

/-!
# What the stored status lists hold

A step of any call keeps `StatusInv`: a stored list is the all-zero list with the stored updates
applied in their order, each call knows the list it works on, and no index is given twice.
-/

namespace KyaOs

open Js PromiseChain

variable {Proof : Type}

section Invariant

variable (manager : StatusListManager Proof) (w : StatusWorld Proof)

/-- The stored list of a purpose has an entry at an index. -/
def StatusWorld.Holds (purpose : StatusPurpose) (index : Nat) : Prop :=
  ∃ statusList bits, w.statusLists (manager.statusListId purpose) = some statusList ∧
    listBits manager.codec statusList = .ok bits ∧ index < bits.length

/-- What a call has established where it stands. -/
def StatusWorld.PhaseOk (call : Nat) : StatusPhase Proof → Prop
  | .allocated _ _ => True
  | .queued task _ => (call, task) ∈ w.locked
  | .loaded task statusList =>
      (call, task) ∈ w.locked ∧ statusList = w.statusLists (task.list manager)
  | .signed task credential outcome =>
      (call, task) ∈ w.locked ∧
        Prepared manager (w.statusLists (task.list manager)) task credential outcome
  | .ended (some task) outcome =>
      (call, task) ∈ w.locked ∧ ∀ purpose index entry,
        outcome = .ok (.allocated purpose index entry) →
          task = .ensure purpose index ∧ entry.statusListIndex = decimalText index ∧
            w.Holds manager purpose index
  | .ended none outcome => ∃ error, outcome = .error error

/-- A call is an update that ended well. -/
def StatusWorld.Updated (call : Nat) : Prop :=
  ∃ credentialStatus revoked,
    w.calls call = some (.ended (some (.update credentialStatus revoked)) (.ok .updated))

/-- What the stored lists hold, and what each call knows of them. -/
structure StatusWorld.Content : Prop where
  phase : ∀ call phase, w.calls call = some phase → w.PhaseOk manager call phase
  written : ∀ call, call ∈ w.written ↔ w.Updated call
  listed : ∀ list statusList, w.statusLists list = some statusList →
    ∃ size, listBits manager.codec statusList =
      .ok (applyUpdates (w.applied list) (List.replicate size false))
  unlisted : ∀ list, w.statusLists list = none → w.applied list = []

def StatusTask.ticket : StatusTask → Option (StatusPurpose × Nat)
  | .update _ _ => none
  | .ensure purpose index => some (purpose, index)

def StatusPhase.ticket : StatusPhase Proof → Option (StatusPurpose × Nat)
  | .allocated purpose index => some (purpose, index)
  | .queued task _ => task.ticket
  | .loaded task _ => task.ticket
  | .signed task _ _ => task.ticket
  | .ended task _ => task.bind StatusTask.ticket

/-- The index each call was given by `allocateIndex`. -/
def StatusWorld.ticket (call : Nat) : Option (StatusPurpose × Nat) :=
  (w.calls call).bind StatusPhase.ticket

/-- `allocateIndex` never gives an index twice. -/
structure StatusWorld.Tickets : Prop where
  below : ∀ call purpose index, w.ticket call = some (purpose, index) →
    index < w.indexCounters (manager.statusListId purpose)
  distinct : ∀ a b ticket, w.ticket a = some ticket → w.ticket b = some ticket → a = b

structure StatusInv : Prop where
  ordered : (w.chain manager).Ordered
  content : w.Content manager
  tickets : w.Tickets manager

end Invariant

section Preserved

variable {manager : StatusListManager Proof} {w w' : StatusWorld Proof}

theorem StatusWorld.Content.not_updated (h : w.Content manager) {call : Nat}
    (hphase : ∀ task outcome, w.calls call ≠ some (.ended (some task) outcome)) :
    call ∉ w.written := by
  intro hmem
  obtain ⟨_, _, hended⟩ := (h.written call).mp hmem
  exact hphase _ _ hended

/-- A call moves on without storing anything. -/
theorem StatusWorld.Content.setPhase (h : w.Content manager) {call : Nat}
    {phase : StatusPhase Proof}
    (hbefore : ∀ task outcome, w.calls call ≠ some (.ended (some task) outcome))
    (hphase : w.PhaseOk manager call phase)
    (hafter : ∀ task, phase ≠ .ended (some task) (.ok .updated)) :
    (w.setPhase call phase).Content manager where
  phase := by
    intro other phase' hother
    by_cases hsame : other = call
    · subst hsame
      obtain rfl : phase = phase' := by simpa [StatusWorld.setPhase] using hother
      cases phase with
      | ended task outcome => cases task <;> exact hphase
      | _ => exact hphase
    · have hold := h.phase other phase' (by simpa [StatusWorld.setPhase, hsame] using hother)
      cases phase' with
      | ended task outcome => cases task <;> exact hold
      | _ => exact hold
  written := by
    intro other
    by_cases hsame : other = call
    · subst hsame
      refine iff_of_false (h.not_updated hbefore) ?_
      rintro ⟨_, _, hended⟩
      exact hafter _ (by simpa [StatusWorld.setPhase] using hended)
    · simpa [StatusWorld.Updated, StatusWorld.setPhase, hsame] using h.written other
  listed := h.listed
  unlisted := h.unlisted

theorem storedUpdate_concat (locked : List (Nat × StatusTask)) (written : List Nat)
    {call : Nat} (task : StatusTask) (hcall : call ∉ written) (list : JsString) :
    (locked ++ [(call, task)]).filterMap (storedUpdate written list) =
      locked.filterMap (storedUpdate written list) := by
  rw [List.filterMap_append]
  cases task <;> simp [storedUpdate, hcall]

theorem StatusWorld.Content.enterLock (h : w.Content manager) {call : Nat} {task : StatusTask}
    (hbefore : ∀ task outcome, w.calls call ≠ some (.ended (some task) outcome)) :
    (w.enterLock manager call task).Content manager := by
  have hnot := h.not_updated hbefore
  have happlied : ∀ list, (w.enterLock manager call task).applied list = w.applied list :=
    fun list => storedUpdate_concat w.locked w.written task hnot list
  refine ⟨fun other phase hother => ?_, fun other => ?_, fun list statusList hlist => ?_,
    fun list hlist => ?_⟩
  · by_cases hsame : other = call
    · subst hsame
      obtain rfl : _ = phase := by simpa [StatusWorld.enterLock] using hother
      simp [StatusWorld.PhaseOk, StatusWorld.enterLock]
    · have hold := h.phase other phase (by simpa [StatusWorld.enterLock, hsame] using hother)
      cases phase with
      | allocated purpose index => trivial
      | queued task' previous => exact List.mem_append_left _ hold
      | loaded task' statusList => exact ⟨List.mem_append_left _ hold.1, hold.2⟩
      | signed task' credential outcome => exact ⟨List.mem_append_left _ hold.1, hold.2⟩
      | ended task' outcome =>
          cases task' with
          | some task' => exact ⟨List.mem_append_left _ hold.1, hold.2⟩
          | none => exact hold
  · by_cases hsame : other = call
    · subst hsame
      refine iff_of_false hnot ?_
      rintro ⟨_, _, hended⟩
      simp [StatusWorld.enterLock] at hended
    · simpa [StatusWorld.Updated, StatusWorld.enterLock, hsame] using h.written other
  · rw [happlied]
    exact h.listed list statusList hlist
  · rw [happlied]
    exact h.unlisted list hlist

/-- A call that is about to store works on its list alone. -/
theorem running_alone (horder : (w.chain manager).Ordered) {call other : Nat}
    {task task' : StatusTask} (hcall : (call, task) ∈ w.locked) (hother : (other, task') ∈ w.locked)
    (hrunning : (w.chain manager).stage call = some .running)
    (hrunning' : (w.chain manager).stage other = some .running)
    (hlist : task'.list manager = task.list manager) : other = call := by
  have hentered : (call, task.list manager) ∈ (w.chain manager).entered :=
    List.mem_map.mpr ⟨(call, task), hcall, rfl⟩
  have hentered' : (other, task.list manager) ∈ (w.chain manager).entered :=
    List.mem_map.mpr ⟨(other, task'), hother, by rw [hlist]⟩
  exact horder.running_unique hentered' hentered hrunning' hrunning

/-- The update being stored is the last in the order of the calls. -/
theorem applied_store (horder : (w.chain manager).Ordered) (h : w.Content manager)
    {call : Nat} {credentialStatus : CredentialStatus} {revoked : Bool}
    (hmem : (call, .update credentialStatus revoked) ∈ w.locked)
    (hrunning : (w.chain manager).stage call = some .running) (list : JsString) :
    w.locked.filterMap (storedUpdate (call :: w.written) list) =
      if credentialStatus.statusListCredential = list then
        w.applied list ++ [(decimalValue credentialStatus.statusListIndex, revoked)]
      else w.applied list := by
  obtain ⟨before, after, hlocked⟩ := List.append_of_mem hmem
  have hnodup : (w.locked.map (·.1)).Nodup := by
    simpa [StatusWorld.chain, Function.comp_def] using horder.nodup
  rw [hlocked, List.map_append, List.map_cons] at hnodup
  have hcall : call ∉ w.written := by
    intro hwritten
    obtain ⟨_, _, hended⟩ := (h.written call).mp hwritten
    rw [chain_stage hended] at hrunning
    cases hrunning
  have hsame : ∀ entry ∈ before ++ after,
      storedUpdate (call :: w.written) list entry = storedUpdate w.written list entry := by
    rintro ⟨other, task⟩ hother
    have hne : other ≠ call := by
      rintro rfl
      rcases List.mem_append.mp hother with hother | hother
      · exact (List.nodup_append.mp hnodup).2.2 _ (List.mem_map.mpr ⟨_, hother, rfl⟩) _
          List.mem_cons_self rfl
      · exact (List.nodup_cons.mp (List.nodup_append.mp hnodup).2.1).1
          (List.mem_map.mpr ⟨_, hother, rfl⟩)
    cases task <;> simp [storedUpdate, hne]
  -- Who entered behind the call on its list waits for it, so has stored nothing.
  have hbehind : credentialStatus.statusListCredential = list →
      after.filterMap (storedUpdate w.written list) = [] := by
    rintro rfl
    refine List.filterMap_eq_nil_iff.mpr ?_
    rintro ⟨other, task⟩ hother
    cases task with
    | ensure purpose index => rfl
    | update credentialStatus' revoked' =>
        rw [storedUpdate, if_neg]
        rintro ⟨hlist, hwritten⟩
        obtain ⟨_, _, hended⟩ := (h.written other).mp hwritten
        have hentered : (w.chain manager).entered =
            before.map (fun entry => (entry.1, entry.2.list manager)) ++
              (call, credentialStatus.statusListCredential) ::
                after.map fun entry => (entry.1, entry.2.list manager) := by
          simp [StatusWorld.chain, hlocked, StatusTask.list]
        obtain ⟨predecessor, hwaiting⟩ := horder.waiting_after hentered hrunning
          (List.mem_map.mpr ⟨_, hother, Prod.ext rfl hlist⟩)
        rw [chain_stage hended] at hwaiting
        cases hwaiting
  have hbefore : before.filterMap (storedUpdate (call :: w.written) list) =
      before.filterMap (storedUpdate w.written list) :=
    List.filterMap_congr fun entry hentry => hsame entry (List.mem_append_left _ hentry)
  have hafter : after.filterMap (storedUpdate (call :: w.written) list) =
      after.filterMap (storedUpdate w.written list) :=
    List.filterMap_congr fun entry hentry => hsame entry (List.mem_append_right _ hentry)
  rw [StatusWorld.applied, hlocked, List.filterMap_append, List.filterMap_append,
    List.filterMap_cons, List.filterMap_cons, hbefore, hafter]
  by_cases hlist : credentialStatus.statusListCredential = list
  · simp [storedUpdate, hlist, hcall, hbehind hlist]
  · simp [storedUpdate, hlist]

theorem StatusWorld.Content.store (horder : (w.chain manager).Ordered)
    (hcodec : manager.codec.RoundTrips) (h : w.Content manager) {call : Nat} {task : StatusTask}
    {credential : StatusListCredential Proof} {outcome : Except Error StatusOutcome}
    (hsigned : w.calls call = some (.signed task credential outcome)) :
    (w.store manager call task credential outcome).Content manager := by
  obtain ⟨hmem, hprepared⟩ := h.phase call _ hsigned
  have hrunning : (w.chain manager).stage call = some .running := chain_stage hsigned
  have hnot : call ∉ w.written := h.not_updated (by simp [hsigned])
  -- The new list's bits, and the list's updates with this call's.
  obtain ⟨size, hbits, hgrows⟩ : ∃ size, listBits manager.codec credential =
      .ok (applyUpdates ((w.store manager call task credential outcome).applied
        (task.list manager)) (List.replicate size false)) ∧
      ∀ statusList bits, w.statusLists (task.list manager) = some statusList →
        listBits manager.codec statusList = .ok bits → bits.length = size := by
    generalize hlist : w.statusLists (task.list manager) = stored at hprepared
    cases hprepared with
    | @update statusList updated credentialStatus revoked sign hupdated =>
        obtain ⟨size, hold⟩ := h.listed _ _ hlist
        refine ⟨size, ?_, ?_⟩
        · change _ = Except.ok (applyUpdates (w.locked.filterMap
            (storedUpdate (call :: w.written) credentialStatus.statusListCredential)) _)
          rw [updatedCredential_ok hcodec hold hupdated, applied_store horder h hmem hrunning,
            if_pos rfl, applyUpdates_concat]
          rfl
        · intro statusList' bits hlist' hbits
          cases hlist'
          rw [hold] at hbits
          cases hbits
          simp
    | @ensure created purpose index capacity sign now hcreated =>
        refine ⟨capacity, ?_, nofun⟩
        change _ = Except.ok (applyUpdates (w.applied _) _)
        rw [createdCredential_ok hcodec hcreated, h.unlisted _ hlist]
        rfl
  have hother : ∀ list, list ≠ task.list manager →
      (w.store manager call task credential outcome).applied list = w.applied list := by
    intro list hlist
    cases task with
    | update credentialStatus revoked =>
        change w.locked.filterMap (storedUpdate (call :: w.written) list) = _
        rw [applied_store horder h hmem hrunning, if_neg (fun he => hlist he.symm)]
    | ensure purpose index => rfl
  have hholds : ∀ purpose index, w.Holds manager purpose index →
      (w.store manager call task credential outcome).Holds manager purpose index := by
    rintro purpose index ⟨statusList, bits, hlist, hold, hindex⟩
    by_cases hsame : manager.statusListId purpose = task.list manager
    · refine ⟨credential, _, by simp [StatusWorld.store, hsame], hbits, ?_⟩
      rw [length_applyUpdates, List.length_replicate]
      exact (hgrows statusList bits (hsame ▸ hlist) hold) ▸ hindex
    · exact ⟨statusList, bits, by simpa [StatusWorld.store, hsame] using hlist, hold, hindex⟩
  refine ⟨fun other phase hphase => ?_, fun other => ?_, fun list statusList hlist => ?_,
    fun list hlist => ?_⟩
  · by_cases hsame : other = call
    · subst hsame
      obtain rfl : _ = phase := by simpa [StatusWorld.store] using hphase
      refine ⟨hmem, fun purpose index entry houtcome => ?_⟩
      generalize w.statusLists (task.list manager) = stored at hprepared
      cases hprepared with
      | update sign hupdated => cases houtcome
      | ensure sign now hcreated =>
          obtain ⟨hindex, entry', hentry, htext⟩ := allocatedEntry_ok houtcome
          cases hentry
          refine ⟨rfl, htext, credential, _, by simp [StatusWorld.store, StatusTask.list],
            createdCredential_ok hcodec hcreated, by simpa using hindex⟩
    · have hold := h.phase other phase (by simpa [StatusWorld.store, hsame] using hphase)
      have hstage : (w.chain manager).stage other = phase.stage :=
        chain_stage (by simpa [StatusWorld.store, hsame] using hphase)
      cases phase with
      | allocated purpose index => trivial
      | queued task' previous => exact hold
      | loaded task' statusList =>
          have hlist : task'.list manager ≠ task.list manager := fun hlist =>
            hsame (running_alone horder hmem hold.1 hrunning hstage hlist)
          exact ⟨hold.1, by simpa [StatusWorld.store, hlist] using hold.2⟩
      | signed task' credential' outcome' =>
          have hlist : task'.list manager ≠ task.list manager := fun hlist =>
            hsame (running_alone horder hmem hold.1 hrunning hstage hlist)
          exact ⟨hold.1, by simpa [StatusWorld.store, hlist] using hold.2⟩
      | ended task' outcome' =>
          cases task' with
          | some task' =>
              refine ⟨hold.1, fun purpose index entry houtcome => ?_⟩
              obtain ⟨htask, htext, hindex⟩ := hold.2 purpose index entry houtcome
              exact ⟨htask, htext, hholds purpose index hindex⟩
          | none => exact hold
  · by_cases hsame : other = call
    · subst hsame
      generalize w.statusLists (task.list manager) = stored at hprepared
      cases hprepared with
      | @update _ _ credentialStatus revoked sign hupdated =>
          exact iff_of_true List.mem_cons_self
            ⟨credentialStatus, revoked, Function.update_self _ _ _⟩
      | ensure sign now hcreated =>
          refine iff_of_false hnot ?_
          rintro ⟨_, _, hended⟩
          simp [StatusWorld.store] at hended
    · cases task <;>
        simpa [StatusWorld.Updated, StatusWorld.store, hsame] using h.written other
  · by_cases hsame : list = task.list manager
    · subst hsame
      obtain rfl : credential = statusList := by simpa [StatusWorld.store] using hlist
      exact ⟨size, hbits⟩
    · rw [hother list hsame]
      exact h.listed list statusList (by simpa [StatusWorld.store, hsame] using hlist)
  · by_cases hsame : list = task.list manager
    · subst hsame
      simp [StatusWorld.store] at hlist
    · rw [hother list hsame]
      exact h.unlisted list (by simpa [StatusWorld.store, hsame] using hlist)

/-- A call keeps its index from phase to phase. -/
theorem StatusWorld.Tickets.kept (h : w.Tickets manager) (hcounters : w'.indexCounters =
    w.indexCounters) (hticket : ∀ call, w'.ticket call = w.ticket call) : w'.Tickets manager where
  below call purpose index hcall := by
    rw [hcounters]
    exact h.below call purpose index (hticket call ▸ hcall)
  distinct a b ticket ha hb := h.distinct a b ticket (hticket a ▸ ha) (hticket b ▸ hb)

theorem ticket_update {calls : Nat → Option (StatusPhase Proof)} {call : Nat}
    {phase : StatusPhase Proof} (hcalls : w'.calls = Function.update calls call (some phase))
    (hold : calls = w.calls) (hphase : phase.ticket = w.ticket call) (other : Nat) :
    w'.ticket other = w.ticket other := by
  subst hold
  by_cases hsame : other = call
  · subst hsame
    simpa [StatusWorld.ticket, hcalls] using hphase
  · simp [StatusWorld.ticket, hcalls, hsame]

theorem StatusStep.tickets (h : StatusStep manager w w') (hw : w.Tickets manager) :
    w'.Tickets manager := by
  cases h with
  | enter hfresh =>
      refine hw.kept rfl (ticket_update rfl rfl ?_)
      rcases hfresh with ⟨_, _, hnew, rfl⟩ | ⟨_, _, hallocated, rfl⟩
      · simp [StatusWorld.ticket, hnew, StatusPhase.ticket, StatusTask.ticket]
      · simp [StatusWorld.ticket, hallocated, StatusPhase.ticket, StatusTask.ticket]
  | refused error hnew =>
      refine hw.kept rfl (ticket_update rfl rfl ?_)
      simp [StatusWorld.ticket, hnew, StatusPhase.ticket]
  | @allocate call purpose hnew =>
      have hsplit : ∀ other purpose' index,
          StatusWorld.ticket { w.setPhase call (.allocated purpose
              (w.indexCounters (manager.statusListId purpose))) with
            indexCounters := Function.update w.indexCounters (manager.statusListId purpose)
              (w.indexCounters (manager.statusListId purpose) + 1) } other =
                some (purpose', index) →
            (other = call ∧ purpose' = purpose ∧
              index = w.indexCounters (manager.statusListId purpose)) ∨
            w.ticket other = some (purpose', index) := by
        intro other purpose' index hother
        by_cases hsame : other = call
        · subst hsame
          refine .inl ⟨rfl, ?_⟩
          simp only [StatusWorld.ticket, StatusWorld.setPhase, Function.update_self,
            Option.bind_some, StatusPhase.ticket, Option.some.injEq, Prod.mk.injEq] at hother
          exact ⟨hother.1.symm, hother.2.symm⟩
        · exact .inr (by simpa [StatusWorld.ticket, StatusWorld.setPhase, hsame] using hother)
      -- The new index is the counter, above every index given for the same purpose.
      refine ⟨fun other purpose' index hother => ?_, ?_⟩
      · by_cases hid : manager.statusListId purpose' = manager.statusListId purpose
        · simp only [hid, Function.update_self]
          rcases hsplit other purpose' index hother with ⟨-, -, rfl⟩ | hold
          · omega
          · have := hw.below other purpose' index hold
            rw [hid] at this
            omega
        · simp only [Function.update_of_ne hid]
          rcases hsplit other purpose' index hother with ⟨-, rfl, -⟩ | hold
          · exact (hid rfl).elim
          · exact hw.below other purpose' index hold
      · rintro a b ⟨purpose', index⟩ ha hb
        rcases hsplit a purpose' index ha with ⟨rfl, rfl, rfl⟩ | holda
        · rcases hsplit b _ _ hb with ⟨rfl, -, -⟩ | holdb
          · rfl
          · exact (Nat.lt_irrefl _ (hw.below b _ _ holdb)).elim
        · rcases hsplit b purpose' index hb with ⟨rfl, rfl, rfl⟩ | holdb
          · exact (Nat.lt_irrefl _ (hw.below a _ _ holda)).elim
          · exact hw.distinct a b _ holda holdb
  | unread error hqueued hsettled =>
      refine hw.kept rfl (ticket_update rfl rfl ?_)
      simp [StatusWorld.ticket, hqueued, StatusPhase.ticket]
  | load hqueued hsettled =>
      refine hw.kept rfl (ticket_update rfl rfl ?_)
      simp [StatusWorld.ticket, hqueued, StatusPhase.ticket]
  | @proceed call task statusList sign now hloaded =>
      refine hw.kept rfl (ticket_update rfl rfl ?_)
      rcases proceed_cases manager task statusList sign now with
        ⟨credential, outcome, hphase, -⟩ | ⟨outcome, hphase, -⟩
      · simp [StatusWorld.ticket, hloaded, hphase, StatusPhase.ticket]
      · simp [StatusWorld.ticket, hloaded, hphase, StatusPhase.ticket]
  | unstored error hsigned =>
      refine hw.kept rfl (ticket_update rfl rfl ?_)
      simp [StatusWorld.ticket, hsigned, StatusPhase.ticket]
  | store hsigned =>
      refine hw.kept rfl (ticket_update rfl rfl ?_)
      simp [StatusWorld.ticket, hsigned, StatusPhase.ticket]

theorem StatusStep.content (hcodec : manager.codec.RoundTrips) (h : StatusStep manager w w')
    (horder : (w.chain manager).Ordered) (hw : w.Content manager) : w'.Content manager := by
  cases h with
  | enter hfresh =>
      refine hw.enterLock ?_
      rcases hfresh with ⟨_, _, hnew, -⟩ | ⟨_, _, hallocated, -⟩
      · simp [hnew]
      · simp [hallocated]
  | refused error hnew => exact hw.setPhase (by simp [hnew]) ⟨error, rfl⟩ nofun
  | @allocate call purpose hnew =>
      have hmoved : (w.setPhase call (.allocated purpose
          (w.indexCounters (manager.statusListId purpose)))).Content manager :=
        hw.setPhase (by simp [hnew]) trivial nofun
      refine ⟨fun call phase hphase => ?_, hmoved.written, hmoved.listed, hmoved.unlisted⟩
      have hold := hmoved.phase call phase hphase
      cases phase with
      | ended task outcome => cases task <;> exact hold
      | _ => exact hold
  | unread error hqueued hsettled =>
      exact hw.setPhase (by simp [hqueued]) ⟨hw.phase _ _ hqueued, nofun⟩ nofun
  | load hqueued hsettled =>
      exact hw.setPhase (by simp [hqueued]) ⟨hw.phase _ _ hqueued, rfl⟩ nofun
  | @proceed call task statusList sign now hloaded =>
      obtain ⟨hmem, hlist⟩ := hw.phase _ _ hloaded
      rcases proceed_cases manager task statusList sign now with
        ⟨credential, outcome, hphase, hprepared⟩ | ⟨outcome, hphase, hanswer⟩
      · rw [hphase]
        exact hw.setPhase (by simp [hloaded]) ⟨hmem, hlist ▸ hprepared⟩ nofun
      · rw [hphase]
        refine hw.setPhase (by simp [hloaded]) ⟨hmem, ?_⟩ ?_
        · intro purpose index entry houtcome
          obtain ⟨_, _, existing, decoded, rfl, hexisting, hdecode, hentry⟩ := hanswer _ houtcome
          obtain ⟨hindex, entry', he, htext⟩ := allocatedEntry_ok hentry
          cases he
          obtain ⟨hinflated, hsize⟩ := decode_ok hdecode
          refine ⟨rfl, htext, existing, bitsOf decoded.bits, hlist.symm.trans hexisting, ?_,
            hsize ▸ hindex⟩
          rw [listBits, hinflated]
          rfl
        · intro task' hended
          cases hended
          obtain ⟨_, _, _, _, rfl, -, -, hentry⟩ := hanswer _ rfl
          obtain ⟨-, _, he, -⟩ := allocatedEntry_ok hentry
          cases he
  | unstored error hsigned =>
      exact hw.setPhase (by simp [hsigned]) ⟨(hw.phase _ _ hsigned).1, nofun⟩ nofun
  | store hsigned => exact hw.store horder hcodec hsigned

theorem StatusReachable.inv (hcodec : manager.codec.RoundTrips)
    (h : StatusReachable manager w) : StatusInv manager w := by
  induction h with
  | start =>
      refine ⟨ordered_empty, ⟨nofun, fun call => ?_, nofun, fun _ _ => rfl⟩, ⟨nofun, nofun⟩⟩
      exact iff_of_false List.not_mem_nil (by rintro ⟨_, _, hended⟩; cases hended)
  | act _ hact ih =>
      have hstep := statusStep_of_act hact
      exact ⟨hstep.ordered ih.ordered, hstep.content hcodec ih.ordered ih.content,
        hstep.tickets ih.tickets⟩

/-- Only a successful `setStatusList` changes what is stored. -/
theorem statusLists_of_act {action : StatusAction Proof} (h : w.act manager action = some w') :
    w'.statusLists = w.statusLists ∨
      ∃ call task credential outcome, action = .setStatusList call (.ok ()) ∧
        w.calls call = some (.signed task credential outcome) ∧
        w' = w.store manager call task credential outcome := by
  cases action with
  | setStatusList call storage =>
      simp only [StatusWorld.act] at h
      split at h
      · cases h
        exact .inl rfl
      · rename_i hsigned
        cases h
        exact .inr ⟨_, _, _, _, rfl, hsigned, rfl⟩
      · cases h
  | getStatusList call storage =>
      simp only [StatusWorld.act] at h
      split at h
      · split at h
        · cases h
          exact .inl rfl
        · cases h
      · split at h
        · cases h
          exact .inl rfl
        · cases h
      · cases h
  | _ =>
      simp only [StatusWorld.act] at h
      split at h <;> cases h <;> exact .inl rfl

/-- A step leaves a stored list alone, or is an update of it that succeeds. -/
theorem kept_or_updated {action : StatusAction Proof} (h : w.act manager action = some w')
    (hw : w.Content manager) {list : JsString} {statusList : StatusListCredential Proof}
    (hlist : w.statusLists list = some statusList) :
    w'.statusLists list = some statusList ∨
      ∃ call credentialStatus revoked credential, action = .setStatusList call (.ok ()) ∧
        credentialStatus.statusListCredential = list ∧
        w' = w.store manager call (.update credentialStatus revoked) credential
          (.ok .updated) := by
  rcases statusLists_of_act h with hsame | ⟨call, task, credential, outcome, rfl, hsigned, rfl⟩
  · exact .inl (hsame ▸ hlist)
  · by_cases hsame : list = task.list manager
    · obtain ⟨-, hprepared⟩ := hw.phase call _ hsigned
      rw [← hsame, hlist] at hprepared
      cases hprepared with
      | @update _ _ credentialStatus revoked sign hupdated =>
          exact .inr ⟨call, credentialStatus, revoked, credential, rfl, hsame.symm, rfl⟩
    · exact .inl (by simpa [StatusWorld.store, hsame] using hlist)

/-- The index a call returns is the one it was given. -/
theorem StatusWorld.Content.ticket (h : w.Content manager) {call : Nat} {task : Option StatusTask}
    {purpose : StatusPurpose} {index : Nat} {entry : CredentialStatus}
    (hended : w.calls call = some (.ended task (.ok (.allocated purpose index entry)))) :
    w.ticket call = some (purpose, index) := by
  have hphase := h.phase call _ hended
  cases task with
  | some task =>
      obtain ⟨rfl, -⟩ := hphase.2 purpose index entry rfl
      simp [StatusWorld.ticket, hended, StatusPhase.ticket, StatusTask.ticket]
  | none =>
      obtain ⟨error, herror⟩ := hphase
      cases herror

/-- A call that has ended does nothing more. -/
theorem StatusStep.ended (h : StatusStep manager w w') {call : Nat} {task : Option StatusTask}
    {outcome : Except Error StatusOutcome} (hended : w.calls call = some (.ended task outcome)) :
    w'.calls call = some (.ended task outcome) := by
  have hupdate : ∀ other phase, (∀ task outcome, w.calls other ≠ some (.ended task outcome)) →
      Function.update w.calls other (some phase) call = some (.ended task outcome) := by
    intro other phase hother
    have hne : call ≠ other := by
      rintro rfl
      exact hother _ _ hended
    rwa [Function.update_of_ne hne]
  cases h with
  | enter hfresh =>
      refine hupdate _ _ ?_
      rcases hfresh with ⟨_, _, hnew, -⟩ | ⟨_, _, hallocated, -⟩
      · simp [hnew]
      · simp [hallocated]
  | refused error hnew => exact hupdate _ _ (by simp [hnew])
  | allocate purpose hnew => exact hupdate _ _ (by simp [hnew])
  | unread error hqueued hsettled => exact hupdate _ _ (by simp [hqueued])
  | load hqueued hsettled => exact hupdate _ _ (by simp [hqueued])
  | proceed sign now hloaded => exact hupdate _ _ (by simp [hloaded])
  | unstored error hsigned => exact hupdate _ _ (by simp [hsigned])
  | store hsigned => exact hupdate _ _ (by simp [hsigned])

end Preserved

end KyaOs
