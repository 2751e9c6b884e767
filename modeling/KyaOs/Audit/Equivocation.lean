import KyaOs.Audit.RecorderSolo

/-!
# One sequence, one entry

A recorder over a journal that may lose its last entries. As long as what is lost was
committed by the recorder, and no append is accepted on a head it has gone past, it never
returns two entries of its epoch under one sequence.
-/

namespace KyaOs.Audit

open Js Concurrency Async HashChain

variable {D : Type}

/-- The recorder has committed this far. -/
def RecorderState.Covers (recorder : RecorderState D) (entry : SignedAuditEntry D) : Prop :=
  ∃ head ∈ recorder.committedHead, entry.core.sequence ≤ head.sequence

/-- An entry of the ledger epoch that the service was answered with or the journal holds. -/
def AuditWorld.Issued (s : AuditWorld D) (ledger : AuditLedgerRef) (entry : SignedAuditEntry D) :
    Prop :=
  entry.core.toAuditLedgerRef = ledger ∧
    (entry ∈ s.history.answered ∨ entry ∈ s.journal.snapshot ledger)

namespace Deployment

variable (dep : Deployment D) (r : Nat)

/-- The journal loses its last commits. -/
def Loses (s s' : AuditWorld D) : Prop :=
  ∃ log n, Recorded (fun _ _ => True) log ∧ s.journal = replay log ∧
    s' = { s with journal := replay (log.take n) }

/-- Of the entries the service was answered with, those lost were committed by the recorder. -/
def LosesCovered (s s' : AuditWorld D) : Prop :=
  Loses s s' ∧ ∀ entry ∈ s.history.answered, entry ∈ s.journal.snapshot (dep.ledger r) →
    entry ∈ s'.journal.snapshot (dep.ledger r) ∨ (s.recorders r).Covers entry

/-- The head an append goes by is not behind what the recorder has committed. -/
def AtPosition : AuditRequest D → AuditWorld D → Prop
  | .compareAndAppend _ expectedHead _ _, s =>
      isBehind expectedHead (s.recorders r).committedHead = false
  | _, _ => True

/-- Recorder `r` over a journal that may lose its last entries. -/
def lossyService : Program (recorderSetting D) (SubmitCall D) (SignedAuditEntry D) where
  code := dep.serviceCode r
  serves := dep.Records
  environment s s' := Loses s s' ∨ dep.Environment s s' ∧ s'.history = s.history

/-- Its runs in which every append is accepted at the recorder's position, and what is lost
was committed by it. -/
def coveredService : Program (recorderSetting D) (SubmitCall D) (SignedAuditEntry D) where
  code := dep.serviceCode r
  serves c request s answer s' := dep.Records c request s answer s' ∧
    (s'.history.accepted ≠ s.history.accepted → AtPosition r request s)
  environment s s' := dep.LosesCovered r s s' ∨ dep.Environment s s' ∧ s'.history = s.history

/-- What holds at every await. -/
structure Unequivocal (s : AuditWorld D) : Prop where
  journal : ∃ log, Recorded (fun _ _ => True) log ∧ s.journal = replay log
  kept : ∀ entry, s.Issued (dep.ledger r) entry →
    entry ∈ s.journal.snapshot (dep.ledger r) ∨ (s.recorders r).Covers entry
  agree : ∀ entry other, s.Issued (dep.ledger r) entry → s.Issued (dep.ledger r) other →
    entry.core.sequence = other.core.sequence → entry = other
  clock : ∀ r, dep.times (s.clock r)

/-- What was answered stays answered. -/
def unequivocalProtocol : Protocol (recorderSetting D) (SubmitCall D) Unit where
  inv w := dep.Unequivocal r w.1
  rely _ w w' := w.1.history.answered ⊆ w'.1.history.answered
  fresh _ _ := True
  serves := (dep.coveredService r).serves

variable {dep r} {s s' : AuditWorld D}

section Steps

/-- An entry under an idempotency key stands in its ledger epoch. -/
theorem snapshot_of_lookup {log : List (Commit D)} {id : JsString} {entry : SignedAuditEntry D}
    (hrecorded : Recorded (fun _ _ => True) log) (hlookup : lookup log id = some entry) :
    entry ∈ (replay log).snapshot entry.core.toAuditLedgerRef := by
  obtain ⟨commit, hcommit, -, rfl⟩ := lookup_mem hlookup
  rw [MemoryAuditJournal.snapshot, entriesByLedger_replay]
  refine List.mem_map_of_mem (mem_commitsAt.mpr ⟨hcommit, ?_⟩)
  rw [Commit.ledgerKey, hrecorded.ledger hcommit]

/-- Where nothing new is issued, what was committed before still is. -/
theorem Unequivocal.of_issued (h : dep.Unequivocal r s)
    (hjournal : ∃ log, Recorded (fun _ _ => True) log ∧ s'.journal = replay log)
    (hissued : ∀ entry, s'.Issued (dep.ledger r) entry → s.Issued (dep.ledger r) entry)
    (hkept : ∀ entry, s'.Issued (dep.ledger r) entry →
      entry ∈ s.journal.snapshot (dep.ledger r) ∨ (s.recorders r).Covers entry →
      entry ∈ s'.journal.snapshot (dep.ledger r) ∨ (s'.recorders r).Covers entry)
    (hclock : ∀ r, dep.times (s'.clock r)) : dep.Unequivocal r s' where
  journal := hjournal
  kept entry hentry := hkept entry hentry (h.kept entry (hissued entry hentry))
  agree entry other hentry hother := h.agree entry other (hissued entry hentry)
    (hissued other hother)
  clock := hclock

/-- The journal answers with entries it holds. -/
theorem Unequivocal.observe (h : dep.Unequivocal r s) (hjournal : s'.journal = s.journal)
    (hrecorders : s'.recorders = s.recorders) (hclock : ∀ r, dep.times (s'.clock r))
    (hanswered : ∀ entry ∈ s'.history.answered,
      entry ∈ s.history.answered ∨ ∃ id, s.journal.entriesByIdempotency id = some entry) :
    dep.Unequivocal r s' := by
  obtain ⟨log, hrecorded, hlog⟩ := h.journal
  refine h.of_issued ⟨log, hrecorded, hjournal.trans hlog⟩ ?_ ?_ hclock
  · rintro entry ⟨hown, hentry | hentry⟩
    · rcases hanswered entry hentry with hentry | ⟨id, hlookup⟩
      · exact ⟨hown, .inl hentry⟩
      · rw [hlog] at hlookup
        refine ⟨hown, .inr ?_⟩
        rw [← hown, hlog]
        exact snapshot_of_lookup hrecorded hlookup
    · exact ⟨hown, .inr (hjournal ▸ hentry)⟩
  · intro entry _ hkept
    rwa [hjournal, hrecorders]

/-- The recorder updates its fields and does not go back. -/
theorem Unequivocal.update (h : dep.Unequivocal r s) {f : RecorderState D → RecorderState D}
    (hf : ∀ entry, (s.recorders r).Covers entry → (f (s.recorders r)).Covers entry) :
    dep.Unequivocal r (s.setRecorder r f) := by
  refine h.of_issued h.journal (fun _ hentry => hentry) ?_ h.clock
  intro entry _ hkept
  simp only [AuditWorld.setRecorder, Function.update_self]
  exact hkept.imp_right (hf entry)

theorem covers_of_advances {f : RecorderState D → RecorderState D}
    (hf : RecorderState.Advances f) (recorder : RecorderState D) {entry : SignedAuditEntry D}
    (h : recorder.Covers entry) : (f recorder).Covers entry := by
  obtain ⟨head, hhead, hle⟩ := h
  obtain ⟨later, hlater, hlate⟩ := (hf recorder).2 head hhead
  exact ⟨later, hlater, hle.trans hlate⟩

/-- Losing what the recorder has committed. -/
theorem Unequivocal.lose (h : dep.Unequivocal r s) (hloses : dep.LosesCovered r s s') :
    dep.Unequivocal r s' := by
  obtain ⟨⟨log, n, hrecorded, hlog, rfl⟩, hcovered⟩ := hloses
  have hsnapshot : ∀ entry, entry ∈ (replay (log.take n)).snapshot (dep.ledger r) →
      entry ∈ s.journal.snapshot (dep.ledger r) := by
    intro entry hentry
    rw [hlog]
    simp only [MemoryAuditJournal.snapshot, entriesByLedger_replay] at hentry ⊢
    obtain ⟨commit, hcommit, rfl⟩ := List.mem_map.mp hentry
    exact List.mem_map_of_mem ((commitsAt_mono (List.take_prefix n log)).subset hcommit)
  refine h.of_issued ⟨_, hrecorded.take n, rfl⟩ ?_ ?_ h.clock
  · rintro entry ⟨hown, hentry | hentry⟩
    · exact ⟨hown, .inl hentry⟩
    · exact ⟨hown, .inr (hsnapshot entry hentry)⟩
  · rintro entry ⟨-, hentry⟩ (hkept | hkept)
    · rcases hentry with hentry | hentry
      · exact hcovered entry hentry hkept
      · exact .inl hentry
    · exact .inr hkept

/-- A new entry takes the sequence after all that were issued. -/
theorem Unequivocal.append (h : dep.Unequivocal r s) {log : List (Commit D)}
    (hrecorded : Recorded (fun _ _ => True) log) (hlog : s.journal = replay log)
    {event : AuditProducerEvent D} {head : Option AuditHead} {entry : SignedAuditEntry D}
    {key : Digest} (hcandidate : dep.Candidate (dep.configs r) event head entry)
    (hfresh : lookup log (idempotencyKey (dep.ledger r).ledgerId key) = none)
    (hhead : head = (replay log).getHead (dep.ledger r))
    (hposition : isBehind head (s.recorders r).committedHead = false)
    (hjournal : s'.journal = replay (log ++ [⟨dep.ledger r, key, entry⟩]))
    (hrecorders : s'.recorders = s.recorders) (hclock : s'.clock = s.clock)
    (hanswered : ∀ seen ∈ s'.history.answered, seen ∈ s.history.answered ∨ seen = entry) :
    dep.Unequivocal r s' := by
  have hsnapshot : s'.journal.snapshot (dep.ledger r) =
      s.journal.snapshot (dep.ledger r) ++ [entry] := by
    simp only [hjournal, hlog, MemoryAuditJournal.snapshot, entriesByLedger_replay,
      commitsAt_concat, Commit.ledgerKey, if_true, List.map_append, List.map_singleton]
  have hissued : ∀ seen, s'.Issued (dep.ledger r) seen →
      s.Issued (dep.ledger r) seen ∨ seen = entry := by
    rintro seen ⟨hown, hseen | hseen⟩
    · exact (hanswered seen hseen).imp_left fun hseen => ⟨hown, .inl hseen⟩
    · rw [hsnapshot, List.mem_append, List.mem_singleton] at hseen
      exact hseen.imp_left fun hseen => ⟨hown, .inr hseen⟩
  have hbelow : ∀ seen, s.Issued (dep.ledger r) seen → seen.core.sequence < nextSequence head := by
    intro seen hseen
    rcases h.kept seen hseen with hkept | ⟨known, hknown, hle⟩
    · rw [hlog, MemoryAuditJournal.snapshot, entriesByLedger_replay] at hkept
      obtain ⟨last, hlast⟩ := Option.ne_none_iff_exists'.mp
        (mt List.getLast?_eq_none_iff.mp (List.ne_nil_of_mem hkept))
      have hbefore := (hrecorded.complete (ledgerKey (dep.ledger r))).sequence_le_last hkept hlast
      rw [List.getLast?_map, Option.map_eq_some_iff] at hlast
      obtain ⟨commit, hcommit, rfl⟩ := hlast
      rw [hhead, getHead_replay, hcommit]
      exact Nat.lt_succ_of_le hbefore
    · rw [Option.mem_def.mp hknown] at hposition
      cases head with
      | none => cases hposition
      | some head =>
          have hnotBehind := of_decide_eq_false hposition
          simp only [nextSequence]
          omega
  have hdiffers : ∀ seen, s.Issued (dep.ledger r) seen →
      seen.core.sequence ≠ entry.core.sequence := by
    intro seen hseen
    rw [hcandidate.sequence]
    exact (hbelow seen hseen).ne
  refine ⟨⟨_, hrecorded.concat (hcandidate.appendable hfresh hhead) trivial, hjournal⟩, ?_, ?_, ?_⟩
  · intro seen hseen
    rw [hsnapshot, hrecorders]
    rcases hissued seen hseen with hseen | rfl
    · exact (h.kept seen hseen).imp_left (List.mem_append_left _)
    · exact .inl (List.mem_append_right _ (List.mem_singleton_self _))
  · intro seen other hseen hother hsequence
    rcases hissued seen hseen with hseen | rfl
    · rcases hissued other hother with hother | rfl
      · exact h.agree seen other hseen hother hsequence
      · exact absurd hsequence (hdiffers seen hseen)
    · rcases hissued other hother with hother | rfl
      · exact absurd hsequence.symm (hdiffers other hother)
      · rfl
  · rw [hclock]
    exact h.clock

end Steps

end Deployment

section Contracts

variable {dep : Deployment D} {r : Nat} {c : SubmitCall D}

theorem unequivocalProtocol_hosts : dep.Hosts False (dep.unequivocalProtocol r) where
  refl _ _ := List.Subset.refl _
  trans _ _ _ _ h h' := List.Subset.trans h h'
  served _ _ _ _ _ h := h.1.serves
  observes c request asked answer s' hreads hasked h := by
    have happends : request.appends = false := by
      cases request <;> first | rfl | cases hreads
    obtain ⟨hjournal, hrecorders, hclock, -⟩ := h.1.kept happends
    refine ⟨(), ?_, fun _ _ => h.1.answered_subset, h.1.answered_subset⟩
    exact hasked.observe hjournal hrecorders (hclock ▸ hasked.clock)
      fun _ => h.1.answered happends
  steady := nofun
  regular := nofun
  clock _ hw := hw.clock

theorem unequivocalProtocol_trans (w w' w'' : AuditWorld D × Unit)
    (h : (dep.unequivocalProtocol r).guarantee c w w')
    (h' : (dep.unequivocalProtocol r).guarantee c w' w'') :
    (dep.unequivocalProtocol r).guarantee c w w'' :=
  fun other hother => List.Subset.trans (h other hother) (h' other hother)

/-- The service was answered with an entry. -/
def Answered (entry : SignedAuditEntry D) (w : AuditWorld D × Unit) : Prop :=
  entry ∈ w.1.history.answered

/-- A request that leaves the invariant in force brings only entries that are written down. -/
theorem ask_brings {request : AuditRequest D}
    (hkept : ∀ s answer s', dep.Unequivocal r s →
      (dep.coveredService r).serves c request s answer s' → dep.Unequivocal r s') :
    (dep.unequivocalProtocol r).Contract c (fun _ => True) (reply request)
      fun answer w => ∀ entry ∈ request.brings answer, Answered entry w := by
  apply Protocol.Contract.ask _ fun _ _ _ => List.Subset.refl _
  intro w asked _ _ hasked _ answer s' hserves
  refine ⟨(), hkept _ _ _ hasked hserves, fun _ _ => hserves.1.answered_subset, ?_⟩
  intro resumed _ hrely entry hentry
  exact hrely (hserves.1.brought hentry)

/-- A request that is not an append leaves the invariant in force. -/
theorem ask_unequivocal {request : AuditRequest D} (happends : request.appends = false) :
    (dep.unequivocalProtocol r).Contract c (fun _ => True) (reply request)
      fun answer w => ∀ entry ∈ request.brings answer, Answered entry w := by
  apply ask_brings
  intro s answer s' hs hserves
  obtain ⟨hjournal, hrecorders, hclock, -⟩ := hserves.1.kept happends
  exact hs.observe hjournal hrecorders (hclock ▸ hs.clock) fun _ => hserves.1.answered happends

theorem compareAndAppend_unequivocal {event : AuditProducerEvent D} {head : Option AuditHead}
    {entry : SignedAuditEntry D} {key : Digest}
    (hcandidate : dep.Candidate (dep.configs r) event head entry) :
    (dep.unequivocalProtocol r).Contract c (fun _ => True)
      (reply (.compareAndAppend (dep.ledger r) head entry key))
      fun answer w => ∀ seen ∈ (AuditRequest.compareAndAppend (dep.ledger r) head entry key).brings
        answer, Answered seen w := by
  apply ask_brings
  rintro s answer s' hs ⟨⟨served, ⟨rfl, hanswer⟩, rfl⟩ | ⟨rfl, -⟩, hposition⟩
  · obtain ⟨log, hrecorded, hlog⟩ := hs.journal
    obtain ⟨log', hcompared, hjournal⟩ := compareAndAppend_replay log (dep.ledger r) head entry key
    rw [← hlog] at hcompared hjournal
    have hbrings : ∀ result, (s.journal.compareAndAppend (dep.ledger r) head entry key).1 = result →
        ∀ seen ∈ (AuditRequest.compareAndAppend (dep.ledger r) head entry key).brings answer,
          seen ∈ result.entry? := by
      rintro result rfl seen hseen
      rcases hanswer with rfl | ⟨_, -, rfl⟩
      · exact Option.mem_toList.mp hseen
      · cases hseen
    generalize hresult : (s.journal.compareAndAppend (dep.ledger r) head entry key).1 = result
      at hcompared
    cases hcompared with
    | @duplicate existing hlookup _ | @idempotencyConflict existing hlookup _ =>
        refine hs.observe (hjournal.trans hlog.symm) rfl hs.clock ?_
        intro seen hseen
        rcases List.mem_append.mp hseen with hseen | hseen
        · exact .inl hseen
        · have hfound : existing = seen := Option.some.inj (hbrings _ hresult seen hseen)
          subst hfound
          rw [hlog]
          exact .inr ⟨_, hlookup⟩
    | headConflict =>
        refine hs.observe (hjournal.trans hlog.symm) rfl hs.clock ?_
        intro seen hseen
        rcases List.mem_append.mp hseen with hseen | hseen
        · exact .inl hseen
        · cases hbrings _ hresult seen hseen
    | appended hlookup hheads =>
        have hadds : (AuditRequest.compareAndAppend (dep.ledger r) head entry key).adds s.journal =
            [entry] := by
          simp only [AuditRequest.adds, hresult]
        have haccepted : isBehind head (s.recorders r).committedHead = false := by
          apply hposition
          simp [AuditHistory.after, hadds]
        refine hs.append hrecorded hlog hcandidate hlookup (headsEqual_iff.mp (hlog ▸ hheads))
          haccepted hjournal rfl rfl ?_
        intro seen hseen
        rcases List.mem_append.mp hseen with hseen | hseen
        · exact .inl hseen
        · exact .inr (Option.some.inj (hbrings _ hresult seen hseen)).symm
  · exact hs

theorem kept_unequivocal {Q : AuditWorld D × Unit → Prop}
    (hQ : ∀ w f, Q w → Q (w.1.setRecorder r f, w.2)) :
    KeptByUpdates (dep.unequivocalProtocol r) c r Q :=
  fun f hf w hw hpre => ⟨(), hw.update fun _ => Deployment.covers_of_advances hf _,
    fun _ _ => List.Subset.refl _, hQ w f hpre⟩

theorem unequivocal_appending {genesis : Bool} {event : AuditProducerEvent D}
    {identity : EventIdentity} (hdigest : dep.digestOfEvent event = .ok identity.eventDigest) :
    dep.Appending (dep.unequivocalProtocol r) c r genesis event identity (fun _ => True)
      Answered where
  digest := hdigest
  stable := fun _ _ _ _ _ _ => trivial
  update _ := kept_unequivocal fun _ _ h => h
  lookup := by
    apply (ask_unequivocal rfl).mono_post
    rintro result w - hbrought
    refine ⟨trivial, ?_⟩
    rintro entry rfl
    exact hbrought entry (List.mem_singleton_self entry)
  append head entry hcandidate _ := by
    apply (compareAndAppend_unequivocal hcandidate).mono_post
    rintro result w - hbrought
    refine ⟨trivial, ?_⟩
    rintro answer seen rfl hseen
    exact hbrought seen (Option.mem_toList.mpr hseen)

/-- An update that leaves the journal and the committed head alone. -/
theorem update_unequivocal {α : Type} {f : AuditWorld D → AuditWorld D}
    {next : Unit → RecorderM D α} {post : Except AuditError α → AuditWorld D × Unit → Prop}
    (hkept : ∀ s, dep.Unequivocal r s → dep.Unequivocal r (f s) ∧
      (f s).history.answered = s.history.answered)
    (hnext : (dep.unequivocalProtocol r).Contract c (fun _ => True) (next ()) post) :
    (dep.unequivocalProtocol r).Contract c (fun _ => True) (Async.update f >>= next) post := by
  refine Protocol.Contract.update unequivocalProtocol_trans ?_ hnext
  intro w hw _
  obtain ⟨hinv, hanswered⟩ := hkept w.1 hw
  have hsame : w.1.history.answered ⊆ (f w.1).history.answered :=
    hanswered.symm ▸ List.Subset.refl _
  exact ⟨(), hinv, fun _ _ => hsame, trivial⟩

theorem appendWithEvidence_concluded {submission : AuditRecorderSubmission D}
    {event : AuditProducerEvent D} {identity : EventIdentity}
    (hdigest : dep.digestOfEvent event = .ok identity.eventDigest) :
    (dep.unequivocalProtocol r).Contract c (fun _ => True)
      (appendWithEvidence dep.runtime (dep.configs r) r submission event identity)
      (Concluded (fun _ => True) Answered) := by
  have hask : ∀ request : AuditRequest D, request.appends = false →
      (dep.unequivocalProtocol r).Contract c (fun _ => True) (reply request) fun _ _ => True :=
    fun _ happends => (ask_unequivocal happends).mono_post fun _ _ _ _ => trivial
  unfold appendWithEvidence
  apply Protocol.Contract.bind (persistSubmittedEvidence_contract hask _ _ _)
  · intro stored
    apply Protocol.Contract.of_weaker (fun _ => True) _ fun _ _ _ => trivial
    apply Protocol.Contract.tryCatch
      (appendIdentified_concluded unequivocalProtocol_hosts (unequivocal_appending hdigest))
    · exact fun _ _ _ h => h
    · intro e
      have hdispose : (dep.unequivocalProtocol r).Contract c (fun _ => True)
          (disposeStored r stored) fun _ _ => True := by
        apply disposeStored_contract hask
        intro item _
        apply Protocol.Contract.of_weaker (fun _ => True) _ fun _ _ _ => trivial
        refine Protocol.Contract.update unequivocalProtocol_trans ?_ (.pure fun _ _ h => h)
        intro w hw _
        exact ⟨(), hw.observe rfl rfl hw.clock fun _ hentry => .inl hentry,
          fun _ _ => List.Subset.refl _, trivial⟩
      apply Protocol.Contract.of_weaker (fun _ => True) _ fun _ _ _ => trivial
      apply Protocol.Contract.bind (disposeUncommittedEvidence_contract
        ((hask _ rfl).mono_post fun _ _ _ _ => ⟨trivial, fun _ => trivial⟩) hdispose)
      · exact fun _ => .throw fun _ _ _ => ⟨trivial, nofun⟩
      · exact fun _ _ _ _ => ⟨trivial, nofun⟩
  · exact fun _ _ _ _ => ⟨trivial, nofun⟩

theorem submitNew_concluded {submission : AuditRecorderSubmission D}
    {event : AuditProducerEvent D} {identity : EventIdentity}
    (hdigest : dep.digestOfEvent event = .ok identity.eventDigest) :
    (dep.unequivocalProtocol r).Contract c (fun _ => True)
      (submitNew dep.runtime (dep.configs r) r submission event identity)
      (Concluded (fun _ => True) Answered) := by
  unfold submitNew
  split
  · exact .ofExcept fun _ _ _ => ⟨trivial, nofun⟩
  · apply Protocol.Contract.bind (ensureInitialized_keeps unequivocalProtocol_hosts
      (fun _ _ _ _ _ _ => trivial) (kept_unequivocal fun _ _ h => h)
      fun _ _ hidentifies => unequivocal_appending hidentifies.eventDigest)
    · intro _
      refine update_unequivocal (fun s hs => ⟨hs.update ?_, rfl⟩) ?_
      · exact fun _ hcovers => hcovers
      apply Protocol.Contract.finally_ unequivocalProtocol_trans
        (appendWithEvidence_concluded hdigest)
      intro result w hw h
      have hreleased : dep.Unequivocal r (w.1.setRecorder r fun recorder =>
          recorder.releaseEvidence (evidenceObjectIds submission.encryptedEvidence)) :=
        hw.update fun _ hcovers => hcovers
      exact ⟨(), hreleased, fun _ _ => List.Subset.refl _, h⟩
    · exact fun _ _ _ _ => ⟨trivial, nofun⟩

/-- What the service returns, it was answered with. -/
theorem serviceCode_concluded :
    (dep.unequivocalProtocol r).Contract c (fun _ => True) (dep.serviceCode r c)
      (Concluded (fun _ => True) Answered) := by
  have hfails : ∀ {result : Except AuditError (SignedAuditEntry D)} {e : AuditError}
      {w : AuditWorld D × Unit}, result = .error e →
        Concluded (fun _ => True) Answered result w := by
    rintro _ e w rfl
    exact ⟨trivial, nofun⟩
  unfold Deployment.serviceCode submitAuthenticated
  apply Protocol.Contract.check _ fun _ _ _ _ _ => hfails rfl
  intro _ _
  apply Protocol.Contract.check _ fun _ _ _ _ _ => hfails rfl
  intro event _
  apply Protocol.Contract.check _ fun _ _ _ _ _ => hfails rfl
  intro _ _
  have hauthorized : (dep.unequivocalProtocol r).Contract c (fun _ => True)
      (authorizeSubmission (dep.configs r) r c.submission c.context) fun _ _ => True := by
    unfold authorizeSubmission
    split
    · exact (ask_unequivocal rfl).mono_post fun _ _ _ _ => trivial
    · exact .pure fun _ _ _ => trivial
  apply Protocol.Contract.bind hauthorized _ fun _ _ _ _ => hfails rfl
  intro authorized
  cases authorized with
  | false => exact .ofExcept fun _ _ _ => hfails rfl
  | true =>
      apply Protocol.Contract.bind (identifyEvent_contract unequivocalProtocol_hosts
        (fun _ _ _ _ _ _ => trivial) (dep.configs r) event c.context) _
        fun _ _ _ _ => hfails rfl
      intro identity
      apply Protocol.Contract.of_pre fun _ _ h => h.2
      intro hidentifies
      have A : dep.Appending (dep.unequivocalProtocol r) c r false event identity (fun _ => True)
          Answered := unequivocal_appending hidentifies.eventDigest
      apply Protocol.Contract.of_weaker (fun _ => True) _ fun _ _ _ => trivial
      apply Protocol.Contract.bind A.lookup _ fun _ _ _ _ => hfails rfl
      intro found
      cases found with
      | some existing =>
          have hresolved : (dep.unequivocalProtocol r).Contract c
              (fun w => True ∧ Answered existing w) (Async.ofExcept (resolveExisting dep.runtime
                (dep.configs r) false existing identity.eventDigest))
              (Concluded (fun _ => True) Answered) := resolveExisting_concluded false existing _
          exact hresolved.mono_pre fun _ _ h => ⟨h.1, h.2 existing rfl⟩
      | none =>
          exact (submitNew_concluded hidentifies.eventDigest).mono_pre fun _ _ _ => trivial

end Contracts

/-- In a run whose appends are accepted at the recorder's position, and which loses of the
entries answered only what the recorder committed, no two entries of its epoch are returned
under one sequence. -/
theorem service_never_equivocates (dep : Deployment D) (r : Nat) {log : List (Commit D)}
    {s : AuditWorld D} (hstarts : dep.Starts log s) (hhistory : s.history = {})
    (hrecorded : Recorded (fun _ _ => True) log)
    {config : Config (recorderSetting D) (SubmitCall D) (SignedAuditEntry D)}
    (hreaches : (dep.coveredService r).Reaches (Program.initial s) config)
    {c c' : SubmitCall D} {born born' : AuditWorld D} {entry entry' : SignedAuditEntry D}
    (hc : config.calls c = some ⟨born, .finished (.ok entry)⟩)
    (hc' : config.calls c' = some ⟨born', .finished (.ok entry')⟩)
    (hepoch : entry.core.toAuditLedgerRef = dep.ledger r)
    (hepoch' : entry'.core.toAuditLedgerRef = dep.ledger r)
    (hsequence : entry.core.sequence = entry'.core.sequence) : entry = entry' := by
  have hdiscipline : Discipline (dep.coveredService r) (dep.unequivocalProtocol r)
      fun _ _ result w => Concluded (fun _ => True) Answered result w :=
    { rely_refl := fun _ _ => List.Subset.refl _
      rely_trans := fun _ _ _ _ h h' => List.Subset.trans h h'
      serves := fun _ _ _ _ _ h => h
      environment := by
        rintro w s' hw (hloses | ⟨⟨hjournal, hrecorders, hclock⟩, hhistory⟩)
        · refine ⟨(), hw.lose hloses, fun _ => ?_⟩
          obtain ⟨⟨_, _, -, -, rfl⟩, -⟩ := hloses
          exact List.Subset.refl _
        · have hsame : w.1.history.answered ⊆ s'.history.answered :=
            hhistory.symm ▸ List.Subset.refl _
          exact ⟨(), hw.observe hjournal hrecorders hclock fun _ hentry => .inl (hhistory ▸ hentry),
            fun _ => hsame⟩
      fresh_stable := fun _ _ _ _ _ _ => trivial
      code := fun c _ _ _ w hw _ =>
        serviceCode_concluded w w.1 () hw (fun _ _ => List.Subset.refl _) trivial
      post_stable := fun _ _ result _ _ h _ hrely =>
        ⟨trivial, fun entry hentry => hrely (h.2 entry hentry)⟩ }
  have hinitial : dep.Unequivocal r s := by
    have hissued : ∀ entry, s.Issued (dep.ledger r) entry →
        entry ∈ s.journal.snapshot (dep.ledger r) := by
      rintro entry ⟨-, hentry | hentry⟩
      · rw [hhistory] at hentry
        cases hentry
      · exact hentry
    refine ⟨⟨log, hrecorded, hstarts.journal⟩, fun entry hentry => .inl (hissued entry hentry), ?_,
      hstarts.clock⟩
    intro entry other hentry hother hsame
    have hcomplete := hrecorded.complete (ledgerKey (dep.ledger r))
    have hmem := hissued entry hentry
    have hmem' := hissued other hother
    rw [hstarts.journal, MemoryAuditJournal.snapshot, entriesByLedger_replay] at hmem hmem'
    exact hcomplete.eq_of_sequence_eq hmem hmem' hsame
  have hsound : (Program.initial s).Sound (dep.unequivocalProtocol r)
      fun _ _ result w => Concluded (fun _ => True) Answered result w :=
    sound_initial (g := ()) hinitial fun _ => trivial
  obtain ⟨_, hinv, -, hcalls⟩ := hreaches.sound hdiscipline hsound
  have hanswered := (hcalls c _ hc).2 entry rfl
  have hanswered' := (hcalls c' _ hc').2 entry' rfl
  exact hinv.agree entry entry' ⟨hepoch, .inl hanswered⟩ ⟨hepoch', .inl hanswered'⟩ hsequence

section Sample

theorem lossyService_answers (c : SubmitCall SampleDouble) :
    sampleDeployment.Answers (fun _ _ => True) ((sampleDeployment.lossyService 0).serves c) :=
  fun _ _ _ _ happends hbrings hserved _ => .of_quiet happends hbrings hserved

/-- A submission on the genesis waits for the journal to take its entry. -/
theorem sampleSubmission_pauses {serves : Serving (recorderSetting SampleDouble)}
    (A : sampleDeployment.Answers (fun _ _ => True) serves) (number : Nat) {eventId : JsString}
    {s : AuditWorld SampleDouble}
    (hfresh : SampleFresh eventId) (hjournal : s.journal = replay [sampleGenesis])
    (hcommitted : (s.recorders 0).committedHead = none) (hclock : s.clock 0 = .zero)
    (resumed : AuditWorld SampleDouble) :
    Leads.Pauses serves (sampleDeployment.serviceCode 0 (sampleSubmission number eventId)) s
      (s.setRecorder 0 fun recorder => recorder.holdEvidence [])
      (.compareAndAppend sampleConfig.toAuditLedgerRef (some sampleGenesis.head)
        (sampleCommit eventId).entry (sampleCommit eventId).key)
      (.ok (.appended (sampleCommit eventId).entry)) resumed
      ((resumed.setRecorder 0 fun recorder =>
        recorder.commit (sampleCommit eventId).head).setRecorder
        0 fun recorder => recorder.releaseEvidence [])
      (.finished (.ok (sampleCommit eventId).entry)) := by
  have hhead : s.journal.getHead (sampleDeployment.ledger 0) = some sampleGenesis.head := by
    rw [hjournal]
    rfl
  have hcommitted' : ((s.setRecorder 0 fun recorder =>
      recorder.holdEvidence []).recorders 0).committedHead = none := by
    rw [AuditWorld.setRecorder]
    simpa [RecorderState.holdEvidence] using hcommitted
  exact sampleSubmission_attempts A number hfresh hjournal List.prefix_rfl hfresh.lookup trivial
    (sampleAttempt_pauses A 256 hfresh hcommitted' (.inr (.inl hhead.symm)) trivial rfl
      (hasLoneSurrogate_sampleDigest _ _) hclock (concludeAppend_appended _))

/-- An append on the genesis is taken. -/
theorem sampleCommit_accepted (c : SubmitCall SampleDouble) {eventId : JsString}
    {s : AuditWorld SampleDouble} (hfresh : SampleFresh eventId)
    (hjournal : s.journal = replay [sampleGenesis]) :
    ∃ s', sampleDeployment.Records c
        (.compareAndAppend sampleConfig.toAuditLedgerRef (some sampleGenesis.head)
          (sampleCommit eventId).entry (sampleCommit eventId).key) s
        (.ok (.appended (sampleCommit eventId).entry)) s' ∧
      s'.journal = replay [sampleGenesis, sampleCommit eventId] ∧ s'.recorders = s.recorders ∧
      s'.clock = s.clock := by
  have hresult : s.journal.compareAndAppend sampleConfig.toAuditLedgerRef
      (some sampleGenesis.head) (sampleCommit eventId).entry (sampleCommit eventId).key =
      (.appended (sampleCommit eventId).entry, replay [sampleGenesis, sampleCommit eventId]) := by
    rw [hjournal]
    exact sampleCommit_appends hfresh
  refine ⟨_, .inl ⟨_, ⟨rfl, .inl (congrArg (Except.ok ∘ Prod.fst) hresult).symm⟩, rfl⟩,
    ?_, rfl, rfl⟩
  exact congrArg Prod.snd hresult

theorem coveredService_answers (c : SubmitCall SampleDouble) :
    sampleDeployment.Answers (fun _ _ => True) ((sampleDeployment.coveredService 0).serves c) := by
  intro request s answer s' happends hbrings hserved _
  have hrecords : sampleDeployment.Records c request s answer s' :=
    .of_quiet happends hbrings hserved
  exact ⟨hrecords, fun hadded => absurd (hrecords.kept happends).2.2.2.1 hadded⟩

/-- An event submitted twice comes to one entry. -/
theorem service_never_equivocates_twice :
    ∃ (config : Config (recorderSetting SampleDouble) (SubmitCall SampleDouble)
        (SignedAuditEntry SampleDouble)) (born born' : AuditWorld SampleDouble)
      (entry entry' : SignedAuditEntry SampleDouble),
      config.calls (sampleSubmission 0 (js "first")) = some ⟨born, .finished (.ok entry)⟩ ∧
        config.calls (sampleSubmission 1 (js "first")) = some ⟨born', .finished (.ok entry')⟩ ∧
        entry = entry' := by
  have hfirst := sampleFresh_first
  obtain ⟨taken, hserves, htaken, -, -⟩ := sampleCommit_accepted
    (sampleSubmission 0 (js "first")) hfirst
    (s := (sampleWorld [sampleGenesis]).setRecorder 0 fun recorder => recorder.holdEvidence []) rfl
  have hruns := (sampleSubmission_pauses (coveredService_answers _) 0 hfirst
    (s := sampleWorld [sampleGenesis]) rfl rfl rfl taken).leads ⟨hserves, fun _ => rfl⟩
  generalize hend : (taken.setRecorder 0 fun recorder =>
    recorder.commit (sampleCommit (js "first")).head).setRecorder 0
      (fun recorder => recorder.releaseEvidence []) = committed at hruns
  have hjournal : committed.journal = replay ([sampleGenesis] ++ [sampleCommit (js "first")]) := by
    rw [← hend]
    exact htaken
  have hfound : committed.journal.getByIdempotencyKey (js "ledger")
      (sampleCommit (js "first")).key = some (sampleCommit (js "first")).entry := by
    have hmem : sampleCommit (js "first") ∈ [sampleGenesis, sampleCommit (js "first")] :=
      List.mem_cons_of_mem _ (List.mem_singleton_self _)
    rw [hjournal]
    exact (sampleCommit_recorded hfirst).lookup_of_mem hmem
  obtain ⟨noted, hlookup⟩ : ∃ noted, (sampleDeployment.coveredService 0).serves
      (sampleSubmission 1 (js "first"))
      (.getByIdempotencyKey (js "ledger") (sampleCommit (js "first")).key) committed
      (.ok (some (sampleCommit (js "first")).entry)) noted :=
    ⟨_, .inl ⟨committed, ⟨rfl, congrArg Except.ok hfound.symm⟩, rfl⟩, fun _ => trivial⟩
  have hresolved : resolveDuplicate (sampleCommit (js "first")).entry
      (sampleIdentity (js "did:web:producer") (sampleEvent (js "first") [])).eventDigest =
      .ok (sampleCommit (js "first")).entry := if_neg (not_not.mpr rfl)
  have hagain : (sampleDeployment.serviceCode 0 (sampleSubmission 1 (js "first"))).Leads
      ((sampleDeployment.coveredService 0).serves (sampleSubmission 1 (js "first"))) committed noted
      (.finished (.ok (sampleCommit (js "first")).entry)) := by
    rw [← hresolved]
    exact submitAuthenticated_leads (c := sampleSubmission 1 (js "first"))
      (sampleCall_admission hfirst.event (by decide) rfl rfl) rfl
      (submitAuthorized_duplicate (coveredService_answers (sampleSubmission 1 (js "first")))
        (sampleIdentity_identifies hfirst.event hfirst.source) hlookup)
  have hne : sampleSubmission 1 (js "first") ≠ sampleSubmission 0 (js "first") := by
    intro hsame
    cases congrArg SubmitCall.number hsame
  obtain ⟨config, hreaches, -, hc, hdone, -⟩ := hruns.run_both hne hagain
  exact ⟨config, _, _, _, _, hc, hdone, service_never_equivocates sampleDeployment 0
    (sampleWorld_starts _) rfl (sampleGenesis_recorded.weaken fun _ _ _ => trivial) hreaches hc
    hdone rfl rfl rfl⟩

/-- One submission waits for the journal on the genesis while another is committed on it; the
journal loses that entry and takes the first. -/
theorem lossyService_equivocates : sampleDeployment.Starts [sampleGenesis]
      (sampleWorld [sampleGenesis]) ∧ (sampleWorld [sampleGenesis]).history = {} ∧
    Recorded (fun _ _ => True) [sampleGenesis] ∧
    ∃ (config : Config (recorderSetting SampleDouble) (SubmitCall SampleDouble)
        (SignedAuditEntry SampleDouble))
      (c c' : SubmitCall SampleDouble) (born born' : AuditWorld SampleDouble)
      (entry entry' : SignedAuditEntry SampleDouble),
      (sampleDeployment.lossyService 0).Reaches (Program.initial (sampleWorld [sampleGenesis]))
          config ∧
        config.calls c = some ⟨born, .finished (.ok entry)⟩ ∧
        config.calls c' = some ⟨born', .finished (.ok entry')⟩ ∧
        entry.core.toAuditLedgerRef = sampleDeployment.ledger 0 ∧
        entry'.core.toAuditLedgerRef = sampleDeployment.ledger 0 ∧
        entry.core.sequence = entry'.core.sequence ∧ entry.entryDigest ≠ entry'.entryDigest := by
  refine ⟨sampleWorld_starts _, rfl, sampleGenesis_recorded.weaken fun _ _ _ => trivial, ?_⟩
  have hfirst := sampleFresh_first
  have hsecond := sampleFresh_second
  -- the second submission runs while the first waits
  generalize hheld : (sampleWorld [sampleGenesis]).setRecorder 0
    (fun recorder => recorder.holdEvidence []) = held
  have hjournal : held.journal = replay [sampleGenesis] := by rw [← hheld]; rfl
  have hcommitted : (held.recorders 0).committedHead = none := by rw [← hheld]; rfl
  have hclock : held.clock 0 = .zero := by rw [← hheld]; rfl
  obtain ⟨taken, hserves, htaken, -, -⟩ := sampleCommit_accepted
    (sampleSubmission 1 (js "second")) hsecond
    (s := held.setRecorder 0 fun recorder => recorder.holdEvidence []) hjournal
  have hruns := (sampleSubmission_pauses (lossyService_answers _) 1 hsecond hjournal hcommitted
    hclock
    taken).leads hserves
  generalize hend : (taken.setRecorder 0 fun recorder =>
    recorder.commit (sampleCommit (js "second")).head).setRecorder 0
      (fun recorder => recorder.releaseEvidence []) = committed at hruns
  -- the journal loses the second entry and takes the first
  have hloses : Deployment.Loses committed
      { committed with journal := replay [sampleGenesis] } := by
    refine ⟨[sampleGenesis, sampleCommit (js "second")], 1,
      (sampleCommit_recorded hsecond).weaken fun _ _ _ => trivial, ?_, rfl⟩
    rw [← hend]
    exact htaken
  obtain ⟨again, hserves', -⟩ := sampleCommit_accepted (sampleSubmission 0 (js "first")) hfirst
    (s := { committed with journal := replay [sampleGenesis] }) rfl
  obtain ⟨k, hwaits, hresumes⟩ := sampleSubmission_pauses
    (lossyService_answers (sampleSubmission 0 (js "first")))
    0 hfirst
    (s := sampleWorld [sampleGenesis]) rfl rfl rfl again
  rw [hheld] at hwaits
  have hne : sampleSubmission 1 (js "second") ≠ sampleSubmission 0 (js "first") := by
    intro hsame
    cases congrArg SubmitCall.number hsame
  obtain ⟨finished, hreaches, hstate, hwaiting, hfinished, -⟩ := hwaits.run_both hne hruns
  have hlost : (sampleDeployment.lossyService 0).Step finished
      ⟨{ committed with journal := replay [sampleGenesis] }, finished.calls⟩ :=
    .act (.inl (hstate.symm ▸ hloses))
  have hstill : (⟨{ committed with journal := replay [sampleGenesis] }, finished.calls⟩ :
      Config (recorderSetting SampleDouble) (SubmitCall SampleDouble)
        (SignedAuditEntry SampleDouble)).calls (sampleSubmission 0 (js "first")) = _ := hwaiting
  obtain ⟨config, hreaches', hdone⟩ := Leads.reaches_served hstill hserves' hresumes
  refine ⟨config, _, _, _, _, _, _, .trans (.step hreaches hlost) hreaches', hdone.moved,
    (hdone.others _ hne).trans hfinished, rfl, rfl, rfl, ?_⟩
  exact sampleCommit_ne (by decide) hfirst.event hsecond.event

end Sample

end KyaOs.Audit
