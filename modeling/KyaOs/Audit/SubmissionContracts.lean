import KyaOs.Audit.RecorderContracts

/-!
# What a submission keeps

A fact that no request and no update of a submission disturbs is kept by every function of
the recorder, and what an append returns is an entry the journal answered with. A claim
chooses the fact, and what it is for an entry to be `Seen`.
-/

namespace KyaOs.Audit

open Js Concurrency

variable {D γ : Type}

/-- The requests that only the append makes. -/
def AuditRequest.appends : AuditRequest D → Bool
  | .compareAndAppend .. => true
  | _ => false

theorem Deployment.Serves.kept {dep : Deployment D} {request : AuditRequest D} {s s' : AuditWorld D}
    {answer : Except AuditError request.Answer} (h : dep.Serves request s answer s')
    (happends : request.appends = false) :
    s'.journal = s.journal ∧ s'.recorders = s.recorders ∧ s'.clock = s.clock := by
  rcases h with h | ⟨rfl, -⟩
  · cases request with
    | compareAndAppend => cases happends
    | putIfAbsent =>
        obtain ⟨-, rfl⟩ := h
        exact ⟨rfl, rfl, rfl⟩
    | _ =>
        obtain ⟨rfl, -⟩ := h
        exact ⟨rfl, rfl, rfl⟩
  · exact ⟨rfl, rfl, rfl⟩

/-- The entry a journal answers an append with. -/
def AuditAppendResult.entry? : AuditAppendResult D → Option (SignedAuditEntry D)
  | .appended entry | .duplicate entry | .idempotencyConflict entry => some entry
  | .headConflict _ => none

/-- An update that leaves the held evidence alone and does not lower the committed head. -/
def RecorderState.Advances (f : RecorderState D → RecorderState D) : Prop :=
  ∀ recorder, (f recorder).heldEvidence = recorder.heldEvidence ∧
    ∀ known ∈ recorder.committedHead, ∃ later ∈ (f recorder).committedHead,
      known.sequence ≤ later.sequence

theorem higherHead_advances {current : Option AuditHead} (candidate : Option AuditHead) :
    ∀ known ∈ current, ∃ later ∈ higherHead current candidate, known.sequence ≤ later.sequence := by
  intro known hknown
  cases hknown
  cases candidate with
  | none => exact ⟨known, rfl, le_refl _⟩
  | some candidate =>
      simp only [higherHead]
      split
      · exact ⟨candidate, rfl, by omega⟩
      · exact ⟨known, rfl, le_refl _⟩

theorem commit_advances (head : AuditHead) :
    RecorderState.Advances fun recorder : RecorderState D => recorder.commit head :=
  fun _ => ⟨rfl, higherHead_advances _⟩

theorem report_advances (head : Option AuditHead) :
    RecorderState.Advances fun recorder : RecorderState D => recorder.report head :=
  fun _ => ⟨rfl, fun known hknown => ⟨known, hknown, le_refl _⟩⟩

theorem beginInitialization_advances :
    RecorderState.Advances (RecorderState.beginInitialization (D := D)) :=
  fun _ => ⟨rfl, fun known hknown => ⟨known, hknown, le_refl _⟩⟩

theorem endInitialization_advances (promise : Nat)
    (result : Except AuditError (SignedAuditEntry D)) :
    RecorderState.Advances fun recorder => recorder.endInitialization promise result :=
  fun _ => ⟨rfl, fun known hknown => ⟨known, hknown, le_refl _⟩⟩

section Contracts

variable {dep : Deployment D} {calm : Prop} {P : Protocol (recorderSetting D) (SubmitCall D) γ}
  {c : SubmitCall D} {r : Nat} {Q : AuditWorld D × γ → Prop}

section Evidence

variable (hask : ∀ request : AuditRequest D, request.appends = false →
    P.Contract c Q (reply request) fun _ w => Q w)
include hask

theorem persistEvidence_contract (event : AuditProducerEvent D)
    (evidence : List (EncryptedEvidenceInput D)) (submitted : List JsString)
    (stored : List (EncryptedEvidenceInput D)) :
    P.Contract c Q (persistEvidence dep.runtime event submitted stored evidence)
      fun _ w => Q w := by
  induction evidence generalizing submitted stored with
  | nil => exact .pure fun _ _ hQ => hQ
  | cons item rest ih =>
      unfold persistEvidence
      apply Protocol.Contract.check
      · intro unreferenced _
        split
        · exact .ofExcept fun _ _ hQ => hQ
        · apply Protocol.Contract.bind (hask _ rfl)
          · intro existed
            apply Protocol.Contract.bind (hask _ rfl)
            · intro _
              exact ih _ _
            · exact fun _ _ _ hQ => hQ
          · exact fun _ _ _ hQ => hQ
      · exact fun _ _ _ _ hQ => hQ

theorem persistSubmittedEvidence_contract (config : AuditRecorderServiceConfig D)
    (evidence : List (EncryptedEvidenceInput D)) (event : AuditProducerEvent D) :
    P.Contract c Q (persistSubmittedEvidence dep.runtime config evidence event)
      fun result w => Q w ∧ ∀ e, result = .error e → evidence ≠ [] := by
  unfold persistSubmittedEvidence
  by_cases hevidence : evidence = []
  · rw [if_pos hevidence]
    exact .pure fun _ _ hQ => ⟨hQ, nofun⟩
  rw [if_neg hevidence]
  split
  · exact .ofExcept fun _ _ hQ => ⟨hQ, fun _ _ => hevidence⟩
  · apply Protocol.Contract.tryCatch (persistEvidence_contract hask event evidence [] [])
    · exact fun _ _ _ hQ => ⟨hQ, nofun⟩
    · intro e
      split
      · exact .throw fun _ _ hQ => ⟨hQ, fun _ _ => hevidence⟩
      · exact .ofExcept fun _ _ hQ => ⟨hQ, fun _ _ => hevidence⟩

/-- Disposals of unshared objects, by a call that knows its event is not committed. -/
theorem disposeStored_contract {stored : List (EncryptedEvidenceInput D)}
    (hdispose : ∀ item ∈ stored, P.Contract c
      (fun w => Q w ∧ ((w.1.recorders r).heldEvidence item.objectId).any (·.shared) = false)
      (Async.update fun world : AuditWorld D =>
        { world with evidence := (world.evidence.dispose item.ref).2 }) fun _ w => Q w) :
    P.Contract c Q (disposeStored r stored) fun _ w => Q w := by
  induction stored with
  | nil => exact .pure fun _ _ hQ => hQ
  | cons item rest ih =>
      have hrest := ih fun other hother => hdispose other (List.mem_cons_of_mem item hother)
      unfold disposeStored
      apply Protocol.Contract.state
      intro s
      by_cases hshared : ((s.recorders r).heldEvidence item.objectId).any (·.shared) = true
      · rw [if_pos hshared]
        exact hrest.mono_pre fun _ _ h => h.2
      · rw [if_neg hshared]
        have hitem : P.Contract c (fun w => w.1 = s ∧ Q w)
            (Async.update fun world : AuditWorld D =>
              { world with evidence := (world.evidence.dispose item.ref).2 }) fun _ w => Q w := by
          apply (hdispose item List.mem_cons_self).mono_pre
          rintro w - ⟨rfl, hQ⟩
          exact ⟨hQ, Bool.eq_false_iff.mpr hshared⟩
        apply Protocol.Contract.bind hitem
        · intro _
          apply Protocol.Contract.bind (hask _ rfl)
          · exact fun _ => hrest
          · exact fun _ _ _ hQ => hQ
        · exact fun _ _ _ hQ => hQ

end Evidence

/-- The compensation never fails; it disposes where no entry is found under the event's key. -/
theorem disposeUncommittedEvidence_contract {config : AuditRecorderServiceConfig D}
    {stored : List (EncryptedEvidenceInput D)} {identity : EventIdentity}
    {unfound : AuditWorld D × γ → Prop}
    (hlookup : P.Contract c Q
      (reply (.getByIdempotencyKey config.ledgerId identity.idempotencyKey))
      fun result w => Q w ∧ (result = .ok none → unfound w))
    (hdispose : P.Contract c unfound (disposeStored r stored) fun _ w => Q w) :
    P.Contract c Q (disposeUncommittedEvidence config r stored identity)
      fun result w => Q w ∧ result = .ok () := by
  unfold disposeUncommittedEvidence
  split
  · exact .pure fun _ _ hQ => ⟨hQ, rfl⟩
  · apply Protocol.Contract.tryCatch_keeps
    · apply Protocol.Contract.bind hlookup
      · intro committed
        cases committed with
        | some _ => exact .pure fun _ _ h => h.1
        | none => exact hdispose.mono_pre fun _ _ h => h.2 rfl
      · exact fun _ _ _ h => h.1
    · exact fun _ _ _ hQ => ⟨hQ, rfl⟩
    · exact fun _ => .pure fun _ _ hQ => ⟨hQ, rfl⟩

/-- The updates a recorder makes of its fields while it appends keep `Q`. -/
def KeptByUpdates (P : Protocol (recorderSetting D) (SubmitCall D) γ) (c : SubmitCall D) (r : Nat)
    (Q : AuditWorld D × γ → Prop) : Prop :=
  ∀ f, RecorderState.Advances f → ∀ w, P.inv w → Q w →
    ∃ g, P.inv (w.1.setRecorder r f, g) ∧ P.guarantee c w (w.1.setRecorder r f, g) ∧
      Q (w.1.setRecorder r f, g)

/-- What an append comes to: `Q` is kept, and an entry it returns was seen. -/
def Concluded (Q : AuditWorld D × γ → Prop) (Seen : SignedAuditEntry D → AuditWorld D × γ → Prop)
    (result : Except AuditError (SignedAuditEntry D)) (w : AuditWorld D × γ) : Prop :=
  Q w ∧ ∀ entry, result = .ok entry → Seen entry w

/-- The requests and updates of an append, of one event under one key, keep `Q`, and an entry
that the journal answers with is `Seen`. -/
structure Deployment.Appending (dep : Deployment D)
    (P : Protocol (recorderSetting D) (SubmitCall D) γ) (c : SubmitCall D) (r : Nat)
    (genesis : Bool) (event : AuditProducerEvent D) (identity : EventIdentity)
    (Q : AuditWorld D × γ → Prop) (Seen : SignedAuditEntry D → AuditWorld D × γ → Prop) :
    Prop where
  digest : dep.digestOfEvent event = .ok identity.eventDigest
  stable : P.Stable c Q
  update : ∀ known : Option (SignedAuditEntry D),
    KeptByUpdates P c r fun w => Q w ∧ ∀ entry ∈ known, Seen entry w
  lookup : P.Contract c Q
    (reply (.getByIdempotencyKey (dep.ledger r).ledgerId identity.idempotencyKey))
    fun result w => Q w ∧ ∀ entry, result = .ok (some entry) → Seen entry w
  append : ∀ head entry, dep.Candidate (dep.configs r) event head entry →
    genesis = decide (nextSequence head = 0) →
    P.Contract c Q
      (reply (.compareAndAppend (dep.ledger r) head entry identity.idempotencyKey))
      fun result w => Q w ∧
        ∀ answer seen, result = .ok answer → answer.entry? = some seen → Seen seen w

section Appending

variable {genesis : Bool} {event : AuditProducerEvent D} {identity : EventIdentity}
  {Seen : SignedAuditEntry D → AuditWorld D × γ → Prop}

/-- An update, and the rest. -/
theorem KeptByUpdates.contract {α : Type} (H : dep.Hosts calm P) (h : KeptByUpdates P c r Q)
    {f : RecorderState D → RecorderState D} (hf : RecorderState.Advances f)
    {next : Unit → RecorderM D α} {post : Except AuditError α → AuditWorld D × γ → Prop}
    (hnext : P.Contract c Q (next ()) post) :
    P.Contract c Q (updateRecorder r f >>= next) post := by
  refine Protocol.Contract.update ?_ (h f hf) hnext
  exact fun _ _ _ hfirst hsecond other hother =>
    H.trans other _ _ _ (hfirst other hother) (hsecond other hother)

/-- An entry found under the identity is the one returned. -/
theorem resolveExisting_eq {config : AuditRecorderServiceConfig D}
    {existing entry : SignedAuditEntry D} {digest : Digest}
    (h : resolveExisting dep.runtime config genesis existing digest = .ok entry) :
    entry = existing := by
  cases genesis with
  | true => exact (validateExistingGenesis_eq_ok.mp h).2
  | false =>
      simp only [resolveExisting, resolveDuplicate, Bool.false_eq_true, if_false] at h
      split at h
      · cases h
      · exact (Except.ok.inj h).symm

theorem resolveExisting_concluded (genesis : Bool) (existing : SignedAuditEntry D)
    (digest : Digest) :
    P.Contract c (fun w => Q w ∧ Seen existing w)
      (Async.ofExcept (resolveExisting dep.runtime (dep.configs r) genesis existing digest))
      (Concluded Q Seen) := by
  apply Protocol.Contract.ofExcept
  rintro w - ⟨hQ, hseen⟩
  refine ⟨hQ, fun entry hentry => ?_⟩
  rw [resolveExisting_eq hentry]
  exact hseen

variable (H : dep.Hosts calm P) (A : dep.Appending P c r genesis event identity Q Seen)
include H A

theorem concludeAppend_concluded {committed reported head : Option AuditHead}
    {retry : RecorderM D (SignedAuditEntry D)} (hretry : P.Contract c Q retry (Concluded Q Seen))
    (result : AuditAppendResult D) :
    P.Contract c (fun w => Q w ∧ ∀ seen ∈ result.entry?, Seen seen w)
      (concludeAppend dep.runtime (dep.configs r) r genesis identity committed reported head retry
        result) (Concluded Q Seen) := by
  cases result with
  | appended entry =>
      apply (A.update (some entry)).contract H (commit_advances _)
      apply Protocol.Contract.pure
      rintro w - ⟨hQ, hseen⟩
      refine ⟨hQ, ?_⟩
      rintro _ ⟨⟩
      exact hseen entry rfl
  | duplicate existing | idempotencyConflict existing =>
      apply (resolveExisting_concluded genesis existing identity.eventDigest).mono_pre
      exact fun _ _ h => ⟨h.1, h.2 existing rfl⟩
  | headConflict actual =>
      apply Protocol.Contract.check
      · intro _ _
        apply (A.update none).contract H (report_advances _) _ |>.mono_pre
        · exact fun _ _ h => ⟨h.1, nofun⟩
        · split
          · exact .ofExcept fun _ _ h => ⟨h.1, nofun⟩
          · exact hretry.mono_pre fun _ _ h => h.1
      · exact fun _ _ _ _ h => ⟨h.1, nofun⟩

theorem appendAt_concluded {committed reported head : Option AuditHead}
    {retry : RecorderM D (SignedAuditEntry D)} (hretry : P.Contract c Q retry (Concluded Q Seen)) :
    P.Contract c Q
      (appendAt dep.runtime (dep.configs r) r event genesis identity committed reported head retry)
      (Concluded Q Seen) := by
  apply Protocol.Contract.bind (buildCandidate_contract H A.stable r A.digest head genesis)
  · intro candidate
    apply Protocol.Contract.of_pre fun _ _ h => h.2
    rintro ⟨hcandidate, hposition⟩
    apply Protocol.Contract.of_weaker Q _ fun _ _ h => h.1
    have hcaught : P.Contract c Q
        (tryCatch (reply (.compareAndAppend (dep.ledger r) head candidate identity.idempotencyKey))
          fun _ => Async.ofExcept (auditFailure .JOURNAL_FAILURE "Audit journal append failed"))
        fun result w => Q w ∧
          ∀ answer, result = .ok answer → ∀ seen ∈ answer.entry?, Seen seen w := by
      apply Protocol.Contract.tryCatch (A.append head candidate hcandidate hposition)
      · rintro answer w - ⟨hQ, hseen⟩
        refine ⟨hQ, ?_⟩
        rintro _ ⟨⟩ seen hentry
        exact hseen answer seen rfl hentry
      · exact fun _ => .ofExcept fun _ _ h => ⟨h.1, nofun⟩
    apply Protocol.Contract.bind hcaught
    · intro result
      apply (concludeAppend_concluded H A hretry result).mono_pre
      exact fun _ _ h => ⟨h.1, h.2 result rfl⟩
    · exact fun _ _ _ h => ⟨h.1, nofun⟩
  · exact fun _ _ _ h => ⟨h.1, nofun⟩

omit H in
theorem racedGenesis_seen (head : Option AuditHead) :
    P.Contract c Q (racedGenesis (dep.configs r) genesis head identity)
      fun result w => Q w ∧ ∀ entry, result = .ok (some entry) → genesis = true ∧ Seen entry w := by
  unfold racedGenesis
  split
  · rename_i hrace
    apply A.lookup.mono_post
    exact fun _ _ _ h => ⟨h.1, fun entry hentry => ⟨hrace.1, h.2 entry hentry⟩⟩
  · exact .pure fun _ _ hQ => ⟨hQ, nofun⟩

theorem appendAttempts_concluded (remaining : Nat) :
    P.Contract c Q
      (appendAttempts dep.runtime (dep.configs r) r event genesis identity remaining)
      (Concluded Q Seen) := by
  induction remaining with
  | zero => exact .ofExcept fun _ _ hQ => ⟨hQ, nofun⟩
  | succ remaining ih =>
      unfold appendAttempts
      apply Protocol.Contract.state
      intro s
      apply Protocol.Contract.of_weaker Q _ fun _ _ h => h.2
      apply H.observe rfl A.stable
      · intro read _ _ _ _ _
        apply Protocol.Contract.of_weaker Q _ fun _ _ h => h.1
        apply Protocol.Contract.bind (racedGenesis_seen A _)
        · intro raced
          cases raced with
          | some raced =>
              apply Protocol.Contract.of_pre fun _ _ h => (h.2 raced rfl).1
              rintro rfl
              apply (resolveExisting_concluded true raced identity.eventDigest).mono_pre
              exact fun _ _ h => ⟨h.1, (h.2 raced rfl).2⟩
          | none => exact (appendAt_concluded H A ih).mono_pre fun _ _ h => h.1
        · exact fun _ _ _ h => ⟨h.1, nofun⟩
      · exact fun _ _ _ _ _ _ hQ => ⟨hQ, nofun⟩

theorem appendIdentified_concluded :
    P.Contract c Q (appendIdentified dep.runtime (dep.configs r) r event genesis identity)
      (Concluded Q Seen) := by
  unfold appendIdentified
  apply Protocol.Contract.bind A.lookup
  · intro duplicate
    cases duplicate with
    | some duplicate =>
        apply (resolveExisting_concluded genesis duplicate identity.eventDigest).mono_pre
        exact fun _ _ h => ⟨h.1, h.2 duplicate rfl⟩
    | none => exact (appendAttempts_concluded H A _).mono_pre fun _ _ h => h.1
  · exact fun _ _ _ h => ⟨h.1, nofun⟩

end Appending

section Opening

variable {Seen : SignedAuditEntry D → AuditWorld D × γ → Prop} (H : dep.Hosts calm P)
  (hstable : P.Stable c Q) (hupdate : KeptByUpdates P c r Q)
  (happending : ∀ now identity, dep.Identifies (dep.ledger r).ledgerId (dep.configs r).signer.did
    (genesisEvent (dep.configs r) now) identity →
    dep.Appending P c r true (genesisEvent (dep.configs r) now) identity Q Seen)
include H hstable happending

theorem appendGenesis_keeps (now : D) :
    P.Contract c Q (appendGenesis dep.runtime (dep.configs r) r (genesisEvent (dep.configs r) now))
      fun _ w => Q w := by
  apply Protocol.Contract.bind (identifyEvent_contract H hstable (dep.configs r) _ _)
  · intro identity
    apply Protocol.Contract.of_pre fun _ _ h => h.2
    intro hidentifies
    apply (appendIdentified_concluded H (happending now identity hidentifies)).consequence
    · exact fun _ _ h => h.1
    · exact fun _ _ _ h => h.1
  · exact fun _ _ _ h => h.1

include hupdate

theorem awaitInitialization_keeps :
    P.Contract c Q (awaitInitialization dep.runtime (dep.configs r) r) fun _ w => Q w := by
  have hpromise : ∀ promise, P.Contract c Q (reply (.initialized r promise)) fun _ w => Q w :=
    fun _ => H.reads rfl hstable
  unfold awaitInitialization
  apply Protocol.Contract.state
  intro s
  apply Protocol.Contract.of_weaker Q _ fun _ _ h => h.2
  cases (s.recorders r).initialization with
  | some promise => exact hpromise promise
  | none =>
      apply Protocol.Contract.check
      · intro event hevent
        obtain ⟨-, rfl⟩ := parseAuditProducerEvent_eq_ok.mp hevent
        apply hupdate.contract H beginInitialization_advances
        apply Protocol.Contract.andThen (appendGenesis_keeps H hstable happending _)
        intro result
        apply hupdate.contract H (endInitialization_advances _ result)
        exact hpromise _
      · exact fun _ _ _ _ hQ => hQ

theorem ensureInitialized_keeps :
    P.Contract c Q (ensureInitialized dep.runtime (dep.configs r) r) fun _ w => Q w := by
  unfold ensureInitialized
  apply H.observe rfl hstable
  · intro existingHead _ _ _ _ _
    apply Protocol.Contract.of_weaker Q _ fun _ _ h => h.1
    cases existingHead with
    | some head =>
        apply H.observe rfl hstable
        · intro first _ _ _ _ _
          cases first with
          | some _ => exact .ofExcept fun _ _ h => h.1
          | none => exact .ofExcept fun _ _ h => h.1
        · exact fun _ _ _ _ _ _ hQ => hQ
    | none =>
        apply Protocol.Contract.bind (sealPredecessor_contract H hstable (dep.configs r) r)
        · intro _
          apply (awaitInitialization_keeps H hstable hupdate happending).mono_pre
          exact fun _ _ h => h.1
        · exact fun _ _ _ h => h.1
  · exact fun _ _ _ _ _ _ hQ => hQ

end Opening

end Contracts

end KyaOs.Audit
