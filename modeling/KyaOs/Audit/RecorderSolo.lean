import KyaOs.Audit.LedgerSubmissions
import KyaOs.Audit.ServiceRuns
import KyaOs.Concurrency.Solo

/-!
# The recorder on its own

What the recorder's functions come to when one call runs alone and its ports work: the
branches that a submission to a begun epoch takes.
-/

namespace KyaOs.Audit

open Js Concurrency Async

variable {D : Type}

/-- Requests that bring no entry are answered as a deployment whose ports work may answer
them. -/
def Deployment.Answers (dep : Deployment D) (heads : HeadUse → Option AuditHead → Prop)
    (serves : Serving (recorderSetting D)) : Prop :=
  ∀ request s answer s', request.appends = false → request.brings answer = [] →
    dep.served request s answer s' → Deployment.Working heads request answer →
    serves request s answer s'

/-- An append and its answer. -/
theorem Deployment.served_compareAndAppend {dep : Deployment D} {s : AuditWorld D}
    {ledger : AuditLedgerRef} {head : Option AuditHead} {entry : SignedAuditEntry D} {key : Digest}
    {result : AuditAppendResult D} {journal : MemoryAuditJournal D}
    (h : s.journal.compareAndAppend ledger head entry key = (result, journal)) :
    dep.served (.compareAndAppend ledger head entry key) s (.ok result)
      { s with journal := journal } :=
  ⟨by rw [h], .inl (by rw [h])⟩

/-- The core `buildCandidate` writes. -/
def candidateCore (config : AuditRecorderServiceConfig D) (event : AuditProducerEvent D)
    (eventDigest evidenceManifestDigest : Digest) (head : Option AuditHead) (now : D) :
    AuditEntryCore D :=
  { schema := auditEntrySchemaId
    ledgerId := config.ledgerId
    ledgerEpochId := config.ledgerEpochId
    sequence := nextSequence head
    previousEntryDigest := head.map (·.entryDigest)
    recordedAt := now
    recorder := config.signer
    eventDigest
    event
    evidenceManifestDigest
    integritySuite := auditIntegritySuite }

section Solo

variable {dep : Deployment D} {heads : HeadUse → Option AuditHead → Prop}
  {serves : Serving (recorderSetting D)} (A : dep.Answers heads serves) {s s' : AuditWorld D}
  {r : Nat} {config : AuditRecorderServiceConfig D} {event : AuditProducerEvent D}
  {identity : EventIdentity} {thread : Thread (recorderSetting D) (SignedAuditEntry D)}
include A

theorem lookup_leads {ledgerId : JsString} {key : Digest}
    (h : s.journal.getByIdempotencyKey ledgerId key = none) :
    (reply (.getByIdempotencyKey ledgerId key) : RecorderM D _).Leads serves s s
      (.finished (.ok none)) :=
  .ask (A (.getByIdempotencyKey ledgerId key) s (.ok none) s rfl rfl ⟨rfl, h ▸ rfl⟩ ⟨none, rfl⟩)

theorem hash_leads {domain : AuditDigestDomain} {value : JsonValue D} {digest : Digest}
    (h : hashAuditValue dep.runtime.numbers dep.runtime.sha256 domain value = .ok digest) :
    (reply (.hash domain value) : RecorderM D _).Leads serves s s (.finished (.ok digest)) :=
  .ask (A (.hash domain value) s (.ok digest) s rfl rfl ⟨rfl, (orOther_eq_ok.mpr h).symm⟩
    ⟨digest, rfl⟩)

theorem getHead_leads {ledger : AuditLedgerRef} {use : HeadUse} {head : Option AuditHead}
    (hearlier : s.journal.EarlierHead ledger head) (hheads : heads use head) :
    (reply (.getHead ledger use) : RecorderM D _).Leads serves s s (.finished (.ok head)) :=
  .ask (A (.getHead ledger use) s (.ok head) s rfl rfl ⟨rfl, head, hearlier, rfl⟩
    ⟨head, rfl, hheads⟩)

theorem identifyEvent_leads {context : AuthenticatedAuditSubmissionContext D}
    (h : dep.Identifies config.ledgerId context.producerAuthority event identity) :
    (identifyEvent config event context).Leads serves s s (.finished (.ok identity)) :=
  .bind (hash_leads A h.eventDigest) (.bind (hash_leads A h.idempotencyKey) .done)

omit A in
theorem submitAuthenticated_leads {c : SubmitCall D} {submitted : AuditProducerEvent D}
    (hadmission : dep.admission c = .ok submitted)
    (hauthorizer : (dep.configs c.recorder).hasAuthorizer = false)
    (h : (submitAuthorized dep.runtime (dep.configs c.recorder) c.recorder c.submission c.context
      submitted).Leads serves s s' thread) : (dep.code c).Leads serves s s' thread := by
  unfold Deployment.admission at hadmission
  obtain ⟨_, henvelope, hadmission⟩ := bind_eq_ok.mp hadmission
  obtain ⟨event, hevent, hadmission⟩ := bind_eq_ok.mp hadmission
  obtain ⟨_, hauthority, hadmission⟩ := bind_eq_ok.mp hadmission
  cases hadmission
  refine .check henvelope (.check hevent (.check hauthority (.bind (a := true) ?_ h)))
  simp only [authorizeSubmission, hauthorizer, Bool.false_eq_true, if_false]
  exact .done

theorem submitAuthorized_new {c : SubmitCall D}
    (h : dep.Identifies (dep.configs c.recorder).ledgerId c.context.producerAuthority event
      identity)
    (hlookup : s.journal.getByIdempotencyKey (dep.configs c.recorder).ledgerId
      identity.idempotencyKey = none)
    (hnew : (submitNew dep.runtime (dep.configs c.recorder) c.recorder c.submission event
      identity).Leads serves s s' thread) :
    (submitAuthorized dep.runtime (dep.configs c.recorder) c.recorder c.submission c.context
      event).Leads serves s s' thread :=
  .bind (identifyEvent_leads A h) (.bind (lookup_leads A hlookup) hnew)

theorem submitAuthorized_duplicate {c : SubmitCall D} {existing : SignedAuditEntry D}
    (h : dep.Identifies (dep.configs c.recorder).ledgerId c.context.producerAuthority event
      identity)
    (hlookup : serves (.getByIdempotencyKey (dep.configs c.recorder).ledgerId
      identity.idempotencyKey) s (.ok (some existing)) s') :
    (submitAuthorized dep.runtime (dep.configs c.recorder) c.recorder c.submission c.context
      event).Leads serves s s' (.finished (resolveDuplicate existing identity.eventDigest)) :=
  .bind (identifyEvent_leads A h) (.bind (.ask hlookup) .done)

/-- A begun epoch is not opened again. -/
theorem ensureInitialized_begun {log : List (Commit D)} (hjournal : s.journal = replay log)
    (hbegun : dep.Begun r s.journal)
    (hheads : heads .initialization (s.journal.getHead (dep.ledger r))) :
    ∃ first, (ensureInitialized dep.runtime (dep.configs r) r).Leads serves s s
      (.finished (.ok first)) := by
  have hmatched := hbegun
  rw [hjournal, Deployment.begun_replay] at hmatched
  obtain ⟨first, hfirst, haccepts⟩ := hmatched
  obtain ⟨last, hlast⟩ := Option.ne_none_iff_exists'.mp
    (mt List.getLast?_eq_none_iff.mp (List.ne_nil_of_mem (List.mem_of_head? hfirst)))
  have hhead : s.journal.getHead (dep.configs r).toAuditLedgerRef = some last.head := by
    rw [hjournal, getHead_replay]
    exact congrArg (Option.map Commit.head) hlast
  have hread : (s.journal.readRange (dep.ledger r) none (some 1)).head? = some first.entry := by
    rw [hjournal, readFirst_replay, hfirst]
    rfl
  refine ⟨first.entry, .bind (getHead_leads A (.inr (.inl rfl)) hheads) ?_⟩
  rw [hhead]
  refine .bind (.ask (A (.readFirst (dep.ledger r)) s (.ok (some first.entry)) s
    rfl rfl ⟨rfl, hread ▸ rfl⟩ ⟨_, rfl⟩)) ?_
  exact haccepts ▸ .done

/-- A submission without evidence is its append. -/
theorem submitNew_leads {log : List (Commit D)} {submission : AuditRecorderSubmission D}
    {result : Except AuditError (SignedAuditEntry D)} (hjournal : s.journal = replay log)
    (hbegun : dep.Begun r s.journal)
    (hheads : heads .initialization (s.journal.getHead (dep.ledger r)))
    (hepoch : submission.expectedLedgerEpochId.any (· ≠ (dep.configs r).ledgerEpochId) = false)
    (hnone : submission.encryptedEvidence = [])
    (h : (appendIdentified dep.runtime (dep.configs r) r event false identity).Leads serves
      (s.setRecorder r fun recorder => recorder.holdEvidence []) s' (.finished result)) :
    (submitNew dep.runtime (dep.configs r) r submission event identity).Leads serves s
      (s'.setRecorder r fun recorder => recorder.releaseEvidence []) (.finished result) := by
  unfold submitNew
  rw [hepoch, if_neg Bool.false_ne_true]
  obtain ⟨first, hfirst⟩ := ensureInitialized_begun A hjournal hbegun hheads
  refine .bind hfirst ?_
  simp only [hnone]
  refine .update (.finally_ ?_)
  unfold appendWithEvidence
  rw [hnone]
  refine .bind (a := []) (by simp only [persistSubmittedEvidence, if_true]; exact .done) ?_
  cases result with
  | ok entry => exact .tryCatch_ok h
  | error e =>
      refine .tryCatch_error h (.bind (a := ()) ?_ .done)
      simp only [disposeUncommittedEvidence, true_or, if_true]
      exact .done

theorem appendIdentified_leads {remaining : Nat}
    (hlookup : s.journal.getByIdempotencyKey config.ledgerId identity.idempotencyKey = none)
    (hremaining : config.maxAppendConflicts = remaining) {read : Option AuditHead}
    (hearlier : s.journal.EarlierHead config.toAuditLedgerRef read)
    (hheads : heads (.position false (s.recorders r).committedHead) read)
    (h : (appendAt dep.runtime config r event false identity (s.recorders r).committedHead
      (s.recorders r).reportedHead (higherHead (s.recorders r).committedHead read)
      (appendAttempts dep.runtime config r event false identity remaining)).Leads serves s s'
      thread) :
    (appendIdentified dep.runtime config r event false identity).Leads serves s s' thread := by
  refine .bind (lookup_leads A hlookup) ?_
  rw [hremaining]
  refine .state (.bind (getHead_leads A hearlier hheads) (.bind (a := none) ?_ h))
  simp only [racedGenesis, Bool.false_eq_true, false_and, if_false]
  exact .done

omit A in
/-- A producer event has no position before the genesis. -/
theorem appendAt_null {committed reported : Option AuditHead}
    {retry : RecorderM D (SignedAuditEntry D)} :
    (appendAt dep.runtime config r event false identity committed reported none retry).Leads
      serves s s (.finished (.error (.protocol .JOURNAL_FAILURE
        (js "Producer event cannot replace genesis")))) := by
  refine .bind_error ?_
  simp only [buildCandidate, nextSequence]
  exact .done

theorem buildCandidate_leads {eventDigest manifest entryDigest jws : Digest}
    {head : Option AuditHead} {genesis : Bool} {payload : JsString} {now : D}
    (hnow : s.clock r = now)
    (hgenesis : genesis = decide (nextSequence head = 0))
    (hmanifest : hashAuditValue dep.runtime.numbers dep.runtime.sha256 .evidenceManifest
      (collectAuditEvidenceManifest event) = .ok manifest)
    (hschema : dep.runtime.auditEntryCoreSchema
      (candidateCore config event eventDigest manifest head now) = true)
    (hentry : hashAuditValue dep.runtime.numbers dep.runtime.sha256 .entry
      (candidateCore config event eventDigest manifest head now).toJson = .ok entryDigest)
    (hpayload : canonicalizeJson dep.runtime.numbers (buildAuditRecorderReceiptCore
      (candidateCore config event eventDigest manifest head now) entryDigest).toJson =
        .ok payload) :
    (buildCandidate dep.runtime config r event eventDigest head genesis).Leads serves s s
      (.finished (.ok
        { core := candidateCore config event eventDigest manifest head now
          eventDigest
          entryDigest
          receiptCore := buildAuditRecorderReceiptCore
            (candidateCore config event eventDigest manifest head now) entryDigest
          jws })) := by
  subst hnow
  unfold buildCandidate
  simp only [if_neg (not_not.mpr hgenesis)]
  refine .state (.bind (hash_leads A hmanifest) ?_)
  refine .check (parseAuditEntryCore_eq_ok.mpr ⟨hschema, rfl⟩) (.bind (hash_leads A hentry) ?_)
  refine .check (orOther_eq_ok.mpr hpayload) (.bind (.ask (A (.sign r (encodeUtf8 payload)) s
    (.ok jws) s rfl rfl ⟨rfl, jws, rfl⟩ ⟨jws, rfl⟩)) .done)

omit A in
/-- What the recorder does once the journal has taken its entry. -/
theorem concludeAppend_appended (entry : SignedAuditEntry D) {genesis : Bool}
    {committed reported head : Option AuditHead} {retry : RecorderM D (SignedAuditEntry D)} :
    (concludeAppend dep.runtime config r genesis identity committed reported head retry
      (.appended entry)).Leads serves s
      (s.setRecorder r fun recorder => recorder.commit
        { config.toAuditLedgerRef with
          sequence := entry.core.sequence
          entryDigest := entry.entryDigest }) (.finished (.ok entry)) :=
  .write .done

omit A in
/-- A head that has moved on costs another attempt. -/
theorem concludeAppend_headConflict {committed reported head actual : Option AuditHead}
    {genesis : Bool} {retry : RecorderM D (SignedAuditEntry D)}
    (hregressed : assertNoRegression actual committed reported = .ok ())
    (hmoved : sameHead head actual = false)
    (hretry : retry.Leads serves (s.setRecorder r fun recorder => recorder.report actual) s'
      thread) :
    (concludeAppend dep.runtime config r genesis identity committed reported head retry
      (.headConflict actual)).Leads serves s s' thread := by
  refine .check hregressed (.update ?_)
  rw [if_neg (ne_true_of_eq_false hmoved)]
  exact hretry

/-- An attempt waits for the journal, and goes on with its answer. -/
theorem appendAttempts_pauses (remaining : Nat) {genesis : Bool} {read : Option AuditHead}
    {candidate : SignedAuditEntry D} {answer : AuditAppendResult D} {resumed : AuditWorld D}
    (hearlier : s.journal.EarlierHead config.toAuditLedgerRef read)
    (hheads : heads (.position genesis (s.recorders r).committedHead) read)
    (hraced : genesis = true → higherHead (s.recorders r).committedHead read = none)
    (hbuild : (buildCandidate dep.runtime config r event identity.eventDigest
      (higherHead (s.recorders r).committedHead read) genesis).Leads serves s s
      (.finished (.ok candidate)))
    (hconcludes : (concludeAppend dep.runtime config r genesis identity
      (s.recorders r).committedHead (s.recorders r).reportedHead
      (higherHead (s.recorders r).committedHead read)
      (appendAttempts dep.runtime config r event genesis identity remaining) answer).Leads serves
      resumed s' thread) :
    Leads.Pauses serves
      (appendAttempts dep.runtime config r event genesis identity (remaining + 1)) s s
      (.compareAndAppend config.toAuditLedgerRef (higherHead (s.recorders r).committedHead read)
        candidate identity.idempotencyKey) (.ok answer) resumed s' thread := by
  have hnone : (racedGenesis config genesis (higherHead (s.recorders r).committedHead read)
      identity).Leads serves s s (.finished (.ok none)) := by
    rw [racedGenesis, if_neg fun hboth => hboth.2 (hraced hboth.1)]
    exact .done
  exact .after (.read .done) (.after (getHead_leads A hearlier hheads)
    (.after hnone (.after hbuild (.bind (.tryCatch_ok .ask) hconcludes))))

/-- A submission whose epoch is begun comes to its append. -/
theorem submitAuthenticated_pauses {c : SubmitCall D} {begun mid resumed : AuditWorld D}
    {request : AuditRequest D} {answer : Except AuditError request.Answer}
    {first entry : SignedAuditEntry D} {remaining : Nat}
    (hadmission : dep.admission c = .ok event)
    (hauthorizer : (dep.configs c.recorder).hasAuthorizer = false)
    (hidentifies : dep.Identifies (dep.configs c.recorder).ledgerId c.context.producerAuthority
      event identity)
    (hlookup : s.journal.getByIdempotencyKey (dep.configs c.recorder).ledgerId
      identity.idempotencyKey = none)
    (hepoch : c.submission.expectedLedgerEpochId.any
      (· ≠ (dep.configs c.recorder).ledgerEpochId) = false)
    (hnone : c.submission.encryptedEvidence = [])
    (hfirst : (ensureInitialized dep.runtime (dep.configs c.recorder) c.recorder).Leads serves s
      begun (.finished (.ok first)))
    (hremaining : (dep.configs c.recorder).maxAppendConflicts = remaining)
    (hbegun : begun.journal.getByIdempotencyKey (dep.configs c.recorder).ledgerId
      identity.idempotencyKey = none)
    (hattempts : Leads.Pauses serves (appendAttempts dep.runtime (dep.configs c.recorder)
      c.recorder event false identity (remaining + 1))
      (begun.setRecorder c.recorder fun recorder => recorder.holdEvidence []) mid request answer
      resumed s' (.finished (.ok entry))) :
    Leads.Pauses serves (dep.code c) s mid request answer resumed
      (s'.setRecorder c.recorder fun recorder => recorder.releaseEvidence [])
      (.finished (.ok entry)) := by
  unfold Deployment.admission at hadmission
  obtain ⟨_, henvelope, hadmission⟩ := bind_eq_ok.mp hadmission
  obtain ⟨submitted, hevent, hadmission⟩ := bind_eq_ok.mp hadmission
  obtain ⟨_, hauthority, hadmission⟩ := bind_eq_ok.mp hadmission
  cases hadmission
  have hauthorized : (authorizeSubmission (dep.configs c.recorder) c.recorder c.submission
      c.context).Leads serves s s (.finished (.ok true)) := by
    simp only [authorizeSubmission, hauthorizer, Bool.false_eq_true, if_false]
    exact .done
  refine .check henvelope (.check hevent (.check hauthority (.after hauthorized ?_)))
  refine .after (identifyEvent_leads A hidentifies) (.after (lookup_leads A hlookup) ?_)
  have hheld : evidenceObjectIds c.submission.encryptedEvidence = [] := by
    rw [hnone]
    rfl
  simp only [submitNew, hheld]
  rw [hepoch, if_neg Bool.false_ne_true]
  refine .after hfirst (.after (.write .done) (.finally_ ?_))
  have hstored : (persistSubmittedEvidence dep.runtime (dep.configs c.recorder)
      c.submission.encryptedEvidence event).Leads serves
      (begun.setRecorder c.recorder fun recorder => recorder.holdEvidence [])
      (begun.setRecorder c.recorder fun recorder => recorder.holdEvidence [])
      (.finished (.ok [])) := by
    simp only [persistSubmittedEvidence, hnone, if_true]
    exact .done
  have hlookup' : (begun.setRecorder c.recorder fun recorder =>
      recorder.holdEvidence []).journal.getByIdempotencyKey (dep.configs c.recorder).ledgerId
        identity.idempotencyKey = none := hbegun
  exact .after hstored (.tryCatch_ok (.after (lookup_leads A hlookup') (hremaining ▸ hattempts)))

/-- The first submission to an epoch opens it. -/
theorem ensureInitialized_opens {remaining : Nat} {now : D} {candidate : SignedAuditEntry D}
    {taken : AuditWorld D} (hprevious : (dep.configs r).previousEpoch = none)
    (hrecorder : s.recorders r = {}) (hclock : s.clock r = now)
    (hheads : ∀ use, heads use none)
    (hevent : parseAuditProducerEvent dep.runtime (genesisEvent (dep.configs r) now) =
      .ok (genesisEvent (dep.configs r) now))
    (hidentifies : dep.Identifies (dep.configs r).ledgerId (dep.configs r).signer.did
      (genesisEvent (dep.configs r) now) identity)
    (hlookup : s.journal.getByIdempotencyKey (dep.configs r).ledgerId identity.idempotencyKey =
      none)
    (hremaining : (dep.configs r).maxAppendConflicts = remaining)
    (hbuild : ∀ s' : AuditWorld D, s'.clock = s.clock →
      (buildCandidate dep.runtime (dep.configs r) r (genesisEvent (dep.configs r) now)
        identity.eventDigest none true).Leads serves s' s' (.finished (.ok candidate)))
    (hserves : serves (.compareAndAppend (dep.ledger r) none candidate identity.idempotencyKey)
      (s.setRecorder r RecorderState.beginInitialization) (.ok (.appended candidate)) taken) :
    (ensureInitialized dep.runtime (dep.configs r) r).Leads serves s
      ((taken.setRecorder r fun recorder => recorder.commit
        { dep.ledger r with
          sequence := candidate.core.sequence
          entryDigest := candidate.entryDigest }).setRecorder r
            fun recorder => recorder.endInitialization 0 (.ok candidate))
      (.finished (.ok candidate)) := by
  have hseals : (sealPredecessor (dep.configs r) r).Leads serves s s (.finished (.ok ())) := by
    simp only [sealPredecessor, hprevious]
    exact .done
  refine .bind (getHead_leads A (.inl rfl) (hheads _)) (.bind hseals (.state ?_))
  rw [hrecorder, hclock]
  refine .check hevent (.update ?_)
  generalize hbegins : s.setRecorder r RecorderState.beginInitialization = begins at hserves ⊢
  have hcommitted : (begins.recorders r).committedHead = none := by
    rw [← hbegins]
    simp [AuditWorld.setRecorder, RecorderState.beginInitialization, hrecorder]
  have hlookup' : begins.journal.getByIdempotencyKey (dep.configs r).ledgerId
      identity.idempotencyKey = none := by
    rw [← hbegins]
    exact hlookup
  have hhead : higherHead (begins.recorders r).committedHead none = none := by
    rw [hcommitted]
    rfl
  have hbuilt : (buildCandidate dep.runtime (dep.configs r) r (genesisEvent (dep.configs r) now)
      identity.eventDigest (higherHead (begins.recorders r).committedHead none) true).Leads serves
      begins begins (.finished (.ok candidate)) := by
    rw [hhead]
    exact hbuild begins (by rw [← hbegins]; rfl)
  have hattempts := appendAttempts_pauses A remaining (.inl rfl) (hheads _) (fun _ => hhead) hbuilt
    (concludeAppend_appended (s := taken) candidate)
  rw [hhead] at hattempts
  refine .andThen (.bind (identifyEvent_leads A hidentifies) (.bind (lookup_leads A hlookup')
    (hremaining ▸ hattempts.leads hserves))) (.update (.ask (A _ _ _ _ rfl rfl ⟨rfl, ?_⟩ trivial)))
  simp [AuditWorld.setRecorder, RecorderState.endInitialization]

end Solo

def sampleParty (did : JsString) : PartyRef SampleDouble :=
  .object [(js "kind", .string (js "public_did")), (js "did", .string did)]

def sampleConfig : AuditRecorderServiceConfig SampleDouble where
  ledgerId := js "ledger"
  ledgerEpochId := js "epoch"
  tenantRef := sampleParty (js "did:web:tenant")
  binding := js "mcp"
  sourceId := js "recorder"
  signer := { did := js "did:web:recorder", kid := js "key", alg := .EdDSA }
  hasEvidence := true

/-- Its schemas ask for canonical events, and its journal may reject an append. -/
def sampleDeployment : Deployment SampleDouble where
  runtime :=
    { numbers := sampleDoubles
      sha256 := sampleSha256
      auditProducerEventSchema := isCanonical sampleDoubles
      auditEntryCoreSchema _ := true
      signedAuditEntrySchema _ := true
      schemaError := .typeError (js "invalid") }
  configs _ := sampleConfig
  rejects request _ := request.appends = true
  times now := now = .zero

def sampleEvent (eventId : JsString) (evidence : List (EvidenceRef SampleDouble)) :
    AuditProducerEvent SampleDouble :=
  .object [(js "eventId", .string eventId),
    (js "tenantRef", sampleParty (js "did:web:tenant")),
    (js "source", .object [(js "producer", sampleParty (js "did:web:producer")),
      (js "sourceId", .string (js "agent"))]),
    (js "evidence", .array evidence)]

def sampleDigest (domain : AuditDigestDomain) (value : JsonValue SampleDouble) : Digest :=
  match hashAuditValue sampleDoubles sampleSha256 domain value with
  | .ok digest => digest
  | .error _ => []

def sampleEntry (event : AuditProducerEvent SampleDouble) (head : Option AuditHead) :
    SignedAuditEntry SampleDouble :=
  let eventDigest := sampleDigest .event event
  let core := candidateCore sampleConfig event eventDigest
    (sampleDigest .evidenceManifest (collectAuditEvidenceManifest event)) head .zero
  let entryDigest := sampleDigest .entry core.toJson
  { core
    eventDigest
    entryDigest
    receiptCore := buildAuditRecorderReceiptCore core entryDigest
    jws := js "jws" }

def sampleKey (producerAuthority : JsString) (event : AuditProducerEvent SampleDouble) : Digest :=
  sampleDigest .idempotency (sourceIdentity (js "ledger") producerAuthority event)

def sampleIdentity (producerAuthority : JsString) (event : AuditProducerEvent SampleDouble) :
    EventIdentity :=
  ⟨sampleDigest .event event, sampleKey producerAuthority event⟩

/-- The genesis of the small deployment's epoch. -/
def sampleGenesis : Commit SampleDouble where
  ledger := sampleConfig.toAuditLedgerRef
  key := sampleKey (js "did:web:recorder") (genesisEvent sampleConfig .zero)
  entry := sampleEntry (genesisEvent sampleConfig .zero) none

def sampleWorld (log : List (Commit SampleDouble)) : AuditWorld SampleDouble where
  journal := replay log
  evidence _ := none
  recorders _ := {}
  clock _ := .zero

theorem isScalar_byte (b : UInt8) : isScalar b.toUInt16 = true := by
  have hsmall := b.toNat_lt
  apply isScalar_of_lt
  rw [UInt8.toNat_toUInt16]
  omega

theorem hasLoneSurrogate_sample {bytes : Bytes} {digest : Digest}
    (h : sampleSha256 bytes = .ok digest) : hasLoneSurrogate digest = false := by
  cases h
  apply hasLoneSurrogate_of_all
  simp only [List.all_map, List.all_eq_true, Function.comp_apply, isScalar_byte, implies_true]

theorem hasLoneSurrogate_sampleDigest (domain : AuditDigestDomain)
    (value : JsonValue SampleDouble) : hasLoneSurrogate (sampleDigest domain value) = false := by
  unfold sampleDigest
  split
  · rename_i digest hdigest
    obtain ⟨_, -, hbytes⟩ := hashAuditValue_eq_ok.mp hdigest
    exact hasLoneSurrogate_sample hbytes
  · rfl

theorem sampleDigest_eq {domain : AuditDigestDomain} {value : JsonValue SampleDouble}
    (hwellFormed : value.WellFormed) (hsupported : JsonValue.Supported sampleDoubles value) :
    hashAuditValue sampleDoubles sampleSha256 domain value = .ok (sampleDigest domain value) := by
  obtain ⟨text, htext⟩ := (canonicalizeJson_eq_ok sampleDoubles_prints hwellFormed).mpr hsupported
  have hhash : hashAuditValue sampleDoubles sampleSha256 domain value = .ok _ :=
    hashAuditValue_eq_ok.mpr ⟨text, htext, rfl⟩
  rw [sampleDigest, hhash]

/-- What the small deployment hashes and compares is canonical. -/
theorem canonical_sample :
    isCanonical sampleDoubles (genesisEvent sampleConfig .zero) = true ∧
      isCanonical sampleDoubles (sourceIdentity (js "ledger") (js "did:web:recorder")
        (genesisEvent sampleConfig .zero)) = true ∧
      isCanonical sampleDoubles (.number .zero) = true ∧
      isCanonical sampleDoubles sampleConfig.signer.toJson = true ∧
      isCanonical sampleDoubles sampleConfig.tenantRef = true := by
  decide +kernel

theorem canonical_genesis : isCanonical sampleDoubles (genesisEvent sampleConfig .zero) = true :=
  canonical_sample.1

theorem canonical_zero : isCanonical sampleDoubles (.number .zero) = true :=
  canonical_sample.2.2.1

theorem canonical_signer : isCanonical sampleDoubles sampleConfig.signer.toJson = true :=
  canonical_sample.2.2.2.1

/-- An entry of the small deployment is attested. -/
theorem sampleEntry_attested {event : AuditProducerEvent SampleDouble} {head : Option AuditHead}
    (hevent : isCanonical sampleDoubles event = true)
    (hsequence : hasLoneSurrogate (decimalString (nextSequence head)) = false)
    (hhead : ∀ known ∈ head, hasLoneSurrogate known.entryDigest = false) :
    sampleDeployment.Attested (sampleEntry event head) := by
  obtain ⟨hwellFormed, hsupported⟩ := canonical_of_isCanonical _ hevent
  refine ⟨sampleDigest_eq hwellFormed hsupported, rfl, ?_⟩
  apply sampleDigest_eq (wellFormed_core hwellFormed)
  apply supported_core hsupported
  · simp only [List.cons_append, List.nil_append, List.forall_mem_cons, sampleEntry, candidateCore]
    refine ⟨by decide +kernel, by decide +kernel, by decide +kernel, hsequence,
      hasLoneSurrogate_sampleDigest _ _, hasLoneSurrogate_sampleDigest _ _, by decide +kernel, ?_⟩
    cases head with
    | none => simp
    | some known => simpa using hhead known rfl
  · exact canonical_zero
  · exact canonical_signer

theorem sampleKey_eq {producerAuthority : JsString} {event : AuditProducerEvent SampleDouble}
    (h : isCanonical sampleDoubles (sourceIdentity (js "ledger") producerAuthority event) = true) :
    sampleDeployment.keyOfEvent (js "ledger") producerAuthority event =
      .ok (sampleKey producerAuthority event) := by
  obtain ⟨hwellFormed, hsupported⟩ := canonical_of_isCanonical _ h
  exact sampleDigest_eq hwellFormed hsupported

theorem sampleIdentity_identifies {producerAuthority : JsString}
    {event : AuditProducerEvent SampleDouble} (hevent : isCanonical sampleDoubles event = true)
    (hsource : isCanonical sampleDoubles
      (sourceIdentity (js "ledger") producerAuthority event) = true) :
    sampleDeployment.Identifies (js "ledger") producerAuthority event
      (sampleIdentity producerAuthority event) := by
  obtain ⟨hwellFormed, hsupported⟩ := canonical_of_isCanonical _ hevent
  exact ⟨sampleDigest_eq hwellFormed hsupported, sampleKey_eq hsource⟩

theorem sampleDeployment_regular : sampleDeployment.Regular where
  prints := sampleDoubles_prints
  digests _ _ := hasLoneSurrogate_sample
  entrySchema _ _ := rfl
  genesisSchema _ now hnow := by
    obtain rfl : now = .zero := hnow
    exact canonical_genesis
  events event h := (canonical_of_isCanonical event h).1

theorem sampleGenesis_recorded : Recorded sampleDeployment.Admits [sampleGenesis] := by
  have hattested : sampleDeployment.Attested sampleGenesis.entry :=
    sampleEntry_attested canonical_genesis (hasLoneSurrogate_decimalString _) nofun
  have hkey : sampleDeployment.keyOfEvent (js "ledger") (js "did:web:recorder")
      (genesisEvent sampleConfig .zero) = .ok sampleGenesis.key :=
    sampleKey_eq canonical_sample.2.1
  have hgenesis : sampleDeployment.OpenedBy 0 sampleGenesis :=
    ⟨rfl, rfl, ⟨.zero, rfl⟩, hkey⟩
  exact Recorded.nil.concat ⟨rfl, rfl, rfl, rfl⟩
    ⟨hattested, ⟨_, hkey⟩, fun _ => ⟨0, hgenesis⟩, nofun⟩

theorem sampleParty_same {party : PartyRef SampleDouble}
    (h : isCanonical sampleDoubles party = true) :
    sameParty sampleDeployment.runtime party party = .ok true := by
  obtain ⟨hwellFormed, hsupported⟩ := canonical_of_isCanonical _ h
  obtain ⟨text, htext⟩ := (canonicalizeJson_eq_ok sampleDoubles_prints hwellFormed).mpr hsupported
  have hcanonical : canonicalizeJson sampleDeployment.runtime.numbers party = .ok text := htext
  simp [sameParty, hcanonical, bind, Except.bind, pure, Except.pure]

theorem sampleWorld_starts (log : List (Commit SampleDouble)) :
    sampleDeployment.Starts log (sampleWorld log) :=
  ⟨rfl, fun _ => rfl, fun _ => rfl⟩

theorem sampleGenesis_begun (r : Nat) : sampleDeployment.Begun r (replay [sampleGenesis]) := by
  rw [Deployment.begun_replay]
  refine ⟨sampleGenesis, ?_, ?_⟩
  · have hown : sampleGenesis.ledgerKey = ledgerKey (sampleDeployment.ledger r) := rfl
    simp [commitsAt, hown]
  · refine validateExistingGenesis_eq_ok.mpr ⟨⟨rfl, ?_⟩, rfl⟩
    have htenant : sameParty sampleDeployment.runtime sampleConfig.tenantRef
        sampleConfig.tenantRef = .ok true := sampleParty_same canonical_sample.2.2.2.2
    refine bind_eq_ok.mpr ⟨true, htenant, congrArg Except.ok (decide_eq_true ?_)⟩
    exact ⟨rfl, rfl, rfl, rfl, rfl, rfl, rfl, rfl, rfl, rfl, rfl, rfl, rfl, rfl, rfl⟩

theorem sampleLog_begun (r : Nat) {log : List (Commit SampleDouble)}
    (hopened : [sampleGenesis] <+: log) : sampleDeployment.Begun r (replay log) :=
  Deployment.begun_replay.mpr
    ((Deployment.begun_replay.mp (sampleGenesis_begun r)).mono hopened)

/-- A submission to the small deployment. -/
def sampleCall (number recorder : Nat) (event : AuditProducerEvent SampleDouble)
    (producerAuthority : JsString) (evidence : List (EncryptedEvidenceInput SampleDouble)) :
    SubmitCall SampleDouble where
  number
  recorder
  submission := { ledgerId := js "ledger", producerEvent := event, encryptedEvidence := evidence }
  context := { producerAuthority, tenantAuthority := js "did:web:tenant" }

theorem sampleParty_authority {did : JsString} :
    authorityMatchesParty sampleDeployment.runtime did none (sampleParty did) = .ok true :=
  congrArg Except.ok (decide_eq_true ⟨.inl rfl, rfl, rfl⟩)

theorem sampleCall_admission {number recorder : Nat} {event : AuditProducerEvent SampleDouble}
    {producerAuthority : JsString} {evidence : List (EncryptedEvidenceInput SampleDouble)}
    (hevent : isCanonical sampleDoubles event = true) (hauthority : producerAuthority ≠ [])
    (hproducer : memberAt event ["source", "producer"] = some (sampleParty producerAuthority))
    (htenant : memberAt event ["tenantRef"] = some sampleConfig.tenantRef) :
    sampleDeployment.admission (sampleCall number recorder event producerAuthority evidence) =
      .ok event := by
  have henvelope : validateSubmissionEnvelope sampleConfig
      (sampleCall number recorder event producerAuthority evidence).submission
      (sampleCall number recorder event producerAuthority evidence).context = .ok () := by
    have htenantAuthority : js "did:web:tenant" ≠ [] := by decide
    simp [validateSubmissionEnvelope, sampleCall, hauthority, htenantAuthority, sampleConfig]
  have hsame : sameParty sampleDeployment.runtime sampleConfig.tenantRef sampleConfig.tenantRef =
      .ok true := sampleParty_same canonical_sample.2.2.2.2
  have hproducerMatches : producerMatches sampleDeployment.runtime event
      (sampleCall number recorder event producerAuthority evidence).context = .ok true := by
    unfold producerMatches
    rw [hproducer]
    exact sampleParty_authority
  have htenantMatches : tenantMatches sampleDeployment.runtime sampleConfig event
      (sampleCall number recorder event producerAuthority evidence).context = .ok true := by
    unfold tenantMatches
    rw [htenant]
    exact bind_eq_ok.mpr ⟨true, hsame, sampleParty_authority⟩
  refine bind_eq_ok.mpr ⟨(), henvelope, bind_eq_ok.mpr ⟨event, ?_, bind_eq_ok.mpr ⟨(), ?_, rfl⟩⟩⟩
  · exact parseAuditProducerEvent_eq_ok.mpr ⟨hevent, rfl⟩
  · exact bind_eq_ok.mpr ⟨true, orOther_eq_ok.mpr hproducerMatches,
      bind_eq_ok.mpr ⟨true, orOther_eq_ok.mpr htenantMatches, rfl⟩⟩

/-- Events of different ids have different keys. -/
theorem sampleKey_ne {left right : JsString} {event event' : AuditProducerEvent SampleDouble}
    (hcanonical : isCanonical sampleDoubles (sourceIdentity (js "ledger") left event) = true)
    (hcanonical' : isCanonical sampleDoubles (sourceIdentity (js "ledger") right event') = true)
    (hids : textAt event ["eventId"] ≠ textAt event' ["eventId"]) :
    sampleKey left event ≠ sampleKey right event' := by
  intro hkey
  have hleft := sampleKey_eq hcanonical
  have hright := sampleKey_eq hcanonical'
  rw [← hkey] at hright
  have hsame := same_of_hashAuditValue sampleDoubles_prints sampleSha256_injective
    (canonical_of_isCanonical _ hcanonical).1 (canonical_of_isCanonical _ hcanonical').1 hleft
    hright [.key (js "eventId")]
  have hmember : ∀ producerAuthority (event : AuditProducerEvent SampleDouble),
      (sourceIdentity (js "ledger") producerAuthority event).get? [.key (js "eventId")] =
        some (.string (textAt event ["eventId"])) := fun _ _ => rfl
  rw [hmember, hmember] at hsame
  cases hsame with
  | some hnode =>
      generalize hleftId : textAt event ["eventId"] = leftId at hnode hids
      generalize hrightId : textAt event' ["eventId"] = rightId at hnode hids
      cases hnode
      exact hids rfl

/-- A key that no commit has. -/
theorem sampleLog_lookup {log : List (Commit SampleDouble)} {key : Digest}
    (h : ∀ commit ∈ log, commit.ledger = sampleConfig.toAuditLedgerRef ∧ commit.key ≠ key) :
    (replay log).getByIdempotencyKey (js "ledger") key = none := by
  rw [Option.eq_none_iff_forall_ne_some]
  intro entry hfound
  obtain ⟨commit, hcommit, hid, -⟩ := lookup_mem hfound
  obtain ⟨hledger, hkey⟩ := h commit hcommit
  have hsplit : commit.ledger.ledgerId ++ 0 :: commit.key = js "ledger" ++ 0 :: key := hid
  rw [hledger] at hsplit
  exact hkey (List.cons_injective (List.append_cancel_left hsplit))

theorem sampleGenesis_lookup {key : Digest} (hkey : sampleGenesis.key ≠ key) :
    (replay [sampleGenesis]).getByIdempotencyKey (js "ledger") key = none := by
  apply sampleLog_lookup
  intro commit hcommit
  rw [List.mem_singleton.mp hcommit]
  exact ⟨rfl, hkey⟩

/-- A submission to the small deployment of an event without evidence. -/
def sampleSubmission (number : Nat) (eventId : JsString) : SubmitCall SampleDouble :=
  sampleCall number 0 (sampleEvent eventId []) (js "did:web:producer") []

def sampleCommit (eventId : JsString) : Commit SampleDouble where
  ledger := sampleConfig.toAuditLedgerRef
  key := sampleKey (js "did:web:producer") (sampleEvent eventId [])
  entry := sampleEntry (sampleEvent eventId []) (some sampleGenesis.head)

theorem sampleCommit_attested {eventId : JsString}
    (hevent : isCanonical sampleDoubles (sampleEvent eventId []) = true) :
    sampleDeployment.Attested (sampleCommit eventId).entry := by
  apply sampleEntry_attested hevent (by decide +kernel)
  rintro _ ⟨⟩
  exact hasLoneSurrogate_sampleDigest _ _

/-- An event that can be hashed and is not committed yet. -/
structure SampleFresh (eventId : JsString) : Prop where
  event : isCanonical sampleDoubles (sampleEvent eventId []) = true
  source : isCanonical sampleDoubles (sourceIdentity (js "ledger") (js "did:web:producer")
    (sampleEvent eventId [])) = true
  manifest : isCanonical sampleDoubles
    (collectAuditEvidenceManifest (sampleEvent eventId [])) = true
  lookup : (replay [sampleGenesis]).getByIdempotencyKey (js "ledger") (sampleCommit eventId).key =
    none

theorem sampleFresh_of (eventId : JsString)
    (hevent : isCanonical sampleDoubles (sampleEvent eventId []) = true)
    (hsource : isCanonical sampleDoubles (sourceIdentity (js "ledger") (js "did:web:producer")
      (sampleEvent eventId [])) = true)
    (hmanifest : isCanonical sampleDoubles
      (collectAuditEvidenceManifest (sampleEvent eventId [])) = true)
    (hid : textAt (genesisEvent sampleConfig .zero) ["eventId"] ≠ eventId) :
    SampleFresh eventId :=
  ⟨hevent, hsource, hmanifest, sampleGenesis_lookup (sampleKey_ne (by decide +kernel) hsource hid)⟩

theorem sampleFresh_first : SampleFresh (js "first") :=
  sampleFresh_of _ (by decide +kernel) (by decide +kernel) (by decide +kernel) (by decide +kernel)

theorem sampleFresh_second : SampleFresh (js "second") :=
  sampleFresh_of _ (by decide +kernel) (by decide +kernel) (by decide +kernel) (by decide +kernel)

theorem sampleCommit_recorded {eventId : JsString} (hfresh : SampleFresh eventId) :
    Recorded sampleDeployment.Admits [sampleGenesis, sampleCommit eventId] := by
  have hcandidate : sampleDeployment.Candidate (sampleDeployment.configs 0)
      (sampleEvent eventId []) (some sampleGenesis.head) (sampleCommit eventId).entry :=
    ⟨rfl, rfl, rfl, sampleCommit_attested hfresh.event, rfl, rfl⟩
  obtain ⟨happendable, hadmits⟩ := appendable_of_candidate sampleGenesis_recorded hcandidate
    (sampleKey_eq hfresh.source) (show false = decide (nextSequence (some sampleGenesis.head) = 0)
      from rfl) (fun _ => ⟨sampleGenesis, List.mem_singleton_self _, rfl⟩)
      (fun h => absurd h Bool.false_ne_true) hfresh.lookup rfl
  exact sampleGenesis_recorded.concat happendable hadmits

theorem sampleCommit_appends {eventId : JsString} (hfresh : SampleFresh eventId) :
    (replay [sampleGenesis]).compareAndAppend sampleConfig.toAuditLedgerRef
        (some sampleGenesis.head) (sampleCommit eventId).entry (sampleCommit eventId).key =
      (.appended (sampleCommit eventId).entry, replay [sampleGenesis, sampleCommit eventId]) :=
  compareAndAppend_getHead hfresh.lookup (headsEqual_iff.mpr rfl)

/-- Entries of different events have different digests. -/
theorem sampleCommit_ne {left right : JsString} (hids : left ≠ right)
    (hleft : isCanonical sampleDoubles (sampleEvent left []) = true)
    (hright : isCanonical sampleDoubles (sampleEvent right []) = true) :
    (sampleCommit left).entry.entryDigest ≠ (sampleCommit right).entry.entryDigest := by
  intro hdigest
  have hentry := (sampleCommit_attested hleft).entry
  have hentry' := (sampleCommit_attested hright).entry
  rw [← hdigest] at hentry'
  have hsame := same_of_hashAuditValue sampleDoubles_prints sampleSha256_injective
    (wellFormed_core (canonical_of_isCanonical _ hleft).1)
    (wellFormed_core (canonical_of_isCanonical _ hright).1) hentry hentry'
    [.key (js "event"), .key (js "eventId")]
  have hmember : ∀ eventId : JsString, (sampleCommit eventId).entry.core.toJson.get?
      [.key (js "event"), .key (js "eventId")] = some (.string eventId) := fun _ => rfl
  rw [hmember, hmember] at hsame
  cases hsame with
  | some hnode =>
      cases hnode
      exact hids rfl

/-- The event of a second commit is new to a journal that has the first. -/
theorem sampleCommit_lookup {first second : JsString} (hfirst : SampleFresh first)
    (hsecond : SampleFresh second) (hids : first ≠ second) :
    (replay [sampleGenesis, sampleCommit first]).getByIdempotencyKey (js "ledger")
      (sampleCommit second).key = none := by
  apply sampleLog_lookup
  intro commit hcommit
  rcases List.mem_cons.mp hcommit with rfl | hcommit
  · refine ⟨rfl, ?_⟩
    intro hkey
    have hheld := sampleGenesis_recorded.lookup_of_mem (List.mem_singleton_self sampleGenesis)
    have hfresh := hsecond.lookup
    rw [← hkey] at hfresh
    exact Option.some_ne_none _ (hheld.symm.trans hfresh)
  · rw [List.mem_singleton.mp hcommit]
    exact ⟨rfl, sampleKey_ne hfirst.source hsecond.source hids⟩

/-- The second event, on the entry of the first. -/
def sampleSecond : Commit SampleDouble where
  ledger := sampleConfig.toAuditLedgerRef
  key := (sampleCommit (js "second")).key
  entry := sampleEntry (sampleEvent (js "second") []) (some (sampleCommit (js "first")).head)

theorem sampleSecond_recorded : Recorded sampleDeployment.Admits
    [sampleGenesis, sampleCommit (js "first"), sampleSecond] := by
  have hfirst := sampleCommit_recorded sampleFresh_first
  have hsecond := sampleFresh_second
  have hattested : sampleDeployment.Attested sampleSecond.entry := by
    apply sampleEntry_attested hsecond.event (hasLoneSurrogate_decimalString _)
    rintro _ ⟨⟩
    exact hasLoneSurrogate_sampleDigest _ _
  have hcandidate : sampleDeployment.Candidate (sampleDeployment.configs 0)
      (sampleEvent (js "second") []) (some (sampleCommit (js "first")).head) sampleSecond.entry :=
    ⟨rfl, rfl, rfl, hattested, rfl, rfl⟩
  obtain ⟨happendable, hadmits⟩ := appendable_of_candidate hfirst hcandidate
    (sampleKey_eq hsecond.source)
    (show false = decide (nextSequence (some (sampleCommit (js "first")).head) = 0) from rfl)
    (fun _ => ⟨sampleGenesis, List.mem_cons_self, rfl⟩) (fun h => absurd h Bool.false_ne_true)
    (sampleCommit_lookup sampleFresh_first hsecond (by decide)) rfl
  exact hfirst.concat happendable hadmits

section Leading

variable {heads : HeadUse → Option AuditHead → Prop}
  {serves : Serving (recorderSetting SampleDouble)}
  (A : sampleDeployment.Answers heads serves) {s : AuditWorld SampleDouble}
include A

/-- What the small deployment builds of an event, on a head. -/
theorem sampleEntry_built {event : AuditProducerEvent SampleDouble} {head : Option AuditHead}
    {genesis : Bool} (hevent : isCanonical sampleDoubles event = true)
    (hmanifest : isCanonical sampleDoubles (collectAuditEvidenceManifest event) = true)
    (hhead : ∀ known ∈ head, hasLoneSurrogate known.entryDigest = false)
    (hgenesis : genesis = decide (nextSequence head = 0)) (hclock : s.clock 0 = .zero) :
    (buildCandidate sampleDeployment.runtime (sampleDeployment.configs 0) 0 event
      (sampleDigest .event event) head genesis).Leads serves s s
      (.finished (.ok (sampleEntry event head))) := by
  have hattested := sampleEntry_attested hevent (hasLoneSurrogate_decimalString _) hhead
  obtain ⟨hwellFormed, hsupported⟩ := canonical_of_isCanonical _ hmanifest
  obtain ⟨payload, hpayload⟩ := sampleDeployment_regular.receipt
    (canonical_of_isCanonical _ hevent).1 hattested.entry
  exact buildCandidate_leads A hclock hgenesis (sampleDigest_eq hwellFormed hsupported) rfl
    hattested.entry (orOther_eq_ok.mp hpayload)

/-- A submission to an epoch that the genesis opened comes to its append. -/
theorem sampleSubmission_attempts {eventId : JsString} (number : Nat)
    {log : List (Commit SampleDouble)} {mid resumed s' : AuditWorld SampleDouble}
    {request : AuditRequest SampleDouble} {answer : Except AuditError request.Answer}
    {entry : SignedAuditEntry SampleDouble} (hfresh : SampleFresh eventId)
    (hjournal : s.journal = replay log) (hopened : [sampleGenesis] <+: log)
    (hlookup : (replay log).getByIdempotencyKey (js "ledger") (sampleCommit eventId).key = none)
    (hheads : heads .initialization (s.journal.getHead (sampleDeployment.ledger 0)))
    (hattempts : Leads.Pauses serves (appendAttempts sampleDeployment.runtime
      (sampleDeployment.configs 0) 0 (sampleEvent eventId []) false
      (sampleIdentity (js "did:web:producer") (sampleEvent eventId [])) 257)
      (s.setRecorder 0 fun recorder => recorder.holdEvidence []) mid request answer resumed s'
      (.finished (.ok entry))) :
    Leads.Pauses serves (sampleDeployment.code (sampleSubmission number eventId)) s mid request
      answer resumed (s'.setRecorder 0 fun recorder => recorder.releaseEvidence [])
      (.finished (.ok entry)) := by
  have hbegun : sampleDeployment.Begun 0 s.journal := by
    rw [hjournal]
    exact sampleLog_begun 0 hopened
  obtain ⟨first, hfirst⟩ := ensureInitialized_begun A hjournal hbegun hheads
  have hunused : s.journal.getByIdempotencyKey (js "ledger") (sampleCommit eventId).key = none := by
    rw [hjournal]
    exact hlookup
  exact submitAuthenticated_pauses A (sampleCall_admission hfresh.event (by decide) rfl rfl) rfl
    (sampleIdentity_identifies hfresh.event hfresh.source) hunused rfl rfl hfirst rfl hunused
    hattempts

/-- An attempt to append an event after a head. -/
theorem sampleAttempt_pauses (remaining : Nat) {eventId : JsString}
    {committed read : Option AuditHead} {head : AuditHead} {answer : AuditAppendResult SampleDouble}
    {resumed s' : AuditWorld SampleDouble}
    {thread : Thread (recorderSetting SampleDouble) (SignedAuditEntry SampleDouble)}
    (hfresh : SampleFresh eventId) (hcommitted : (s.recorders 0).committedHead = committed)
    (hearlier : s.journal.EarlierHead sampleConfig.toAuditLedgerRef read)
    (hheads : heads (.position false committed) read)
    (hposition : higherHead committed read = some head)
    (hdigest : hasLoneSurrogate head.entryDigest = false) (hclock : s.clock 0 = .zero)
    (hconcludes : (concludeAppend sampleDeployment.runtime (sampleDeployment.configs 0) 0 false
      (sampleIdentity (js "did:web:producer") (sampleEvent eventId [])) committed
      (s.recorders 0).reportedHead (some head)
      (appendAttempts sampleDeployment.runtime (sampleDeployment.configs 0) 0
        (sampleEvent eventId []) false
        (sampleIdentity (js "did:web:producer") (sampleEvent eventId [])) remaining) answer).Leads
      serves resumed s' thread) :
    Leads.Pauses serves (appendAttempts sampleDeployment.runtime (sampleDeployment.configs 0) 0
      (sampleEvent eventId []) false
      (sampleIdentity (js "did:web:producer") (sampleEvent eventId [])) (remaining + 1)) s s
      (.compareAndAppend sampleConfig.toAuditLedgerRef (some head)
        (sampleEntry (sampleEvent eventId []) (some head)) (sampleCommit eventId).key)
      (.ok answer) resumed s' thread := by
  subst hcommitted
  have hhead : ∀ known ∈ some head, hasLoneSurrogate known.entryDigest = false := by
    rintro _ ⟨⟩
    exact hdigest
  have hgenesis : false = decide (nextSequence (some head) = 0) := rfl
  have hbuild := sampleEntry_built A hfresh.event hfresh.manifest hhead hgenesis hclock
  rw [← hposition] at hbuild hconcludes ⊢
  exact appendAttempts_pauses A remaining hearlier hheads (fun h => absurd h Bool.false_ne_true)
    hbuild
    hconcludes

end Leading

end KyaOs.Audit
