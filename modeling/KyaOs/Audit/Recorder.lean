import KyaOs.Audit.Providers
import KyaOs.Concurrency.Async

/-!
# The audit recorder

`AuditRecorderService` as asynchronous code over what its replicas share: a journal, an
evidence store, and the fields of each replica. Every `await` is a request; who serves it,
and how, is left to the program the replicas run in.
-/

namespace KyaOs.Audit

open Js Concurrency

/-- The hasher, the numbers of the runtime, and the verdicts of the schemas. -/
structure AuditRuntime (D : Type) where
  numbers : Doubles D
  sha256 : Bytes → Except Error Digest
  auditProducerEventSchema : AuditProducerEvent D → Bool
  auditEntryCoreSchema : AuditEntryCore D → Bool
  signedAuditEntrySchema : SignedAuditEntry D → Bool
  /-- What a schema throws. -/
  schemaError : Error

/-- A configuration that the constructor accepts. -/
structure AuditRecorderServiceConfig (D : Type) extends AuditLedgerRef where
  tenantRef : PartyRef D
  binding : JsString
  sourceId : JsString
  signer : SignerRef
  hasAuthorizer : Bool := false
  hasEvidence : Bool := false
  /-- `previousEpochId` and `previousTerminalCheckpointDigest`; the constructor refuses one
  without the other, and both without a guard. -/
  previousEpoch : Option (JsString × Digest) := none
  maxAppendConflicts : Nat := 256

structure AuditRecorderSubmission (D : Type) where
  ledgerId : JsString
  expectedLedgerEpochId : Option JsString := none
  producerEvent : AuditProducerEvent D
  encryptedEvidence : List (EncryptedEvidenceInput D) := []

structure AuthenticatedAuditSubmissionContext (D : Type) where
  producerAuthority : JsString
  tenantAuthority : JsString
  producerRef : Option (PartyRef D) := none
  tenantRef : Option (PartyRef D) := none

/-- A call of `submitAuthenticated`: the `number`-th, of one replica. -/
structure SubmitCall (D : Type) where
  number : Nat
  recorder : Nat
  submission : AuditRecorderSubmission D
  context : AuthenticatedAuditSubmissionContext D

structure EventIdentity where
  eventDigest : Digest
  idempotencyKey : Digest

structure Hold where
  holders : Nat
  shared : Bool
  deriving DecidableEq

/-- The fields of one replica. A promise in `initialization` is named by a number, and
`settled` keeps what each of them came to. -/
structure RecorderState (D : Type) where
  committedHead : Option AuditHead := none
  reportedHead : Option AuditHead := none
  initialization : Option Nat := none
  initializations : Nat := 0
  settled : Nat → Option (Except AuditError (SignedAuditEntry D)) := fun _ => none
  heldEvidence : JsString → Option Hold := fun _ => none

/-- What has happened; statements speak of it, and no code reads it. -/
structure AuditHistory (D : Type) where
  /-- The entries the journal has answered with. -/
  answered : List (SignedAuditEntry D) := []
  /-- The entries the journal accepted, and from which call. -/
  accepted : List (SubmitCall D × SignedAuditEntry D) := []
  /-- The evidence objects others than the recorder disposed. -/
  disposed : List JsString := []

structure AuditWorld (D : Type) where
  journal : MemoryAuditJournal D
  evidence : EvidenceStates D
  recorders : Nat → RecorderState D
  /-- What each replica's clock shows. -/
  clock : Nat → D
  history : AuditHistory D := {}

/-- What a head is read for, and the committed head the recorder went by when it asked. -/
inductive HeadUse where
  | initialization
  | position (genesis : Bool) (committed : Option AuditHead)

inductive AuditRequest (D : Type) where
  | authorize (recorder : Nat) (submission : AuditRecorderSubmission D)
      (context : AuthenticatedAuditSubmissionContext D)
  | hash (domain : AuditDigestDomain) (value : JsonValue D)
  | sign (recorder : Nat) (payload : Bytes)
  | getByIdempotencyKey (ledgerId : JsString) (key : Digest)
  | getHead (ledger : AuditLedgerRef) (use : HeadUse)
  /-- The first entry `readRange` yields with `limit: 1`. -/
  | readFirst (ledger : AuditLedgerRef)
  | verifyAndSeal (recorder : Nat)
  | compareAndAppend (ledger : AuditLedgerRef) (expectedHead : Option AuditHead)
      (entry : SignedAuditEntry D) (key : Digest)
  /-- A promise another submission left in `initialization`. -/
  | initialized (recorder promise : Nat)
  | has (ref : EvidenceRef D)
  | putIfAbsent (input : EncryptedEvidenceInput D)
  /-- The promise of an `applyRetention` that ran to its end when it was called. -/
  | disposed (result : Except AuditError Unit)

@[reducible] def AuditRequest.Answer {D : Type} : AuditRequest D → Type
  | .authorize .. => Bool
  | .hash .. => Digest
  | .sign .. => JsString
  | .getByIdempotencyKey .. => Option (SignedAuditEntry D)
  | .getHead .. => Option AuditHead
  | .readFirst .. => Option (SignedAuditEntry D)
  | .verifyAndSeal .. => Bool
  | .compareAndAppend .. => AuditAppendResult D
  | .initialized .. => SignedAuditEntry D
  | .has .. => Bool
  | .putIfAbsent .. => EvidenceRef D
  | .disposed .. => Unit

/-- What recorder code shares and whom it asks. -/
abbrev recorderSetting (D : Type) : Setting where
  State := AuditWorld D
  Error := AuditError
  Request := AuditRequest D
  Answer := AuditRequest.Answer

abbrev RecorderM (D : Type) (α : Type) := Async (recorderSetting D) α

/-- `await` of a request's promise. -/
def reply {D : Type} (request : AuditRequest D) : RecorderM D request.Answer :=
  Async.ask (I := recorderSetting D) request

section Checks

variable {D : Type} (runtime : AuditRuntime D) (config : AuditRecorderServiceConfig D)

def auditFailure {α : Type} (code : AuditErrorCode) (message : String) : Except AuditError α :=
  .error (.protocol code (js message))

/-- A call into code that throws errors of its own. -/
def orOther {α : Type} (result : Except Error α) : Except AuditError α :=
  result.mapError .other

def parseAuditProducerEvent (event : AuditProducerEvent D) :
    Except AuditError (AuditProducerEvent D) :=
  if runtime.auditProducerEventSchema event then .ok event
  else .error (.other runtime.schemaError)

def parseAuditEntryCore (core : AuditEntryCore D) : Except AuditError (AuditEntryCore D) :=
  if runtime.auditEntryCoreSchema core then .ok core else .error (.other runtime.schemaError)

def sameHead : Option AuditHead → Option AuditHead → Bool
  | some left, some right =>
    left.entryDigest = right.entryDigest ∧ left.sequence = right.sequence
  | none, none => true
  | _, _ => false

def higherHead : Option AuditHead → Option AuditHead → Option AuditHead
  | current, none => current
  | none, some candidate => some candidate
  | some current, some candidate =>
    if current.sequence < candidate.sequence then some candidate else some current

def sameParty (left right : PartyRef D) : Except Error Bool := do
  return (← canonicalizeJson runtime.numbers left) = (← canonicalizeJson runtime.numbers right)

def authorityMatchesParty (authority : JsString) (boundRef : Option (PartyRef D))
    (claimedRef : PartyRef D) : Except Error Bool :=
  match boundRef with
  | some boundRef => sameParty runtime boundRef claimedRef
  | none =>
    .ok ((textAt claimedRef ["kind"] = js "public_did" ∨
        textAt claimedRef ["kind"] = js "pairwise_did") ∧
      memberAt claimedRef ["did"] matches some (.string _) ∧
      textAt claimedRef ["did"] = authority)

def validateSubmissionEnvelope (submission : AuditRecorderSubmission D)
    (context : AuthenticatedAuditSubmissionContext D) : Except AuditError Unit :=
  if context.producerAuthority = [] ∨ context.tenantAuthority = [] then
    auditFailure .UNAUTHORIZED_SUBMISSION
      "Authenticated producer and tenant authority are required"
  else if submission.ledgerId ≠ config.ledgerId then
    auditFailure .LEDGER_MISMATCH "Wrong audit ledger"
  else .ok ()

/-- Whether the authenticated producer is the event's. -/
def producerMatches (event : AuditProducerEvent D)
    (context : AuthenticatedAuditSubmissionContext D) : Except Error Bool :=
  match memberAt event ["source", "producer"] with
  | some producer =>
    authorityMatchesParty runtime context.producerAuthority context.producerRef producer
  | none => .ok false

/-- Whether the event's tenant is the recorder's and the authenticated one. -/
def tenantMatches (event : AuditProducerEvent D)
    (context : AuthenticatedAuditSubmissionContext D) : Except Error Bool :=
  match memberAt event ["tenantRef"] with
  | some tenant => do
    if ← sameParty runtime tenant config.tenantRef then
      authorityMatchesParty runtime context.tenantAuthority context.tenantRef tenant
    else return false
  | none => .ok false

def validateEventAuthority (event : AuditProducerEvent D)
    (context : AuthenticatedAuditSubmissionContext D) : Except AuditError Unit := do
  if ← orOther (producerMatches runtime event context) then
    if ← orOther (tenantMatches runtime config event context) then return ()
    else
      auditFailure .UNAUTHORIZED_SUBMISSION
        "Event tenant does not match the authenticated tenant authority"
  else
    auditFailure .UNAUTHORIZED_SUBMISSION
      "Event producer does not match the authenticated producer authority"

def resolveDuplicate (existing : SignedAuditEntry D) (digest : Digest) :
    Except AuditError (SignedAuditEntry D) :=
  if existing.eventDigest ≠ digest then
    auditFailure .EVENT_ID_CONFLICT
      "Authenticated producer event identity was reused with different content"
  else .ok existing

def isOwnTenant (event : AuditProducerEvent D) : Except Error Bool :=
  match memberAt event ["tenantRef"] with
  | some tenant => sameParty runtime tenant config.tenantRef
  | none => .ok false

/-- Whether an entry is the genesis this configuration would write. -/
def isOwnGenesis (entry : SignedAuditEntry D) : Except Error Bool := do
  let event := entry.core.event
  let tenant ← isOwnTenant runtime config event
  return entry.core.sequence = 0 ∧ entry.core.previousEntryDigest = none ∧
    entry.core.ledgerId = config.ledgerId ∧ entry.core.ledgerEpochId = config.ledgerEpochId ∧
    entry.core.recorder = config.signer ∧
    textAt event ["eventType"] = js "ledger.epoch.started" ∧
    textAt event ["binding"] = config.binding ∧
    textAt event ["source", "sourceId"] = config.sourceId ∧
    textAt event ["source", "producer", "kind"] = js "public_did" ∧
    textAt event ["source", "producer", "did"] = config.signer.did ∧
    tenant ∧
    textAt event ["details", "family"] = js "ledger" ∧
    textAt event ["details", "phase"] = js "epoch_started" ∧
    (memberAt event ["details", "previousEpochId"]).map (fun _ =>
        textAt event ["details", "previousEpochId"]) = config.previousEpoch.map Prod.fst ∧
    (memberAt event ["details", "previousTerminalCheckpointDigest"]).map (fun _ =>
        textAt event ["details", "previousTerminalCheckpointDigest"]) =
      config.previousEpoch.map Prod.snd

def validateExistingGenesis (candidate : SignedAuditEntry D) :
    Except AuditError (SignedAuditEntry D) :=
  if runtime.signedAuditEntrySchema candidate ∧ isOwnGenesis runtime config candidate = .ok true
  then .ok candidate
  else auditFailure .JOURNAL_FAILURE
    "Existing ledger genesis does not match the authoritative recorder configuration"

def genesisEvent (occurredAt : D) : AuditProducerEvent D :=
  let did : PartyRef D :=
    .object [(js "kind", .string (js "public_did")), (js "did", .string config.signer.did)]
  let transition : List (JsString × JsonValue D) :=
    match config.previousEpoch with
    | some (previousEpochId, digest) =>
      if previousEpochId = [] then []
      else [(js "previousEpochId", .string previousEpochId),
        (js "previousTerminalCheckpointDigest", .string digest)]
    | none => []
  .object [(js "schema", .string auditEventSchemaId),
    (js "eventId", .string (js "genesis:" ++ config.ledgerId ++ js ":" ++ config.ledgerEpochId)),
    (js "eventType", .string (js "ledger.epoch.started")),
    (js "eventVersion", .string (js "1.0.0")), (js "binding", .string config.binding),
    (js "occurredAt", .number occurredAt), (js "tenantRef", config.tenantRef),
    (js "source", .object [(js "producer", did), (js "sourceId", .string config.sourceId),
      (js "sourceSequence", .string (js "0"))]),
    (js "resource", did),
    (js "action", .object [(js "category", .string (js "ledger.epoch"))]),
    (js "outcome", .string (js "succeeded")), (js "evidence", .array []),
    (js "details", .object ([(js "family", .string (js "ledger")),
      (js "phase", .string (js "epoch_started"))] ++ transition)),
    (js "privacy", .object [(js "classification", .string (js "internal")),
      (js "retentionClass", .string (js "integrity-ledger"))])]

/-- `forks(known)`: another digest at the sequence of a known head. -/
def forks (actual known : Option AuditHead) : Bool :=
  match known, actual with
  | some known, some actual =>
    known.sequence = actual.sequence ∧ known.entryDigest ≠ actual.entryDigest
  | _, _ => false

/-- The actual head is below a committed one. -/
def isBehind (actual committed : Option AuditHead) : Bool :=
  match committed, actual with
  | some committed, some actual => actual.sequence < committed.sequence
  | some _, none => true
  | none, _ => false

def assertNoRegression (actual committed reported : Option AuditHead) : Except AuditError Unit :=
  if isBehind actual committed ∨ forks actual committed ∨ forks actual reported then
    auditFailure .JOURNAL_FAILURE
      "Audit journal head moved behind a head this recorder already committed or saw"
  else .ok ()

end Checks

section Updates

variable {D : Type}

def AuditWorld.setRecorder (world : AuditWorld D) (r : Nat)
    (f : RecorderState D → RecorderState D) : AuditWorld D :=
  { world with recorders := Function.update world.recorders r (f (world.recorders r)) }

/-- A head this recorder appended. -/
def RecorderState.commit (recorder : RecorderState D) (head : AuditHead) : RecorderState D :=
  { recorder with
    committedHead := higherHead recorder.committedHead (some head)
    reportedHead := higherHead recorder.reportedHead (some head) }

/-- A head the journal reported. -/
def RecorderState.report (recorder : RecorderState D) (head : Option AuditHead) :
    RecorderState D :=
  { recorder with reportedHead := higherHead recorder.reportedHead head }

/-- A new promise in `initialization`. -/
def RecorderState.beginInitialization (recorder : RecorderState D) : RecorderState D :=
  { recorder with
    initialization := some recorder.initializations
    initializations := recorder.initializations + 1 }

/-- The promise settles and `initialization` is cleared. -/
def RecorderState.endInitialization (recorder : RecorderState D) (promise : Nat)
    (result : Except AuditError (SignedAuditEntry D)) : RecorderState D :=
  { recorder with
    initialization := none
    settled := Function.update recorder.settled promise (some result) }

/-- The distinct object ids of a submission's evidence. -/
def evidenceObjectIds (evidence : List (EncryptedEvidenceInput D)) : List JsString :=
  (evidence.map (·.objectId)).dedup

def holdObject (held : JsString → Option Hold) (objectId : JsString) : JsString → Option Hold :=
  match held objectId with
  | none => Function.update held objectId (some { holders := 1, shared := false })
  | some hold =>
    Function.update held objectId (some { holders := hold.holders + 1, shared := true })

def releaseObject (held : JsString → Option Hold) (objectId : JsString) : JsString → Option Hold :=
  match held objectId with
  | none => held
  | some hold =>
    if hold.holders = 1 then Function.update held objectId none
    else Function.update held objectId (some { hold with holders := hold.holders - 1 })

def RecorderState.holdEvidence (recorder : RecorderState D) (objectIds : List JsString) :
    RecorderState D :=
  { recorder with heldEvidence := objectIds.foldl holdObject recorder.heldEvidence }

def RecorderState.releaseEvidence (recorder : RecorderState D) (objectIds : List JsString) :
    RecorderState D :=
  { recorder with heldEvidence := objectIds.foldl releaseObject recorder.heldEvidence }

end Updates

section Submit

variable {D : Type} (runtime : AuditRuntime D) (config : AuditRecorderServiceConfig D) (r : Nat)

def updateRecorder (f : RecorderState D → RecorderState D) : RecorderM D Unit :=
  Async.update fun world => world.setRecorder r f

/-- What an idempotency key is the digest of. -/
def sourceIdentity (ledgerId producerAuthority : JsString) (event : AuditProducerEvent D) :
    JsonValue D :=
  .object [(js "ledgerId", .string ledgerId),
    (js "producerAuthority", .string producerAuthority),
    (js "sourceId", .string (textAt event ["source", "sourceId"])),
    (js "eventId", .string (textAt event ["eventId"]))]

def identifyEvent (event : AuditProducerEvent D)
    (context : AuthenticatedAuditSubmissionContext D) : RecorderM D EventIdentity := do
  let eventDigest ← reply (.hash .event event)
  let idempotencyKey ← reply
    (.hash .idempotency (sourceIdentity config.ledgerId context.producerAuthority event))
  return { eventDigest, idempotencyKey }

/-- The sequence after a head. -/
def nextSequence : Option AuditHead → Nat
  | none => 0
  | some head => head.sequence + 1

def buildCandidate (event : AuditProducerEvent D) (eventDigest : Digest)
    (head : Option AuditHead) (genesis : Bool) : RecorderM D (SignedAuditEntry D) :=
  let sequence := nextSequence head
  if genesis ≠ decide (sequence = 0) then
    Async.ofExcept (auditFailure .JOURNAL_FAILURE
      (if genesis then "Genesis must be the first epoch entry"
        else "Producer event cannot replace genesis"))
  else do
    let world ← Async.state
    let recordedAt := world.clock r
    let evidenceManifestDigest ←
      reply (.hash .evidenceManifest (collectAuditEvidenceManifest event))
    let core ← Async.ofExcept (parseAuditEntryCore runtime
      { schema := auditEntrySchemaId
        ledgerId := config.ledgerId
        ledgerEpochId := config.ledgerEpochId
        sequence
        previousEntryDigest := head.map (·.entryDigest)
        recordedAt
        recorder := config.signer
        eventDigest
        event
        evidenceManifestDigest
        integritySuite := auditIntegritySuite })
    let entryDigest ← reply (.hash .entry core.toJson)
    let receiptCore := buildAuditRecorderReceiptCore core entryDigest
    let payload ← Async.ofExcept (orOther (canonicalizeJson runtime.numbers receiptCore.toJson))
    let jws ← reply (.sign r (encodeUtf8 payload))
    return { core, eventDigest, entryDigest, receiptCore, jws }

/-- An entry already committed under the event's identity. -/
def resolveExisting (genesis : Bool) (existing : SignedAuditEntry D) (eventDigest : Digest) :
    Except AuditError (SignedAuditEntry D) :=
  if genesis then validateExistingGenesis runtime config existing
  else resolveDuplicate existing eventDigest

/-- A genesis that another replica committed first. -/
def racedGenesis (genesis : Bool) (head : Option AuditHead) (identity : EventIdentity) :
    RecorderM D (Option (SignedAuditEntry D)) :=
  if genesis = true ∧ head ≠ none then
    reply (.getByIdempotencyKey config.ledgerId identity.idempotencyKey)
  else pure none

/-- What `appendEvent` does with the journal's answer; `retry` is the rest of its loop. -/
def concludeAppend (genesis : Bool) (identity : EventIdentity)
    (committed reported head : Option AuditHead) (retry : RecorderM D (SignedAuditEntry D)) :
    AuditAppendResult D → RecorderM D (SignedAuditEntry D)
  | .appended entry => do
    updateRecorder r fun recorder => recorder.commit
      { config.toAuditLedgerRef with
        sequence := entry.core.sequence
        entryDigest := entry.entryDigest }
    return entry
  | .duplicate existing | .idempotencyConflict existing =>
    Async.ofExcept (resolveExisting runtime config genesis existing identity.eventDigest)
  | .headConflict actualHead => do
    Async.ofExcept (assertNoRegression actualHead committed reported)
    updateRecorder r fun recorder => recorder.report actualHead
    if sameHead head actualHead then
      Async.ofExcept (auditFailure .JOURNAL_FAILURE
        "Audit journal reported a head conflict without advancing its head")
    else retry

/-- `compareAndAppend` of an entry built on a head. -/
def appendAt (event : AuditProducerEvent D) (genesis : Bool) (identity : EventIdentity)
    (committed reported head : Option AuditHead) (retry : RecorderM D (SignedAuditEntry D)) :
    RecorderM D (SignedAuditEntry D) := do
  let candidate ← buildCandidate runtime config r event identity.eventDigest head genesis
  let result ← tryCatch
    (reply (.compareAndAppend config.toAuditLedgerRef head candidate identity.idempotencyKey))
    fun _ => Async.ofExcept (auditFailure .JOURNAL_FAILURE "Audit journal append failed")
  concludeAppend runtime config r genesis identity committed reported head retry result

/-- The loop of `appendEvent`, with as many attempts left. -/
def appendAttempts (event : AuditProducerEvent D) (genesis : Bool) (identity : EventIdentity) :
    Nat → RecorderM D (SignedAuditEntry D)
  | 0 => Async.ofExcept (auditFailure .APPEND_CONFLICT_EXHAUSTED
      "Audit append conflict retry budget exhausted")
  | remaining + 1 => do
    let world ← Async.state
    let committed := (world.recorders r).committedHead
    let reported := (world.recorders r).reportedHead
    let read ← reply (.getHead config.toAuditLedgerRef (.position genesis committed))
    let head := higherHead committed read
    let raced ← racedGenesis config genesis head identity
    match raced with
    | some raced => Async.ofExcept (validateExistingGenesis runtime config raced)
    | none =>
      appendAt runtime config r event genesis identity committed reported head
        (appendAttempts event genesis identity remaining)

/-- `appendEvent`, the identity already known. -/
def appendIdentified (event : AuditProducerEvent D) (genesis : Bool) (identity : EventIdentity) :
    RecorderM D (SignedAuditEntry D) := do
  let duplicate ← reply (.getByIdempotencyKey config.ledgerId identity.idempotencyKey)
  match duplicate with
  | some duplicate =>
    Async.ofExcept (resolveExisting runtime config genesis duplicate identity.eventDigest)
  | none =>
    appendAttempts runtime config r event genesis identity (config.maxAppendConflicts + 1)

/-- The append of the genesis that `initialization` holds. -/
def appendGenesis (event : AuditProducerEvent D) : RecorderM D (SignedAuditEntry D) := do
  let identity ← identifyEvent config event
    { producerAuthority := config.signer.did
      tenantAuthority := js "audit-recorder"
      producerRef := some (.object
        [(js "kind", .string (js "public_did")), (js "did", .string config.signer.did)])
      tenantRef := some config.tenantRef }
  appendIdentified runtime config r event true identity

/-- `this.initialization ??= …`: the submission that finds no promise starts the append
and carries it out, then awaits the promise as the others do. -/
def awaitInitialization : RecorderM D (SignedAuditEntry D) := do
  let world ← Async.state
  match (world.recorders r).initialization with
  | some promise => reply (.initialized r promise)
  | none => do
    let event ← Async.ofExcept (parseAuditProducerEvent runtime
      (genesisEvent config (world.clock r)))
    let promise := (world.recorders r).initializations
    updateRecorder r RecorderState.beginInitialization
    (appendGenesis runtime config r event).andThen fun result => do
      updateRecorder r fun recorder => recorder.endInitialization promise result
      reply (.initialized r promise)

/-- The predecessor epoch is verified and sealed, if there is one. -/
def sealPredecessor : RecorderM D Unit :=
  match config.previousEpoch with
  | none => pure ()
  | some _ => do
    let verifiedAndSealed ← reply (.verifyAndSeal r)
    if verifiedAndSealed then pure ()
    else Async.ofExcept (auditFailure .INVALID_CONFIGURATION
      "Predecessor checkpoint could not be verified and sealed")

def ensureInitialized : RecorderM D (SignedAuditEntry D) := do
  let existingHead ← reply (.getHead config.toAuditLedgerRef .initialization)
  match existingHead with
  | some _ => do
    let first ← reply (.readFirst config.toAuditLedgerRef)
    match first with
    | some entry => Async.ofExcept (validateExistingGenesis runtime config entry)
    | none => Async.ofExcept (auditFailure .JOURNAL_FAILURE "Ledger head exists without genesis")
  | none => do
    sealPredecessor config r
    awaitInitialization runtime config r

/-- `submitted.has(objectId)`, or no frozen reference equal to the item's. -/
def isUnreferenced (event : AuditProducerEvent D) (submitted : List JsString)
    (item : EncryptedEvidenceInput D) : Except Error Bool :=
  -- of several references with one id, the map keeps the last
  match ((collectAuditEvidenceRefs event).reverse.find? fun ref =>
      textAt ref ["objectId"] = item.objectId) with
  | none => .ok true
  | some referenced => do
    if item.objectId ∈ submitted then return true
    else return (← canonicalizeJson runtime.numbers referenced) ≠
      (← canonicalizeJson runtime.numbers item.ref)

/-- The loop of `persistSubmittedEvidence`: what was stored anew, after what was before. -/
def persistEvidence (event : AuditProducerEvent D) (submitted : List JsString)
    (stored : List (EncryptedEvidenceInput D)) :
    List (EncryptedEvidenceInput D) → RecorderM D (List (EncryptedEvidenceInput D))
  | [] => pure stored
  | item :: rest => do
    let unreferenced ← Async.ofExcept (orOther (isUnreferenced runtime event submitted item))
    if unreferenced then
      Async.ofExcept (auditFailure .EVIDENCE_FAILURE
        "Submitted evidence does not exactly match a unique frozen event reference")
    else do
      let existed ← reply (.has item.ref)
      let _ ← reply (.putIfAbsent item)
      persistEvidence event (item.objectId :: submitted)
        (if existed then stored else stored ++ [item]) rest

def persistSubmittedEvidence (evidence : List (EncryptedEvidenceInput D))
    (event : AuditProducerEvent D) : RecorderM D (List (EncryptedEvidenceInput D)) :=
  if evidence = [] then pure []
  else if config.hasEvidence = false then
    Async.ofExcept (auditFailure .EVIDENCE_FAILURE
      "Encrypted evidence was submitted but no evidence provider is configured")
  else
    tryCatch (persistEvidence runtime event [] [] evidence) fun error =>
      match error with
      | .protocol .EVIDENCE_FAILURE message => throw (.protocol .EVIDENCE_FAILURE message)
      | _ => Async.ofExcept (auditFailure .EVIDENCE_FAILURE
          "Required evidence could not be persisted")

/-- The disposals of `disposeUncommittedEvidence`, up to the first that fails. -/
def disposeStored : List (EncryptedEvidenceInput D) → RecorderM D Unit
  | [] => pure ()
  | item :: rest => do
    let world ← Async.state
    if ((world.recorders r).heldEvidence item.objectId).any (·.shared) then disposeStored rest
    else do
      Async.update fun world => { world with evidence := (world.evidence.dispose item.ref).2 }
      reply (.disposed (world.evidence.dispose item.ref).1)
      disposeStored rest

def disposeUncommittedEvidence (stored : List (EncryptedEvidenceInput D))
    (identity : EventIdentity) : RecorderM D Unit :=
  if stored = [] ∨ config.hasEvidence = false then pure ()
  else
    tryCatch (do
      let committed ← reply (.getByIdempotencyKey config.ledgerId identity.idempotencyKey)
      match committed with
      | some _ => pure ()
      | none => disposeStored r stored) fun _ => pure ()

/-- What `submitAuthenticated` does while it holds its evidence. -/
def appendWithEvidence (submission : AuditRecorderSubmission D)
    (producerEvent : AuditProducerEvent D) (identity : EventIdentity) :
    RecorderM D (SignedAuditEntry D) := do
  let stored ← persistSubmittedEvidence runtime config submission.encryptedEvidence producerEvent
  tryCatch (appendIdentified runtime config r producerEvent false identity) fun error => do
    disposeUncommittedEvidence config r stored identity
    throw error

/-- `submitAuthenticated`, past authorization and the duplicate check. -/
def submitNew (submission : AuditRecorderSubmission D) (producerEvent : AuditProducerEvent D)
    (identity : EventIdentity) : RecorderM D (SignedAuditEntry D) :=
  if submission.expectedLedgerEpochId.any (· ≠ config.ledgerEpochId) then
    Async.ofExcept (auditFailure .EPOCH_MISMATCH "Wrong audit ledger epoch")
  else do
    let _ ← ensureInitialized runtime config r
    let held := evidenceObjectIds submission.encryptedEvidence
    updateRecorder r fun recorder => recorder.holdEvidence held
    (appendWithEvidence runtime config r submission producerEvent identity).finally_
      fun world => world.setRecorder r fun recorder => recorder.releaseEvidence held

/-- `submitAuthenticated`, past authorization. -/
def submitAuthorized (submission : AuditRecorderSubmission D)
    (context : AuthenticatedAuditSubmissionContext D) (producerEvent : AuditProducerEvent D) :
    RecorderM D (SignedAuditEntry D) := do
  let identity ← identifyEvent config producerEvent context
  let duplicate ← reply (.getByIdempotencyKey config.ledgerId identity.idempotencyKey)
  match duplicate with
  | some duplicate => Async.ofExcept (resolveDuplicate duplicate identity.eventDigest)
  | none => submitNew runtime config r submission producerEvent identity

def authorizeSubmission (submission : AuditRecorderSubmission D)
    (context : AuthenticatedAuditSubmissionContext D) : RecorderM D Bool :=
  if config.hasAuthorizer then reply (.authorize r submission context) else pure true

def submitAuthenticated (submission : AuditRecorderSubmission D)
    (context : AuthenticatedAuditSubmissionContext D) : RecorderM D (SignedAuditEntry D) := do
  Async.ofExcept (validateSubmissionEnvelope config submission context)
  let producerEvent ← Async.ofExcept (parseAuditProducerEvent runtime submission.producerEvent)
  Async.ofExcept (validateEventAuthority runtime config producerEvent context)
  let authorized ← authorizeSubmission config r submission context
  if authorized then submitAuthorized runtime config r submission context producerEvent
  else Async.ofExcept (auditFailure .UNAUTHORIZED_SUBMISSION
    "Audit producer is not authorized for this ledger")

end Submit

end KyaOs.Audit
