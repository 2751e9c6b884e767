import KyaOs.Audit.Outbox
import KyaOs.Audit.SourceState
import KyaOs.Concurrency.Conversations
import KyaOs.Concurrency.Tails
import KyaOs.Js.Digits

/-!
# The producer's trail

`AuditTrailService`: `record` builds an event under the lock of its source and hands it to the
recorder or the outbox, and `flush` delivers what the outbox holds. Every `await` is a request.
-/

namespace KyaOs.Audit

open Js Concurrency

variable {D ι : Type}

inductive AuditDeliveryMode where
  | bestEffort
  | buffered
  | required
  deriving DecidableEq

/-- A configuration that the constructor accepts, with what it uses of its providers; the
callbacks aside. -/
structure AuditTrailConfiguration (D : Type) where
  runtime : AuditRuntime D
  delivery : AuditDeliveryMode
  ledgerId : JsString
  expectedLedgerEpochId : Option JsString
  tenantRef : PartyRef D
  producer : PartyRef D
  sourceId : JsString
  binding : JsString
  privacy : JsonValue D
  redeliveryWindow : Nat
  keyedBySource : Bool

inductive AuditEmitResult (D : Type) where
  | recorded (event : AuditProducerEvent D) (entry : SignedAuditEntry D)
  | pending (event : AuditProducerEvent D)
  | failed (event : AuditProducerEvent D) (error : AuditError)

def AuditEmitResult.event : AuditEmitResult D → AuditProducerEvent D
  | .recorded event _ | .pending event | .failed event _ => event

structure FlushCounts where
  delivered : Nat
  failed : Nat

structure TrailWorld (D ι : Type) where
  sources : JsString → MutableSourceState
  outbox : MemoryAuditOutbox D
  /-- `sourceConstructionTail`. -/
  construction : Tails Unit ι
  clock : D

inductive TrailRequest (D ι : Type) where
  /-- The tail that a construction found. -/
  | previous (construction : Option ι)
  | claimEvent (eventId : JsString)
  | hash (event : AuditProducerEvent D)
  | markEmitted (eventId : JsString) (sequence : Nat) (eventDigest : Digest)
  | abandonClaim (eventId : JsString) (sequence : Nat)
  | markReceipted (sourceId sequence : JsString)
  | getState
  | submit (submission : AuditRecorderSubmission D)
  | enqueue (item : AuditOutboxItem D)
  | pending (limit : Option Nat)
  | markDelivered (key : AuditOutboxItemKey ⊕ JsString)
  | markFailed (key : AuditOutboxItemKey ⊕ JsString)

@[reducible] def TrailRequest.Answer : TrailRequest D ι → Type
  | .previous .. => Unit
  | .claimEvent .. => SourceEventClaim
  | .hash .. => Digest
  | .markEmitted .. => Unit
  | .abandonClaim .. => Unit
  | .markReceipted .. => Unit
  | .getState => AuditSourceState
  | .submit .. => SignedAuditEntry D
  | .enqueue .. => Unit
  | .pending .. => List (AuditOutboxItem D)
  | .markDelivered .. => Unit
  | .markFailed .. => Unit

abbrev trailSetting (D ι : Type) : Setting where
  State := TrailWorld D ι
  Error := AuditError
  Request := TrailRequest D ι
  Answer := TrailRequest.Answer

abbrev TrailM (D ι : Type) (α : Type) := Async (trailSetting D ι) α

/-- `await` of a request's promise. -/
def trailReply (request : TrailRequest D ι) : TrailM D ι request.Answer :=
  Async.ask (I := trailSetting D ι) request

/-- `value ?? fallback`. -/
def orElseJson (value : Option (JsonValue D)) (fallback : JsonValue D) : JsonValue D :=
  match value with
  | none | some .null => fallback
  | some value => value

section Service

variable (config : AuditTrailConfiguration D)

/-- The `source` of an event. -/
def eventSource (claim : SourceEventClaim) : JsonValue D :=
  .object ([(js "producer", config.producer), (js "sourceId", .string config.sourceId),
      (js "sourceSequence", .string (decimalString claim.sequence))] ++
    match claim.previousSourceEventDigest with
    | none => []
    | some digest => [(js "previousSourceEventDigest", .string digest)])

/-- What an event overrides of its input. -/
def controlledMembers (input : Members D) (eventId : JsString) (occurredAt : JsonValue D)
    (claim : SourceEventClaim) : Members D :=
  [(js "schema", .string (js "https://schema.kya-os.org/v1/protocol/audit/event/v1.0.0")),
    (js "eventId", .string eventId), (js "eventVersion", .string (js "1.0.0")),
    (js "binding", .string config.binding), (js "occurredAt", occurredAt),
    (js "tenantRef", config.tenantRef), (js "source", eventSource config claim),
    (js "privacy", orElseJson (input.lookup (js "privacy")) config.privacy)]

def buildEvent (input : Members D) (eventId : JsString) (occurredAt : JsonValue D)
    (claim : SourceEventClaim) : Except AuditError (AuditProducerEvent D) :=
  parseAuditProducerEvent config.runtime
    (.object ((controlledMembers config input eventId occurredAt claim).foldl
      (fun members member => assignMember member.1 member.2 members) input))

/-- The loop of `assertEvidenceIsReferenced`. -/
def assertEvidenceIsReferenced (event : AuditProducerEvent D) (submitted : List JsString) :
    List (EncryptedEvidenceInput D) → Except AuditError Unit
  | [] => .ok ()
  | item :: rest => do
    let unreferenced ← orOther (isUnreferenced config.runtime event submitted item)
    if unreferenced then
      auditFailure .EVIDENCE_FAILURE
        "Encrypted evidence must exactly match one unique reference in the frozen event"
    else assertEvidenceIsReferenced event (item.objectId :: submitted) rest

/-- What `buildAndLinkEvent` does with a claim. -/
def linkEvent (input : Members D) (eventId : JsString) (occurredAt : JsonValue D)
    (claim : SourceEventClaim) : TrailM D ι (AuditProducerEvent D) :=
  tryCatch (do
      let event ← Async.ofExcept (buildEvent config input eventId occurredAt claim)
      let eventDigest ← trailReply (.hash event)
      trailReply (.markEmitted eventId claim.sequence eventDigest)
      return event)
    fun error => do
      let _ ← (trailReply (.abandonClaim eventId claim.sequence)).outcome
      throw error

def buildAndLinkEvent (input : Members D) (eventId : JsString)
    (evidence : List (EncryptedEvidenceInput D)) : TrailM D ι (AuditProducerEvent D) := do
  let world ← Async.state (I := trailSetting D ι)
  let occurredAt := orElseJson (input.lookup (js "occurredAt")) (.number world.clock)
  let provisional ← Async.ofExcept (buildEvent config input eventId occurredAt ⟨0, none⟩)
  let _ ← Async.ofExcept (orOther (canonicalizeJson config.runtime.numbers provisional))
  Async.ofExcept (assertEvidenceIsReferenced config provisional [] evidence)
  let claim ← trailReply (.claimEvent eventId)
  linkEvent config input eventId occurredAt claim

def submissionOf (event : AuditProducerEvent D) (evidence : List (EncryptedEvidenceInput D)) :
    AuditRecorderSubmission D where
  ledgerId := config.ledgerId
  expectedLedgerEpochId :=
    if config.delivery = .buffered then none else config.expectedLedgerEpochId
  producerEvent := event
  encryptedEvidence := evidence

/-- What `record` does under the lock. -/
def constructEvent (input : Members D) (eventId : JsString)
    (evidence : List (EncryptedEvidenceInput D)) : TrailM D ι (AuditProducerEvent D) := do
  let event ← buildAndLinkEvent config input eventId evidence
  if config.delivery = .buffered then do
    let world ← Async.state (I := trailSetting D ι)
    trailReply (.enqueue
      { eventId := textAt event ["eventId"]
        submission := submissionOf config event evidence
        enqueuedAt := world.clock
        attempts := 0 })
    return event
  else return event

def validateEntry (submission : AuditRecorderSubmission D) (entry : SignedAuditEntry D)
    (eventDigest : Digest) : Except AuditError (SignedAuditEntry D) := do
  if entry.core.ledgerId ≠ submission.ledgerId ∨ entry.eventDigest ≠ eventDigest ∨
      entry.core.eventDigest ≠ eventDigest then
    auditFailure .JOURNAL_FAILURE
      "Recorder response does not bind the submitted frozen producer event"
  else
    let recorded ← orOther (canonicalizeJson config.runtime.numbers entry.core.event)
    let submitted ← orOther (canonicalizeJson config.runtime.numbers submission.producerEvent)
    if recorded ≠ submitted then
      auditFailure .JOURNAL_FAILURE
        "Recorder response does not bind the submitted frozen producer event"
    else return entry

def submitAndValidate (submission : AuditRecorderSubmission D) :
    TrailM D ι (SignedAuditEntry D) := do
  let entry ← trailReply (.submit submission)
  let eventDigest ← trailReply (.hash submission.producerEvent)
  Async.ofExcept (validateEntry config submission entry eventDigest)

/-- What `record` does past the lock. -/
def deliverEvent (event : AuditProducerEvent D) (evidence : List (EncryptedEvidenceInput D)) :
    TrailM D ι (AuditEmitResult D) :=
  if config.delivery = .buffered then return .pending event
  else do
    let submitted ← (submitAndValidate config (submissionOf config event evidence)).outcome
    match submitted with
    | .error error =>
        if config.delivery = .required then throw error else return .failed event error
    | .ok entry => do
      let _ ← (trailReply (.markReceipted config.sourceId
        (textAt event ["source", "sourceSequence"]))).outcome
      return .recorded event entry

variable [DecidableEq ι]

def withSourceConstruction {α : Type} (c : ι) (operation : TrailM D ι α) : TrailM D ι α := do
  let world ← Async.state (I := trailSetting D ι)
  Async.update (I := trailSetting D ι)
    fun world => { world with construction := world.construction.enter () c }
  trailReply (.previous (world.construction.tails ()))
  operation.finally_ fun world => { world with construction := world.construction.release c }

/-- `record`, as construction `c`; its event id is the input's own or a new one. -/
def record (c : ι) (input : Members D) (eventId : JsString)
    (evidence : List (EncryptedEvidenceInput D)) : TrailM D ι (AuditEmitResult D) := do
  let event ← withSourceConstruction c (constructEvent config input eventId evidence)
  deliverEvent config event evidence

def highWaterInput (highestEmitted : Nat) : Members D :=
  [(js "eventType", .string (js "audit.source_high_water")),
    (js "action", .object [(js "category", .string (js "audit.source_high_water"))]),
    (js "outcome", .string (js "succeeded")), (js "evidence", .array []),
    (js "details", .object [(js "family", .string (js "administration")),
      (js "phase", .string (js "source_high_water")),
      (js "sourceSequence", .string (decimalString highestEmitted))])]

def recordSourceHighWater (c : ι) (eventId : JsString) : TrailM D ι (AuditEmitResult D) := do
  let state ← trailReply .getState
  record config c (highWaterInput state.highestEmitted) eventId []

omit [DecidableEq ι]

def itemSource (item : AuditOutboxItem D) : JsString :=
  textAt item.submission.producerEvent ["source", "sourceId"]

/-- How the trail names an item to the outbox. -/
def acknowledgementKey (item : AuditOutboxItem D) : AuditOutboxItemKey ⊕ JsString :=
  if config.keyedBySource then .inl (auditOutboxItemKey item) else .inr item.eventId

/-- The bookkeeping of an item the recorder has committed. -/
def acknowledge (item : AuditOutboxItem D) : TrailM D ι Unit := do
  let _ ← (trailReply (.markReceipted (itemSource item)
    (textAt item.submission.producerEvent ["source", "sourceSequence"]))).outcome
  let _ ← (trailReply (.markDelivered (acknowledgementKey config item))).outcome

/-- The loop of `flush`. -/
def flushItems (blockedSources : List JsString) (counts : FlushCounts) :
    List (AuditOutboxItem D) → TrailM D ι FlushCounts
  | [] => return counts
  | item :: rest =>
    if itemSource item ∈ blockedSources then flushItems blockedSources counts rest
    else do
      let submitted ← (submitAndValidate config item.submission).outcome
      match submitted with
      | .error _ => do
        trailReply (.markFailed (acknowledgementKey config item))
        flushItems (itemSource item :: blockedSources)
          { counts with failed := counts.failed + 1 } rest
      | .ok _ => do
        acknowledge config item
        flushItems blockedSources { counts with delivered := counts.delivered + 1 } rest

def flush (limit : Option Nat) : TrailM D ι FlushCounts :=
  if config.delivery ≠ .buffered then return ⟨0, 0⟩
  else do
    let items ← trailReply (.pending limit)
    flushItems config [] ⟨0, 0⟩ items

end Service

inductive TrailCall (D : Type) where
  | record (input : Members D) (eventId : JsString) (evidence : List (EncryptedEvidenceInput D))
  | recordSourceHighWater (eventId : JsString)
  | flush (limit : Option Nat)

inductive TrailResult (D : Type) where
  | emitted (result : AuditEmitResult D)
  | flushed (counts : FlushCounts)

namespace TrailWorld

variable (world : TrailWorld D ι) (sourceId : JsString)

def setSource (state : MutableSourceState) : TrailWorld D ι :=
  { world with sources := Function.update world.sources sourceId state }

@[simp] theorem sources_setSource (state : MutableSourceState) :
    (world.setSource sourceId state).sources = Function.update world.sources sourceId state := rfl

@[simp] theorem clock_setSource (state : MutableSourceState) :
    (world.setSource sourceId state).clock = world.clock := rfl

def setOutbox (outbox : MemoryAuditOutbox D) : TrailWorld D ι := { world with outbox }

def empty (now : D) : TrailWorld D ι where
  sources _ := .empty
  outbox := .empty
  construction := .empty
  clock := now

end TrailWorld

section Runs

variable (config : AuditTrailConfiguration D)

/-- A call of a provider that fails as a whole, or does as the in-memory one. -/
def MayFail {α σ : Type} (state : σ) (done : Except AuditError α × σ)
    (answer : Except AuditError α) (state' : σ) : Prop :=
  (∃ error, answer = .error error ∧ state' = state) ∨ answer = done.1 ∧ state' = done.2

/-- How requests are served: the source state and the outbox are the in-memory ones, the hasher
is the configured one, and the recorder answers as it likes. All but the source state may fail
instead. -/
def serveTrail : (request : TrailRequest D ι) → TrailWorld D ι →
    Except AuditError request.Answer → TrailWorld D ι → Prop
  | .previous construction, world, answer, world' =>
    answer = .ok () ∧ world.construction.MayPass construction ∧ world' = world
  | .claimEvent eventId, world, answer, world' =>
    let claimed := (world.sources config.sourceId).claimEvent eventId
    answer = .ok claimed.1 ∧ world' = world.setSource config.sourceId claimed.2
  | .hash event, world, answer, world' =>
    (∀ digest, answer = .ok digest →
      digestAuditEvent config.runtime.numbers config.runtime.sha256 event = .ok digest) ∧
      world' = world
  | .markEmitted eventId sequence eventDigest, world, answer, world' =>
    let marked := (world.sources config.sourceId).markEmitted eventId sequence eventDigest
    answer = marked.1 ∧ world' = world.setSource config.sourceId marked.2
  | .abandonClaim eventId sequence, world, answer, world' =>
    answer = .ok () ∧ world' = world.setSource config.sourceId
      ((world.sources config.sourceId).abandonClaim eventId sequence)
  | .markReceipted sourceId sequence, world, answer, world' =>
    let marked := (world.sources sourceId).markReceipted config.redeliveryWindow
      (Js.decimalValue sequence)
    MayFail world (marked.1, world.setSource sourceId marked.2) answer world'
  | .getState, world, answer, world' =>
    answer = .ok ((world.sources config.sourceId).getState config.sourceId) ∧ world' = world
  | .submit _, world, _, world' => world' = world
  | .enqueue item, world, answer, world' =>
    let enqueued := world.outbox.enqueue config.runtime.numbers item
    MayFail world (orOther enqueued.1, world.setOutbox enqueued.2) answer world'
  | .pending limit, world, answer, world' =>
    MayFail world (.ok (world.outbox.pending limit), world) answer world'
  | .markDelivered key, world, answer, world' =>
    let marked := world.outbox.markDelivered key
    MayFail world (orOther marked.1, world.setOutbox marked.2) answer world'
  | .markFailed key, world, answer, world' =>
    let marked := world.outbox.markFailed key
    MayFail world (orOther marked.1, world.setOutbox marked.2) answer world'

/-- Every item is one of those before, but for its attempts. -/
def MemoryAuditOutbox.NoNewFrom (sourceId : JsString) (outbox outbox' : MemoryAuditOutbox D) :
    Prop :=
  ∀ item ∈ outbox'.items.map Prod.snd, itemSource item = sourceId →
    ∃ before ∈ outbox.items.map Prod.snd, before.submission = item.submission

/-- What others do: their own sources, and their own items of the outbox. -/
structure OthersActed (world world' : TrailWorld D ι) : Prop where
  construction : world'.construction = world.construction
  source : world'.sources config.sourceId = world.sources config.sourceId
  outbox : world.outbox.NoNewFrom config.sourceId world'.outbox

variable [DecidableEq ι]

def TrailCall.run (c : ι) : TrailCall D → TrailM D ι (TrailResult D)
  | .record input eventId evidence => do
    return .emitted (← KyaOs.Audit.record config c input eventId evidence)
  | .recordSourceHighWater eventId => do
    return .emitted (← KyaOs.Audit.recordSourceHighWater config c eventId)
  | .flush limit => do return .flushed (← KyaOs.Audit.flush config limit)

/-- Any number of calls of one trail. -/
def trailProgram (calls : ι → TrailCall D) : Program (trailSetting D ι) ι (TrailResult D) where
  code c := (calls c).run config c
  serves _ := serveTrail config
  environment := OthersActed config

end Runs

end KyaOs.Audit
