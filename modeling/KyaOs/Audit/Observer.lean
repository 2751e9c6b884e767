import KyaOs.Audit.Checkpoints
import KyaOs.Audit.Providers
import KyaOs.Concurrency.Async
import KyaOs.Concurrency.Tails

/-!
# The checkpoint observer

`MemoryAuditCheckpointObserver.publish`. Every `await` is a request, the one for the promise
that a publication finds under its key included.
-/

namespace KyaOs.Audit

open Js Concurrency

variable {D ι : Type}

structure ObservedAuditCheckpoint (D : Type) where
  checkpoint : SignedAuditCheckpoint D
  receipt : AuditObservationReceipt D

/-- What an observer is constructed with; its clock, its signer's key and its two checks
aside. -/
structure MemoryAuditCheckpointObserverConfig (D : Type) where
  observerId : JsString
  signer : SignerRef
  numbers : Doubles D
  sha256 : Bytes → Except Error Digest

structure ObserverWorld (D ι : Type) where
  observations : JsString → Option (ObservedAuditCheckpoint D)
  publications : Tails JsString ι
  clock : D

inductive ObserverRequest (D ι : Type) where
  /-- The tail that a publication found. -/
  | previous (publication : Option ι)
  | verifyCheckpoint (checkpoint : SignedAuditCheckpoint D)
  | verifyConsistency (previous next : SignedAuditCheckpoint D)
  | hash (core : AuditObservationReceiptCore D)
  | sign (payload : Bytes)

@[reducible] def ObserverRequest.Answer : ObserverRequest D ι → Type
  | .previous .. => Unit
  | .verifyCheckpoint .. => Bool
  | .verifyConsistency .. => Bool
  | .hash .. => Digest
  | .sign .. => JsString

abbrev observerSetting (D ι : Type) : Setting where
  State := ObserverWorld D ι
  Error := AuditError
  Request := ObserverRequest D ι
  Answer := ObserverRequest.Answer

abbrev ObserverM (D ι : Type) (α : Type) := Async (observerSetting D ι) α

/-- `await` of a request's promise. -/
def observerReply (request : ObserverRequest D ι) : ObserverM D ι request.Answer :=
  Async.ask (I := observerSetting D ι) request

def observerFailure {α : Type} (code : AuditErrorCode) (message : String) : ObserverM D ι α :=
  throw (.protocol code (js message))

def ObserverWorld.empty (now : D) : ObserverWorld D ι where
  observations _ := none
  publications := .empty
  clock := now

/-- `observations.set`. -/
def ObserverWorld.observe (world : ObserverWorld D ι) (key : JsString)
    (observed : ObservedAuditCheckpoint D) : ObserverWorld D ι :=
  { world with observations := Function.update world.observations key (some observed) }

@[simp] theorem ObserverWorld.observations_observe (world : ObserverWorld D ι) (key : JsString)
    (observed : ObservedAuditCheckpoint D) : (world.observe key observed).observations =
      Function.update world.observations key (some observed) := rfl

section Publish

variable (config : MemoryAuditCheckpointObserverConfig D) (checkpoint : SignedAuditCheckpoint D)

/-- The key of a checkpoint's ledger. -/
def publicationKey : JsString := ledgerKey checkpoint.core.toAuditLedgerRef

def observationCore (existing : Option (ObservedAuditCheckpoint D)) (now : D) :
    AuditObservationReceiptCore D where
  schema := js "https://schema.kya-os.org/v1/protocol/audit/observation/v1.0.0"
  observerId := config.observerId
  observer := config.signer
  ledgerId := checkpoint.core.ledgerId
  ledgerEpochId := checkpoint.core.ledgerEpochId
  checkpointDigest := checkpoint.checkpointDigest
  treeSize := checkpoint.core.treeSize
  observedAt := now
  previousObservationDigest := existing.map (·.receipt.observationDigest)

/-- `publishSerialized`, past its checks. -/
def issueReceipt (existing : Option (ObservedAuditCheckpoint D)) :
    ObserverM D ι (AuditObservationReceipt D) := do
  let world ← Async.state (I := observerSetting D ι)
  let core := observationCore config checkpoint existing world.clock
  let observationDigest ← observerReply (.hash core)
  let text ← Async.ofExcept ((canonicalizeJson config.numbers core.toJson).mapError .other)
  let jws ← observerReply (.sign (encodeUtf8 text))
  let receipt := { core, observationDigest, jws }
  Async.update (I := observerSetting D ι)
    (·.observe (publicationKey checkpoint) ⟨checkpoint, receipt⟩)
  return receipt

/-- `publishSerialized`, past the check of the checkpoint. -/
def publishVerified (existing : Option (ObservedAuditCheckpoint D)) :
    ObserverM D ι (AuditObservationReceipt D) :=
  match existing with
  | none => issueReceipt config checkpoint none
  | some existing =>
    if checkpoint.core.treeSize < existing.checkpoint.core.treeSize then
      observerFailure .CHECKPOINT_ROLLBACK "Observed checkpoint tree size moved backwards"
    else if checkpoint.core.treeSize = existing.checkpoint.core.treeSize then
      if checkpoint.core.rootDigest ≠ existing.checkpoint.core.rootDigest ∨
          checkpoint.checkpointDigest ≠ existing.checkpoint.checkpointDigest then
        observerFailure .CHECKPOINT_CONFLICT
          "Conflicting checkpoint roots were observed at the same tree size"
      else return existing.receipt
    else do
      let consistent ← observerReply (.verifyConsistency existing.checkpoint checkpoint)
      if consistent then issueReceipt config checkpoint (some existing)
      else
        observerFailure .CHECKPOINT_CONFLICT
          "Checkpoint does not consistently extend the previously observed tree"

def publishSerialized : ObserverM D ι (AuditObservationReceipt D) := do
  let verified ← observerReply (.verifyCheckpoint checkpoint)
  if verified then do
    let world ← Async.state (I := observerSetting D ι)
    publishVerified config checkpoint (world.observations (publicationKey checkpoint))
  else observerFailure .CHECKPOINT_INVALID "Observer rejected an invalid checkpoint"

variable [DecidableEq ι]

/-- `publish`, as publication `c`. -/
def publish (c : ι) : ObserverM D ι (AuditObservationReceipt D) := do
  let key := publicationKey checkpoint
  let world ← Async.state (I := observerSetting D ι)
  Async.update (I := observerSetting D ι)
    fun world => { world with publications := world.publications.enter key c }
  observerReply (.previous (world.publications.tails key))
  (publishSerialized config checkpoint).finally_
    fun world => { world with publications := world.publications.leave key c }

end Publish

/-- `latest`. -/
def ObserverWorld.latest (world : ObserverWorld D ι) (ledger : AuditLedgerRef) :
    Option (ObservedAuditCheckpoint D) :=
  world.observations (ledgerKey ledger)

def ObserverWorld.verifyObservation (world : ObserverWorld D ι)
    (checkpoint : SignedAuditCheckpoint D) (receipt : AuditObservationReceipt D) : Bool :=
  match world.latest checkpoint.core.toAuditLedgerRef with
  | none => false
  | some observed => observed.checkpoint.checkpointDigest == checkpoint.checkpointDigest &&
      observed.receipt.observationDigest == receipt.observationDigest

section Runs

variable (config : MemoryAuditCheckpointObserverConfig D)
  (accepts : SignedAuditCheckpoint D → SignedAuditCheckpoint D → Prop)

/-- How requests are served: any of them may fail, and a checkpoint may be refused. The
configured check finds consistent only what it `accepts`. -/
def serveObserver : (request : ObserverRequest D ι) → ObserverWorld D ι →
    Except AuditError request.Answer → ObserverWorld D ι → Prop
  | .previous publication, world, answer, world' =>
    answer = .ok () ∧ world.publications.MayPass publication ∧ world' = world
  | .verifyCheckpoint _, world, _, world' => world' = world
  | .verifyConsistency previous next, world, answer, world' =>
    (answer = .ok true → accepts previous next) ∧ world' = world
  | .hash core, world, answer, world' =>
    (∀ digest, answer = .ok digest → hashAuditValue config.numbers config.sha256 .observation
      core.toJson = .ok digest) ∧ world' = world
  | .sign _, world, _, world' => world' = world

variable [DecidableEq ι]

/-- Any number of publications. -/
def observerProgram (calls : ι → SignedAuditCheckpoint D) :
    Program (observerSetting D ι) ι (AuditObservationReceipt D) where
  code c := publish config (calls c) c
  serves _ := serveObserver config accepts
  environment world world' := ∃ now, world' = { world with clock := now }

end Runs

end KyaOs.Audit
