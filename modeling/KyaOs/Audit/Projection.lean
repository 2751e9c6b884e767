import KyaOs.Audit.JournalLog
import KyaOs.Concurrency.Async

/-!
# The audit projection

`MemoryAuditProjectionProvider`, and `AuditProjectionWorker` over it and the in-memory
journal. Every `await` is a request. The two reads that `reconcile` starts together are served
in either order, or at once.
-/

namespace KyaOs.Audit

open Js Concurrency

variable {D : Type}

structure AuditProjectionOffset where
  sequence : Nat
  entryDigest : Digest
  deriving DecidableEq

structure AuditTimelineProjection (D : Type) extends AuditLedgerRef where
  sequence : Nat
  entryDigest : Digest
  eventId : JsString
  eventType : JsString
  /-- A number, as the schema of events has it. -/
  occurredAt : Option (JsonValue D)
  recordedAt : D
  outcome : JsString
  correlationId : Option (JsonValue D)
  causationId : Option (JsonValue D)
  chainStatus : JsString

inductive AuditProjectionApplyResult where
  | applied
  | duplicate
  | conflict (actualOffset : Option AuditProjectionOffset)

def project (entry : SignedAuditEntry D) : AuditTimelineProjection D where
  ledgerId := entry.core.ledgerId
  ledgerEpochId := entry.core.ledgerEpochId
  sequence := entry.core.sequence
  entryDigest := entry.entryDigest
  eventId := textAt entry.core.event ["eventId"]
  eventType := textAt entry.core.event ["eventType"]
  occurredAt := memberAt entry.core.event ["occurredAt"]
  recordedAt := entry.core.recordedAt
  outcome := textAt entry.core.event ["outcome"]
  correlationId := memberAt entry.core.event ["correlationId"]
  causationId := memberAt entry.core.event ["causationId"]
  chainStatus := js "chained"

/-- What an offset says of the entry it names. -/
def SignedAuditEntry.offset (entry : SignedAuditEntry D) : AuditProjectionOffset where
  sequence := entry.core.sequence
  entryDigest := entry.entryDigest

def projectionKey (projectionId : JsString) (ledger : AuditLedgerRef) : JsString :=
  projectionId ++ 0 :: (ledger.ledgerId ++ 0 :: ledger.ledgerEpochId)

structure MemoryAuditProjectionProvider (D : Type) where
  offsets : JsString → Option AuditProjectionOffset
  /-- `[]` for a key that is not in the map. -/
  records : JsString → List (AuditTimelineProjection D)

namespace MemoryAuditProjectionProvider

def empty : MemoryAuditProjectionProvider D where
  offsets _ := none
  records _ := []

variable (projections : MemoryAuditProjectionProvider D) (projectionId : JsString)
  (ledger : AuditLedgerRef)

def getOffset : Option AuditProjectionOffset :=
  projections.offsets (projectionKey projectionId ledger)

def read : List (AuditTimelineProjection D) :=
  projections.records (projectionKey projectionId ledger)

def reset : MemoryAuditProjectionProvider D where
  offsets := Function.update projections.offsets (projectionKey projectionId ledger) none
  records := Function.update projections.records (projectionKey projectionId ledger) []

/-- The record pushed, and the offset of its entry. -/
def push (offset : AuditProjectionOffset) (record : AuditTimelineProjection D) :
    MemoryAuditProjectionProvider D where
  offsets := Function.update projections.offsets (projectionKey projectionId ledger) (some offset)
  records := Function.update projections.records (projectionKey projectionId ledger)
    (projections.read projectionId ledger ++ [record])

/-- The sequence of the entry after an offset. -/
def expectedSequence (actualOffset : Option AuditProjectionOffset) : Nat :=
  match actualOffset with
  | none => 0
  | some offset => offset.sequence + 1

/-- `compareAndApply`, its answer and the provider after it. -/
def compareAndApply (expectedOffset : Option AuditProjectionOffset) (entry : SignedAuditEntry D)
    (record : AuditTimelineProjection D) :
    AuditProjectionApplyResult × MemoryAuditProjectionProvider D :=
  let actualOffset := projections.getOffset projectionId ledger
  match (projections.read projectionId ledger).find? fun record =>
      record.sequence = entry.core.sequence with
  | some existing =>
    if existing.entryDigest = entry.entryDigest then (.duplicate, projections)
    else (.conflict actualOffset, projections)
  | none =>
    if actualOffset = expectedOffset ∧ entry.core.sequence = expectedSequence actualOffset then
      (.applied, projections.push projectionId ledger entry.offset record)
    else (.conflict actualOffset, projections)

variable {projections projectionId ledger} {expectedOffset : Option AuditProjectionOffset}
  {entry : SignedAuditEntry D} {record : AuditTimelineProjection D}

/-- The entry after the stored offset is applied. -/
theorem compareAndApply_next
    (hfresh : (projections.read projectionId ledger).find? (fun record =>
      record.sequence = entry.core.sequence) = none)
    (hoffset : projections.getOffset projectionId ledger = expectedOffset)
    (hsequence : entry.core.sequence = expectedSequence expectedOffset) :
    projections.compareAndApply projectionId ledger expectedOffset entry record =
      (.applied, projections.push projectionId ledger entry.offset record) := by
  subst hoffset
  unfold compareAndApply
  rw [hfresh]
  exact if_pos ⟨rfl, hsequence⟩

end MemoryAuditProjectionProvider

structure AuditProjectionWorker where
  projectionId : JsString
  required : projectionId ≠ []

structure ProjectionWorld (D : Type) where
  journal : MemoryAuditJournal D
  projections : MemoryAuditProjectionProvider D

def ProjectionWorld.empty : ProjectionWorld D where
  journal := .empty
  projections := .empty

/-- What the first step serves of the two reads of `reconcile`. -/
inductive FirstServed where
  | head (journalHead : Option AuditHead)
  | offset (projectionHead : Option AuditProjectionOffset)
  | both (journalHead : Option AuditHead) (projectionHead : Option AuditProjectionOffset)

inductive ProjectionRequest (D : Type) where
  | getOffset (projectionId : JsString) (ledger : AuditLedgerRef)
  | compareAndApply (projectionId : JsString) (ledger : AuditLedgerRef)
      (expectedOffset : Option AuditProjectionOffset) (entry : SignedAuditEntry D)
      (record : AuditTimelineProjection D)
  | reset (projectionId : JsString) (ledger : AuditLedgerRef)
  | getHead (ledger : AuditLedgerRef)
  | readRange (ledger : AuditLedgerRef) (afterSequence limit : Option Nat)
  /-- `getHead` and `getOffset`, both under way. -/
  | getBoth (projectionId : JsString) (ledger : AuditLedgerRef)

@[reducible] def ProjectionRequest.Answer : ProjectionRequest D → Type
  | .getOffset .. => Option AuditProjectionOffset
  | .compareAndApply .. => AuditProjectionApplyResult
  | .reset .. => Unit
  | .getHead .. => Option AuditHead
  | .readRange .. => List (SignedAuditEntry D)
  | .getBoth .. => FirstServed

abbrev projectionSetting (D : Type) : Setting where
  State := ProjectionWorld D
  Error := AuditError
  Request := ProjectionRequest D
  Answer := ProjectionRequest.Answer

abbrev ProjectionM (D : Type) (α : Type) := Async (projectionSetting D) α

/-- `await` of a request's promise. -/
def projectionReply (request : ProjectionRequest D) : ProjectionM D request.Answer :=
  Async.ask (I := projectionSetting D) request

def projectionConflict {α : Type} (message : String) : ProjectionM D α :=
  throw (.protocol .PROJECTION_CONFLICT (js message))

/-- What `synchronize` counts. -/
structure Synchronized where
  applied : Nat
  duplicates : Nat

inductive ReconciliationStatus where
  | empty
  | pending
  | verified
  | gap_detected
  deriving DecidableEq

structure AuditProjectionReconciliation where
  status : ReconciliationStatus
  journalHead : Option AuditHead
  projectionHead : Option AuditProjectionOffset

section Worker

variable (worker : AuditProjectionWorker) (ledger : AuditLedgerRef)

/-- The loop of `synchronize`, from an offset on. -/
def applyEntries : Option AuditProjectionOffset → Synchronized → List (SignedAuditEntry D) →
    ProjectionM D Synchronized
  | _, counts, [] => pure counts
  | offset, counts, entry :: rest =>
    if entry.core.previousEntryDigest = offset.map (·.entryDigest) then do
      let result ← projectionReply
        (.compareAndApply worker.projectionId ledger offset entry (project entry))
      match result with
      | .conflict _ => projectionConflict "Projection offset conflicted with the ordered ledger"
      | .applied =>
        applyEntries (some entry.offset) { counts with applied := counts.applied + 1 } rest
      | .duplicate =>
        applyEntries (some entry.offset) { counts with duplicates := counts.duplicates + 1 } rest
    else projectionConflict "Journal entry does not chain from the projection offset"

def synchronize : ProjectionM D Synchronized := do
  let offset ← projectionReply (.getOffset worker.projectionId ledger)
  let entries ← projectionReply (.readRange ledger (offset.map (·.sequence)) none)
  applyEntries worker ledger offset ⟨0, 0⟩ entries

def rebuild : ProjectionM D Synchronized := do
  projectionReply (.reset worker.projectionId ledger)
  synchronize worker ledger

/-- `Promise.all` of the two reads. -/
def readHeads : ProjectionM D (Option AuditHead × Option AuditProjectionOffset) := do
  let first ← projectionReply (.getBoth worker.projectionId ledger)
  match first with
  | .head journalHead => do
    let projectionHead ← projectionReply (.getOffset worker.projectionId ledger)
    pure (journalHead, projectionHead)
  | .offset projectionHead => do
    let journalHead ← projectionReply (.getHead ledger)
    pure (journalHead, projectionHead)
  | .both journalHead projectionHead => pure (journalHead, projectionHead)

def entryAt (sequence : Nat) : ProjectionM D (Option (SignedAuditEntry D)) := do
  let afterSequence := if 0 < sequence then some (sequence - 1) else none
  let entries ← projectionReply (.readRange ledger afterSequence (some 1))
  pure (entries.head?.filter fun entry => entry.core.sequence = sequence)

/-- The status that `reconcile` gives two heads. -/
def reconciliationStatus (journalHead : Option AuditHead)
    (projectionHead : Option AuditProjectionOffset) : ProjectionM D ReconciliationStatus :=
  match journalHead, projectionHead with
  | none, none => pure .empty
  | some _, none => pure .pending
  | none, some _ => pure .gap_detected
  | some journalHead, some projectionHead =>
    if journalHead.sequence = projectionHead.sequence then
      pure (if journalHead.entryDigest = projectionHead.entryDigest then .verified
        else .gap_detected)
    else if projectionHead.sequence < journalHead.sequence then do
      let journalEntry ← entryAt ledger projectionHead.sequence
      pure (if journalEntry.map (·.entryDigest) = some projectionHead.entryDigest then .pending
        else .gap_detected)
    else pure .gap_detected

def reconcile : ProjectionM D AuditProjectionReconciliation := do
  let heads ← readHeads worker ledger
  let status ← reconciliationStatus ledger heads.1 heads.2
  pure { status, journalHead := heads.1, projectionHead := heads.2 }

end Worker

inductive ProjectionCall where
  | synchronize (ledger : AuditLedgerRef)
  | rebuild (ledger : AuditLedgerRef)
  | reconcile (ledger : AuditLedgerRef)

inductive ProjectionResult where
  | synchronized (counts : Synchronized)
  | reconciled (report : AuditProjectionReconciliation)

def ProjectionCall.code (worker : AuditProjectionWorker) :
    ProjectionCall → ProjectionM D ProjectionResult
  | .synchronize ledger => do return .synchronized (← Audit.synchronize worker ledger)
  | .rebuild ledger => do return .synchronized (← Audit.rebuild worker ledger)
  | .reconcile ledger => do return .reconciled (← Audit.reconcile worker ledger)

/-- How requests are served. -/
def serveProjection : (request : ProjectionRequest D) → ProjectionWorld D →
    Except AuditError request.Answer → ProjectionWorld D → Prop
  | .getOffset projectionId ledger, world, answer, world' =>
    answer = .ok (world.projections.getOffset projectionId ledger) ∧ world' = world
  | .compareAndApply projectionId ledger expectedOffset entry record, world, answer, world' =>
    answer = .ok (world.projections.compareAndApply projectionId ledger expectedOffset entry
      record).1 ∧
    world' = { world with projections := (world.projections.compareAndApply projectionId ledger
      expectedOffset entry record).2 }
  | .reset projectionId ledger, world, answer, world' =>
    answer = .ok () ∧
      world' = { world with projections := world.projections.reset projectionId ledger }
  | .getHead ledger, world, answer, world' =>
    answer = .ok (world.journal.getHead ledger) ∧ world' = world
  | .readRange ledger afterSequence limit, world, answer, world' =>
    answer = .ok (world.journal.readRange ledger afterSequence limit) ∧ world' = world
  | .getBoth projectionId ledger, world, answer, world' =>
    (answer = .ok (.head (world.journal.getHead ledger)) ∨
      answer = .ok (.offset (world.projections.getOffset projectionId ledger)) ∨
      answer = .ok (.both (world.journal.getHead ledger)
        (world.projections.getOffset projectionId ledger))) ∧ world' = world

/-- An entry that follows the head it was built on. -/
def BuiltOn (expectedHead : Option AuditHead) (entry : SignedAuditEntry D) : Prop :=
  match expectedHead with
  | none => entry.core.sequence = 0 ∧ entry.core.previousEntryDigest = none
  | some head => entry.core.sequence = head.sequence + 1 ∧
      entry.core.previousEntryDigest = some head.entryDigest

/-- Anyone's append to the journal. -/
inductive Appends (world : ProjectionWorld D) : ProjectionWorld D → Prop
  | compareAndAppend {expectedHead : Option AuditHead} {entry : SignedAuditEntry D}
      (ledger : AuditLedgerRef) (key : Digest) : BuiltOn expectedHead entry →
      Appends world { world with
        journal := (world.journal.compareAndAppend ledger expectedHead entry key).2 }

/-- Any number of calls of the workers of one projection. -/
def projectionProgram {ι : Type} (worker : AuditProjectionWorker) (calls : ι → ProjectionCall) :
    Program (projectionSetting D) ι ProjectionResult where
  code c := (calls c).code worker
  serves _ := serveProjection
  environment := Appends

end KyaOs.Audit
