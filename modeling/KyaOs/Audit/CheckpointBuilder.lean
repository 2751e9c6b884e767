import KyaOs.Audit.Checkpoints
import KyaOs.Audit.Merkle
import KyaOs.Audit.Providers
import KyaOs.Concurrency.PromiseChain

/-!
# The checkpoint builder

`AuditCheckpointBuilder` over `MemoryAuditCheckpointStore`. Each action runs one call of
`createCheckpoint` from one `await` to the next. What the journal, the store, the signer and
the lifecycle hook answer comes with the action, so any of them may fail at any time.
-/

namespace KyaOs.Audit

open Js

variable {D : Type}

def checkpointKey (ledger : AuditLedgerRef) (treeSize : Nat) : JsString :=
  ledgerKey ledger ++ 0 :: decimalString treeSize

inductive AuditCheckpointPutResult (D : Type) where
  | inserted (checkpoint : SignedAuditCheckpoint D)
  | existing (checkpoint : SignedAuditCheckpoint D)
  | conflict (checkpoint : SignedAuditCheckpoint D)

structure MemoryAuditCheckpointStore (D : Type) where
  checkpoints : JsString → Option (SignedAuditCheckpoint D)
  latest : JsString → Option (SignedAuditCheckpoint D)

/-- The ledger's key of a checkpoint. -/
def SignedAuditCheckpoint.key (checkpoint : SignedAuditCheckpoint D) : JsString :=
  ledgerKey checkpoint.core.toAuditLedgerRef

namespace MemoryAuditCheckpointStore

variable (store : MemoryAuditCheckpointStore D)

def getLatest (ledger : AuditLedgerRef) : Option (SignedAuditCheckpoint D) :=
  store.latest (ledgerKey ledger)

def getByTreeSize (ledger : AuditLedgerRef) (treeSize : Nat) : Option (SignedAuditCheckpoint D) :=
  store.checkpoints (checkpointKey ledger treeSize)

/-- The later of the latest checkpoint and a new one. -/
def newest (current : Option (SignedAuditCheckpoint D)) (checkpoint : SignedAuditCheckpoint D) :
    SignedAuditCheckpoint D :=
  match current with
  | none => checkpoint
  | some current =>
    if current.core.treeSize < checkpoint.core.treeSize then checkpoint else current

def insert (checkpoint : SignedAuditCheckpoint D) : MemoryAuditCheckpointStore D where
  checkpoints := Function.update store.checkpoints
    (checkpointKey checkpoint.core.toAuditLedgerRef checkpoint.core.treeSize) (some checkpoint)
  latest := Function.update store.latest checkpoint.key
    (some (newest (store.latest checkpoint.key) checkpoint))

/-- `putIfAbsent`, its answer and the store after it. -/
def putIfAbsent (checkpoint : SignedAuditCheckpoint D) :
    AuditCheckpointPutResult D × MemoryAuditCheckpointStore D :=
  match store.checkpoints
      (checkpointKey checkpoint.core.toAuditLedgerRef checkpoint.core.treeSize) with
  | some existing =>
    if existing.checkpointDigest = checkpoint.checkpointDigest then (.existing existing, store)
    else (.conflict existing, store)
  | none => (.inserted checkpoint, store.insert checkpoint)

end MemoryAuditCheckpointStore

/-- What a builder with a lifecycle hook is constructed with; the journal, the store and the
hook aside. -/
structure AuditCheckpointBuilderOptions (D : Type) where
  numbers : Doubles D
  sha256 : Bytes → Except Error Digest
  signer : SignerRef
  auditCheckpointCoreSchema : AuditCheckpointCore D → Bool
  /-- What the schema throws. -/
  schemaError : Error

def auditCheckpointSchemaId : JsString :=
  js "https://schema.kya-os.org/v1/protocol/audit/checkpoint/v1.0.0"

def auditCheckpointSuite : JsString := js "KYA-AUDIT-RFC9162-SHA256-JWS-2026"

section Code

variable (options : AuditCheckpointBuilderOptions D)

def checkpointFailure {α : Type} (code : AuditErrorCode) (message : String) :
    Except AuditError α :=
  .error (.protocol code (js message))

/-- A call into code that throws errors of its own. -/
def thrown {α : Type} (result : Except Error α) : Except AuditError α :=
  result.mapError .other

def assertExtends (previous : SignedAuditCheckpoint D) (entries : List (SignedAuditEntry D)) :
    Except AuditError Unit :=
  if entries.length < previous.core.treeSize then
    checkpointFailure .CHECKPOINT_ROLLBACK
      "Journal tree size is behind the latest signed checkpoint"
  else do
    let before := entries.take previous.core.treeSize
    let prefixRoot ← thrown (root options.sha256 (before.map (·.entryDigest)))
    if previous.core.rootDigest ≠ prefixRoot ∨
        before.getLast?.map (·.entryDigest) ≠ some previous.core.headEntryDigest then
      checkpointFailure .CHECKPOINT_CONFLICT
        "Journal content forked at or below the latest checkpointed tree size"
    else return ()

/-- The core that `signCheckpoint` signs, of entries from `first` to `last`. -/
def checkpointCore (ledger : AuditLedgerRef) (first last : SignedAuditEntry D) (treeSize : Nat)
    (rootDigest : Digest) (previous : Option (SignedAuditCheckpoint D)) (now : D) :
    AuditCheckpointCore D :=
  { ledger with
    schema := auditCheckpointSchemaId
    checkpointId := js "checkpoint:" ++ ledger.ledgerId ++ js ":" ++ ledger.ledgerEpochId ++
      js ":" ++ decimalString treeSize
    treeSize
    firstSequence := first.core.sequence
    lastSequence := last.core.sequence
    rootDigest
    headEntryDigest := last.entryDigest
    previousCheckpointDigest := previous.map (·.checkpointDigest)
    createdAt := now
    issuer := options.signer
    integritySuite := auditCheckpointSuite }

/-- `sign` is what the signer answers on the canonical bytes. -/
def signCheckpoint (ledger : AuditLedgerRef) (entries : List (SignedAuditEntry D))
    (previous : Option (SignedAuditCheckpoint D)) (sign : JsString → Except AuditError JsString)
    (now : D) : Except AuditError (SignedAuditCheckpoint D) :=
  match entries.head?, entries.getLast? with
  | some first, some last => do
    let rootDigest ← thrown (root options.sha256 (entries.map (·.entryDigest)))
    let core := checkpointCore options ledger first last entries.length rootDigest previous now
    if !options.auditCheckpointCoreSchema core then .error (.other options.schemaError)
    else do
      let checkpointDigest ←
        thrown (hashAuditValue options.numbers options.sha256 .checkpoint core.toJson)
      let text ← thrown (canonicalizeJson options.numbers core.toJson)
      let jws ← sign text
      return { core, checkpointDigest, jws }
  | _, _ => .error (.other (.typeError (js "Cannot read properties of undefined")))

/-- What the locked section does once the latest checkpoint is known: nothing is stored
when it already covers the journal. -/
inductive StorePlan (D : Type) where
  | keep (previous : SignedAuditCheckpoint D)
  | put (checkpoint : SignedAuditCheckpoint D)

def planCheckpoint (ledger : AuditLedgerRef) (entries : List (SignedAuditEntry D))
    (previous : Option (SignedAuditCheckpoint D)) (sign : JsString → Except AuditError JsString)
    (now : D) : Except AuditError (StorePlan D) :=
  match previous with
  | none => do return .put (← signCheckpoint options ledger entries none sign now)
  | some latest => do
    assertExtends options latest entries
    if latest.core.treeSize = entries.length then return .keep latest
    else return .put (← signCheckpoint options ledger entries (some latest) sign now)

end Code

/-- Where a call of `createCheckpoint` stands. -/
inductive CheckpointPhase (D : Type) where
  /-- Behind the call whose promise was last on the ledger. -/
  | queued (ledger : AuditLedgerRef) (previous : Option Nat)
  /-- `snapshotAtHead` has answered. -/
  | snapshot (ledger : AuditLedgerRef) (entries : List (SignedAuditEntry D))
  /-- `getLatest` has answered. -/
  | read (ledger : AuditLedgerRef) (entries : List (SignedAuditEntry D))
      (previous : Option (SignedAuditCheckpoint D))
  | signed (ledger : AuditLedgerRef) (checkpoint : SignedAuditCheckpoint D)
  /-- Out of the lock: the hook runs on the first of `due`, the others wait for it. -/
  | hooking (ledger : AuditLedgerRef) (checkpoint : SignedAuditCheckpoint D)
      (due : List (SignedAuditCheckpoint D))
  | ended (ledger : AuditLedgerRef) (result : Except AuditError (SignedAuditCheckpoint D))

namespace CheckpointPhase

def ledger : CheckpointPhase D → AuditLedgerRef
  | .queued ledger _ | .snapshot ledger _ | .read ledger _ _ | .signed ledger _
  | .hooking ledger _ _ | .ended ledger _ => ledger

def key (phase : CheckpointPhase D) : JsString := ledgerKey phase.ledger

/-- The call is inside the locked section. -/
def isHolding : CheckpointPhase D → Bool
  | .snapshot .. | .read .. | .signed .. => true
  | _ => false

/-- The call has released the ledger's lock. -/
def hasLeft : CheckpointPhase D → Bool
  | .hooking .. | .ended .. => true
  | _ => false

end CheckpointPhase

structure CheckpointWorld (D : Type) where
  store : MemoryAuditCheckpointStore D
  /-- The call whose promise is last on each ledger. -/
  ledgerTails : JsString → Option Nat
  failedHooks : JsString → Option (List (SignedAuditCheckpoint D))
  calls : Nat → Option (CheckpointPhase D)
  /-- The checkpoints this builder inserted. No operation reads it. -/
  inserted : List (SignedAuditCheckpoint D)
  /-- The checkpoints whose hook has completed. No operation reads it. -/
  completed : List (SignedAuditCheckpoint D)

/-- What a call does next, with the answers it gets there. -/
inductive CheckpointAction (D : Type) where
  | createCheckpoint (call : Nat) (ledger : AuditLedgerRef)
  | snapshotAtHead (call : Nat) (journal : Except AuditError (List (SignedAuditEntry D)))
  | getLatest (call : Nat) (storage : Except AuditError Unit)
  | signCheckpoint (call : Nat) (sign : JsString → Except AuditError JsString) (now : D)
  | putIfAbsent (call : Nat) (storage : Except AuditError Unit)
  | hook (call : Nat) (result : Except AuditError Unit)
  /-- Another writer of the store puts a checkpoint. -/
  | other (checkpoint : SignedAuditCheckpoint D)

namespace CheckpointWorld

def empty : CheckpointWorld D where
  store := ⟨fun _ => none, fun _ => none⟩
  ledgerTails _ := none
  failedHooks _ := none
  calls _ := none
  inserted := []
  completed := []

variable (w : CheckpointWorld D)

def setPhase (call : Nat) (phase : CheckpointPhase D) : CheckpointWorld D :=
  { w with calls := Function.update w.calls call (some phase) }

/-- `failedHooks.get(key) ?? []`. -/
def pending (key : JsString) : List (SignedAuditCheckpoint D) := (w.failedHooks key).getD []

/-- Whether the promise a call waits for has settled. -/
def hasSettled (previous : Option Nat) : Bool :=
  match previous with
  | none => true
  | some call => (w.calls call).any CheckpointPhase.hasLeft

/-- Waits behind the last promise on the ledger and leaves its own there. -/
def enter (call : Nat) (ledger : AuditLedgerRef) : CheckpointWorld D :=
  { w with
    ledgerTails := Function.update w.ledgerTails (ledgerKey ledger) (some call)
    calls := Function.update w.calls call
      (some (.queued ledger (w.ledgerTails (ledgerKey ledger)))) }

/-- The `finally` of the locked section. -/
def release (call : Nat) (key : JsString) : CheckpointWorld D :=
  if w.ledgerTails key = some call then
    { w with ledgerTails := Function.update w.ledgerTails key none }
  else w

/-- The locked section has thrown. -/
def fail (call : Nat) (ledger : AuditLedgerRef) (error : AuditError) : CheckpointWorld D :=
  (w.release call (ledgerKey ledger)).setPhase call (.ended ledger (.error error))

/-- The loop over `due`, from its first element on. -/
def runHooks (ledger : AuditLedgerRef) (checkpoint : SignedAuditCheckpoint D) :
    List (SignedAuditCheckpoint D) → CheckpointPhase D
  | [] => .ended ledger (.ok checkpoint)
  | due => .hooking ledger checkpoint due

/-- What follows the locked section: the pending hooks are taken over, the checkpoint's own
hook comes after them. -/
def takeOver (call : Nat) (ledger : AuditLedgerRef) (checkpoint : SignedAuditCheckpoint D)
    (fresh : List (SignedAuditCheckpoint D)) : CheckpointWorld D :=
  let key := ledgerKey ledger
  { (w.release call key).setPhase call (runHooks ledger checkpoint (w.pending key ++ fresh)) with
    failedHooks := Function.update w.failedHooks key none }

def put (call : Nat) (ledger : AuditLedgerRef) (checkpoint : SignedAuditCheckpoint D) :
    CheckpointWorld D :=
  match w.store.putIfAbsent checkpoint with
  | (.inserted checkpoint, store) =>
    { w with store, inserted := w.inserted ++ [checkpoint] }.takeOver call ledger checkpoint
      [checkpoint]
  | (.existing existing, _) => w.takeOver call ledger existing []
  | (.conflict _, _) => w.fail call ledger (.protocol .CHECKPOINT_CONFLICT
      (js "A different checkpoint already exists at this tree size"))

/-- The hook has thrown: the rest goes back before what is pending by now. -/
def putBack (call : Nat) (ledger : AuditLedgerRef) (due : List (SignedAuditCheckpoint D))
    (error : AuditError) : CheckpointWorld D :=
  let key := ledgerKey ledger
  { w.setPhase call (.ended ledger (.error error)) with
    failedHooks := Function.update w.failedHooks key (some (due ++ w.pending key)) }

/-- One call runs from one `await` to the next; `none` when it cannot. -/
def act (options : AuditCheckpointBuilderOptions D) :
    CheckpointAction D → Option (CheckpointWorld D)
  | .createCheckpoint call ledger =>
      match w.calls call with
      | none => some (w.enter call ledger)
      | some _ => none
  | .snapshotAtHead call journal =>
      match w.calls call with
      | some (.queued ledger previous) =>
          if w.hasSettled previous then
            match journal with
            | .error error => some (w.fail call ledger error)
            | .ok [] => some (w.fail call ledger (.protocol .CHECKPOINT_INVALID
                (js "Cannot checkpoint an empty audit epoch")))
            | .ok entries => some (w.setPhase call (.snapshot ledger entries))
          else none
      | _ => none
  | .getLatest call storage =>
      match w.calls call, storage with
      | some (.snapshot ledger _), .error error => some (w.fail call ledger error)
      | some (.snapshot ledger entries), .ok _ =>
          some (w.setPhase call (.read ledger entries (w.store.getLatest ledger)))
      | _, _ => none
  | .signCheckpoint call sign now =>
      match w.calls call with
      | some (.read ledger entries previous) =>
          match planCheckpoint options ledger entries previous sign now with
          | .error error => some (w.fail call ledger error)
          | .ok (.keep latest) => some (w.takeOver call ledger latest [])
          | .ok (.put checkpoint) => some (w.setPhase call (.signed ledger checkpoint))
      | _ => none
  | .putIfAbsent call storage =>
      match w.calls call, storage with
      | some (.signed ledger _), .error error => some (w.fail call ledger error)
      | some (.signed ledger checkpoint), .ok _ => some (w.put call ledger checkpoint)
      | _, _ => none
  | .hook call result =>
      match w.calls call, result with
      | some (.hooking ledger _ due), .error error => some (w.putBack call ledger due error)
      | some (.hooking ledger checkpoint (done :: rest)), .ok _ =>
          some { w.setPhase call (runHooks ledger checkpoint rest) with
            completed := w.completed ++ [done] }
      | _, _ => none
  | .other checkpoint => some { w with store := (w.store.putIfAbsent checkpoint).2 }

end CheckpointWorld

end KyaOs.Audit
