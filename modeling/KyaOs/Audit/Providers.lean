import KyaOs.Audit.Integrity

/-!
# The in-memory journal and evidence store

`MemoryAuditJournal` and `MemoryAuditEvidenceProvider`; each method is one atomic step
over the maps it keeps. A map is a function to options.
-/

namespace KyaOs.Audit

open Js

inductive AuditErrorCode where
  | INVALID_EVENT
  | LEDGER_MISMATCH
  | EPOCH_MISMATCH
  | EVENT_ID_CONFLICT
  | APPEND_CONFLICT_EXHAUSTED
  | JOURNAL_FAILURE
  | EVIDENCE_FAILURE
  | EVIDENCE_INTEGRITY
  | EVIDENCE_LEGAL_HOLD
  | CHECKPOINT_INVALID
  | CHECKPOINT_ROLLBACK
  | CHECKPOINT_CONFLICT
  | CHECKPOINT_PUBLICATION_FAILED
  | PROJECTION_CONFLICT
  | MIRROR_VERIFICATION_FAILED
  | MIRROR_CONTINUITY_FAILED
  | MIRROR_OUT_OF_ORDER
  | UNAUTHORIZED_SUBMISSION
  | INVALID_CONFIGURATION
  deriving DecidableEq

/-- A thrown value: an `AuditProtocolError`, or any other. -/
inductive AuditError where
  | protocol (code : AuditErrorCode) (message : JsString)
  | other (thrown : Error)
  deriving DecidableEq

section Journal

variable {D : Type}

inductive AuditAppendResult (D : Type) where
  | appended (entry : SignedAuditEntry D)
  | duplicate (entry : SignedAuditEntry D)
  | headConflict (actualHead : Option AuditHead)
  | idempotencyConflict (existing : SignedAuditEntry D)

def ledgerKey (ledger : AuditLedgerRef) : JsString := ledger.ledgerId ++ 0 :: ledger.ledgerEpochId

def idempotencyKey (ledgerId : JsString) (key : Digest) : JsString := ledgerId ++ 0 :: key

def headsEqual : Option AuditHead → Option AuditHead → Bool
  | some left, some right =>
    left.ledgerId = right.ledgerId ∧ left.ledgerEpochId = right.ledgerEpochId ∧
      left.sequence = right.sequence ∧ left.entryDigest = right.entryDigest
  | none, none => true
  | _, _ => false

structure MemoryAuditJournal (D : Type) where
  /-- `[]` for a key that is not in the map. -/
  entriesByLedger : JsString → List (SignedAuditEntry D)
  entriesByIdempotency : JsString → Option (SignedAuditEntry D)
  heads : JsString → Option AuditHead

namespace MemoryAuditJournal

def empty : MemoryAuditJournal D where
  entriesByLedger _ := []
  entriesByIdempotency _ := none
  heads _ := none

variable (journal : MemoryAuditJournal D)

def getHead (ledger : AuditLedgerRef) : Option AuditHead := journal.heads (ledgerKey ledger)

def getByIdempotencyKey (ledgerId : JsString) (key : Digest) : Option (SignedAuditEntry D) :=
  journal.entriesByIdempotency (idempotencyKey ledgerId key)

def snapshot (ledger : AuditLedgerRef) : List (SignedAuditEntry D) :=
  journal.entriesByLedger (ledgerKey ledger)

/-- What `readRange` yields. -/
def readRange (ledger : AuditLedgerRef) (afterSequence limit : Option Nat) :
    List (SignedAuditEntry D) :=
  let read := (journal.snapshot ledger).filter fun entry =>
    match afterSequence with
    | some after => after < entry.core.sequence
    | none => true
  match limit with
  | some limit => read.take limit
  | none => read

def append (ledger : AuditLedgerRef) (entry : SignedAuditEntry D) (key : Digest) :
    MemoryAuditJournal D where
  entriesByLedger := Function.update journal.entriesByLedger (ledgerKey ledger)
    (journal.entriesByLedger (ledgerKey ledger) ++ [entry])
  entriesByIdempotency := Function.update journal.entriesByIdempotency
    (idempotencyKey ledger.ledgerId key) (some entry)
  heads := Function.update journal.heads (ledgerKey ledger)
    (some { ledger with sequence := entry.core.sequence, entryDigest := entry.entryDigest })

/-- `compareAndAppend`, its answer and the journal after it. -/
def compareAndAppend (ledger : AuditLedgerRef) (expectedHead : Option AuditHead)
    (entry : SignedAuditEntry D) (key : Digest) : AuditAppendResult D × MemoryAuditJournal D :=
  match journal.getByIdempotencyKey ledger.ledgerId key with
  | some existing =>
    if existing.eventDigest = entry.eventDigest then (.duplicate existing, journal)
    else (.idempotencyConflict existing, journal)
  | none =>
    if headsEqual expectedHead (journal.getHead ledger) then
      (.appended entry, journal.append ledger entry key)
    else (.headConflict (journal.getHead ledger), journal)

end MemoryAuditJournal

end Journal

section Evidence

variable {D : Type}

structure EncryptedEvidenceInput (D : Type) where
  ref : EvidenceRef D
  ciphertext : Bytes

def EncryptedEvidenceInput.objectId (input : EncryptedEvidenceInput D) : JsString :=
  textAt input.ref ["objectId"]

structure EvidenceState (D : Type) where
  ref : EvidenceRef D
  /-- `none` once disposed. -/
  ciphertext : Option Bytes
  holds : List JsString

/-- `states`, by object id. -/
abbrev EvidenceStates (D : Type) := JsString → Option (EvidenceState D)

namespace EvidenceStates

variable (states : EvidenceStates D)

def has (ref : EvidenceRef D) : Bool :=
  match states (textAt ref ["objectId"]) with
  | some state => state.ciphertext.isSome
  | none => false

def evidenceIntegrity (message : JsString) {α : Type} : Except AuditError α :=
  .error (.protocol .EVIDENCE_INTEGRITY message)

def putIfAbsent (sha256 : Bytes → Except Error Digest) (input : EncryptedEvidenceInput D) :
    Except AuditError (EvidenceRef D) × EvidenceStates D :=
  match sha256 input.ciphertext with
  | .error thrown => (.error (.other thrown), states)
  | .ok actualDigest =>
    if actualDigest ≠ textAt input.ref ["ciphertextDigest"] ∨
        decimalString input.ciphertext.length ≠ textAt input.ref ["size"] then
      (evidenceIntegrity (js "Evidence bytes do not match their ciphertext digest or size"), states)
    else
      match states input.objectId with
      | some existing =>
        if textAt existing.ref ["ciphertextDigest"] ≠ textAt input.ref ["ciphertextDigest"] ∨
            existing.ciphertext ≠ some input.ciphertext then
          (evidenceIntegrity (js "Opaque evidence object ID collision"), states)
        else (.ok existing.ref, states)
      | none =>
        (.ok input.ref, Function.update states input.objectId
          (some { ref := input.ref, ciphertext := some input.ciphertext, holds := [] }))

/-- `applyRetention` with a `dispose` command. -/
def dispose (ref : EvidenceRef D) : Except AuditError Unit × EvidenceStates D :=
  match states (textAt ref ["objectId"]) with
  | none => (.ok (), states)
  | some state =>
    if state.holds ≠ [] then
      (.error (.protocol .EVIDENCE_LEGAL_HOLD
        (js "Evidence cannot be disposed while a legal hold is active")), states)
    else
      (.ok (), Function.update states (textAt ref ["objectId"])
        (some { state with ciphertext := none }))

/-- `applyRetention` with a `legal_hold` command. -/
def legalHold (ref : EvidenceRef D) (holdId : JsString) : EvidenceStates D :=
  match states (textAt ref ["objectId"]) with
  | none => states
  | some state =>
    Function.update states (textAt ref ["objectId"])
      (some { state with holds := if holdId ∈ state.holds then state.holds
        else state.holds ++ [holdId] })

/-- `applyRetention` with a `release_hold` command. -/
def releaseHold (ref : EvidenceRef D) (holdId : JsString) : EvidenceStates D :=
  match states (textAt ref ["objectId"]) with
  | none => states
  | some state =>
    Function.update states (textAt ref ["objectId"])
      (some { state with holds := state.holds.filter (· ≠ holdId) })

end EvidenceStates

end Evidence

end KyaOs.Audit
