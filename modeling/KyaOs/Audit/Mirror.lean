import KyaOs.Audit.JournalLog
import KyaOs.Audit.TamperEvidence
import KyaOs.Concurrency.Async

/-!
# The audit mirror

`AuditMirrorService.ingest` over the in-memory journal. Every `await` is a request. The
entries it is given are those of one recorder's chain.
-/

namespace KyaOs.Audit

open Js Concurrency

structure AuditMirrorServiceOptions (D : Type) where
  ledger : AuditLedgerRef
  verifier : AuditArtifactVerifier D
  verificationPolicy : JsonValue D
  sha256 : Bytes → Except Error Digest

inductive MirrorRequest (D : Type) where
  /-- `verifyEntries` of one entry. -/
  | verifyEntries (entry : SignedAuditEntry D)
  /-- The digest under the domain of mirror keys. -/
  | hash (value : JsonValue D)
  | getByIdempotencyKey (ledgerId : JsString) (key : Digest)
  | getHead (ledger : AuditLedgerRef)
  | compareAndAppend (ledger : AuditLedgerRef) (expectedHead : Option AuditHead)
      (entry : SignedAuditEntry D) (key : Digest)

@[reducible] def MirrorRequest.Answer {D : Type} : MirrorRequest D → Type
  | .verifyEntries .. => AuditVerificationReport D
  | .hash .. => Digest
  | .getByIdempotencyKey .. => Option (SignedAuditEntry D)
  | .getHead .. => Option AuditHead
  | .compareAndAppend .. => AuditAppendResult D

abbrev mirrorSetting (D : Type) : Setting where
  State := MemoryAuditJournal D
  Error := AuditError
  Request := MirrorRequest D
  Answer := MirrorRequest.Answer

abbrev MirrorM (D : Type) (α : Type) := Async (mirrorSetting D) α

section Ingest

variable {D : Type}

/-- `await` of a request's promise. -/
def mirrorReply (request : MirrorRequest D) : MirrorM D request.Answer :=
  Async.ask (I := mirrorSetting D) request

def mirrorFailure {α : Type} (code : AuditErrorCode) (message : String) : MirrorM D α :=
  throw (.protocol code (js message))

def continuityFailure {α : Type} : MirrorM D α :=
  mirrorFailure .MIRROR_CONTINUITY_FAILED
    "Mirror entry does not exactly extend the observed recorder chain"

/-- What the idempotency key of an entry is the digest of. -/
def mirrorIdentity (entry : SignedAuditEntry D) : JsonValue D :=
  .object [(js "ledgerId", .string entry.core.ledgerId),
    (js "entryDigest", .string entry.entryDigest)]

/-- The entry arrived before its predecessor. -/
def isOutOfOrder (head : Option AuditHead) (entry : SignedAuditEntry D) : Bool :=
  match head with
  | none => 0 < entry.core.sequence
  | some head => head.sequence + 1 < entry.core.sequence

def isContinuous (head : Option AuditHead) (entry : SignedAuditEntry D) : Bool :=
  match head with
  | none => entry.core.sequence = 0 ∧ entry.core.previousEntryDigest = none
  | some head => entry.core.sequence = head.sequence + 1 ∧
      entry.core.previousEntryDigest = some head.entryDigest

/-- What `ingest` does with the journal's answer. -/
def concludeIngest (entry : SignedAuditEntry D) (key : Digest) :
    AuditAppendResult D → MirrorM D (SignedAuditEntry D)
  | .appended committed | .duplicate committed => pure committed
  | .headConflict _ | .idempotencyConflict _ => do
    let racedDuplicate ← mirrorReply (.getByIdempotencyKey entry.core.ledgerId key)
    match racedDuplicate with
    | some committed =>
      if committed.entryDigest = entry.entryDigest then pure committed else continuityFailure
    | none => continuityFailure

variable (options : AuditMirrorServiceOptions D) (entry : SignedAuditEntry D)

/-- `ingest`, past the head. -/
def ingestAt (key : Digest) (head : Option AuditHead) : MirrorM D (SignedAuditEntry D) :=
  if isOutOfOrder head entry then
    mirrorFailure .MIRROR_OUT_OF_ORDER
      "Mirror entry arrived before its predecessor and may be retried"
  else if isContinuous head entry then do
    let result ← mirrorReply (.compareAndAppend options.ledger head entry key)
    concludeIngest entry key result
  else continuityFailure

/-- `ingest`, past the duplicate. -/
def ingestNew (key : Digest) : MirrorM D (SignedAuditEntry D) := do
  let head ← mirrorReply (.getHead options.ledger)
  ingestAt options entry key head

/-- `ingest`, past the verification. -/
def ingestVerified : MirrorM D (SignedAuditEntry D) := do
  let key ← mirrorReply (.hash (mirrorIdentity entry))
  let duplicate ← mirrorReply (.getByIdempotencyKey entry.core.ledgerId key)
  match duplicate with
  | some duplicate =>
    if duplicate.entryDigest = entry.entryDigest then pure duplicate else continuityFailure
  | none => ingestNew options entry key

def ingest : MirrorM D (SignedAuditEntry D) :=
  if entry.core.toAuditLedgerRef = options.ledger then do
    let report ← mirrorReply (.verifyEntries entry)
    if report.cryptographicIntegrity.verdict = .valid then ingestVerified options entry
    else
      mirrorFailure .MIRROR_VERIFICATION_FAILED
        "Mirror rejected an entry that failed historical artifact verification"
  else mirrorFailure .LEDGER_MISMATCH "Mirror entry belongs to a different ledger epoch"

/-- How requests are served. -/
def serveMirror : (request : MirrorRequest D) → MemoryAuditJournal D →
    Except AuditError request.Answer → MemoryAuditJournal D → Prop
  | .verifyEntries entry, journal, answer, journal' =>
    answer = (options.verifier.verifyEntries [entry.toJson] options.verificationPolicy []).mapError
      .other ∧ journal' = journal
  | .hash value, journal, answer, journal' =>
    answer = (hashAuditValue options.verifier.numbers options.sha256 .mirrorIdempotency
      value).mapError .other ∧ journal' = journal
  | .getByIdempotencyKey ledgerId key, journal, answer, journal' =>
    answer = .ok (journal.getByIdempotencyKey ledgerId key) ∧ journal' = journal
  | .getHead ledger, journal, answer, journal' =>
    answer = .ok (journal.getHead ledger) ∧ journal' = journal
  | .compareAndAppend ledger expectedHead entry key, journal, answer, journal' =>
    answer = .ok (journal.compareAndAppend ledger expectedHead entry key).1 ∧
      journal' = (journal.compareAndAppend ledger expectedHead entry key).2

/-- Any number of calls of `ingest`. -/
def mirrorProgram {ι : Type} (calls : ι → SignedAuditEntry D) :
    Program (mirrorSetting D) ι (SignedAuditEntry D) where
  code c := ingest options (calls c)
  serves _ := serveMirror options
  environment _ _ := False

end Ingest

end KyaOs.Audit
