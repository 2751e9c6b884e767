import KyaOs.Audit.Digests

/-!
# Checkpoints and observation receipts

What a recorder signs about a prefix of its journal, and what an observer signs about a
checkpoint. Tree sizes and sequences are decimal strings without leading zeros, kept as the
numbers they denote.
-/

namespace KyaOs.Audit

open Js JsonValue

variable {D : Type}

structure AuditCheckpointCore (D : Type) extends AuditLedgerRef where
  schema : JsString
  checkpointId : JsString
  treeSize : Nat
  firstSequence : Nat
  lastSequence : Nat
  rootDigest : Digest
  headEntryDigest : Digest
  previousCheckpointDigest : Option Digest
  createdAt : D
  issuer : SignerRef
  integritySuite : JsString

structure SignedAuditCheckpoint (D : Type) where
  core : AuditCheckpointCore D
  checkpointDigest : Digest
  jws : JsString

structure AuditObservationReceiptCore (D : Type) extends AuditLedgerRef where
  schema : JsString
  observerId : JsString
  observer : SignerRef
  checkpointDigest : Digest
  treeSize : Nat
  observedAt : D
  previousObservationDigest : Option Digest

structure AuditObservationReceipt (D : Type) where
  core : AuditObservationReceiptCore D
  observationDigest : Digest
  jws : JsString

def AuditCheckpointCore.toJson (core : AuditCheckpointCore D) : JsonValue D :=
  .object [(js "schema", .string core.schema), (js "checkpointId", .string core.checkpointId),
    (js "ledgerId", .string core.ledgerId), (js "ledgerEpochId", .string core.ledgerEpochId),
    (js "treeSize", .string (decimalString core.treeSize)),
    (js "firstSequence", .string (decimalString core.firstSequence)),
    (js "lastSequence", .string (decimalString core.lastSequence)),
    (js "rootDigest", .string core.rootDigest),
    (js "headEntryDigest", .string core.headEntryDigest),
    (js "previousCheckpointDigest", digestOrNull core.previousCheckpointDigest),
    (js "createdAt", .number core.createdAt), (js "issuer", core.issuer.toJson),
    (js "integritySuite", .string core.integritySuite)]

def AuditObservationReceiptCore.toJson (core : AuditObservationReceiptCore D) : JsonValue D :=
  .object [(js "schema", .string core.schema), (js "observerId", .string core.observerId),
    (js "observer", core.observer.toJson), (js "ledgerId", .string core.ledgerId),
    (js "ledgerEpochId", .string core.ledgerEpochId),
    (js "checkpointDigest", .string core.checkpointDigest),
    (js "treeSize", .string (decimalString core.treeSize)),
    (js "observedAt", .number core.observedAt),
    (js "previousObservationDigest", digestOrNull core.previousObservationDigest)]

theorem wellFormed_checkpointCore (core : AuditCheckpointCore D) : core.toJson.WellFormed := by
  apply WellFormed.object
  · simp only [List.map_cons, List.map_nil]
    decide
  · simp only [List.forall_mem_cons, List.not_mem_nil, false_imp_iff, implies_true, and_true]
    exact ⟨.string _, .string _, .string _, .string _, .string _, .string _, .string _, .string _,
      .string _, wellFormed_digestOrNull _, .number _, wellFormed_signer _, .string _⟩

theorem wellFormed_observationCore (core : AuditObservationReceiptCore D) :
    core.toJson.WellFormed := by
  apply WellFormed.object
  · simp only [List.map_cons, List.map_nil]
    decide
  · simp only [List.forall_mem_cons, List.not_mem_nil, false_imp_iff, implies_true, and_true]
    exact ⟨.string _, .string _, wellFormed_signer _, .string _, .string _, .string _, .string _,
      .number _, wellFormed_digestOrNull _⟩

/-- Two checkpoint cores agree on everything a later check reads. -/
structure AuditCheckpointCore.Agrees (left right : AuditCheckpointCore D) : Prop where
  ledger : left.toAuditLedgerRef = right.toAuditLedgerRef
  treeSize : left.treeSize = right.treeSize
  rootDigest : left.rootDigest = right.rootDigest
  headEntryDigest : left.headEntryDigest = right.headEntryDigest
  previousCheckpointDigest : left.previousCheckpointDigest = right.previousCheckpointDigest

theorem AuditCheckpointCore.agrees_of_same {numbers : Doubles D}
    {left right : AuditCheckpointCore D} (h : Same numbers left.toJson right.toJson) :
    left.Agrees right := by
  have hledgerId : left.ledgerId = right.ledgerId := same_text (js "ledgerId") h rfl rfl
  have hepochId : left.ledgerEpochId = right.ledgerEpochId :=
    same_text (js "ledgerEpochId") h rfl rfl
  refine ⟨?_, ?_, ?_, ?_, ?_⟩
  · rw [AuditLedgerRef.mk.injEq]
    exact ⟨hledgerId, hepochId⟩
  · exact decimalString_injective (same_text (js "treeSize") h rfl rfl)
  · exact same_text (js "rootDigest") h rfl rfl
  · exact same_text (js "headEntryDigest") h rfl rfl
  · exact same_digestOrNull
      (Option.rel_some_some.mp (h.child (.key (js "previousCheckpointDigest"))))

end KyaOs.Audit
