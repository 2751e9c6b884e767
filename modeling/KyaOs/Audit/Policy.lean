import KyaOs.Audit.Checkpoints

/-!
# Verification policies and verdicts

Trust comes from a policy alone: which recorder keys, observers and exporters are trusted,
until when, and up to which checkpoints. A dimension of a report is valid when nothing was
found against it.
-/

namespace KyaOs.Audit

open Js

variable {D : Type}

inductive AuditVerdict where
  | valid
  | invalid
  | indeterminate
  deriving DecidableEq

structure AuditVerificationDimension where
  verdict : AuditVerdict
  reasonCodes : List JsString
  deriving DecidableEq

/-- `AUDIT_REASON_CODES`, as far as verification gives them. -/
inductive AuditReasonCode where
  | notEvaluated
  | schemaInvalid
  | unsupportedSuite
  | unsupportedAlgorithm
  | untrustedRecorder
  | keyBoundaryUnresolved
  | keyNotCurrent
  | signatureInvalid
  | eventDigestMismatch
  | evidenceManifestDigestMismatch
  | entryDigestMismatch
  | receiptMismatch
  | ledgerScopeMismatch
  | sequenceGap
  | predecessorMismatch
  | genesisInvalid
  | checkpointMissing
  | checkpointDigestMismatch
  | checkpointSignatureInvalid
  | checkpointRootMismatch
  | checkpointRangeMismatch
  | checkpointChainMismatch
  | checkpointForkDetected
  | merkleProofInvalid
  | merkleProofMissing
  | observerEvidenceMissing
  | observationDigestMismatch
  | observationSignatureInvalid
  | observationScopeMismatch
  | untrustedObserver
  | observationStale
  | observationFutureDated
  | observationChainMismatch
  | untrustedSupportingAnchor
  | supportingAnchorInvalid
  | authorizationEvidenceMissing
  | authorizationCollateralNotVerified
  | currentAuthorizationNotEvaluated
  | bundleSchemaInvalid
  | bundleManifestDigestMismatch
  | bundleSignatureInvalid
  | bundleExporterUnauthorized
  | bundleInventoryMismatch
  | bundleComponentDigestMismatch
  | bundleSelectionIncomplete
  | verificationPolicyMismatch
  | verificationPolicyInvalid
  | requiredProfileUnmet
  | explicitlyRedacted
  | explicitlyDisposed
  | explicitlyUnavailable
  deriving DecidableEq

def AuditReasonCode.text : AuditReasonCode → JsString
  | .notEvaluated => js "AUDIT_NOT_EVALUATED"
  | .schemaInvalid => js "AUDIT_SCHEMA_INVALID"
  | .unsupportedSuite => js "AUDIT_UNSUPPORTED_SUITE"
  | .unsupportedAlgorithm => js "AUDIT_UNSUPPORTED_ALGORITHM"
  | .untrustedRecorder => js "AUDIT_UNTRUSTED_RECORDER"
  | .keyBoundaryUnresolved => js "AUDIT_KEY_BOUNDARY_UNRESOLVED"
  | .keyNotCurrent => js "AUDIT_KEY_NOT_CURRENT"
  | .signatureInvalid => js "AUDIT_SIGNATURE_INVALID"
  | .eventDigestMismatch => js "AUDIT_EVENT_DIGEST_MISMATCH"
  | .evidenceManifestDigestMismatch => js "AUDIT_EVIDENCE_MANIFEST_DIGEST_MISMATCH"
  | .entryDigestMismatch => js "AUDIT_ENTRY_DIGEST_MISMATCH"
  | .receiptMismatch => js "AUDIT_RECEIPT_MISMATCH"
  | .ledgerScopeMismatch => js "AUDIT_LEDGER_SCOPE_MISMATCH"
  | .sequenceGap => js "AUDIT_SEQUENCE_GAP"
  | .predecessorMismatch => js "AUDIT_PREDECESSOR_MISMATCH"
  | .genesisInvalid => js "AUDIT_GENESIS_INVALID"
  | .checkpointMissing => js "AUDIT_CHECKPOINT_MISSING"
  | .checkpointDigestMismatch => js "AUDIT_CHECKPOINT_DIGEST_MISMATCH"
  | .checkpointSignatureInvalid => js "AUDIT_CHECKPOINT_SIGNATURE_INVALID"
  | .checkpointRootMismatch => js "AUDIT_CHECKPOINT_ROOT_MISMATCH"
  | .checkpointRangeMismatch => js "AUDIT_CHECKPOINT_RANGE_MISMATCH"
  | .checkpointChainMismatch => js "AUDIT_CHECKPOINT_CHAIN_MISMATCH"
  | .checkpointForkDetected => js "AUDIT_CHECKPOINT_FORK_DETECTED"
  | .merkleProofInvalid => js "AUDIT_MERKLE_PROOF_INVALID"
  | .merkleProofMissing => js "AUDIT_MERKLE_PROOF_MISSING"
  | .observerEvidenceMissing => js "AUDIT_OBSERVER_EVIDENCE_MISSING"
  | .observationDigestMismatch => js "AUDIT_OBSERVATION_DIGEST_MISMATCH"
  | .observationSignatureInvalid => js "AUDIT_OBSERVATION_SIGNATURE_INVALID"
  | .observationScopeMismatch => js "AUDIT_OBSERVATION_SCOPE_MISMATCH"
  | .untrustedObserver => js "AUDIT_UNTRUSTED_OBSERVER"
  | .observationStale => js "AUDIT_OBSERVATION_STALE"
  | .observationFutureDated => js "AUDIT_OBSERVATION_FUTURE_DATED"
  | .observationChainMismatch => js "AUDIT_OBSERVATION_CHAIN_MISMATCH"
  | .untrustedSupportingAnchor => js "AUDIT_UNTRUSTED_SUPPORTING_ANCHOR"
  | .supportingAnchorInvalid => js "AUDIT_SUPPORTING_ANCHOR_INVALID"
  | .authorizationEvidenceMissing => js "AUDIT_AUTHORIZATION_EVIDENCE_MISSING"
  | .authorizationCollateralNotVerified => js "AUDIT_AUTHORIZATION_COLLATERAL_NOT_VERIFIED"
  | .currentAuthorizationNotEvaluated => js "AUDIT_CURRENT_AUTHORIZATION_NOT_EVALUATED"
  | .bundleSchemaInvalid => js "AUDIT_BUNDLE_SCHEMA_INVALID"
  | .bundleManifestDigestMismatch => js "AUDIT_BUNDLE_MANIFEST_DIGEST_MISMATCH"
  | .bundleSignatureInvalid => js "AUDIT_BUNDLE_SIGNATURE_INVALID"
  | .bundleExporterUnauthorized => js "AUDIT_BUNDLE_EXPORTER_UNAUTHORIZED"
  | .bundleInventoryMismatch => js "AUDIT_BUNDLE_INVENTORY_MISMATCH"
  | .bundleComponentDigestMismatch => js "AUDIT_BUNDLE_COMPONENT_DIGEST_MISMATCH"
  | .bundleSelectionIncomplete => js "AUDIT_BUNDLE_SELECTION_INCOMPLETE"
  | .verificationPolicyMismatch => js "AUDIT_VERIFICATION_POLICY_MISMATCH"
  | .verificationPolicyInvalid => js "AUDIT_VERIFICATION_POLICY_INVALID"
  | .requiredProfileUnmet => js "AUDIT_REQUIRED_PROFILE_UNMET"
  | .explicitlyRedacted => js "AUDIT_EXPLICITLY_REDACTED"
  | .explicitlyDisposed => js "AUDIT_EXPLICITLY_DISPOSED"
  | .explicitlyUnavailable => js "AUDIT_EXPLICITLY_UNAVAILABLE"

/-- `[...new Set(reasonCodes)].sort()` under a verdict. -/
def dimension (verdict : AuditVerdict) (reasonCodes : List JsString) :
    AuditVerificationDimension :=
  { verdict, reasonCodes := reasonCodes.eraseDups.mergeSort fun left right => left ≤ right }

def reasoned (verdict : AuditVerdict) (reasons : List AuditReasonCode) :
    AuditVerificationDimension :=
  dimension verdict (reasons.map AuditReasonCode.text)

/-- The reasons whose check fired, in the order of the checks. -/
def reasonsOf (checks : List (Bool × AuditReasonCode)) : List AuditReasonCode :=
  (checks.filter Prod.fst).map Prod.snd

/-- Whether a reason means that the supplied collateral does not decide. -/
def isIndeterminate (reason : AuditReasonCode) : Bool :=
  reason = .notEvaluated || reason = .keyBoundaryUnresolved

def verdictOf (reasons : List AuditReasonCode) : AuditVerdict :=
  if reasons = [] then .valid
  else if reasons.all isIndeterminate then .indeterminate
  else .invalid

/-- The verdict `valid` for no reasons, else `invalid`. -/
def validUnless (reasons : List AuditReasonCode) : AuditVerificationDimension :=
  reasoned (if reasons = [] then .valid else .invalid) reasons

def mergeAuditDimensions (values : List AuditVerificationDimension) : AuditVerificationDimension :=
  if values = [] then reasoned .indeterminate [.notEvaluated]
  else
    let verdict :=
      if values.any fun value => value.verdict = .invalid then .invalid
      else if values.all fun value => value.verdict = .valid then .valid
      else .indeterminate
    dimension verdict (values.flatMap AuditVerificationDimension.reasonCodes)

@[simp] theorem verdict_reasoned (verdict : AuditVerdict) (reasons : List AuditReasonCode) :
    (reasoned verdict reasons).verdict = verdict := rfl

@[simp] theorem reasonsOf_nil : reasonsOf [] = [] := rfl

@[simp] theorem reasonsOf_cons (fired : Bool) (reason : AuditReasonCode)
    (checks : List (Bool × AuditReasonCode)) :
    reasonsOf ((fired, reason) :: checks) = [] ↔ fired = false ∧ reasonsOf checks = [] := by
  cases fired <;> simp [reasonsOf]

@[simp] theorem verdictOf_eq_valid {reasons : List AuditReasonCode} :
    verdictOf reasons = .valid ↔ reasons = [] := by
  rw [verdictOf]
  split
  · simpa
  · rename_i hreasons
    split <;> simp [hreasons]

@[simp] theorem validUnless_eq_valid {reasons : List AuditReasonCode} :
    (validUnless reasons).verdict = .valid ↔ reasons = [] := by
  rw [validUnless, verdict_reasoned]
  split <;> simp_all

/-- A merge is valid exactly when it is of something, and all of it is valid. -/
theorem mergeAuditDimensions_eq_valid {values : List AuditVerificationDimension} :
    (mergeAuditDimensions values).verdict = .valid ↔
      values ≠ [] ∧ ∀ value ∈ values, value.verdict = .valid := by
  rw [mergeAuditDimensions]
  split
  · rename_i hnone
    simp [hnone]
  · rename_i hsome
    simp only [dimension, hsome, ne_eq, not_false_eq_true, true_and]
    split
    · rename_i hinvalid
      obtain ⟨value, hmem, hverdict⟩ := List.any_eq_true.mp hinvalid
      simp only [reduceCtorEq, false_iff, not_forall]
      refine ⟨value, hmem, ?_⟩
      rw [of_decide_eq_true hverdict]
      decide
    · split <;> simp_all

structure HistoricalAuditKeyPolicy (D : Type) where
  signer : SignerRef
  validFrom : Option D
  validUntil : Option D
  validFromCheckpoint : Option Digest
  validUntilCheckpoint : Option Digest

structure TrustedLedgerEpoch (D : Type) extends AuditLedgerRef where
  recorderKeys : List (HistoricalAuditKeyPolicy D)
  validFromCheckpoint : Option Digest
  validUntilCheckpoint : Option Digest

inductive AnchorKind where
  | worm
  | rfc3161
  | scitt
  deriving DecidableEq

structure TrustedSupportingAnchor (D : Type) where
  kind : AnchorKind
  providerId : JsString
  validFrom : Option D
  validUntil : Option D

structure AuthorizedExporter (D : Type) where
  signerKeys : List (HistoricalAuditKeyPolicy D)
  allowedLedgerIds : List JsString
  allowedPurposes : List JsString

inductive KeyRevocationMode where
  | asObserved
  | current
  | both
  deriving DecidableEq

structure AuditVerificationPolicy (D : Type) where
  policyId : JsString
  trustedLedgerEpochs : List (TrustedLedgerEpoch D)
  trustedObservers : List (HistoricalAuditKeyPolicy D)
  trustedSupportingAnchors : Option (List (TrustedSupportingAnchor D))
  authorizedExporters : List (AuthorizedExporter D)
  acceptedIntegritySuites : List JsString
  acceptedAlgorithms : List SignatureAlg
  keyRevocationMode : KeyRevocationMode
  requiredCheckpointFreshnessMs : Option D
  /-- The level of the profile, `n` for `AAP-n`. -/
  requiredAuditProfile : Option (Fin 5)

/-- The arithmetic of the runtime that verification uses. -/
structure Arithmetic (D : Type) where
  /-- `x <= y`. -/
  le : D → D → Bool
  /-- `x < y`. -/
  lt : D → D → Bool
  add : D → D → D
  sub : D → D → D

/-- `keyIsValidAt`, and `atTime` of a bundle. -/
def validAt (arithmetic : Arithmetic D) (validFrom validUntil : Option D) (time : D) : Bool :=
  (validFrom.all fun earliest => arithmetic.le earliest time) &&
    validUntil.all fun latest => arithmetic.le time latest

structure CheckpointBoundary extends AuditLedgerRef where
  treeSize : Nat

/-- Boundaries by the digest of their checkpoint, the latest set first. -/
abbrev CheckpointBoundaries := List (Digest × CheckpointBoundary)

inductive BoundStatus where
  | within
  | unresolved
  | outside
  deriving DecidableEq

/-- The tree size a bound names: `none` for no bound, `some none` for one that names no
boundary of the ledger epoch. -/
def resolveBound (ledger : AuditLedgerRef) (boundaries : CheckpointBoundaries) :
    Option Digest → Option (Option Nat)
  | none => none
  | some digest =>
    match boundaries.lookup digest with
    | some boundary =>
      some (if boundary.toAuditLedgerRef = ledger then some boundary.treeSize else none)
    | none => some none

def positionWithin (validFromCheckpoint validUntilCheckpoint : Option Digest)
    (ledger : AuditLedgerRef) (position : Nat) (boundaries : CheckpointBoundaries) : BoundStatus :=
  let lower := resolveBound ledger boundaries validFromCheckpoint
  let upper := resolveBound ledger boundaries validUntilCheckpoint
  if (lower.join.any fun size => position ≤ size) || (upper.join.any fun size => size < position)
  then .outside
  else if lower = some none ∨ upper = some none then .unresolved
  else .within

def strictest (left right : BoundStatus) : BoundStatus :=
  if left = .outside ∨ right = .outside then .outside
  else if left = .unresolved ∨ right = .unresolved then .unresolved
  else .within

/-- The loop of `keyTrust` over the keys, with the best status so far. -/
def keyTrustLoop (arithmetic : Arithmetic D) (signer : SignerRef) (time : D)
    (ledger : AuditLedgerRef) (position : Nat) (boundaries : CheckpointBoundaries)
    (epoch best : BoundStatus) : List (HistoricalAuditKeyPolicy D) → BoundStatus
  | [] => best
  | key :: keys =>
    if key.signer ≠ signer ∨ ¬ validAt arithmetic key.validFrom key.validUntil time then
      keyTrustLoop arithmetic signer time ledger position boundaries epoch best keys
    else
      let status := strictest epoch (positionWithin key.validFromCheckpoint
        key.validUntilCheckpoint ledger position boundaries)
      if status = .within then status
      else keyTrustLoop arithmetic signer time ledger position boundaries epoch
        (if status = .unresolved then status else best) keys

/-- `keyTrust` with no bounds on the epoch. -/
def keyTrust (arithmetic : Arithmetic D) (keys : List (HistoricalAuditKeyPolicy D))
    (signer : SignerRef) (time : D) (ledger : AuditLedgerRef) (position : Nat)
    (boundaries : CheckpointBoundaries) : BoundStatus :=
  keyTrustLoop arithmetic signer time ledger position boundaries
    (positionWithin none none ledger position boundaries) .outside keys

/-- `keyTrust` of the recorder keys of the ledger epoch in the policy, under its bounds. -/
def recorderTrust (arithmetic : Arithmetic D) (policy : AuditVerificationPolicy D)
    (signer : SignerRef) (time : D) (ledger : AuditLedgerRef) (position : Nat)
    (boundaries : CheckpointBoundaries) : BoundStatus :=
  match policy.trustedLedgerEpochs.find? fun epoch => epoch.toAuditLedgerRef = ledger with
  | some epoch =>
    keyTrustLoop arithmetic signer time ledger position boundaries
      (positionWithin epoch.validFromCheckpoint epoch.validUntilCheckpoint ledger position
        boundaries) .outside epoch.recorderKeys
  | none => keyTrust arithmetic [] signer time ledger position boundaries

def keyIsCurrent (arithmetic : Arithmetic D) (keys : List (HistoricalAuditKeyPolicy D))
    (signer : SignerRef) (now : D) : Bool :=
  keys.any fun key => key.signer = signer && validAt arithmetic key.validFrom key.validUntil now &&
    key.validUntilCheckpoint.isNone

end KyaOs.Audit
