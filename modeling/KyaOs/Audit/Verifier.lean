import KyaOs.Audit.Policy

/-!
# The artifact verifier

`AuditArtifactVerifier` over entries, checkpoints and observations that are unknown values
until a schema accepts them. The schemas, the hasher and the signature verifier are
parameters; whatever they throw, a verification throws.
-/

namespace KyaOs.Audit

open Js

variable {D : Type}

structure AuditVerificationReport (D : Type) where
  policyId : JsString
  verifiedAt : Option D := none
  cryptographicIntegrity : AuditVerificationDimension
  chainIntegrity : AuditVerificationDimension
  checkpointIntegrity : AuditVerificationDimension
  anchorIntegrity : AuditVerificationDimension
  scopeEvidenceCompleteness : AuditVerificationDimension
  authorizedAsObserved : AuditVerificationDimension
  currentAuthorization : AuditVerificationDimension

/-- What the schemas read a value as, `none` when they refuse it. -/
structure AuditSchemas (D : Type) where
  auditVerificationPolicySchema : JsonValue D → Option (AuditVerificationPolicy D)
  signedAuditEntrySchema : JsonValue D → Option (SignedAuditEntry D)
  signedAuditCheckpointSchema : JsonValue D → Option (SignedAuditCheckpoint D)
  auditObservationReceiptSchema : JsonValue D → Option (AuditObservationReceipt D)

structure AuditAuthorizationVerifier (D : Type) where
  verifyAsObserved : List (SignedAuditEntry D) → AuditVerificationPolicy D →
    Except Error AuditVerificationDimension
  verifyCurrent : List (SignedAuditEntry D) → AuditVerificationPolicy D →
    Except Error AuditVerificationDimension

structure AuditArtifactVerifierOptions (D : Type) where
  sha256 : Bytes → Except Error Digest
  verifySignature : Bytes → JsString → SignerRef → Except Error Bool
  /-- What the clock shows during a verification. -/
  verifiedAt : Option D := none
  maxClockSkewMs : Option D := none
  authorization : Option (AuditAuthorizationVerifier D) := none

/-- A verifier, with the runtime and the schemas it runs with. -/
structure AuditArtifactVerifier (D : Type) extends AuditArtifactVerifierOptions D where
  numbers : Doubles D
  arithmetic : Arithmetic D
  schemas : AuditSchemas D

/-- Artifacts whose signing keys a verification relied on. -/
structure AuditSignedArtifacts (D : Type) where
  entries : List (SignedAuditEntry D) := []
  checkpoints : List (SignedAuditCheckpoint D) := []
  observations : List (AuditObservationReceipt D) := []
  exporter : Option SignerRef := none

def auditObservationSchemaId : JsString :=
  js "https://schema.kya-os.org/v1/protocol/audit/observation/v1.0.0"

/-- The `policyId` of a value that no policy schema accepted. -/
def invalidPolicyId (policy : JsonValue D) : JsString :=
  match memberAt policy ["policyId"] with
  | some (.string policyId) => policyId
  | _ => js "invalid-policy"

def invalidPolicyReport (policy : JsonValue D) : AuditVerificationReport D :=
  let invalid := reasoned .invalid [.verificationPolicyInvalid]
  { policyId := invalidPolicyId policy
    cryptographicIntegrity := invalid
    chainIntegrity := invalid
    checkpointIntegrity := invalid
    anchorIntegrity := invalid
    scopeEvidenceCompleteness := invalid
    authorizedAsObserved := reasoned .indeterminate [.notEvaluated]
    currentAuthorization := reasoned .indeterminate [.notEvaluated] }

/-- A dimension that the required profile depends on. -/
def requireValid (value : AuditVerificationDimension) (met : Bool) : AuditVerificationDimension :=
  if value.verdict ≠ .valid ∨ met = false then
    dimension .invalid (value.reasonCodes ++ [AuditReasonCode.requiredProfileUnmet.text])
  else value

/-- The profile of level `n` depends on the first `n` of the four integrity dimensions. -/
def applyRequiredAuditProfile (report : AuditVerificationReport D)
    (policy : AuditVerificationPolicy D) (supportingAnchors : Bool) : AuditVerificationReport D :=
  match policy.requiredAuditProfile with
  | none => report
  | some level =>
    let required (n : Nat) (met : Bool) (value : AuditVerificationDimension) :=
      if n ≤ level.val then requireValid value met else value
    { report with
      cryptographicIntegrity := required 1 true report.cryptographicIntegrity
      chainIntegrity := required 2 true report.chainIntegrity
      checkpointIntegrity := required 3 true report.checkpointIntegrity
      anchorIntegrity := required 4 supportingAnchors report.anchorIntegrity }

/-- Whether both values have one canonical text. -/
def exactJson (numbers : Doubles D) (left right : JsonValue D) : Bool :=
  match canonicalizeJson numbers left, canonicalizeJson numbers right with
  | .ok leftText, .ok rightText => leftText = rightText
  | _, _ => false

namespace AuditArtifactVerifier

variable (verifier : AuditArtifactVerifier D)

/-- `signatures.verify(canonicalizeJsonBytes(core), jws, signer)`. -/
def verifyJson (core : JsonValue D) (jws : JsString) (signer : SignerRef) : Except Error Bool := do
  let text ← canonicalizeJson verifier.numbers core
  verifier.verifySignature (encodeUtf8 text) jws signer

def boundaries : List (JsonValue D) → CheckpointBoundaries → Except Error CheckpointBoundaries
  | [], result => .ok result
  | candidate :: rest, result =>
    match verifier.schemas.signedAuditCheckpointSchema candidate with
    | none => boundaries rest result
    | some checkpoint => do
      let digest ← hashAuditValue verifier.numbers verifier.sha256 .checkpoint
        checkpoint.core.toJson
      boundaries rest ((digest, { checkpoint.core with }) :: result)

def verifyCurrentKeys (policy : AuditVerificationPolicy D) (artifacts : AuditSignedArtifacts D) :
    Option AuditVerificationDimension :=
  if policy.keyRevocationMode = .asObserved then none
  else
    match verifier.verifiedAt with
    | none => some (reasoned .indeterminate [.notEvaluated])
    | some now =>
      let recorderKeys (ledger : AuditLedgerRef) : List (HistoricalAuditKeyPolicy D) :=
        match policy.trustedLedgerEpochs.find? fun epoch => epoch.toAuditLedgerRef = ledger with
        | some epoch => epoch.recorderKeys
        | none => []
      let current :=
        (artifacts.entries.map fun entry => keyIsCurrent verifier.arithmetic
          (recorderKeys entry.core.toAuditLedgerRef) entry.core.recorder now) ++
        (artifacts.checkpoints.map fun checkpoint => keyIsCurrent verifier.arithmetic
          (recorderKeys checkpoint.core.toAuditLedgerRef) checkpoint.core.issuer now) ++
        (artifacts.observations.map fun receipt => keyIsCurrent verifier.arithmetic
          policy.trustedObservers receipt.core.observer now) ++
        (artifacts.exporter.toList.map fun exporter => keyIsCurrent verifier.arithmetic
          (policy.authorizedExporters.flatMap AuthorizedExporter.signerKeys) exporter now)
      some (if current.all id then reasoned .valid [] else reasoned .invalid [.keyNotCurrent])

/-- The reasons `verifyEntry` finds against an entry. -/
def verifyEntry (entry : SignedAuditEntry D) (policy : AuditVerificationPolicy D)
    (boundaries : CheckpointBoundaries) : Except Error (List AuditReasonCode) := do
  let core := entry.core
  let trust := recorderTrust verifier.arithmetic policy core.recorder core.recordedAt
    core.toAuditLedgerRef (core.sequence + 1) boundaries
  let eventDigest ← digestAuditEvent verifier.numbers verifier.sha256 core.event
  let evidenceDigest ← digestAuditEvidenceManifest verifier.numbers verifier.sha256 core.event
  let entryDigest ← digestAuditEntry verifier.numbers verifier.sha256 core
  let expectedReceipt := buildAuditRecorderReceiptCore core entry.entryDigest
  let signed ← verifier.verifyJson entry.receiptCore.toJson entry.jws core.recorder
  return reasonsOf
    [(!policy.acceptedIntegritySuites.contains core.integritySuite, .unsupportedSuite),
      (!policy.acceptedAlgorithms.contains core.recorder.alg, .unsupportedAlgorithm),
      (trust = .outside, .untrustedRecorder),
      (trust = .unresolved, .keyBoundaryUnresolved),
      (eventDigest ≠ core.eventDigest ∨ eventDigest ≠ entry.eventDigest, .eventDigestMismatch),
      (evidenceDigest ≠ core.evidenceManifestDigest, .evidenceManifestDigestMismatch),
      (entryDigest ≠ entry.entryDigest, .entryDigestMismatch),
      (!exactJson verifier.numbers expectedReceipt.toJson entry.receiptCore.toJson,
        .receiptMismatch),
      (!signed, .signatureInvalid)]

end AuditArtifactVerifier

/-- The reasons `verifyChainPosition` finds against an entry after `previous`. -/
def verifyChainPosition (entry : SignedAuditEntry D) (previous : Option (SignedAuditEntry D))
    (index : Nat) : List AuditReasonCode :=
  let core := entry.core
  match previous with
  | none =>
    if core.sequence = 0 then
      reasonsOf [(core.previousEntryDigest ≠ none ∨
        textAt core.event ["eventType"] ≠ js "ledger.epoch.started", .genesisInvalid)]
    else reasonsOf [(index = 0 ∧ core.previousEntryDigest = none, .predecessorMismatch)]
  | some previous =>
    reasonsOf
      [(core.toAuditLedgerRef ≠ previous.core.toAuditLedgerRef, .ledgerScopeMismatch),
        (core.sequence ≠ previous.core.sequence + 1, .sequenceGap),
        (core.previousEntryDigest ≠ some previous.entryDigest, .predecessorMismatch)]

/-- What the loop of `verifyEntries` has found so far. -/
structure EntryFindings (D : Type) where
  cryptoReasons : List AuditReasonCode
  chainReasons : List AuditReasonCode
  validatedEntries : List (SignedAuditEntry D) := []

namespace AuditArtifactVerifier

variable (verifier : AuditArtifactVerifier D)

/-- The loop of `verifyEntries` over the candidates. -/
def findEntries (policy : AuditVerificationPolicy D) (boundaries : CheckpointBoundaries) :
    List (JsonValue D) → EntryFindings D → Except Error (EntryFindings D)
  | [], found => .ok found
  | candidate :: rest, found =>
    match verifier.schemas.signedAuditEntrySchema candidate with
    | none =>
      findEntries policy boundaries rest
        { found with
          cryptoReasons := found.cryptoReasons ++ [.schemaInvalid]
          chainReasons := found.chainReasons ++ [.schemaInvalid] }
    | some entry => do
      let reasons ← verifier.verifyEntry entry policy boundaries
      findEntries policy boundaries rest
        { cryptoReasons := found.cryptoReasons ++ reasons
          chainReasons := found.chainReasons ++ verifyChainPosition entry
            found.validatedEntries.getLast? found.validatedEntries.length
          validatedEntries := found.validatedEntries ++ [entry] }

/-- The authorization dimensions, as observed and current. -/
def authorizationDimensions (policy : AuditVerificationPolicy D)
    (entries : List (SignedAuditEntry D)) :
    Except Error (AuditVerificationDimension × AuditVerificationDimension) :=
  match verifier.authorization with
  | none =>
    let present := entries.any fun entry => (memberAt entry.core.event ["authorization"]).isSome
    return (reasoned .indeterminate [if present then .authorizationCollateralNotVerified
      else .authorizationEvidenceMissing],
      reasoned .indeterminate [.currentAuthorizationNotEvaluated])
  | some authorization => do
    let asObserved ← authorization.verifyAsObserved entries policy
    let current ← authorization.verifyCurrent entries policy
    return (asObserved, current)

def verifyEntries (entries : List (JsonValue D)) (policy : JsonValue D)
    (checkpoints : List (JsonValue D)) : Except Error (AuditVerificationReport D) :=
  match verifier.schemas.auditVerificationPolicySchema policy with
  | none => .ok (invalidPolicyReport policy)
  | some verificationPolicy => do
    let boundaries ← verifier.boundaries checkpoints []
    let found ← verifier.findEntries verificationPolicy boundaries entries
      { cryptoReasons := []
        chainReasons := reasonsOf [(entries.isEmpty, .bundleSelectionIncomplete)] }
    let (authorizedAsObserved, currentAuthorization) ←
      verifier.authorizationDimensions verificationPolicy found.validatedEntries
    let currentKeys := verifier.verifyCurrentKeys verificationPolicy
      { entries := found.validatedEntries }
    return applyRequiredAuditProfile
      { policyId := verificationPolicy.policyId
        verifiedAt := verifier.verifiedAt
        cryptographicIntegrity :=
          reasoned (if entries.isEmpty then .invalid else verdictOf found.cryptoReasons)
            found.cryptoReasons
        chainIntegrity :=
          reasoned (if found.chainReasons = [] ∧ ¬ entries.isEmpty then .valid else .invalid)
            found.chainReasons
        checkpointIntegrity := reasoned .indeterminate [.checkpointMissing]
        anchorIntegrity := reasoned .indeterminate [.observerEvidenceMissing]
        scopeEvidenceCompleteness :=
          reasoned (if entries.isEmpty then .invalid else .indeterminate) [.notEvaluated]
        authorizedAsObserved
        currentAuthorization :=
          match currentKeys with
          | none => currentAuthorization
          | some currentKeys => mergeAuditDimensions [currentAuthorization, currentKeys] }
      verificationPolicy false

inductive CheckpointCheck (D : Type) where
  | rejected (result : AuditVerificationDimension)
  | checked (core : AuditCheckpointCore D) (reasons : List AuditReasonCode)

def checkSignedCheckpoint (checkpoint policy : JsonValue D) (checkpoints : List (JsonValue D)) :
    Except Error (CheckpointCheck D) :=
  match verifier.schemas.auditVerificationPolicySchema policy,
      verifier.schemas.signedAuditCheckpointSchema checkpoint with
  | none, _ => .ok (.rejected (reasoned .invalid [.verificationPolicyInvalid]))
  | some _, none => .ok (.rejected (reasoned .invalid [.schemaInvalid]))
  | some policy, some validated => do
    let core := validated.core
    let boundaries ← verifier.boundaries (checkpoints ++ [checkpoint]) []
    let trust := recorderTrust verifier.arithmetic policy core.issuer core.createdAt
      core.toAuditLedgerRef core.treeSize boundaries
    let expectedDigest ← hashAuditValue verifier.numbers verifier.sha256 .checkpoint core.toJson
    let signed ← verifier.verifyJson core.toJson validated.jws core.issuer
    return .checked core (reasonsOf
      [(!policy.acceptedIntegritySuites.contains core.integritySuite, .unsupportedSuite),
        (!policy.acceptedAlgorithms.contains core.issuer.alg, .unsupportedAlgorithm),
        (trust = .outside, .untrustedRecorder),
        (trust = .unresolved, .keyBoundaryUnresolved),
        (expectedDigest ≠ validated.checkpointDigest, .checkpointDigestMismatch),
        (!signed, .checkpointSignatureInvalid)])

/-- Whether the entries are the range a checkpoint declares. -/
def inRange (core : AuditCheckpointCore D) (entries : List (SignedAuditEntry D)) : Bool :=
  core.treeSize ≤ JsNumber.maxSafeInteger && core.treeSize = entries.length &&
    (entries.head?.map fun entry => entry.core.sequence) = some core.firstSequence &&
    (entries.getLast?.map fun entry => entry.core.sequence) = some core.lastSequence &&
    (entries.getLast?.map fun entry => entry.entryDigest) = some core.headEntryDigest &&
    entries.all fun entry => entry.core.toAuditLedgerRef = core.toAuditLedgerRef

def verifyCheckpoint (checkpoint : JsonValue D) (entries : List (SignedAuditEntry D))
    (policy : JsonValue D) (checkpoints : List (JsonValue D)) :
    Except Error AuditVerificationDimension := do
  match ← verifier.checkSignedCheckpoint checkpoint policy checkpoints with
  | .rejected result => return result
  | .checked core reasons =>
    let more ←
      if inRange core entries then do
        let rootDigest ← root verifier.sha256 (entries.map SignedAuditEntry.entryDigest)
        pure (reasonsOf [(rootDigest ≠ core.rootDigest, .checkpointRootMismatch)])
      else pure [.checkpointRangeMismatch]
    return reasoned (verdictOf (reasons ++ more)) (reasons ++ more)

def verifySignedCheckpoint (checkpoint policy : JsonValue D) (checkpoints : List (JsonValue D)) :
    Except Error AuditVerificationDimension := do
  match ← verifier.checkSignedCheckpoint checkpoint policy checkpoints with
  | .rejected result => return result
  | .checked core reasons =>
    let all := reasons ++ reasonsOf
      [(core.firstSequence ≠ 0 ∨ core.lastSequence + 1 ≠ core.treeSize, .checkpointRangeMismatch)]
    return reasoned (verdictOf all) all

/-- The reason an observation is not fresh enough, if any. -/
def freshnessReasons (policy : AuditVerificationPolicy D) (observedAt : D) :
    List AuditReasonCode :=
  match policy.requiredCheckpointFreshnessMs with
  | none => []
  | some freshness =>
    match verifier.verifiedAt with
    | none => [.notEvaluated]
    | some now =>
      -- DEFAULT_MAX_CLOCK_SKEW_MS
      let skew := verifier.maxClockSkewMs.getD (verifier.numbers.ofText (js "120000"))
      if verifier.arithmetic.lt (verifier.arithmetic.add now skew) observedAt then
        [.observationFutureDated]
      else
        reasonsOf [(verifier.arithmetic.lt freshness (verifier.arithmetic.sub now observedAt),
          .observationStale)]

def verifyObservation (checkpoint receipt policy : JsonValue D)
    (checkpoints : List (JsonValue D)) : Except Error AuditVerificationDimension :=
  match verifier.schemas.auditVerificationPolicySchema policy,
      verifier.schemas.signedAuditCheckpointSchema checkpoint,
      verifier.schemas.auditObservationReceiptSchema receipt with
  | none, _, _ => .ok (reasoned .invalid [.verificationPolicyInvalid])
  | some policy, some validatedCheckpoint, some validatedReceipt => do
    let core := validatedReceipt.core
    let boundaries ← verifier.boundaries (checkpoints ++ [checkpoint]) []
    let trust := keyTrust verifier.arithmetic policy.trustedObservers core.observer core.observedAt
      core.toAuditLedgerRef core.treeSize boundaries
    let digest ← hashAuditValue verifier.numbers verifier.sha256 .observation core.toJson
    let signed ← verifier.verifyJson core.toJson validatedReceipt.jws core.observer
    let reasons := reasonsOf
      [(core.schema ≠ auditObservationSchemaId, .schemaInvalid),
        (core.toAuditLedgerRef ≠ validatedCheckpoint.core.toAuditLedgerRef ∨
          core.checkpointDigest ≠ validatedCheckpoint.checkpointDigest ∨
          core.treeSize ≠ validatedCheckpoint.core.treeSize, .observationScopeMismatch),
        (!policy.acceptedAlgorithms.contains core.observer.alg, .unsupportedAlgorithm),
        (trust = .outside, .untrustedObserver),
        (trust = .unresolved, .keyBoundaryUnresolved)] ++
      verifier.freshnessReasons policy core.observedAt ++
      reasonsOf
        [(digest ≠ validatedReceipt.observationDigest, .observationDigestMismatch),
          (!signed, .observationSignatureInvalid)]
    return reasoned (verdictOf reasons) reasons
  | some _, _, _ => .ok (reasoned .invalid [.schemaInvalid])

end AuditArtifactVerifier

end KyaOs.Audit
