import KyaOs.Audit.Verifier

/-!
# Replay bundles

`verifyAuditBundle`: a signed manifest lists the components of a bundle and selects ranges of
ledger epochs; entries, checkpoints, proofs, observations and anchors are collected from the
included components of their media types.
-/

namespace KyaOs.Audit

open Js

variable {D : Type}

def bundleSchema : JsString :=
  js "https://schema.kya-os.org/v1/protocol/audit/bundle-manifest/v1.0.0"

def entriesMediaType : JsString := js "application/vnd.kya-os.audit.entries.v1+json"
def checkpointsMediaType : JsString := js "application/vnd.kya-os.audit.checkpoints.v1+json"
def inclusionProofsMediaType : JsString :=
  js "application/vnd.kya-os.audit.inclusion-proofs.v1+json"
def consistencyProofsMediaType : JsString :=
  js "application/vnd.kya-os.audit.consistency-proofs.v1+json"
def observationsMediaType : JsString := js "application/vnd.kya-os.audit.observations.v1+json"
def anchorsMediaType : JsString := js "application/vnd.kya-os.audit.anchors.v1+json"

structure AuditBundleSelection extends AuditLedgerRef where
  firstSequence : Nat
  lastSequence : Nat
  expectedHeadDigest : Digest
  checkpointTreeSizes : List Nat

inductive AuditBundleDisposition where
  | included
  | redacted
  | disposed
  | unavailable
  | policyExcluded
  deriving DecidableEq

def AuditBundleDisposition.text : AuditBundleDisposition → JsString
  | .included => js "included"
  | .redacted => js "redacted"
  | .disposed => js "disposed"
  | .unavailable => js "unavailable"
  | .policyExcluded => js "policy_excluded"

structure AuditBundleInventoryItem where
  path : JsString
  mediaType : JsString
  disposition : AuditBundleDisposition
  digest : Option Digest := none
  size : Option Nat := none
  reasonCode : Option JsString := none

structure AuditBundleComponent (D : Type) extends AuditBundleInventoryItem where
  content : Option (JsonValue D) := none

structure AuditBundleManifestCore (D : Type) where
  schema : JsString
  bundleId : JsString
  formatVersion : JsString
  selections : List AuditBundleSelection
  exporter : SignerRef
  purpose : JsString
  exportedAt : D
  verificationPolicyDigest : Digest
  inventory : List AuditBundleInventoryItem
  integritySuite : JsString

structure AuditReplayBundle (D : Type) where
  core : AuditBundleManifestCore D
  manifestDigest : Digest
  jws : JsString
  components : List (AuditBundleComponent D)

structure AuditBundleInclusionProof extends AuditLedgerRef where
  sequence : Nat
  entryDigest : Digest
  checkpointDigest : Digest
  leafIndex : Nat
  treeSize : Nat
  auditPath : List Digest

structure AuditBundleConsistencyProof extends AuditLedgerRef where
  oldCheckpointDigest : Digest
  newCheckpointDigest : Digest
  oldTreeSize : Nat
  newTreeSize : Nat
  auditPath : List Digest

structure AuditAnchorReceipt (D : Type) where
  kind : AnchorKind
  providerId : JsString
  checkpointDigest : Digest
  issuedAt : D

section Json

def AuditBundleSelection.toJson (selection : AuditBundleSelection) : JsonValue D :=
  .object [(js "ledgerId", .string selection.ledgerId),
    (js "ledgerEpochId", .string selection.ledgerEpochId),
    (js "firstSequence", .string (decimalString selection.firstSequence)),
    (js "lastSequence", .string (decimalString selection.lastSequence)),
    (js "expectedHeadDigest", .string selection.expectedHeadDigest),
    (js "checkpointTreeSizes",
      .array (selection.checkpointTreeSizes.map fun size => .string (decimalString size)))]

/-- A string member, left out when undefined. -/
def optionalText (name : String) (text : Option JsString) : Members D :=
  text.toList.map fun text => (js name, .string text)

def AuditBundleInventoryItem.toJson (item : AuditBundleInventoryItem) : JsonValue D :=
  .object ([(js "path", .string item.path), (js "mediaType", .string item.mediaType),
    (js "disposition", .string item.disposition.text)] ++
    optionalText "digest" item.digest ++ optionalText "size" (item.size.map decimalString) ++
    optionalText "reasonCode" item.reasonCode)

def AuditBundleManifestCore.toJson (core : AuditBundleManifestCore D) : JsonValue D :=
  .object [(js "schema", .string core.schema), (js "bundleId", .string core.bundleId),
    (js "formatVersion", .string core.formatVersion),
    (js "selections", .array (core.selections.map AuditBundleSelection.toJson)),
    (js "exporter", core.exporter.toJson), (js "purpose", .string core.purpose),
    (js "exportedAt", .number core.exportedAt),
    (js "verificationPolicyDigest", .string core.verificationPolicyDigest),
    (js "inventory", .array (core.inventory.map AuditBundleInventoryItem.toJson)),
    (js "integritySuite", .string core.integritySuite)]

end Json

/-- What the schemas read a value as, `none` when they refuse it. -/
structure AuditBundleSchemas (D : Type) extends AuditSchemas D where
  auditReplayBundleSchema : JsonValue D → Option (AuditReplayBundle D)
  auditBundleInclusionProofSchema : JsonValue D → Option AuditBundleInclusionProof
  auditBundleConsistencyProofSchema : JsonValue D → Option AuditBundleConsistencyProof
  auditAnchorReceiptSchema : JsonValue D → Option (AuditAnchorReceipt D)

structure VerifyAuditBundleDependencies (D : Type) where
  sha256 : Bytes → Except Error Digest
  verifySignature : Bytes → JsString → SignerRef → Except Error Bool
  artifacts : Option (AuditArtifactVerifierOptions D) := none
  verifySupportingAnchor : Option
    (SignedAuditCheckpoint D → AuditAnchorReceipt D → Except Error Bool) := none

/-- The runtime and the schemas a bundle is verified with, and the dependencies. -/
structure BundleVerifier (D : Type) extends VerifyAuditBundleDependencies D where
  numbers : Doubles D
  arithmetic : Arithmetic D
  schemas : AuditBundleSchemas D

/-- `dependencies.artifacts ?? new AuditArtifactVerifier(dependencies)`. -/
def BundleVerifier.artifactVerifier (verifier : BundleVerifier D) : AuditArtifactVerifier D where
  toAuditArtifactVerifierOptions := verifier.artifacts.getD
    { sha256 := verifier.sha256, verifySignature := verifier.verifySignature }
  numbers := verifier.numbers
  arithmetic := verifier.arithmetic
  schemas := verifier.schemas.toAuditSchemas

inductive ExporterAuthorization where
  | authorized
  | unresolved
  | unauthorized
  deriving DecidableEq

/-- Whether a rule of the policy covers the purpose and every selection of a manifest. -/
def covers (core : AuditBundleManifestCore D) (rule : AuthorizedExporter D) : Bool :=
  rule.allowedPurposes.contains core.purpose &&
    core.selections.all fun selection => rule.allowedLedgerIds.contains selection.ledgerId

/-- A key bounded by a checkpoint leaves the exporter unresolved, never authorized. -/
def exporterAuthorization (arithmetic : Arithmetic D) (core : AuditBundleManifestCore D)
    (policy : AuditVerificationPolicy D) : ExporterAuthorization :=
  let keys := ((policy.authorizedExporters.filter (covers core)).flatMap
    AuthorizedExporter.signerKeys).filter fun key =>
      key.signer = core.exporter && validAt arithmetic key.validFrom key.validUntil core.exportedAt
  if keys.any fun key => key.validFromCheckpoint.isNone && key.validUntilCheckpoint.isNone then
    .authorized
  else if keys.isEmpty then .unauthorized
  else .unresolved

/-- The items of the included arrays of a media type. -/
def includedArrays (bundle : AuditReplayBundle D) (mediaType : JsString) : List (JsonValue D) :=
  bundle.components.flatMap fun component =>
    if component.disposition ≠ .included ∨ component.mediaType ≠ mediaType then []
    else
      match component.content with
      | some (.array items) => items
      | _ => []

def ledgerEpochKey (ledger : AuditLedgerRef) : JsString :=
  ledger.ledgerId ++ 0 :: ledger.ledgerEpochId

def inclusionKey (checkpointDigest entryDigest : Digest) (sequence : Nat) : JsString :=
  checkpointDigest ++ 0 :: entryDigest ++ 0 :: decimalString sequence

def consistencyKey (oldCheckpointDigest newCheckpointDigest : Digest) : JsString :=
  oldCheckpointDigest ++ 0 :: newCheckpointDigest

/-- Items grouped under their keys, in the order the keys came up. -/
def groupBy {α : Type} (key : α → JsString) (items : List α) : List (JsString × List α) :=
  items.foldl (fun groups item =>
    assignMember (key item) (((groups.lookup (key item)).getD []) ++ [item]) groups) []

/-- Whether the entries are exactly the leaves `0..treeSize-1`, in order. -/
def isCompletePrefix (entries : List (SignedAuditEntry D)) (treeSize : Nat) : Bool :=
  entries.map (fun entry => entry.core.sequence) = List.range treeSize

/-- A path that `assertPath` accepts. -/
def isSafePath (path : JsString) : Bool :=
  path ≠ [] && !startsWith path (js "/") && !path.contains 0x5C &&
    (path.splitOn 0x2F).all fun segment =>
      segment ≠ [] && segment ≠ js "." && segment ≠ js ".."

section Inventory

variable (verifier : BundleVerifier D)

/-- The reasons against an inventory item and the component at its path. -/
def inventoryReasons (components : List (JsString × AuditBundleComponent D))
    (item : AuditBundleInventoryItem) : Except Error (List AuditReasonCode) :=
  match components.lookup item.path with
  | none => .ok [.bundleInventoryMismatch]
  | some component => do
    let listed ← canonicalizeJson verifier.numbers item.toJson
    let carried ← canonicalizeJson verifier.numbers component.toAuditBundleInventoryItem.toJson
    if listed ≠ carried then return [.bundleInventoryMismatch]
    let pathReasons := reasonsOf [(!isSafePath item.path, .bundleSchemaInvalid)]
    if component.disposition = .included then
      match component.content with
      | none => return pathReasons ++ [.bundleInventoryMismatch]
      | some content => do
        let text ← canonicalizeJson verifier.numbers content
        let bytes := encodeUtf8 text
        if component.size ≠ some bytes.length then
          return pathReasons ++ [.bundleComponentDigestMismatch]
        else do
          let digest ← verifier.sha256 bytes
          return pathReasons ++
            reasonsOf [(component.digest ≠ some digest, .bundleComponentDigestMismatch)]
    else
      return pathReasons ++ reasonsOf
        [(component.content.isSome ∨ component.reasonCode = none, .bundleInventoryMismatch)]

/-- `hashAuditValue` under the domain of policies. -/
def policyDigest (policy : JsonValue D) : Except Error Digest := do
  let text ← canonicalizeJson verifier.numbers policy
  verifier.sha256 (encodeUtf8 (js "org.kya-os.audit.verification-policy.v1" ++ [0]) ++
    encodeUtf8 text)

/-- The reasons against the manifest and the inventory of a bundle. -/
def manifestReasons (bundle : AuditReplayBundle D) (policy : AuditVerificationPolicy D)
    (policyValue : JsonValue D) : Except Error (List AuditReasonCode) := do
  let core := bundle.core
  let exporter := exporterAuthorization verifier.arithmetic core policy
  let manifestDigest ← hashAuditValue verifier.numbers verifier.sha256 .bundleManifest core.toJson
  let policyDigest ← policyDigest verifier policyValue
  let coreText ← canonicalizeJson verifier.numbers core.toJson
  let signed ← verifier.verifySignature (encodeUtf8 coreText) bundle.jws core.exporter
  let inventory := core.inventory.foldl
    (fun items item => assignMember item.path item items) ([] : List (JsString × _))
  let components := bundle.components.foldl
    (fun items component => assignMember component.path component items) ([] : List (JsString × _))
  let itemReasons ← inventory.mapM fun item => inventoryReasons verifier components item.2
  return reasonsOf
      [(core.schema ≠ bundleSchema ∨ core.formatVersion ≠ js "1.0.0", .bundleSchemaInvalid),
        (!policy.acceptedIntegritySuites.contains core.integritySuite, .unsupportedSuite),
        (!policy.acceptedAlgorithms.contains core.exporter.alg, .unsupportedAlgorithm),
        (exporter = .unauthorized, .bundleExporterUnauthorized),
        (exporter = .unresolved, .keyBoundaryUnresolved),
        (manifestDigest ≠ bundle.manifestDigest, .bundleManifestDigestMismatch),
        (policyDigest ≠ core.verificationPolicyDigest, .verificationPolicyMismatch),
        (!signed, .bundleSignatureInvalid),
        (inventory.length ≠ core.inventory.length ∨
          components.length ≠ bundle.components.length ∨
          inventory.length ≠ components.length, .bundleInventoryMismatch)] ++
    itemReasons.flatten

end Inventory

/-- Verifies each ledger epoch's entries on their own, and the malformed ones together. -/
def verifyEntryGroups (artifacts : AuditArtifactVerifier D) (entries : List (JsonValue D))
    (policy : JsonValue D) (checkpoints : List (JsonValue D)) :
    Except Error (AuditVerificationReport D) := do
  let keyOf (candidate : JsonValue D) : Option JsString :=
    (artifacts.schemas.signedAuditEntrySchema candidate).map fun entry =>
      ledgerEpochKey entry.core.toAuditLedgerRef
  let wellFormed := entries.filter fun candidate => (keyOf candidate).isSome
  let malformed := entries.filter fun candidate => (keyOf candidate).isNone
  let groups := (groupBy (fun candidate => (keyOf candidate).getD []) wellFormed).map Prod.snd ++
    if malformed = [] then [] else [malformed]
  let reports ← groups.mapM fun group => artifacts.verifyEntries group policy checkpoints
  match reports with
  | [] => artifacts.verifyEntries [] policy checkpoints
  | first :: _ =>
    let merged (part : AuditVerificationReport D → AuditVerificationDimension) :=
      mergeAuditDimensions (reports.map part)
    return { first with
      cryptographicIntegrity := merged (·.cryptographicIntegrity)
      chainIntegrity := merged (·.chainIntegrity)
      checkpointIntegrity := merged (·.checkpointIntegrity)
      anchorIntegrity := merged (·.anchorIntegrity)
      scopeEvidenceCompleteness := merged (·.scopeEvidenceCompleteness)
      authorizedAsObserved := merged (·.authorizedAsObserved)
      currentAuthorization := merged (·.currentAuthorization) }

/-- The reason against `current` right after `previous` in a group, if any. -/
def adjacentReasons (included : List Digest) (verifiedConsistency : List JsString)
    (previous current : SignedAuditCheckpoint D) : List AuditReasonCode :=
  if current.core.treeSize = previous.core.treeSize then [.checkpointForkDetected]
  else if current.core.previousCheckpointDigest = some previous.checkpointDigest then []
  else
    -- a subset export may omit the checkpoints in between
    let omittable :=
      (current.core.previousCheckpointDigest.any fun claimed => !included.contains claimed) &&
        1 < current.core.treeSize - previous.core.treeSize
    reasonsOf [(!omittable || !verifiedConsistency.contains
      (consistencyKey previous.checkpointDigest current.checkpointDigest),
      .checkpointChainMismatch)]

/-- The reasons against each checkpoint of a group and the one before it. -/
def groupReasons (included : List Digest) (verifiedConsistency : List JsString) :
    List (SignedAuditCheckpoint D) → List AuditReasonCode
  | previous :: current :: rest =>
    adjacentReasons included verifiedConsistency previous current ++
      groupReasons included verifiedConsistency (current :: rest)
  | _ => []

def bySize (checkpoints : List (SignedAuditCheckpoint D)) : List (SignedAuditCheckpoint D) :=
  checkpoints.mergeSort fun left right => left.core.treeSize ≤ right.core.treeSize

/-- The epoch that a genesis says it follows, and its terminal checkpoint. -/
def predecessorOf (entry : SignedAuditEntry D) : Option (AuditLedgerRef × Digest) :=
  let event := entry.core.event
  if entry.core.sequence = 0 ∧ textAt event ["eventType"] = js "ledger.epoch.started" ∧
      textAt event ["details", "family"] = js "ledger" then
    match memberAt event ["details", "previousEpochId"],
        memberAt event ["details", "previousTerminalCheckpointDigest"] with
    | some (.string epochId), some (.string terminal) =>
      some ({ ledgerId := entry.core.ledgerId, ledgerEpochId := epochId }, terminal)
    | _, _ => none
  else none

/-- The reasons against the terminal checkpoint that a genesis names. -/
def rolloverReasons (checkpoints : List (SignedAuditCheckpoint D))
    (selections : List AuditBundleSelection) (entry : SignedAuditEntry D) :
    List AuditReasonCode :=
  match predecessorOf entry with
  | none => []
  | some (predecessor, terminalDigest) =>
    if ¬ selections.any fun selection => selection.toAuditLedgerRef = predecessor then []
    else
      let ofPredecessor := checkpoints.filter fun checkpoint =>
        checkpoint.core.toAuditLedgerRef = predecessor
      match ofPredecessor.find? fun checkpoint => checkpoint.checkpointDigest = terminalDigest with
      | none => [.checkpointChainMismatch]
      | some terminal =>
        reasonsOf [(ofPredecessor.any fun checkpoint =>
          terminal.core.treeSize < checkpoint.core.treeSize, .checkpointForkDetected)]

def verifyCheckpointHistory (checkpoints : List (SignedAuditCheckpoint D))
    (entries : List (SignedAuditEntry D)) (selections : List AuditBundleSelection)
    (verifiedConsistency : List JsString) : AuditVerificationDimension :=
  let groups := groupBy (fun checkpoint => ledgerEpochKey checkpoint.core.toAuditLedgerRef)
    checkpoints
  let chainReasons := groups.flatMap fun group =>
    groupReasons (group.2.map SignedAuditCheckpoint.checkpointDigest) verifiedConsistency
      (bySize group.2)
  -- two lists of decimal strings have one canonical text exactly when they are equal
  let selectionReasons := selections.flatMap fun selection =>
    let group := (groups.lookup (ledgerEpochKey selection.toAuditLedgerRef)).getD []
    reasonsOf [((bySize group).map (fun checkpoint => checkpoint.core.treeSize) ≠
      selection.checkpointTreeSizes.mergeSort (fun left right => left ≤ right),
      .checkpointMissing)]
  validUnless (chainReasons ++ selectionReasons ++
    entries.flatMap (rolloverReasons checkpoints selections))

/-- The keys of the inclusion and consistency proofs that verified, and the reasons
against the others. -/
structure MerkleProofVerification where
  reasons : List AuditReasonCode
  inclusions : List JsString
  consistencies : List JsString

/-- The key of an inclusion proof that verifies for a carried checkpoint and entry. -/
def inclusionVerified (sha256 : Bytes → Except Error Digest) (entries : List (SignedAuditEntry D))
    (checkpoints : List (SignedAuditCheckpoint D)) (item : AuditBundleInclusionProof) :
    Option JsString :=
  let checkpoint := checkpoints.find? fun value =>
    value.checkpointDigest = item.checkpointDigest &&
      value.core.toAuditLedgerRef = item.toAuditLedgerRef
  let entry := entries.find? fun value =>
    value.entryDigest = item.entryDigest && value.core.sequence = item.sequence &&
      value.core.toAuditLedgerRef = item.toAuditLedgerRef
  match checkpoint, entry with
  | some checkpoint, some _ =>
    if item.treeSize ≠ checkpoint.core.treeSize ∨ item.leafIndex ≠ item.sequence ∨
        ¬ verifyInclusion sha256
          { leaf := item.entryDigest
            leafIndex := .ofNat item.leafIndex
            treeSize := .ofNat item.treeSize
            root := checkpoint.core.rootDigest
            auditPath := item.auditPath } then none
    else some (inclusionKey item.checkpointDigest item.entryDigest item.sequence)
  | _, _ => none

/-- The key of a consistency proof that verifies for two carried checkpoints. -/
def consistencyVerified (sha256 : Bytes → Except Error Digest)
    (checkpoints : List (SignedAuditCheckpoint D)) (item : AuditBundleConsistencyProof) :
    Option JsString :=
  let find (digest : Digest) := checkpoints.find? fun value =>
    value.checkpointDigest = digest && value.core.toAuditLedgerRef = item.toAuditLedgerRef
  match find item.oldCheckpointDigest, find item.newCheckpointDigest with
  | some oldCheckpoint, some newCheckpoint =>
    if item.oldTreeSize ≠ oldCheckpoint.core.treeSize ∨
        item.newTreeSize ≠ newCheckpoint.core.treeSize ∨
        ¬ verifyConsistency sha256
          { oldSize := .ofNat item.oldTreeSize
            newSize := .ofNat item.newTreeSize
            oldRoot := oldCheckpoint.core.rootDigest
            newRoot := newCheckpoint.core.rootDigest
            auditPath := item.auditPath } then none
    else some (consistencyKey item.oldCheckpointDigest item.newCheckpointDigest)
  | _, _ => none

/-- The reason against a candidate that its schema refuses, or that does not verify. -/
def proofReasons {α : Type} (schema : JsonValue D → Option α) (verified : α → Option JsString)
    (candidate : JsonValue D) : List AuditReasonCode :=
  match schema candidate with
  | none => [.schemaInvalid]
  | some item => reasonsOf [((verified item).isNone, .merkleProofInvalid)]

def verifyMerkleProofComponents (verifier : BundleVerifier D) (bundle : AuditReplayBundle D)
    (entries : List (SignedAuditEntry D)) (checkpoints : List (SignedAuditCheckpoint D)) :
    MerkleProofVerification :=
  let inclusionCandidates := includedArrays bundle inclusionProofsMediaType
  let consistencyCandidates := includedArrays bundle consistencyProofsMediaType
  let inclusionSchema := verifier.schemas.auditBundleInclusionProofSchema
  let consistencySchema := verifier.schemas.auditBundleConsistencyProofSchema
  let inclusion := inclusionVerified verifier.sha256 entries checkpoints
  let consistency := consistencyVerified verifier.sha256 checkpoints
  { reasons := inclusionCandidates.flatMap (proofReasons inclusionSchema inclusion) ++
      consistencyCandidates.flatMap (proofReasons consistencySchema consistency)
    inclusions := inclusionCandidates.filterMap fun candidate =>
      (inclusionSchema candidate).bind inclusion
    consistencies := consistencyCandidates.filterMap fun candidate =>
      (consistencySchema candidate).bind consistency }

def verifyInclusionBinding (checkpoint : SignedAuditCheckpoint D)
    (covered : List (SignedAuditEntry D)) (verifiedInclusions : List JsString) :
    AuditVerificationDimension :=
  validUnless (covered.flatMap fun entry => reasonsOf
    [(!verifiedInclusions.contains
        (inclusionKey checkpoint.checkpointDigest entry.entryDigest entry.core.sequence),
        .merkleProofMissing),
      (entry.core.sequence + 1 = checkpoint.core.treeSize ∧
        entry.entryDigest ≠ checkpoint.core.headEntryDigest, .checkpointRangeMismatch)])

/-- The entries of a checkpoint's ledger epoch below its tree size. -/
def coveredBy (entries : List (SignedAuditEntry D)) (core : AuditCheckpointCore D) :
    List (SignedAuditEntry D) :=
  entries.filter fun entry =>
    entry.core.toAuditLedgerRef = core.toAuditLedgerRef && entry.core.sequence < core.treeSize

/-- The dimension of one checkpoint candidate. -/
def verifyCheckpointCandidate (artifacts : AuditArtifactVerifier D)
    (entries : List (SignedAuditEntry D)) (inclusions : List JsString) (policy : JsonValue D)
    (checkpoints : List (JsonValue D)) (candidate : JsonValue D) :
    Except Error AuditVerificationDimension :=
  match artifacts.schemas.signedAuditCheckpointSchema candidate with
  | none => .ok (reasoned .invalid [.schemaInvalid])
  | some checkpoint =>
    let covered := coveredBy entries checkpoint.core
    if isCompletePrefix covered checkpoint.core.treeSize then
      artifacts.verifyCheckpoint candidate covered policy checkpoints
    else do
      let signed ← artifacts.verifySignedCheckpoint candidate policy checkpoints
      return mergeAuditDimensions [signed, verifyInclusionBinding checkpoint covered inclusions]

/-- The reasons against each receipt of a group that does not link to the one before. -/
def observationReasons : List (AuditObservationReceipt D) → List AuditReasonCode
  | previous :: current :: rest =>
    reasonsOf [(current.core.previousObservationDigest ≠ some previous.observationDigest,
      .observationChainMismatch)] ++ observationReasons (current :: rest)
  | _ => []

def verifyObservationHistory (arithmetic : Arithmetic D)
    (observations : List (AuditObservationReceipt D)) : AuditVerificationDimension :=
  let groups := groupBy (fun receipt : AuditObservationReceipt D =>
    ledgerEpochKey receipt.core.toAuditLedgerRef ++ 0 :: receipt.core.observerId) observations
  -- by the time observed, then by size
  let earlier (left right : AuditObservationReceipt D) : Bool :=
    arithmetic.lt left.core.observedAt right.core.observedAt ||
      (!arithmetic.lt right.core.observedAt left.core.observedAt &&
        left.core.treeSize ≤ right.core.treeSize)
  validUnless (groups.flatMap fun group => observationReasons (group.2.mergeSort earlier))

/-- The dimension of one observation candidate. -/
def verifyObservationCandidate (artifacts : AuditArtifactVerifier D) (policy : JsonValue D)
    (checkpoints : List (JsonValue D)) (candidate : JsonValue D) :
    Except Error AuditVerificationDimension :=
  match artifacts.schemas.auditObservationReceiptSchema candidate with
  | none => .ok (reasoned .invalid [.schemaInvalid])
  | some receipt =>
    let checkpoint := checkpoints.find? fun value =>
      ((artifacts.schemas.signedAuditCheckpointSchema value).map
        SignedAuditCheckpoint.checkpointDigest) = some receipt.core.checkpointDigest
    match checkpoint with
    | none => .ok (reasoned .invalid [.observationScopeMismatch])
    | some checkpoint => artifacts.verifyObservation checkpoint candidate policy checkpoints

/-- The reasons against one anchor candidate. -/
def anchorReasons (verifier : BundleVerifier D) (checkpoints : List (SignedAuditCheckpoint D))
    (policy : AuditVerificationPolicy D) (candidate : JsonValue D) :
    Except Error (List AuditReasonCode) :=
  match verifier.schemas.auditAnchorReceiptSchema candidate with
  | none => .ok [.schemaInvalid]
  | some receipt =>
    let trusted := (policy.trustedSupportingAnchors.getD []).any fun value =>
      value.kind = receipt.kind && value.providerId = receipt.providerId &&
        validAt verifier.arithmetic value.validFrom value.validUntil receipt.issuedAt
    let trustReasons := reasonsOf [(!trusted, .untrustedSupportingAnchor)]
    let checkpoint := checkpoints.find? fun value =>
      value.checkpointDigest = receipt.checkpointDigest
    match checkpoint, verifier.verifySupportingAnchor with
    | none, _ => .ok (trustReasons ++ [.supportingAnchorInvalid])
    | some _, none => .ok (trustReasons ++ [.notEvaluated])
    | some checkpoint, some verifyReceipt => do
      let verified ← verifyReceipt checkpoint receipt
      return trustReasons ++ reasonsOf [(!verified, .supportingAnchorInvalid)]

def verifySupportingAnchors (verifier : BundleVerifier D) (candidates : List (JsonValue D))
    (checkpoints : List (SignedAuditCheckpoint D)) (policy : AuditVerificationPolicy D) :
    Except Error AuditVerificationDimension := do
  let reasons := (← candidates.mapM (anchorReasons verifier checkpoints policy)).flatten
  let verdict :=
    if reasons.any fun reason => reason ≠ .notEvaluated then .invalid
    else if reasons = [] then .valid
    else .indeterminate
  return reasoned verdict reasons

/-- The first entry of each sequence, in sequence order. -/
def uniqueBySequence (entries : List (SignedAuditEntry D)) : List (SignedAuditEntry D) :=
  (entries.foldl (fun unique entry =>
    if unique.any fun other => other.core.sequence = entry.core.sequence then unique
    else unique ++ [entry]) []).mergeSort fun left right =>
      left.core.sequence ≤ right.core.sequence

/-- Whether a selected range is carried completely. -/
def isSelectionComplete (entries : List (SignedAuditEntry D)) (selection : AuditBundleSelection) :
    Bool :=
  let selected := entries.filter fun entry =>
    entry.core.toAuditLedgerRef = selection.toAuditLedgerRef
  let hasDuplicateSequence := !(selected.map fun entry => entry.core.sequence).Nodup
  let ordered := uniqueBySequence selected
  let contiguous := ordered.IsChain fun left right => right.core.sequence = left.core.sequence + 1
  let expectedCount : Int := (selection.lastSequence : Int) - selection.firstSequence + 1
  !(hasDuplicateSequence || !contiguous || expectedCount < 1 ||
    expectedCount ≠ ordered.length ||
    (ordered.head?.map fun entry => entry.core.sequence) ≠ some selection.firstSequence ||
    (ordered.getLast?.map fun entry => entry.core.sequence) ≠ some selection.lastSequence ||
    (ordered.getLast?.map fun entry => entry.entryDigest) ≠ some selection.expectedHeadDigest)

def omissionReasons (component : AuditBundleComponent D) : List AuditReasonCode :=
  reasonsOf [(component.disposition = .redacted, .explicitlyRedacted),
    (component.disposition = .disposed, .explicitlyDisposed),
    (component.disposition = .unavailable, .explicitlyUnavailable)]

def selectionCompleteness (selections : List AuditBundleSelection)
    (entries : List (SignedAuditEntry D)) (explicitOmissions : List (AuditBundleComponent D)) :
    AuditVerificationDimension :=
  let incomplete := selections.flatMap fun selection => reasonsOf
    [(!isSelectionComplete entries selection, .bundleSelectionIncomplete)]
  let reasons := incomplete ++ explicitOmissions.flatMap omissionReasons
  if incomplete ≠ [] then reasoned .invalid reasons
  else if reasons = [] then reasoned .valid []
  else reasoned .indeterminate reasons

def malformedBundleReport (policy : AuditVerificationPolicy D) : AuditVerificationReport D where
  policyId := policy.policyId
  cryptographicIntegrity := reasoned .invalid [.bundleSchemaInvalid]
  chainIntegrity := reasoned .invalid [.bundleSchemaInvalid]
  checkpointIntegrity := reasoned .indeterminate [.checkpointMissing]
  anchorIntegrity := reasoned .indeterminate [.observerEvidenceMissing]
  scopeEvidenceCompleteness := reasoned .invalid [.bundleSchemaInvalid]
  authorizedAsObserved := reasoned .indeterminate [.authorizationCollateralNotVerified]
  currentAuthorization := reasoned .indeterminate [.currentAuthorizationNotEvaluated]

/-- The dimension of the manifest from the reasons against it. -/
def manifestDimension (reasons : List AuditReasonCode) : AuditVerificationDimension :=
  reasoned (if reasons = [] then .valid
    else if reasons.all fun reason => reason = .keyBoundaryUnresolved then .indeterminate
    else .invalid) reasons

section VerifyAuditBundle

variable (verifier : BundleVerifier D)

def carriedEntries (bundle : AuditReplayBundle D) : List (SignedAuditEntry D) :=
  (includedArrays bundle entriesMediaType).filterMap verifier.schemas.signedAuditEntrySchema

def carriedCheckpoints (bundle : AuditReplayBundle D) : List (SignedAuditCheckpoint D) :=
  (includedArrays bundle checkpointsMediaType).filterMap
    verifier.schemas.signedAuditCheckpointSchema

/-- The candidates that the checkpoint schema accepts. -/
def checkpointContext (bundle : AuditReplayBundle D) : List (JsonValue D) :=
  (includedArrays bundle checkpointsMediaType).filter fun candidate =>
    (verifier.schemas.signedAuditCheckpointSchema candidate).isSome

def checkpointDimension (bundle : AuditReplayBundle D) (policy : JsonValue D)
    (fallback : AuditVerificationDimension) : Except Error AuditVerificationDimension :=
  let entries := carriedEntries verifier bundle
  let checkpoints := carriedCheckpoints verifier bundle
  let candidates := includedArrays bundle checkpointsMediaType
  if candidates.isEmpty then
    return if bundle.core.selections.any fun selection => !selection.checkpointTreeSizes.isEmpty
      then reasoned .invalid [.checkpointMissing]
      else fallback
  else do
    let proofs := verifyMerkleProofComponents verifier bundle entries checkpoints
    let results ← candidates.mapM (verifyCheckpointCandidate verifier.artifactVerifier entries
      proofs.inclusions policy (checkpointContext verifier bundle))
    return mergeAuditDimensions (results ++
      [verifyCheckpointHistory checkpoints entries bundle.core.selections proofs.consistencies,
        validUnless proofs.reasons])

def anchorDimension (bundle : AuditReplayBundle D) (policy : JsonValue D)
    (verificationPolicy : AuditVerificationPolicy D) (fallback : AuditVerificationDimension) :
    Except Error AuditVerificationDimension := do
  let observationCandidates := includedArrays bundle observationsMediaType
  let anchorCandidates := includedArrays bundle anchorsMediaType
  let observed ←
    if observationCandidates.isEmpty then pure fallback
    else do
      let results ← observationCandidates.mapM (verifyObservationCandidate
        verifier.artifactVerifier policy (checkpointContext verifier bundle))
      let observations := observationCandidates.filterMap
        verifier.schemas.auditObservationReceiptSchema
      pure (mergeAuditDimensions
        (results ++ [verifyObservationHistory verifier.arithmetic observations]))
  if anchorCandidates.isEmpty then return observed
  let anchors ← verifySupportingAnchors verifier anchorCandidates
    (carriedCheckpoints verifier bundle) verificationPolicy
  return mergeAuditDimensions [observed, anchors]

def verifyAuditBundle (bundle policy : JsonValue D) : Except Error (AuditVerificationReport D) :=
  match verifier.schemas.auditVerificationPolicySchema policy,
      verifier.schemas.auditReplayBundleSchema bundle with
  | none, _ => .ok (invalidPolicyReport policy)
  | some policy, none => .ok (applyRequiredAuditProfile (malformedBundleReport policy) policy false)
  | some verificationPolicy, some bundle => do
    let reasons ← manifestReasons verifier bundle verificationPolicy policy
    let artifactReport ← verifyEntryGroups verifier.artifactVerifier
      (includedArrays bundle entriesMediaType) policy (checkpointContext verifier bundle)
    let checkpointIntegrity ←
      checkpointDimension verifier bundle policy artifactReport.checkpointIntegrity
    let anchorIntegrity ←
      anchorDimension verifier bundle policy verificationPolicy artifactReport.anchorIntegrity
    let currentKeys := verifier.artifactVerifier.verifyCurrentKeys verificationPolicy
      { checkpoints := carriedCheckpoints verifier bundle
        observations := (includedArrays bundle observationsMediaType).filterMap
          verifier.schemas.auditObservationReceiptSchema
        exporter := some bundle.core.exporter }
    return applyRequiredAuditProfile
      { artifactReport with
        cryptographicIntegrity := mergeAuditDimensions
          [manifestDimension reasons, artifactReport.cryptographicIntegrity]
        checkpointIntegrity
        anchorIntegrity
        scopeEvidenceCompleteness := selectionCompleteness bundle.core.selections
          (carriedEntries verifier bundle)
          (bundle.components.filter fun component => component.disposition ≠ .included)
        currentAuthorization :=
          match currentKeys with
          | none => artifactReport.currentAuthorization
          | some currentKeys =>
            mergeAuditDimensions [artifactReport.currentAuthorization, currentKeys] }
      verificationPolicy (!(includedArrays bundle anchorsMediaType).isEmpty)

end VerifyAuditBundle

end KyaOs.Audit
