import KyaOs.Audit.Merkle
import KyaOs.Utils.Utf8

/-!
# Audit entries and their digests

Events and references are kept as the JSON values they are; an accessor reads a member
the way the code does on a value its schema accepted. A sequence is a decimal string
without leading zeros, kept as the number it denotes.
-/

namespace KyaOs.Audit

open Js

inductive SignatureAlg where
  | EdDSA
  | ES256
  deriving DecidableEq

def SignatureAlg.text : SignatureAlg → JsString
  | .EdDSA => js "EdDSA"
  | .ES256 => js "ES256"

structure SignerRef where
  did : JsString
  kid : JsString
  alg : SignatureAlg
  deriving DecidableEq

abbrev PartyRef (D : Type) := JsonValue D
abbrev EvidenceRef (D : Type) := JsonValue D
abbrev AuditProducerEvent (D : Type) := JsonValue D

structure AuditLedgerRef where
  ledgerId : JsString
  ledgerEpochId : JsString
  deriving DecidableEq

structure AuditHead extends AuditLedgerRef where
  sequence : Nat
  entryDigest : Digest
  deriving DecidableEq

structure AuditEntryCore (D : Type) extends AuditLedgerRef where
  schema : JsString
  sequence : Nat
  previousEntryDigest : Option Digest
  recordedAt : D
  recorder : SignerRef
  eventDigest : Digest
  event : AuditProducerEvent D
  evidenceManifestDigest : Digest
  integritySuite : JsString

structure AuditRecorderReceiptCore (D : Type) extends AuditLedgerRef where
  schema : JsString
  sequence : Nat
  eventId : JsString
  entryDigest : Digest
  previousEntryDigest : Option Digest
  recordedAt : D
  recorder : SignerRef
  integritySuite : JsString

structure SignedAuditEntry (D : Type) where
  core : AuditEntryCore D
  eventDigest : Digest
  entryDigest : Digest
  receiptCore : AuditRecorderReceiptCore D
  jws : JsString

def SignedAuditEntry.head {D : Type} (entry : SignedAuditEntry D) : AuditHead :=
  { ledgerId := entry.core.ledgerId
    ledgerEpochId := entry.core.ledgerEpochId
    sequence := entry.core.sequence
    entryDigest := entry.entryDigest }

def decimalString (n : Nat) : JsString := js (toString n)

section Json

variable {D : Type}

/-- `value.a.b`, `none` for `undefined`. -/
def memberAt (value : JsonValue D) (names : List String) : Option (JsonValue D) :=
  value.get? (names.map fun name => .key (js name))

/-- A member that a schema made a string. -/
def textAt (value : JsonValue D) (names : List String) : JsString :=
  match memberAt value names with
  | some (.string text) => text
  | _ => []

/-- A member that a schema made an array, or `[]` for an absent one. -/
def itemsAt (value : JsonValue D) (names : List String) : List (JsonValue D) :=
  match memberAt value names with
  | some (.array items) => items
  | _ => []

def SignerRef.toJson (signer : SignerRef) : JsonValue D :=
  .object [(js "did", .string signer.did), (js "kid", .string signer.kid),
    (js "alg", .string signer.alg.text)]

def digestOrNull : Option Digest → JsonValue D
  | some digest => .string digest
  | none => .null

def AuditEntryCore.toJson (core : AuditEntryCore D) : JsonValue D :=
  .object [(js "schema", .string core.schema), (js "ledgerId", .string core.ledgerId),
    (js "ledgerEpochId", .string core.ledgerEpochId),
    (js "sequence", .string (decimalString core.sequence)),
    (js "previousEntryDigest", digestOrNull core.previousEntryDigest),
    (js "recordedAt", .number core.recordedAt), (js "recorder", core.recorder.toJson),
    (js "eventDigest", .string core.eventDigest), (js "event", core.event),
    (js "evidenceManifestDigest", .string core.evidenceManifestDigest),
    (js "integritySuite", .string core.integritySuite)]

def AuditRecorderReceiptCore.toJson (core : AuditRecorderReceiptCore D) : JsonValue D :=
  .object [(js "schema", .string core.schema), (js "ledgerId", .string core.ledgerId),
    (js "ledgerEpochId", .string core.ledgerEpochId),
    (js "sequence", .string (decimalString core.sequence)),
    (js "eventId", .string core.eventId), (js "entryDigest", .string core.entryDigest),
    (js "previousEntryDigest", digestOrNull core.previousEntryDigest),
    (js "recordedAt", .number core.recordedAt), (js "recorder", core.recorder.toJson),
    (js "integritySuite", .string core.integritySuite)]

end Json

def auditEntrySchemaId : JsString := js "https://schema.kya-os.org/v1/protocol/audit/entry/v1.0.0"
def auditEventSchemaId : JsString := js "https://schema.kya-os.org/v1/protocol/audit/event/v1.0.0"
def auditReceiptSchemaId : JsString :=
  js "https://schema.kya-os.org/v1/protocol/audit/receipt/v1.0.0"
def auditIntegritySuite : JsString := js "KYA-AUDIT-JCS-SHA256-JWS-2026"

/-- `AUDIT_DIGEST_DOMAINS`. -/
inductive AuditDigestDomain where
  | event
  | entry
  | evidenceManifest
  | idempotency
  | checkpoint
  | observation
  | bundleManifest
  | bundleComponent
  | mirrorIdempotency
  deriving DecidableEq

def AuditDigestDomain.text : AuditDigestDomain → JsString
  | .event => js "org.kya-os.audit.event.v1"
  | .entry => js "org.kya-os.audit.entry.v1"
  | .evidenceManifest => js "org.kya-os.audit.evidence-manifest.v1"
  | .idempotency => js "org.kya-os.audit.idempotency.v1"
  | .checkpoint => js "org.kya-os.audit.checkpoint.v1"
  | .observation => js "org.kya-os.audit.observation.v1"
  | .bundleManifest => js "org.kya-os.audit.bundle-manifest.v1"
  | .bundleComponent => js "org.kya-os.audit.bundle-component.v1"
  | .mirrorIdempotency => js "org.kya-os.audit.mirror-idempotency.v1"

section Digests

variable {D : Type}

def partyEvidence (party : Option (PartyRef D)) : List (EvidenceRef D) :=
  match party with
  | none => []
  | some party =>
    if textAt party ["kind"] = js "evidence_ref" then (memberAt party ["ref"]).toList else []

def collectAuditEvidenceRefs (event : AuditProducerEvent D) : List (EvidenceRef D) :=
  let family := textAt event ["details", "family"]
  let detailsEvidence :=
    if family = js "delegation" then itemsAt event ["details", "statusEvidence"]
    else if family = js "ledger" then (memberAt event ["details", "targetEvidenceRef"]).toList
    else []
  partyEvidence (memberAt event ["tenantRef"]) ++
    partyEvidence (memberAt event ["source", "producer"]) ++
    partyEvidence (memberAt event ["session", "ref"]) ++
    partyEvidence (memberAt event ["actor"]) ++
    partyEvidence (memberAt event ["responsibleParty"]) ++
    partyEvidence (memberAt event ["resource"]) ++
    (memberAt event ["proof"]).toList ++
    itemsAt event ["evidence"] ++
    (memberAt event ["action", "detailRef"]).toList ++
    (memberAt event ["reason", "detailRef"]).toList ++
    itemsAt event ["authorization", "statusEvidence"] ++
    detailsEvidence

def collectAuditEvidenceManifest (event : AuditProducerEvent D) : JsonValue D :=
  .object [(js "refs", .array (collectAuditEvidenceRefs event))]

def buildAuditRecorderReceiptCore (core : AuditEntryCore D) (entryDigest : Digest) :
    AuditRecorderReceiptCore D :=
  { schema := auditReceiptSchemaId
    ledgerId := core.ledgerId
    ledgerEpochId := core.ledgerEpochId
    sequence := core.sequence
    eventId := textAt core.event ["eventId"]
    entryDigest
    previousEntryDigest := core.previousEntryDigest
    recordedAt := core.recordedAt
    recorder := core.recorder
    integritySuite := auditIntegritySuite }

variable (numbers : Doubles D) (sha256 : Bytes → Except Error Digest)

/-- The digest of a value under a domain; no domain of the protocol is empty or holds
a NUL, so the check on it never rejects. -/
def hashAuditValue (domain : AuditDigestDomain) (value : JsonValue D) : Except Error Digest := do
  let text ← canonicalizeJson numbers value
  sha256 (encodeUtf8 (domain.text ++ [0]) ++ encodeUtf8 text)

def digestAuditEvent (event : AuditProducerEvent D) : Except Error Digest :=
  hashAuditValue numbers sha256 .event event

def digestAuditEntry (core : AuditEntryCore D) : Except Error Digest :=
  hashAuditValue numbers sha256 .entry core.toJson

def digestAuditEvidenceManifest (event : AuditProducerEvent D) : Except Error Digest :=
  hashAuditValue numbers sha256 .evidenceManifest (collectAuditEvidenceManifest event)

end Digests

end KyaOs.Audit
