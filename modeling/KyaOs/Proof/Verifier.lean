import KyaOs.Concurrency.Async
import KyaOs.Proof.ContentBinding
import KyaOs.Providers.NonceCache

/-!
# The proof verifier

`ProofVerifier`: the checks of a detached proof, in order, and the replay admission that
comes last. Every `await` is a request. What runs in one piece when the nonce is consumed,
the retention and the cache's own check and write, is one request.
-/

namespace KyaOs.Proof

open Js Concurrency Providers Audit

structure ProofMeta where
  did : JsString
  kid : JsString
  /-- A positive integer. -/
  ts : Nat
  nonce : JsString
  audience : JsString
  sessionId : JsString
  requestHash : Digest
  responseHash : Option Digest := none
  scopeId : Option JsString := none
  delegationRef : Option JsString := none
  clientDid : Option JsString := none
  outcome : Option JsString := none
  reason : Option JsString := none
  prf : Option JsString := none
  deriving DecidableEq

structure DetachedProof where
  jws : JsString
  proofMeta : ProofMeta
  deriving DecidableEq

section Validation

variable (proofMeta : Members JsNumber)

def nonEmptyText (field : String) : Except JsString JsString :=
  match proofMeta.lookup (js field) with
  | some (.string value) =>
    if value = [] then .error (js "meta." ++ js field ++ js " must be a non-empty string")
    else .ok value
  | _ => .error (js "meta." ++ js field ++ js " must be a non-empty string")

def optionalText (field : String) : Except JsString (Option JsString) :=
  match proofMeta.lookup (js field) with
  | none => .ok none
  | some (.string value) => .ok (some value)
  | some _ => .error (js "meta." ++ js field ++ js " must be a string if present")

def validateTs : Except JsString Nat :=
  match proofMeta.lookup (js "ts") with
  | some (.number ts) =>
    match ts.toInt? with
    | some (.ofNat (n + 1)) => .ok (n + 1)
    | _ => .error (js "meta.ts must be a positive integer")
  | _ => .error (js "meta.ts must be a positive integer")

/-- A text that `HASH_REGEX` accepts. -/
def hashText : Option (JsonValue JsNumber) → Option Digest
  | some (.string value) => if (digestPattern value).isSome then some value else none
  | _ => none

def validateRequestHash : Except JsString Digest :=
  match hashText (proofMeta.lookup (js "requestHash")) with
  | some digest => .ok digest
  | none => .error (js "meta.requestHash must match sha256:<64 hex chars>")

def validateResponseHash : Except JsString (Option Digest) :=
  match proofMeta.lookup (js "responseHash") with
  | none => .ok none
  | value =>
    match hashText value with
    | some digest => .ok (some digest)
    | none => .error (js "meta.responseHash must match sha256:<64 hex chars> when present")

def outcomes : List JsString :=
  [js "allowed", js "denied", js "step_up_required", js "needs_authorization"]

def validateOutcome : Except JsString (Option JsString) :=
  let message :=
    js "meta.outcome must be one of allowed | denied | step_up_required | needs_authorization"
  match proofMeta.lookup (js "outcome") with
  | none => .ok none
  | some (.string value) => if value ∈ outcomes then .ok (some value) else .error message
  | some _ => .error message

def validatePrf : Except JsString (Option JsString) :=
  let message := js "meta.prf must be \"" ++ responseProofProfileEnvelope ++
    js "\" when present (unknown response-proof profiles are rejected fail-closed)"
  match proofMeta.lookup (js "prf") with
  | none => .ok none
  | some (.string value) =>
    if value = responseProofProfileEnvelope then .ok (some value) else .error message
  | some _ => .error message

def validateMeta : Except JsString ProofMeta := do
  return {
    did := ← nonEmptyText proofMeta "did"
    kid := ← nonEmptyText proofMeta "kid"
    nonce := ← nonEmptyText proofMeta "nonce"
    audience := ← nonEmptyText proofMeta "audience"
    sessionId := ← nonEmptyText proofMeta "sessionId"
    ts := ← validateTs proofMeta
    requestHash := ← validateRequestHash proofMeta
    responseHash := ← validateResponseHash proofMeta
    scopeId := ← optionalText proofMeta "scopeId"
    delegationRef := ← optionalText proofMeta "delegationRef"
    clientDid := ← optionalText proofMeta "clientDid"
    reason := ← optionalText proofMeta "reason"
    outcome := ← validateOutcome proofMeta
    prf := ← validatePrf proofMeta }

end Validation

/-- The members of an object; an array has no named ones. A member that is `undefined` is
not listed. -/
def membersOf : JsonValue JsNumber → Option (Members JsNumber)
  | .object members => some members
  | .array _ => some []
  | _ => none

def validateDetachedProof (proof : JsonValue JsNumber) : Except JsString DetachedProof :=
  match membersOf proof with
  | none => .error (js "Not an object")
  | some members =>
    match members.lookup (js "jws") with
    | some (.string (unit :: rest)) =>
      match (members.lookup (js "meta")).bind membersOf with
      | none => .error (js "meta must be an object")
      | some proofMeta => do return { jws := unit :: rest, proofMeta := ← validateMeta proofMeta }
    | _ => .error (js "jws must be a non-empty string")

/-- A member that is left out when its text is empty or absent. -/
def textMember (name : String) (value : Option JsString) : Members JsNumber :=
  ((value.filter (· ≠ [])).map fun text => (js name, .string text)).toList

def buildProofJwsPayload (proofMeta : ProofMeta) : JsonValue JsNumber :=
  .object ([(js "aud", .string proofMeta.audience), (js "sub", .string proofMeta.did),
      (js "iss", .string proofMeta.did), (js "requestHash", .string proofMeta.requestHash)] ++
    (proofMeta.responseHash.map fun digest => (js "responseHash", .string digest)).toList ++
    [(js "ts", .number (.ofNat proofMeta.ts)), (js "nonce", .string proofMeta.nonce),
      (js "sessionId", .string proofMeta.sessionId)] ++
    textMember "scopeId" proofMeta.scopeId ++ textMember "delegationRef" proofMeta.delegationRef ++
    textMember "clientDid" proofMeta.clientDid ++ textMember "outcome" proofMeta.outcome ++
    textMember "reason" proofMeta.reason ++ textMember "prf" proofMeta.prf)

inductive ProofVerificationErrorCode where
  | INVALID_PROOF_STRUCTURE
  | INVALID_JWS_PAYLOAD
  | KID_DID_MISMATCH
  | DID_MISMATCH
  | AUDIENCE_MISMATCH
  | TIMESTAMP_SKEW_EXCEEDED
  | INVALID_JWS_SIGNATURE
  | CONTENT_BINDING_MISMATCH
  | NONCE_REPLAY_DETECTED
  | VERIFICATION_ERROR
  deriving DecidableEq

inductive ProofVerificationDetails where
  | none
  | validationError (message : JsString)
  | signer (did kid : JsString)
  | expectedDid (did expectedDid : JsString)
  | expectedAudience (audience : JsString) (expectedAudience : List JsString)
  | timestamp (timestamp : Nat) (timestampMs skewSeconds currentTime : ℚ)
  | signature (jwsLength : Nat) (expectedKid : JsString) (actualKid : Option JsString)
  | replay (nonce agentDid : JsString)
  /-- What was thrown. -/
  | thrown (error : Error)
  deriving DecidableEq

inductive ProofVerificationResult where
  | valid
  | invalid (errorCode : ProofVerificationErrorCode) (reason : JsString)
      (details : ProofVerificationDetails)
  deriving DecidableEq

structure Ed25519JWK where
  x : JsString
  kid : Option JsString := none

structure ProofVerificationOptions where
  expectedDid : Option JsString := none
  /-- One audience, or one of several. -/
  expectedAudience : Option (List JsString) := none

structure ExpectedContent where
  request : ToolRequest JsNumber
  response : Option (ToolResponse JsNumber) := none

/-- A configuration that the constructor accepts, and the runtime. -/
structure ProofVerifierConfig where
  numbers : Doubles JsNumber
  hash : Bytes → Except Error Digest
  nonceTtlSeconds : ℚ := 300

/-- What verifications share: the nonce cache, the clock, and the skew. -/
structure ProofWorld where
  nonceCache : MemoryNonceCacheProvider
  now : ℚ
  timestampSkewSeconds : ℚ := 120

def minClockSkewSeconds : ℚ := 30
def maxClockSkewSeconds : ℚ := 600

def ProofWorld.setTimestampSkew (world : ProofWorld) (skewSeconds : JsNumber) : ProofWorld :=
  match skewSeconds with
  | .finite skew =>
    { world with
      timestampSkewSeconds := max minClockSkewSeconds (min maxClockSkewSeconds ⌊skew⌋) }
  | _ => world

inductive ProofRequest where
  /-- The promise of an `async` method that awaits nothing itself. -/
  | settled
  | verifyJWS (jws : JsString) (publicKeyJwk : Ed25519JWK) (detachedPayload : Bytes)
      (expectedKid : JsString)
  | consumeNonce (nonce agentDid : JsString) (timestamp : Nat)

@[reducible] def ProofRequest.Answer : ProofRequest → Type
  | .settled => Unit
  | .verifyJWS .. => Bool
  | .consumeNonce .. => Bool

abbrev proofSetting : Setting where
  State := ProofWorld
  Error := Error
  Request := ProofRequest
  Answer := ProofRequest.Answer

abbrev ProofM (α : Type) := Async proofSetting α

/-- `await` of a request's promise. -/
def await (request : ProofRequest) : ProofM request.Answer :=
  Async.ask (I := proofSetting) request

/-- `SystemClockProvider.isWithinSkew`. -/
def isWithinSkew (now timestampMs skewSeconds : ℚ) : Bool :=
  |now - timestampMs| ≤ skewSeconds * 1000

/-- `didOfKid`. -/
def didOfKid (kid : JsString) : Option JsString :=
  if startsWith kid (js "did:") then some (kid.takeWhile (· ≠ 0x23)) else none

section Verify

variable (config : ProofVerifierConfig)

def validateSigner (proofMeta : ProofMeta) (options : ProofVerificationOptions) :
    ProofVerificationResult :=
  if (didOfKid proofMeta.kid).any (· ≠ proofMeta.did) then
    .invalid .KID_DID_MISMATCH (js "Proof kid names a key of a different DID than meta.did")
      (.signer proofMeta.did proofMeta.kid)
  else
    match options.expectedDid.filter (· ≠ proofMeta.did), options.expectedAudience with
    | some expectedDid, _ =>
      .invalid .DID_MISMATCH (js "Proof was not issued by the expected DID")
        (.expectedDid proofMeta.did expectedDid)
    | none, some allowed =>
      if proofMeta.audience ∈ allowed then .valid
      else .invalid .AUDIENCE_MISMATCH (js "Proof is addressed to a different audience")
        (.expectedAudience proofMeta.audience allowed)
    | none, none => .valid

/-- What `validateTimestamp` settles to. -/
def timestampResult (world : ProofWorld) (timestamp : Nat) : ProofVerificationResult :=
  if isWithinSkew world.now (timestamp * 1000) world.timestampSkewSeconds then .valid
  else
    .invalid .TIMESTAMP_SKEW_EXCEEDED
      (js "Timestamp out of skew window (skew: " ++
        config.numbers.text (.finite world.timestampSkewSeconds) ++ js "s)")
      (.timestamp timestamp (timestamp * 1000) world.timestampSkewSeconds world.now)

def validateTimestamp (timestamp : Nat) : ProofM ProofVerificationResult := do
  let world ← Async.state
  await .settled
  return timestampResult config world timestamp

def verifySignature (jws : JsString) (publicKeyJwk : Ed25519JWK) (payload : Bytes)
    (expectedKid : JsString) : ProofM ProofVerificationResult := do
  let signatureValid ← await (.verifyJWS jws publicKeyJwk payload expectedKid)
  if signatureValid then return .valid
  else
    return .invalid .INVALID_JWS_SIGNATURE (js "Invalid JWS signature")
      (.signature jws.length expectedKid publicKeyJwk.kid)

/-- `CONTENT_BINDING_REASONS`. -/
def contentBindingReason : ContentBindingMismatch → JsString
  | .request => js "Request hash mismatch: the proof does not bind the request you supplied"
  | .responseMissing =>
    js "Proof binds a response (responseHash present) but no response was supplied to " ++
      js "verify against — pass expected.response"
  | .responseUnexpected =>
    js "A response was supplied but the proof binds none — content/proof mismatch"
  | .response =>
    js "Response hash mismatch: received content differs from what the server signed " ++
      js "(possible substitution / MITM)"

def contentBindingResult : Option ContentBindingMismatch → ProofVerificationResult
  | none => .valid
  | some mismatch => .invalid .CONTENT_BINDING_MISMATCH (contentBindingReason mismatch) .none

/-- `validateContentBinding`, if the caller says what it expects. -/
def validateContentBinding (proofMeta : ProofMeta) (expected : Option ExpectedContent) :
    ProofM ProofVerificationResult :=
  match expected with
  | none => return .valid
  | some expected => do
    await .settled
    let mismatch ← Async.ofExcept (findContentBindingMismatch config.numbers config.hash
      ⟨proofMeta.requestHash, proofMeta.responseHash, proofMeta.prf⟩ expected.request
      expected.response)
    return contentBindingResult mismatch

/-- `consumeNonce` up to its `await`, and what that comes to. -/
def ProofWorld.consumeNonce (world : ProofWorld) (nonce agentDid : JsString) (timestamp : Nat) :
    Except Error Bool × ProofWorld :=
  match nonceRetentionSeconds (.finite config.nonceTtlSeconds)
      (.finite (timestamp + max world.timestampSkewSeconds maxClockSkewSeconds)) world.now with
  | .error thrown => (.error thrown, world)
  | .ok ttl =>
    let consumed := world.nonceCache.consume world.now nonce ttl (some agentDid)
    (consumed.1, { world with nonceCache := consumed.2 })

def consumeNonce (nonce agentDid : JsString) (timestamp : Nat) :
    ProofM ProofVerificationResult := do
  let consumed ← await (.consumeNonce nonce agentDid timestamp)
  if consumed then return .valid
  else
    return .invalid .NONCE_REPLAY_DETECTED (js "Nonce already used (replay attack detected)")
      (.replay nonce agentDid)

/-- `if (!check.valid) return check`. -/
def ifValid (check next : ProofM ProofVerificationResult) : ProofM ProofVerificationResult :=
  check >>= fun result => if result = .valid then next else pure result

def runVerificationPipeline (proof : DetachedProof) (publicKeyJwk : Ed25519JWK)
    (canonicalPayload : Bytes) (expected : Option ExpectedContent)
    (options : ProofVerificationOptions) : ProofM ProofVerificationResult :=
  ifValid (pure (validateSigner proof.proofMeta options)) <|
  ifValid (validateTimestamp config proof.proofMeta.ts) <|
  ifValid (verifySignature proof.jws publicKeyJwk canonicalPayload proof.proofMeta.kid) <|
  ifValid (validateContentBinding config proof.proofMeta expected) <|
  consumeNonce proof.proofMeta.nonce proof.proofMeta.did proof.proofMeta.ts

def handleVerificationError (error : Error) : ProofVerificationResult :=
  .invalid .VERIFICATION_ERROR (js "Proof verification error") (.thrown error)

def encodeCanonicalPayload (proofMeta : ProofMeta) : Except Error Bytes :=
  encodeUtf8 <$> canonicalizeJson config.numbers (buildProofJwsPayload proofMeta)

/-- What both methods do with a proof once it is validated. -/
def verifyValidated (next : DetachedProof → Bytes → ProofM ProofVerificationResult) :
    Except JsString DetachedProof → ProofM ProofVerificationResult
  | .error message =>
    pure (.invalid .INVALID_PROOF_STRUCTURE (js "Invalid proof structure")
      (.validationError message))
  | .ok proof => do
    let payload ← Async.ofExcept (encodeCanonicalPayload config proof.proofMeta)
    next proof payload

def withValidatedProof (proof : JsonValue JsNumber)
    (next : DetachedProof → Bytes → ProofM ProofVerificationResult) :
    ProofM ProofVerificationResult :=
  tryCatch (do
    await .settled
    verifyValidated config next (validateDetachedProof proof))
    fun error => pure (handleVerificationError error)

/-- One call of the verifier. -/
inductive ProofCall where
  | verifyProof (proof : JsonValue JsNumber) (publicKeyJwk : Ed25519JWK)
      (expected : Option ExpectedContent) (options : ProofVerificationOptions)
  | verifyProofDetached (proof : JsonValue JsNumber) (canonicalPayload : Bytes)
      (publicKeyJwk : Ed25519JWK)

def ProofCall.proof : ProofCall → JsonValue JsNumber
  | .verifyProof proof .. | .verifyProofDetached proof .. => proof

/-- The meta of a call's proof, if the proof is well formed. -/
def ProofCall.proofMeta? (call : ProofCall) : Option ProofMeta :=
  (validateDetachedProof call.proof).toOption.map (·.proofMeta)

def ProofCall.code : ProofCall → ProofM ProofVerificationResult
  | .verifyProof proof publicKeyJwk expected options =>
    withValidatedProof config proof fun proof payload =>
      runVerificationPipeline config proof publicKeyJwk payload expected options
  | .verifyProofDetached proof canonicalPayload publicKeyJwk =>
    withValidatedProof config proof fun proof payload =>
      if canonicalPayload ≠ payload then
        return .invalid .INVALID_JWS_PAYLOAD
          (js "Detached payload does not match the payload rebuilt from proof.meta") .none
      else runVerificationPipeline config proof publicKeyJwk payload none {}

end Verify

/-- How requests are served: the nonce cache is one object, a JWS may verify or not. -/
def serveProof (config : ProofVerifierConfig) :
    (request : ProofRequest) → ProofWorld → Except Error request.Answer → ProofWorld → Prop
  | .settled, world, answer, world' => answer = .ok () ∧ world' = world
  | .verifyJWS .., world, _, world' => world' = world
  | .consumeNonce nonce agentDid timestamp, world, answer, world' =>
    (answer, world') = world.consumeNonce config nonce agentDid timestamp

/-- What happens besides the verifications. -/
inductive ProofEnvironment : ProofWorld → ProofWorld → Prop
  | advance (world : ProofWorld) {now : ℚ} :
      world.now ≤ now → ProofEnvironment world { world with now }
  | setTimestampSkew (world : ProofWorld) (skewSeconds : JsNumber) :
      ProofEnvironment world (world.setTimestampSkew skewSeconds)
  | cleanup (world : ProofWorld) :
      ProofEnvironment world { world with nonceCache := world.nonceCache.cleanup world.now }

/-- Any number of verifications over one cache. -/
def proofProgram (config : ProofVerifierConfig) {ι : Type} (calls : ι → ProofCall) :
    Program proofSetting ι ProofVerificationResult where
  code c := (calls c).code config
  serves _ := serveProof config
  environment := ProofEnvironment

end KyaOs.Proof
