import KyaOs.Proof.Verifier
import KyaOs.Utils.Base64

/-!
# The proof generator

`ProofGenerator`: the claims of a proof from the session, the options and the hashes, and
their signature. The nonce's random bytes and the time are what the runtime answered, and
jose's compact signer is a parameter.
-/

namespace KyaOs.Proof

open Js Audit

structure ProofAgentIdentity where
  did : JsString
  kid : JsString

/-- The part of a session that its proofs name. -/
structure SessionContext where
  sessionId : JsString
  audience : JsString

structure ProofOptions where
  scopeId : Option JsString := none
  delegationRef : Option JsString := none
  clientDid : Option JsString := none
  outcome : Option JsString := none
  reason : Option JsString := none
  profile : JsString := responseProofProfileBody
  /-- A request hash computed earlier, never copied into the claims. -/
  precomputedRequestHash : Option Digest := none

structure ProofGenerator where
  identity : ProofAgentIdentity
  numbers : Doubles JsNumber
  hash : Bytes → Except Error Digest
  /-- `new CompactSign(payload).setProtectedHeader({ alg: 'EdDSA', kid }).sign(privateKey)`. -/
  compactSign : JsString → Bytes → Except Error JsString

namespace ProofGenerator

variable (g : ProofGenerator)

/-- The payload as signed. -/
def signPayload (proofMeta : ProofMeta) : Except Error JsString := do
  let canonicalPayload ← canonicalizeJson g.numbers (buildProofJwsPayload proofMeta)
  g.compactSign g.identity.kid (encodeUtf8 canonicalPayload)

def generateJWS (proofMeta : ProofMeta) : Except Error JsString :=
  match g.signPayload proofMeta with
  | .ok jws => .ok jws
  | .error error => .error (.error (js "Failed to generate JWS: " ++ error.messageOrUnknown))

/-- The claims; the `prf` claim comes from the profile alone. -/
def claims (nonce : Bytes) (nowMs : Nat) (hashes : CanonicalHashes) (session : SessionContext)
    (options : ProofOptions) : ProofMeta where
  did := g.identity.did
  kid := g.identity.kid
  ts := nowMs / 1000
  nonce := base64urlEncodeFromBytes nonce
  audience := session.audience
  sessionId := session.sessionId
  requestHash := options.precomputedRequestHash.getD hashes.requestHash
  responseHash := hashes.responseHash
  prf := if options.profile = responseProofProfileEnvelope then some responseProofProfileEnvelope
    else none
  scopeId := options.scopeId
  delegationRef := options.delegationRef
  clientDid := options.clientDid
  outcome := options.outcome
  reason := options.reason

def generateProof (nonce : Bytes) (nowMs : Nat) (request : ToolRequest JsNumber)
    (response : Option (ToolResponse JsNumber)) (session : SessionContext)
    (options : ProofOptions) : Except Error DetachedProof := do
  let hashes ← computeCanonicalHashes g.numbers g.hash request response options.profile
  let proofMeta := g.claims nonce nowMs hashes session options
  let jws ← g.generateJWS proofMeta
  return { jws, proofMeta }

end ProofGenerator

/-- A member that is left out when it is `undefined`. -/
def optionalMember (name : String) (value : Option JsString) : Members JsNumber :=
  (value.map fun text => (js name, .string text)).toList

def ProofMeta.toValue (proofMeta : ProofMeta) : JsonValue JsNumber :=
  .object ([(js "did", .string proofMeta.did), (js "kid", .string proofMeta.kid),
      (js "ts", .number (.ofNat proofMeta.ts)), (js "nonce", .string proofMeta.nonce),
      (js "audience", .string proofMeta.audience),
      (js "sessionId", .string proofMeta.sessionId),
      (js "requestHash", .string proofMeta.requestHash)] ++
    optionalMember "responseHash" proofMeta.responseHash ++ optionalMember "prf" proofMeta.prf ++
    optionalMember "scopeId" proofMeta.scopeId ++
    optionalMember "delegationRef" proofMeta.delegationRef ++
    optionalMember "clientDid" proofMeta.clientDid ++ optionalMember "outcome" proofMeta.outcome ++
    optionalMember "reason" proofMeta.reason)

def DetachedProof.toValue (proof : DetachedProof) : JsonValue JsNumber :=
  .object [(js "jws", .string proof.jws), (js "meta", proof.proofMeta.toValue)]

theorem lookup_optionalMember {name : String} {value : Option JsString} {k : JsString} :
    (optionalMember name value).lookup k = if k = js name then value.map .string else none := by
  cases value with
  | none => simp [optionalMember]
  | some text =>
      by_cases hname : k = js name
      · simp [optionalMember, hname]
      · simp [optionalMember, List.lookup_cons, beq_false_of_ne hname, hname]

variable {g : ProofGenerator} {nonce : Bytes} {nowMs : Nat} {request : ToolRequest JsNumber}
  {response : Option (ToolResponse JsNumber)} {session : SessionContext} {options : ProofOptions}
  {proof : DetachedProof}

theorem generateJWS_eq_ok {proofMeta : ProofMeta} {jws : JsString} :
    g.generateJWS proofMeta = .ok jws ↔ g.signPayload proofMeta = .ok jws := by
  rw [ProofGenerator.generateJWS]
  cases g.signPayload proofMeta <;> simp

theorem generateProof_eq_ok :
    g.generateProof nonce nowMs request response session options = .ok proof ↔
      ∃ hashes, computeCanonicalHashes g.numbers g.hash request response options.profile =
          .ok hashes ∧
        proof.proofMeta = g.claims nonce nowMs hashes session options ∧
        g.signPayload proof.proofMeta = .ok proof.jws := by
  obtain ⟨jws, proofMeta⟩ := proof
  rw [ProofGenerator.generateProof]
  constructor
  · intro h
    obtain ⟨hashes, hhashes, h⟩ := bind_eq_ok.mp h
    obtain ⟨jws', hjws, h⟩ := bind_eq_ok.mp h
    cases h
    exact ⟨hashes, hhashes, rfl, generateJWS_eq_ok.mp hjws⟩
  · rintro ⟨hashes, hhashes, rfl, hjws⟩
    exact bind_eq_ok.mpr ⟨hashes, hhashes,
      bind_eq_ok.mpr ⟨jws, generateJWS_eq_ok.mpr hjws, rfl⟩⟩

/-- The response hash of a generated proof covers the response it was generated over. -/
theorem generateProof_covers
    (h : g.generateProof nonce nowMs request response session options = .ok proof) :
    Option.Rel (fun response digest => hashJson g.numbers g.hash
        (canonicalResponseBody response.data options.profile) = .ok digest)
      response proof.proofMeta.responseHash := by
  obtain ⟨hashes, hhashes, hclaims, -⟩ := generateProof_eq_ok.mp h
  rw [hclaims]
  exact (computeCanonicalHashes_eq_ok.mp hhashes).2

theorem generateProof_prf
    (h : g.generateProof nonce nowMs request response session options = .ok proof) :
    proof.proofMeta.prf = if options.profile = responseProofProfileEnvelope
      then some responseProofProfileEnvelope else none := by
  obtain ⟨hashes, -, hclaims, -⟩ := generateProof_eq_ok.mp h
  rw [hclaims]
  rfl

theorem generateProof_outcome
    (h : g.generateProof nonce nowMs request response session options = .ok proof) :
    proof.proofMeta.outcome = options.outcome := by
  obtain ⟨hashes, -, hclaims, -⟩ := generateProof_eq_ok.mp h
  rw [hclaims]
  rfl

end KyaOs.Proof
