import KyaOs.Concurrency.Solo
import KyaOs.Proof.JwsVerification
import KyaOs.Proof.ProofClaims
import KyaOs.Proof.ReplaySafety

/-!
# Minted proofs verify

The verifier reads a minted proof back, its JWS verifies against the payload rebuilt from its
meta, and its content is the request and the response. So it is accepted, whatever else
happens meanwhile that leaves it within the skew and its nonce unused.
-/

namespace KyaOs.Proof

open Js JsonValue Concurrency Expiry Providers Audit

/-- A verifier with the runtime and the key of a generator. -/
structure Matching (g : ProofGenerator) (config : ProofVerifierConfig) (crypto : CryptoService)
    (key : Ed25519JWK) : Prop where
  numbers : config.numbers = g.numbers
  jsonNumbers : crypto.numbers = g.numbers
  prints : g.numbers.Prints
  hash : config.hash = g.hash
  /-- A hash is `sha256:` and 64 digits. -/
  digest : ∀ bytes digest, g.hash bytes = .ok digest → (digestPattern digest).isSome
  /-- The constructor refuses any other. -/
  nonceTtlSeconds : 0 ≤ config.nonceTtlSeconds
  did : g.identity.did ≠ []
  kid : g.identity.kid ≠ []
  /-- The key is one of the agent's own. -/
  owner : ∀ did ∈ didOfKid g.identity.kid, did = g.identity.did
  keyId : key.kid = some g.identity.kid
  /-- The signer writes a compact JWS, and its signatures verify. -/
  signs : ∃ publicKey, jwkToBase64PublicKey key = .ok publicKey ∧
    ∀ payload jws, g.compactSign g.identity.kid payload = .ok jws → ∃ signature,
      jws = compactJws g.identity.kid payload signature ∧
        crypto.verify (encodeUtf8 (signingInput g.identity.kid payload)) signature publicKey =
          .ok true

/-- What `generateProof` is given by its callers, the clock and the generator of random bytes. -/
structure Mintable (g : ProofGenerator) (nonce : Bytes) (nowMs : Nat)
    (request : ToolRequest JsNumber) (session : SessionContext) (options : ProofOptions) :
    Prop where
  nonce : nonce.length = 16
  clock : 1000 ≤ nowMs
  sessionId : session.sessionId ≠ []
  audience : session.audience ≠ []
  outcome : ∀ outcome ∈ options.outcome, outcome ∈ outcomes
  /-- A hash computed earlier is the request's. -/
  precomputed : ∀ digest ∈ options.precomputedRequestHash,
    hashJson g.numbers g.hash (canonicalRequest g.numbers request) = .ok digest

section Minted

variable {g : ProofGenerator} {config : ProofVerifierConfig} {crypto : CryptoService}
  {key : Ed25519JWK} {nonce : Bytes} {nowMs : Nat} {request : ToolRequest JsNumber}
  {response : Option (ToolResponse JsNumber)} {session : SessionContext} {options : ProofOptions}
  {proof : DetachedProof}

/-- The `prf` claim names the profile as far as hashing goes. -/
theorem canonicalResponseBody_prf (data : JsonValue JsNumber) (profile : JsString) :
    canonicalResponseBody data ((if profile = responseProofProfileEnvelope
        then some responseProofProfileEnvelope else none).getD responseProofProfileBody) =
      canonicalResponseBody data profile := by
  by_cases henvelope : profile = responseProofProfileEnvelope
  · rw [if_pos henvelope, Option.getD_some, henvelope]
  · have hbody : responseProofProfileBody ≠ responseProofProfileEnvelope := by decide
    rw [if_neg henvelope, Option.getD_none, canonicalResponseBody_of_ne hbody,
      canonicalResponseBody_of_ne henvelope]

/-- The hashes that a minted proof carries are those of its content. -/
theorem generateProof_hashes (hmintable : Mintable g nonce nowMs request session options)
    (h : g.generateProof nonce nowMs request response session options = .ok proof) :
    computeCanonicalHashes g.numbers g.hash request response
        (proof.proofMeta.prf.getD responseProofProfileBody) =
      .ok ⟨proof.proofMeta.requestHash, proof.proofMeta.responseHash⟩ := by
  obtain ⟨hashes, hhashes, hclaims, -⟩ := generateProof_eq_ok.mp h
  obtain ⟨hrequest, hresponse⟩ := computeCanonicalHashes_eq_ok.mp hhashes
  refine computeCanonicalHashes_eq_ok.mpr ⟨?_, ?_⟩
  · rw [hclaims, ProofGenerator.claims]
    cases hprecomputed : options.precomputedRequestHash with
    | none => exact hrequest
    | some digest => exact hmintable.precomputed digest hprecomputed
  · simp only [hclaims, ProofGenerator.claims, canonicalResponseBody_prf]
    exact hresponse

theorem hashJson_digest (hmatching : Matching g config crypto key) {value : JsonValue JsNumber}
    {digest : Digest} (h : hashJson g.numbers g.hash value = .ok digest) :
    (digestPattern digest).isSome := by
  obtain ⟨text, -, hdigest⟩ := hashJson_eq_ok.mp h
  exact hmatching.digest _ _ hdigest

theorem encode_ne_nil {bytes : Bytes} (h : bytes ≠ []) : base64urlEncodeFromBytes bytes ≠ [] := by
  intro hnil
  have hdecoded := base64urlDecodeToBytes_encode bytes
  rw [hnil] at hdecoded
  exact h (Except.ok.inj hdecoded).symm

/-- A minted meta is valid. -/
theorem generateProof_valid (hmatching : Matching g config crypto key)
    (hmintable : Mintable g nonce nowMs request session options)
    (h : g.generateProof nonce nowMs request response session options = .ok proof) :
    proof.proofMeta.Valid := by
  obtain ⟨hrequest, hresponse⟩ := computeCanonicalHashes_eq_ok.mp (generateProof_hashes hmintable h)
  obtain ⟨hashes, -, hclaims, -⟩ := generateProof_eq_ok.mp h
  have hnonce : nonce ≠ [] := by
    rintro rfl
    cases hmintable.nonce
  have hresponseHash : ∀ digest ∈ proof.proofMeta.responseHash, (digestPattern digest).isSome := by
    intro digest hdigest
    rw [Option.mem_def.mp hdigest] at hresponse
    obtain ⟨_, -, hhash⟩ := rel_some_right hresponse
    exact hashJson_digest hmatching hhash
  have hprf : ∀ prf ∈ proof.proofMeta.prf, prf = responseProofProfileEnvelope := by
    rw [generateProof_prf h]
    intro prf hmem
    obtain ⟨-, hsame⟩ := Option.ite_none_right_eq_some.mp hmem
    exact (Option.some.inj hsame).symm
  have hrequestHash := hashJson_digest hmatching hrequest
  rw [hclaims] at hresponseHash hprf hrequestHash ⊢
  exact {
    did := hmatching.did
    kid := hmatching.kid
    nonce := encode_ne_nil hnonce
    audience := hmintable.audience
    sessionId := hmintable.sessionId
    ts := Nat.div_pos hmintable.clock (by decide)
    requestHash := hrequestHash
    responseHash := hresponseHash
    outcome := hmintable.outcome
    prf := hprf }

/-- The JWS of a minted proof verifies against the payload rebuilt from its meta. -/
theorem generateProof_signed (hmatching : Matching g config crypto key)
    (h : g.generateProof nonce nowMs request response session options = .ok proof) :
    proof.jws ≠ [] ∧ ∃ payload, encodeCanonicalPayload config proof.proofMeta = .ok payload ∧
      crypto.verifyJWS proof.jws key
        { detachedPayload := some payload, expectedKid := some proof.proofMeta.kid } = true := by
  obtain ⟨hashes, -, hclaims, hsigned⟩ := generateProof_eq_ok.mp h
  obtain ⟨text, htext, hjws⟩ := bind_eq_ok.mp hsigned
  obtain ⟨publicKey, hkey, hsigns⟩ := hmatching.signs
  obtain ⟨signature, hcompact, hverify⟩ := hsigns _ _ hjws
  have hkid : proof.proofMeta.kid = g.identity.kid := congrArg ProofMeta.kid hclaims
  have hpayload : encodeCanonicalPayload config proof.proofMeta = .ok (encodeUtf8 text) := by
    rw [encodeCanonicalPayload, hmatching.numbers, htext]
    rfl
  have hwellFormed := wellFormed_payload proof.proofMeta
  obtain ⟨hsupported, rfl⟩ := (serialize_ok hmatching.prints hwellFormed _ _).mp htext
  have hpaired := hasLoneSurrogate_canonicalText hmatching.prints hsupported
  obtain ⟨parsed, hparsed, -⟩ := same_parse hmatching.prints hwellFormed hsupported
  have hread : JsonValue.parse crypto.numbers
      (canonicalText g.numbers (buildProofJwsPayload proof.proofMeta)) = some parsed := by
    rwa [hmatching.jsonNumbers]
  refine ⟨by simp [hcompact, compactJws], _, hpayload, ?_⟩
  rw [hcompact, hkid]
  exact verifyJWS_compact hmatching.keyId hkey hpaired hread hverify

end Minted

/-- How requests are served when `verifyJWS` is that of a `CryptoService`. -/
def serveVerification (config : ProofVerifierConfig) (crypto : CryptoService) :
    (request : ProofRequest) → ProofWorld → Except Error request.Answer → ProofWorld → Prop
  | .verifyJWS jws publicKeyJwk payload kid, world, answer, world' =>
    answer = .ok (crypto.verifyJWS jws publicKeyJwk
      { detachedPayload := some payload, expectedKid := some kid }) ∧ world' = world
  | request, world, answer, world' => serveProof config request world answer world'

/-- The proof is within the skew, and its nonce unused. -/
def Admissible (proofMeta : ProofMeta) (world : ProofWorld) : Prop :=
  isWithinSkew world.now (proofMeta.ts * 1000) world.timestampSkewSeconds = true ∧
    world.nonceCache.nonces.Vacant world.now (some proofMeta.did, proofMeta.nonce)

section Verification

variable {config : ProofVerifierConfig} {crypto : CryptoService} {proofMeta : ProofMeta}
  {world : ProofWorld}

theorem exists_served (request : ProofRequest) (world : ProofWorld) :
    ∃ answer world', serveVerification config crypto request world answer world' := by
  cases request with
  | settled => exact ⟨.ok (), world, rfl, rfl⟩
  | verifyJWS jws publicKeyJwk payload kid => exact ⟨_, world, rfl, rfl⟩
  | consumeNonce nonce agentDid timestamp => exact ⟨_, _, rfl⟩

theorem consumeNonce_admissible (httl : 0 ≤ config.nonceTtlSeconds)
    (h : Admissible proofMeta world) :
    (world.consumeNonce config proofMeta.nonce proofMeta.did proofMeta.ts).1 = .ok true := by
  have hvacant := Records.isVacant_iff.mpr h.2
  have hpositive : ∀ x : ℚ, ¬ max (max 1 config.nonceTtlSeconds) x ≤ 0 := by
    intro x hx
    exact absurd (le_trans (le_max_of_le_left (le_max_left 1 _)) hx) (by norm_num)
  simp only [ProofWorld.consumeNonce, nonceRetentionSeconds, not_lt.mpr httl, if_false,
    MemoryNonceCacheProvider.consume, hpositive, hvacant, if_true]

/-- A check that an admissible proof passes. -/
abbrev Passes (config : ProofVerifierConfig) (crypto : CryptoService) (proofMeta : ProofMeta)
    (check : ProofM ProofVerificationResult) : Prop :=
  (keeping (serveVerification config crypto) (Admissible proofMeta)).Contract ()
    (fun w => Admissible proofMeta w.1) check
    fun result w => result = .ok .valid ∧ Admissible proofMeta w.1

theorem passes_pure : Passes config crypto proofMeta (pure .valid) :=
  .pure fun _ _ h => ⟨rfl, h⟩

theorem contract_settled {fact : ProofWorld → Prop} :
    (keeping (serveVerification config crypto) fact).Contract () (fun w => fact w.1)
      (await .settled) fun answer w => answer = .ok () ∧ fact w.1 := by
  refine .ask_keeping ?_
  rintro s answer s' hfact ⟨hanswer, rfl⟩
  exact ⟨hanswer, hfact⟩

theorem passes_ifValid {check next : ProofM ProofVerificationResult}
    {ends : Except Error ProofVerificationResult → ProofWorld × Unit → Prop}
    (hcheck : Passes config crypto proofMeta check)
    (hnext : (keeping (serveVerification config crypto) (Admissible proofMeta)).Contract ()
      (fun w => Admissible proofMeta w.1) next ends) :
    (keeping (serveVerification config crypto) (Admissible proofMeta)).Contract ()
      (fun w => Admissible proofMeta w.1) (ifValid check next) ends := by
  refine .bind_ok hcheck ?_
  rw [if_pos rfl]
  exact hnext

theorem passes_validateTimestamp :
    Passes config crypto proofMeta (validateTimestamp config proofMeta.ts) := by
  refine .state fun world => ?_
  have htimely : ∀ w : ProofWorld × Unit, True → w.1 = world ∧ Admissible proofMeta w.1 →
      timestampResult config world proofMeta.ts = .valid := by
    rintro w - ⟨rfl, hskew, -⟩
    rw [timestampResult, if_pos hskew]
  refine .of_pre htimely fun hvalid => ?_
  rw [hvalid]
  exact .bind_ok (contract_settled.mono_pre fun _ _ h => h.2) passes_pure

theorem passes_verifySignature {jws : JsString} {key : Ed25519JWK} {payload : Bytes}
    (h : crypto.verifyJWS jws key
      { detachedPayload := some payload, expectedKid := some proofMeta.kid } = true) :
    Passes config crypto proofMeta (verifySignature jws key payload proofMeta.kid) := by
  have hasked : (keeping (serveVerification config crypto) (Admissible proofMeta)).Contract ()
      (fun w => Admissible proofMeta w.1) (await (.verifyJWS jws key payload proofMeta.kid))
      fun answer w => answer = .ok true ∧ Admissible proofMeta w.1 := by
    refine .ask_keeping ?_
    rintro s answer s' hadmissible ⟨hanswer, rfl⟩
    exact ⟨h ▸ hanswer, hadmissible⟩
  exact .bind_ok hasked passes_pure

theorem passes_validateContentBinding {expected : Option ExpectedContent}
    (h : ∀ content ∈ expected, findContentBindingMismatch config.numbers config.hash
      ⟨proofMeta.requestHash, proofMeta.responseHash, proofMeta.prf⟩ content.request
        content.response = .ok none) :
    Passes config crypto proofMeta (validateContentBinding config proofMeta expected) := by
  cases expected with
  | none => exact passes_pure
  | some content =>
      refine .bind_ok contract_settled ?_
      rw [h content rfl]
      exact passes_pure

/-- The consumption uses the fact up. -/
theorem contract_consumeNonce (httl : 0 ≤ config.nonceTtlSeconds) :
    (keeping (serveVerification config crypto) (Admissible proofMeta)).Contract ()
      (fun w => Admissible proofMeta w.1)
      (consumeNonce proofMeta.nonce proofMeta.did proofMeta.ts)
      fun result _ => result = .ok .valid := by
  have hasked : (keeping (serveVerification config crypto) (Admissible proofMeta)).Contract ()
      (fun w => Admissible proofMeta w.1)
      (await (.consumeNonce proofMeta.nonce proofMeta.did proofMeta.ts))
      fun answer _ => answer = .ok true ∧ True := by
    refine .ask_last ?_
    rintro s answer s' hadmissible hserved
    obtain ⟨rfl, -⟩ := Prod.mk.inj hserved
    exact ⟨consumeNonce_admissible httl hadmissible, trivial⟩
  exact .bind_ok hasked (.pure fun _ _ _ => rfl)

theorem contract_pipeline (httl : 0 ≤ config.nonceTtlSeconds) {proof : DetachedProof}
    {key : Ed25519JWK} {payload : Bytes} {expected : Option ExpectedContent}
    {options : ProofVerificationOptions}
    (hsigner : validateSigner proof.proofMeta options = .valid)
    (hsigned : crypto.verifyJWS proof.jws key
      { detachedPayload := some payload, expectedKid := some proof.proofMeta.kid } = true)
    (hcontent : ∀ content ∈ expected, findContentBindingMismatch config.numbers config.hash
      ⟨proof.proofMeta.requestHash, proof.proofMeta.responseHash, proof.proofMeta.prf⟩
        content.request content.response = .ok none) :
    (keeping (serveVerification config crypto) (Admissible proof.proofMeta)).Contract ()
      (fun w => Admissible proof.proofMeta w.1)
      (runVerificationPipeline config proof key payload expected options)
      fun result _ => result = .ok .valid := by
  refine passes_ifValid (hsigner ▸ passes_pure) ?_
  refine passes_ifValid passes_validateTimestamp ?_
  refine passes_ifValid (passes_verifySignature hsigned) ?_
  exact passes_ifValid (passes_validateContentBinding hcontent) (contract_consumeNonce httl)

/-- A proof that is read back comes to what its verification comes to. -/
theorem contract_withValidatedProof {fact : ProofWorld → Prop} {value : JsonValue JsNumber}
    {proof : DetachedProof} {payload : Bytes}
    {next : DetachedProof → Bytes → ProofM ProofVerificationResult}
    {result : ProofVerificationResult} (hread : validateDetachedProof value = .ok proof)
    (hpayload : encodeCanonicalPayload config proof.proofMeta = .ok payload)
    (hnext : (keeping (serveVerification config crypto) fact).Contract () (fun w => fact w.1)
      (next proof payload) fun ended _ => ended = .ok result) :
    (keeping (serveVerification config crypto) fact).Contract () (fun w => fact w.1)
      (withValidatedProof config value next) fun ended _ => ended = .ok result := by
  have hbody : (keeping (serveVerification config crypto) fact).Contract () (fun w => fact w.1)
      (do
        await .settled
        verifyValidated config next (validateDetachedProof value))
      fun ended _ => ended = .ok result := by
    refine .bind_ok contract_settled ?_
    rw [hread]
    refine .check ?_ ?_
    · intro found hfound
      obtain rfl := Except.ok.inj (hfound.symm.trans hpayload)
      exact hnext
    · intro thrown w hthrown
      cases hthrown.symm.trans hpayload
  refine .tryCatch hbody (fun _ _ _ h => h) ?_
  intro thrown
  exact .pure fun _ _ h => nomatch h

end Verification

/-- One call of the verifier, and what else happens. -/
def verifying (config : ProofVerifierConfig) (crypto : CryptoService) (call : ProofCall)
    (environment : ProofWorld → ProofWorld → Prop) :
    Program proofSetting Unit ProofVerificationResult :=
  lone (call.code config) (serveVerification config crypto) environment

section Calls

variable {config : ProofVerifierConfig} {crypto : CryptoService} {key : Ed25519JWK}
  {value : JsonValue JsNumber} {proof : DetachedProof} {payload : Bytes}

/-- The payload rebuilt from the meta adds nothing. -/
theorem verifyProofDetached_rebuilt (hread : validateDetachedProof value = .ok proof)
    (hpayload : encodeCanonicalPayload config proof.proofMeta = .ok payload) :
    (ProofCall.verifyProofDetached value payload key).code config =
      (ProofCall.verifyProof value key none {}).code config := by
  have hnext : ∀ next, verifyValidated config next (.ok proof) = next proof payload := by
    intro next
    rw [verifyValidated, hpayload]
    rfl
  have hsame : ¬ payload ≠ payload := fun hother => hother rfl
  rw [ProofCall.code, ProofCall.code, withValidatedProof, withValidatedProof, hread, hnext, hnext,
    if_neg hsame]

/-- Any other payload is rejected. -/
theorem verifyProofDetached_other (hread : validateDetachedProof value = .ok proof)
    (hpayload : encodeCanonicalPayload config proof.proofMeta = .ok payload) {other : Bytes}
    (hother : other ≠ payload) {environment : ProofWorld → ProofWorld → Prop}
    {start : ProofWorld} {ended : Except Error ProofVerificationResult} :
    EndsWith (verifying config crypto (.verifyProofDetached value other key) environment) start
        ended ↔
      ended = .ok (.invalid .INVALID_JWS_PAYLOAD
        (js "Detached payload does not match the payload rebuilt from proof.meta") .none) := by
  have hnext : (keeping (serveVerification config crypto) fun _ => True).Contract ()
      (fun _ => True)
      (if other ≠ payload then
        pure (.invalid .INVALID_JWS_PAYLOAD
          (js "Detached payload does not match the payload rebuilt from proof.meta") .none)
      else runVerificationPipeline config proof key payload none {})
      fun ended _ => ended = .ok (.invalid .INVALID_JWS_PAYLOAD
        (js "Detached payload does not match the payload rebuilt from proof.meta") .none) := by
    rw [if_pos hother]
    exact .pure fun _ _ _ => rfl
  exact endsWith_iff (contract_withValidatedProof hread hpayload hnext) exists_served
    (fun _ _ _ h => h) trivial

end Calls

section Main

variable {g : ProofGenerator} {config : ProofVerifierConfig} {crypto : CryptoService}
  {key : Ed25519JWK} {nonce : Bytes} {nowMs : Nat} {request : ToolRequest JsNumber}
  {response : Option (ToolResponse JsNumber)} {session : SessionContext} {options : ProofOptions}
  {proof : DetachedProof}

theorem validateSigner_minted (hmatching : Matching g config crypto key)
    (h : g.generateProof nonce nowMs request response session options = .ok proof) :
    validateSigner proof.proofMeta {} = .valid := by
  obtain ⟨hashes, -, hclaims, -⟩ := generateProof_eq_ok.mp h
  have howner : ¬ (didOfKid g.identity.kid).any (· ≠ g.identity.did) := by
    cases hdid : didOfKid g.identity.kid with
    | none => nofun
    | some did => simp [hmatching.owner did hdid]
  rw [hclaims]
  exact if_neg howner

/-- A minted proof is accepted for the content it was minted over, while it is admissible. -/
theorem verifyProof_minted (hmatching : Matching g config crypto key)
    (hmintable : Mintable g nonce nowMs request session options)
    (h : g.generateProof nonce nowMs request response session options = .ok proof)
    {expected : Option ExpectedContent}
    (hexpected : ∀ content ∈ expected, content = ⟨request, response⟩)
    {environment : ProofWorld → ProofWorld → Prop}
    (hkeeps : ∀ world world', environment world world' → Admissible proof.proofMeta world →
      Admissible proof.proofMeta world')
    {start : ProofWorld} (hstart : Admissible proof.proofMeta start)
    {ended : Except Error ProofVerificationResult} :
    EndsWith (verifying config crypto (.verifyProof proof.toValue key expected {}) environment)
      start ended ↔ ended = .ok .valid := by
  obtain ⟨hjws, payload, hpayload, hsigned⟩ := generateProof_signed hmatching h
  have hread := validateDetachedProof_toValue hjws (generateProof_valid hmatching hmintable h)
  have hcontent : ∀ content ∈ expected, findContentBindingMismatch config.numbers config.hash
      ⟨proof.proofMeta.requestHash, proof.proofMeta.responseHash, proof.proofMeta.prf⟩
        content.request content.response = .ok none := by
    intro content hmem
    rw [hexpected content hmem, hmatching.numbers, hmatching.hash]
    exact findContentBindingMismatch_of_hashes (generateProof_hashes hmintable h)
  have hpipeline := contract_pipeline hmatching.nonceTtlSeconds (validateSigner_minted hmatching h)
    hsigned hcontent
  exact endsWith_iff (contract_withValidatedProof hread hpayload hpipeline) exists_served hkeeps
    hstart

/-- The payload covers every claim but the key, and what is minted verifies. -/
theorem minted_proofs_verify (hmatching : Matching g config crypto key)
    (htells : TellsApart g.numbers) :
    (∀ (value value' : JsonValue JsNumber) (proof proof' : DetachedProof) (text : JsString),
      validateDetachedProof value = .ok proof → validateDetachedProof value' = .ok proof' →
      proof.proofMeta.kid = proof'.proofMeta.kid →
      canonicalizeJson g.numbers (buildProofJwsPayload proof.proofMeta) = .ok text →
      canonicalizeJson g.numbers (buildProofJwsPayload proof'.proofMeta) = .ok text →
        proof.proofMeta.withoutEmpty = proof'.proofMeta.withoutEmpty) ∧
    ∀ (nonce : Bytes) (nowMs : Nat) (request : ToolRequest JsNumber)
      (response : Option (ToolResponse JsNumber)) (session : SessionContext)
      (options : ProofOptions) (proof : DetachedProof),
      Mintable g nonce nowMs request session options →
      g.generateProof nonce nowMs request response session options = .ok proof →
        (∀ expected : Option ExpectedContent,
          (∀ content ∈ expected, content = ⟨request, response⟩) →
          ∀ environment : ProofWorld → ProofWorld → Prop,
            (∀ world world', environment world world' → Admissible proof.proofMeta world →
              Admissible proof.proofMeta world') →
            ∀ start, Admissible proof.proofMeta start → ∀ ended,
              EndsWith (verifying config crypto (.verifyProof proof.toValue key expected {})
                environment) start ended ↔ ended = .ok .valid) ∧
        ∃ payload, encodeCanonicalPayload config proof.proofMeta = .ok payload ∧
          (ProofCall.verifyProofDetached proof.toValue payload key).code config =
            (ProofCall.verifyProof proof.toValue key none {}).code config ∧
          ∀ other, other ≠ payload → ∀ environment start ended,
            EndsWith (verifying config crypto (.verifyProofDetached proof.toValue other key)
              environment) start ended ↔
                ended = .ok (.invalid .INVALID_JWS_PAYLOAD
                  (js "Detached payload does not match the payload rebuilt from proof.meta")
                  .none) := by
  refine ⟨?_, ?_⟩
  · intro value value' proof proof' text hproof hproof' hkid htext htext'
    exact withoutEmpty_eq_of_payload hmatching.prints htells
      (valid_of_validateDetachedProof hproof) (valid_of_validateDetachedProof hproof') hkid htext
      htext'
  · intro nonce nowMs request response session options proof hmintable h
    refine ⟨?_, ?_⟩
    · intro expected hexpected environment hkeeps start hstart ended
      exact verifyProof_minted hmatching hmintable h hexpected hkeeps hstart
    · obtain ⟨hjws, payload, hpayload, -⟩ := generateProof_signed hmatching h
      have hread :=
        validateDetachedProof_toValue hjws (generateProof_valid hmatching hmintable h)
      refine ⟨payload, hpayload, verifyProofDetached_rebuilt hread hpayload, ?_⟩
      intro other hother environment start ended
      exact verifyProofDetached_other hread hpayload hother

end Main

/-- A signature that repeats what it signs. -/
def repeatSigner (kid : JsString) (payload : Bytes) : Except Error JsString :=
  .ok (compactJws kid payload (encodeUtf8 (signingInput kid payload)))

def mintingGenerator : ProofGenerator where
  identity := { did := js "did:web:agent", kid := js "did:web:agent#key" }
  numbers := sampleNumbers
  hash _ := .ok (js "sha256:0000000000000000000000000000000000000000000000000000000000000000")
  compactSign := repeatSigner

def mintingVerifier : ProofVerifierConfig where
  numbers := sampleNumbers
  hash := mintingGenerator.hash

def mintingCrypto : CryptoService where
  numbers := sampleNumbers
  verify data signature _ := .ok (data = signature)

def mintingKey : Ed25519JWK where
  x := base64urlEncodeFromBytes (List.replicate 32 0)
  kid := some (js "did:web:agent#key")

theorem mintingGenerator_matching :
    Matching mintingGenerator mintingVerifier mintingCrypto mintingKey where
  numbers := rfl
  jsonNumbers := rfl
  prints := sampleNumbers_prints
  hash := rfl
  digest := by
    intro bytes digest h
    obtain rfl := Except.ok.inj h
    decide +kernel
  nonceTtlSeconds := by decide +kernel
  did := by decide
  kid := by decide
  owner := by decide +kernel
  keyId := rfl
  signs := by
    have hkey : jwkToBase64PublicKey mintingKey = .ok (btoa (List.replicate 32 0)) := by
      rw [jwkToBase64PublicKey, mintingKey, base64urlDecodeToBytes_encode]
      rfl
    refine ⟨_, hkey, ?_⟩
    intro payload jws h
    obtain rfl := Except.ok.inj h
    exact ⟨_, rfl, congrArg _ (decide_eq_true rfl)⟩

def mintingRequest : ToolRequest JsNumber := { method := js "read", params := none }

def mintingSession : SessionContext where
  sessionId := js "session"
  audience := js "did:web:server"

def mintedHashes : CanonicalHashes where
  requestHash := js "sha256:0000000000000000000000000000000000000000000000000000000000000000"
  responseHash := none

def mintedMeta : ProofMeta :=
  mintingGenerator.claims (List.replicate 16 0) 1000 mintedHashes mintingSession {}

theorem mintingGenerator_tellsApart : TellsApart mintingGenerator.numbers := by
  intro m n h
  have hsame := JsNumber.finite.inj (of_decide_eq_true h)
  exact_mod_cast hsame

theorem exists_canonicalText {value : JsonValue JsNumber}
    (h : isCanonical sampleNumbers value = true) :
    ∃ text, canonicalizeJson sampleNumbers value = .ok text := by
  obtain ⟨hwellFormed, hsupported⟩ := canonical_of_isCanonical value h
  exact (canonicalizeJson_eq_ok sampleNumbers_prints hwellFormed).mpr hsupported

theorem generateProof_minting : ∃ proof, mintingGenerator.generateProof (List.replicate 16 0) 1000
    mintingRequest none mintingSession {} = .ok proof ∧ proof.proofMeta = mintedMeta := by
  have hrequest : isCanonical sampleNumbers (canonicalRequest sampleNumbers mintingRequest) =
      true := by decide +kernel
  have hclaims : isCanonical sampleNumbers (buildProofJwsPayload mintedMeta) = true := by
    decide +kernel
  obtain ⟨hashed, hhashed⟩ := exists_canonicalText hrequest
  obtain ⟨payload, hpayload⟩ := exists_canonicalText hclaims
  have hhashes : computeCanonicalHashes sampleNumbers mintingGenerator.hash mintingRequest none
      responseProofProfileBody = .ok mintedHashes :=
    computeCanonicalHashes_eq_ok.mpr ⟨hashJson_eq_ok.mpr ⟨hashed, hhashed, rfl⟩, .none⟩
  have hsigned : mintingGenerator.signPayload mintedMeta =
      repeatSigner (js "did:web:agent#key") (encodeUtf8 payload) :=
    bind_eq_ok.mpr ⟨payload, hpayload, rfl⟩
  exact ⟨⟨_, mintedMeta⟩, generateProof_eq_ok.mpr ⟨mintedHashes, hhashes, rfl, hsigned⟩, rfl⟩

theorem mintable_minting : Mintable mintingGenerator (List.replicate 16 0) 1000 mintingRequest
    mintingSession {} where
  nonce := rfl
  clock := le_rfl
  sessionId := by decide
  audience := by decide
  outcome := nofun
  precomputed := nofun

theorem minted_proofs_verify_sample : ∃ proof,
    mintingGenerator.generateProof (List.replicate 16 0) 1000 mintingRequest none mintingSession
        {} = .ok proof ∧
      EndsWith (verifying mintingVerifier mintingCrypto
        (.verifyProof proof.toValue mintingKey (some ⟨mintingRequest, none⟩) {}) fun _ _ => False)
        sampleWorld (.ok .valid) := by
  obtain ⟨proof, hproof, hmeta⟩ := generateProof_minting
  have hadmissible : Admissible proof.proofMeta sampleWorld := by
    rw [hmeta]
    exact ⟨by decide +kernel, Records.isVacant_iff.mp rfl⟩
  have hverified := (minted_proofs_verify mintingGenerator_matching
    mintingGenerator_tellsApart).2 _ _ _ _ _ _ _ mintable_minting hproof
  refine ⟨proof, hproof, (hverified.1 _ ?_ _ nofun _ hadmissible _).mpr rfl⟩
  rintro content ⟨⟩
  rfl

end KyaOs.Proof
