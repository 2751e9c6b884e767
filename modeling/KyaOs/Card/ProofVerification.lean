import KyaOs.Concurrency.Async
import KyaOs.Json.Text
import KyaOs.Proof.ContentBinding
import KyaOs.Providers.NonceCache
import KyaOs.Utils.Base64

/-!
# Card proofs

`verifyCardProof`, with `jose`, the canonicalizer and WebCrypto as parameters and the
injected seams as requests, and the in-memory replay cache behind the last of them. A
call's clock shows one instant.
-/

namespace KyaOs.Card

open Js Concurrency Expiry Providers Proof Audit

inductive ProofAlg where
  | EdDSA
  | ES256
  deriving DecidableEq

def ProofAlg.text : ProofAlg → JsString
  | .EdDSA => js "EdDSA"
  | .ES256 => js "ES256"

structure CardProofMeta where
  prf : JsString
  alg : ProofAlg
  did : JsString
  kid : JsString
  audience : JsString
  nonce : JsString
  created : Nat
  expires : Nat
  requestHash : JsString
  /-- `cnf.jkt`. -/
  cnf : Option JsString := none
  jws : JsString
  httpSig : Option JsString := none
  deriving DecidableEq

section Schema

/-- Units that `.` does not match. -/
def isLineTerminator (u : UInt16) : Bool :=
  u = 0x0A || u = 0x0D || u = 0x2028 || u = 0x2029

/-- What follows `did:key:` or `did:web:`. -/
def afterDidMethod (text : JsString) : Option JsString :=
  if startsWith text (js "did:key:") ∨ startsWith text (js "did:web:") then some (text.drop 8)
  else none

/-- `Did`. -/
def isDid (text : JsString) : Bool :=
  (afterDidMethod text).any fun rest => rest ≠ [] ∧ rest.all (!isLineTerminator ·)

/-- `/^did:(key|web):.+#.+$/`: a fragment sign that is neither the first nor the last. -/
def isKid (text : JsString) : Bool :=
  (afterDidMethod text).any fun rest =>
    rest.all (!isLineTerminator ·) ∧ 0x23 ∈ (rest.drop 1).dropLast

def isBase64urlUnit (u : UInt16) : Bool :=
  (0x41 ≤ u && u ≤ 0x5A) || (0x61 ≤ u && u ≤ 0x7A) || isDigit u || u = 0x5F || u = 0x2D

def isBase64url (text : JsString) : Bool := text ≠ [] ∧ text.all isBase64urlUnit

def cardProofProfiles : List JsString := [js "org.kya-os/proof.v1", js "org.kya-os/proof@1"]

def cardProofFields : List JsString :=
  [js "prf", js "alg", js "did", js "kid", js "audience", js "nonce", js "created", js "expires",
    js "requestHash", js "cnf", js "jws", js "httpSig"]

variable (members : Members JsNumber)

/-- A member that is a string a check accepts. -/
def textField (field : String) (accepts : JsString → Bool) : Option JsString :=
  match members.lookup (js field) with
  | some (.string text) => if accepts text then some text else none
  | _ => none

/-- `z.number().int().nonnegative()`. -/
def secondsField (field : String) : Option Nat :=
  match members.lookup (js field) with
  | some (.number seconds) =>
    if seconds.isSafeInteger then
      match seconds.toInt? with
      | some (.ofNat n) => some n
      | _ => none
    else none
  | _ => none

def algField : Option ProofAlg :=
  match members.lookup (js "alg") with
  | some (.string text) =>
    if text = js "EdDSA" then some .EdDSA else if text = js "ES256" then some .ES256 else none
  | _ => none

/-- `CardProofCnfSchema.optional()`. -/
def cnfField : Option (Option JsString) :=
  match members.lookup (js "cnf") with
  | none => some none
  | some (.object cnf) => (textField cnf "jkt" isBase64url).map some
  | some _ => none

def httpSigField : Option (Option JsString) :=
  match members.lookup (js "httpSig") with
  | none => some none
  | some _ => (textField members "httpSig" (· ≠ [])).map some

/-- `CardProofMetaSchema.safeParse`. A member that is `undefined` is not listed. -/
def cardProofMetaSchema : JsonValue JsNumber → Option CardProofMeta
  | .object members =>
    if members.all (·.1 ∈ cardProofFields) then do
      return {
        prf := ← textField members "prf" (· ∈ cardProofProfiles)
        alg := ← algField members
        did := ← textField members "did" isDid
        kid := ← textField members "kid" isKid
        audience := ← textField members "audience" isDid
        nonce := ← textField members "nonce" isBase64url
        created := ← secondsField members "created"
        expires := ← secondsField members "expires"
        requestHash := ← textField members "requestHash" (· ≠ [])
        cnf := ← cnfField members
        jws := ← textField members "jws" (· ≠ [])
        httpSig := ← httpSigField members }
    else none
  | _ => none

end Schema

def coveredClaims (claims : CardProofMeta) : JsonValue JsNumber :=
  .object ([(js "prf", .string claims.prf), (js "alg", .string claims.alg.text),
      (js "did", .string claims.did), (js "kid", .string claims.kid),
      (js "audience", .string claims.audience), (js "nonce", .string claims.nonce),
      (js "created", .number (.ofNat claims.created)),
      (js "expires", .number (.ofNat claims.expires)),
      (js "requestHash", .string claims.requestHash)] ++
    (claims.cnf.map fun jkt => (js "cnf", .object [(js "jkt", .string jkt)])).toList)

structure ProofPublicJwk where
  kty : JsString
  crv : JsString
  x : JsString
  y : Option JsString := none

/-- The projection of a key that `jose` is given. -/
inductive JoseJwk where
  | ec (x : JsString) (y : Option JsString)
  | okp (x : JsString)
  deriving DecidableEq

def toJwk (key : ProofPublicJwk) : JoseJwk :=
  if key.kty = js "EC" then .ec key.x key.y else .okp key.x

structure FlattenedJws where
  encodedHeader : JsString
  payload : JsString
  signature : JsString

/-- `jose`, `json-canonicalize`, WebCrypto, and the text decoder, over imported keys `K`. -/
structure CardCrypto (K : Type) where
  canonicalize : JsonValue JsNumber → Except Error JsString
  sha256 : Bytes → Except Error Bytes
  calculateJwkThumbprint : JoseJwk → Except Error JsString
  importJWK : JoseJwk → ProofAlg → Except Error K
  isSmallOrderEd25519CryptoKey : K → Except Error Bool
  flattenedVerify : FlattenedJws → K → ProofAlg → Except Error Unit
  base64urlDecodeToString : JsString → Except Error JsString
  numbers : Doubles JsNumber

section Crypto

variable {K : Type} (crypto : CardCrypto K)

def canonicalPayloadBytes (claims : CardProofMeta) : Except Error Bytes :=
  encodeUtf8 <$> crypto.canonicalize (coveredClaims claims)

/-- Only the top-level `_meta` member of an object is taken off. -/
def stripParamsMeta : Option (JsonValue JsNumber) → Option (JsonValue JsNumber)
  | some (.object params) => some (.object (withoutKeys params (· = js "_meta")))
  | params => params

def computeRequestHash (request : ToolRequest JsNumber) : Except Error JsString := do
  let text ← crypto.canonicalize (canonicalRequest crypto.numbers
    { request with params := stripParamsMeta request.params })
  let digest ← crypto.sha256 (encodeUtf8 text)
  return js "sha-256=:" ++ btoa digest ++ js ":"

/-- `JSON.parse` of the decoded header, `none` for `null` or text that is malformed. -/
def decodeHeader (b64 : JsString) : Option Json :=
  if b64 = [] then none
  else (crypto.base64urlDecodeToString b64).toOption.bind Json.parse

/-- A member of a header is a text. -/
def headerIs (header : Json) (name : String) (text : JsString) : Bool :=
  match header.child (.key (js name)) with
  | some (.string value) => value = text
  | _ => false

/-- The parts of `header..signature`. -/
def detachedParts (jws : JsString) : Option (JsString × JsString) :=
  match jws.splitOn 0x2E with
  | [encodedHeader, [], signature] => some (encodedHeader, signature)
  | _ => none

/-- What the `try` block of `verifyDetachedJws` comes to. -/
def verifyUnder (claims : CardProofMeta) (key : ProofPublicJwk)
    (encodedHeader signature : JsString) : Except Error Bool := do
  let pub ← crypto.importJWK (toJwk key) claims.alg
  if ← crypto.isSmallOrderEd25519CryptoKey pub then return false
  else
    let payload ← canonicalPayloadBytes crypto claims
    crypto.flattenedVerify
      { encodedHeader, payload := base64urlEncodeFromBytes payload, signature } pub claims.alg
    return true

def verifyDetachedJws (claims : CardProofMeta) (key : ProofPublicJwk) : Bool :=
  match detachedParts claims.jws with
  | none => false
  | some (encodedHeader, signature) =>
    ((decodeHeader crypto encodedHeader).any fun header =>
      headerIs header "alg" claims.alg.text && headerIs header "kid" claims.kid) &&
      (verifyUnder crypto claims key encodedHeader signature).toOption = some true

def keyMatchesAlg (key : ProofPublicJwk) : ProofAlg → Bool
  | .ES256 => key.kty = js "EC" ∧ key.crv = js "P-256"
  | .EdDSA => key.kty = js "OKP" ∧ key.crv = js "Ed25519"

def thumbprint (key : ProofPublicJwk) : Except Error JsString :=
  crypto.calculateJwkThumbprint (toJwk key)

end Crypto

structure InMemoryNonceCache where
  seen : Records JsString
  insertsSinceSweep : Nat := 0

namespace InMemoryNonceCache

def sweepEvery : Nat := 1000

def cleanup (cache : InMemoryNonceCache) (now : ℚ) : InMemoryNonceCache :=
  { cache with seen := cache.seen.evict now }

/-- `Math.max(this.ttlMs, minTtlSec * 1000)`, where that is positive and finite. -/
def ttlMs (ttlSec : JsNumber) (minTtlSec : ℚ) : Option ℚ :=
  match ttlSec.scale 1000 with
  | .finite ttl =>
    if max ttl (minTtlSec * 1000) ≤ 0 then none else some (max ttl (minTtlSec * 1000))
  | .infinity true => if minTtlSec ≤ 0 then none else some (minTtlSec * 1000)
  | .infinity false | .nan => none

def insert (cache : InMemoryNonceCache) (now : ℚ) (key : JsString) (expiry : ℚ) :
    InMemoryNonceCache :=
  let seen := Function.update cache.seen key (some expiry)
  if sweepEvery ≤ cache.insertsSinceSweep + 1 then
    { seen, insertsSinceSweep := 0 : InMemoryNonceCache }.cleanup now
  else { seen, insertsSinceSweep := cache.insertsSinceSweep + 1 }

/-- `consume`, its answer and the cache after it. -/
def consume (ttlSec : JsNumber) (cache : InMemoryNonceCache) (now : ℚ) (nonce did : JsString)
    (minTtlSec : ℚ) : Except Error Bool × InMemoryNonceCache :=
  let key := did ++ 0 :: nonce
  if cache.seen.isVacant now key then
    match ttlMs ttlSec minTtlSec with
    | none => (.error (.rangeError (js "Nonce retention must be positive and finite")), cache)
    | some ttl => (.ok true, cache.insert now key (now + ttl))
  else (.ok false, cache)

variable {cache : InMemoryNonceCache} {ttlSec : JsNumber} {now minTtlSec bound expiry : ℚ}
  {nonce did key other : JsString}

theorem le_of_ttlMs {ttl : ℚ} (h : ttlMs ttlSec minTtlSec = some ttl) : minTtlSec * 1000 ≤ ttl := by
  unfold ttlMs at h
  split at h
  · split at h
    · cases h
    · obtain rfl := Option.some.inj h
      exact le_max_right _ _
  · split at h
    · cases h
    · obtain rfl := Option.some.inj h
      exact le_rfl
  · cases h
  · cases h

theorem consume_eq_true (h : (cache.consume ttlSec now nonce did minTtlSec).1 = .ok true) :
    cache.seen.Vacant now (did ++ 0 :: nonce) ∧ ∃ ttl, minTtlSec * 1000 ≤ ttl ∧
      (cache.consume ttlSec now nonce did minTtlSec).2 =
        cache.insert now (did ++ 0 :: nonce) (now + ttl) := by
  unfold consume at h ⊢
  by_cases hvacant : cache.seen.isVacant now (did ++ 0 :: nonce) = true
  · simp only [hvacant, if_true] at h ⊢
    cases httl : ttlMs ttlSec minTtlSec with
    | none =>
        rw [httl] at h
        cases h
    | some ttl => exact ⟨Records.isVacant_iff.mp hvacant, ttl, le_of_ttlMs httl, rfl⟩
  · simp only [hvacant] at h
    cases h

/-- Only an admission changes the cache. -/
theorem consume_unchanged (h : (cache.consume ttlSec now nonce did minTtlSec).1 ≠ .ok true) :
    (cache.consume ttlSec now nonce did minTtlSec).2 = cache := by
  unfold consume at h ⊢
  by_cases hvacant : cache.seen.isVacant now (did ++ 0 :: nonce) = true
  · simp only [hvacant, if_true] at h ⊢
    cases httl : ttlMs ttlSec minTtlSec with
    | none => rfl
    | some ttl =>
        rw [httl] at h
        exact absurd rfl h
  · simp only [hvacant]
    rfl

/-- What a sweep would keep, an insertion keeps. -/
theorem remembers_insert
    (h : Records.Remembers (Function.update cache.seen other (some expiry)) now key bound) :
    (cache.insert now other expiry).seen.Remembers now key bound := by
  unfold insert
  split
  · exact h.evict
  · exact h

end InMemoryNonceCache

inductive ProofAssurance where
  | L3
  | L3minus
  deriving DecidableEq

structure ProofVerifyResult where
  ok : Bool
  reasons : List JsString
  level : Option ProofAssurance := none
  did : Option JsString := none
  warnings : List JsString := []
  deriving DecidableEq

/-- What a call injects besides its seams: `now` is the instant its clock shows, and
`hasDidKeys`, `hasNonceCache` say which optional seams are wired. -/
structure VerifyProofDeps where
  expectedAudience : JsString
  now : ℚ
  hasDidKeys : Bool := true
  trustResolveKeyAuthority : Bool := false
  tokenCnfJkt : Option JsString := none
  hasNonceCache : Bool := true

inductive CardRequest where
  | resolveKey (kid : JsString)
  | resolveDidKeys (did : JsString)
  /-- A promise of the cryptography. -/
  | settled
  | consume (nonce did : JsString) (minTtlSec : ℚ)

@[reducible] def CardRequest.Answer : CardRequest → Type
  | .resolveKey _ => ProofPublicJwk
  | .resolveDidKeys _ => List ProofPublicJwk
  | .settled => Unit
  | .consume .. => Bool

/-- The cache, and the latest instant it has been asked at. -/
structure CardWorld where
  nonceCache : InMemoryNonceCache
  now : ℚ

abbrev cardSetting : Setting where
  State := CardWorld
  Error := Error
  Request := CardRequest
  Answer := CardRequest.Answer

abbrev CardM (α : Type) := Async cardSetting α

/-- `await` of a request's promise. -/
def reply (request : CardRequest) : CardM request.Answer :=
  Async.ask (I := cardSetting) request

def maxTtlSec : Nat := 60

def defaultSkewSec : JsNumber := .ofNat 5

/-- `x + q` for a finite `q`. -/
def plus (x : JsNumber) (q : ℚ) : JsNumber :=
  match x with
  | .finite value => .finite (value + q)
  | x => x

/-- `-x`. -/
def minus : JsNumber → JsNumber
  | .finite value => .finite (-value)
  | .infinity negative => .infinity (!negative)
  | .nan => .nan

/-- A reason, where a check fails. -/
def reason (text : String) (fails : Prop) [Decidable fails] : List JsString :=
  if fails then [js text] else []

section Verify

variable {K : Type} (crypto : CardCrypto K) (skewSec : Option JsNumber)

/-- The key, and a reason where there is none. -/
def resolveKey (kid : JsString) : CardM (Option ProofPublicJwk × List JsString) :=
  tryCatch (do
    let key ← reply (.resolveKey kid)
    return (some key, []))
    fun _ => pure (none, [js "key_unresolvable"])

/-- Whether the key's thumbprint is among those of the published keys. -/
def isPublished (key : ProofPublicJwk) (didKeys : List ProofPublicJwk) : Except Error Bool := do
  let keyJkt ← thumbprint crypto key
  let published ← didKeys.mapM (thumbprint crypto)
  return keyJkt ∈ published

def membershipReasons (key : ProofPublicJwk) (didKeys : List ProofPublicJwk) : List JsString :=
  match isPublished crypto key didKeys with
  | .error _ => [js "thumbprint_computation_failed"]
  | .ok published => reason "kid_not_in_did_document" (published = false)

/-- The published keys, `none` where the seam throws. -/
def resolveDidKeys (did : JsString) : CardM (Option (List ProofPublicJwk)) :=
  tryCatch (some <$> reply (.resolveDidKeys did)) fun _ => pure none

def assertDidMembership (key : ProofPublicJwk) (did : JsString) (deps : VerifyProofDeps) :
    CardM (List JsString) :=
  if deps.hasDidKeys then do
    let didKeys ← resolveDidKeys did
    match didKeys with
    | none => return [js "did_keys_unresolvable"]
    | some didKeys => do
      reply .settled
      return membershipReasons crypto key didKeys
  else return reason "did_membership_unverifiable" (deps.trustResolveKeyAuthority = false)

def checkWindow (claims : CardProofMeta) (now : ℚ) : List JsString :=
  let skew := skewSec.getD defaultSkewSec
  let second : ℚ := ⌊now / 1000⌋
  reason "invalid_window" (claims.expires ≤ claims.created) ++
    reason "ttl_too_long" ((maxTtlSec : Int) < (claims.expires : Int) - claims.created) ++
    reason "created_in_future" ((plus skew second).ltInt claims.created) ++
    reason "expired" ((plus (minus skew) second).gtInt claims.expires)

structure CnfFusion where
  level : ProofAssurance := .L3minus
  reasons : List JsString := []
  warnings : List JsString := []

def checkCnfFusion (claims : CardProofMeta) (key : ProofPublicJwk) (deps : VerifyProofDeps) :
    CnfFusion :=
  match thumbprint crypto key with
  | .error _ => { reasons := [js "thumbprint_computation_failed"] }
  | .ok keyJkt =>
    let mismatch := reason "cnf_key_mismatch" (claims.cnf.any (· ≠ keyJkt))
    match deps.tokenCnfJkt, claims.cnf with
    | none, cnf =>
      { reasons := mismatch, warnings := reason "cnf_present_but_token_unfused" (cnf.isSome) }
    | some _, none => { reasons := mismatch ++ [js "cnf_required_by_token"] }
    | some token, some jkt =>
      if jkt ≠ token then { reasons := mismatch ++ [js "cnf_token_mismatch"] }
      else { level := if jkt = keyJkt then .L3 else .L3minus, reasons := mismatch }

def consumeNonce (claims : CardProofMeta) (deps : VerifyProofDeps) : CardM (List JsString) :=
  if deps.hasNonceCache then
    tryCatch (do
      let minTtlSec ← Async.ofExcept (nonceRetentionSeconds (.ofNat 1)
        (plus (skewSec.getD defaultSkewSec) claims.expires) deps.now)
      let consumed ← reply (.consume claims.nonce claims.did minTtlSec)
      return reason "nonce_replayed" (consumed = false))
      fun _ => pure [js "nonce_cache_unavailable"]
  else return [js "nonce_seam_missing"]

def algReasons (claims : CardProofMeta) (key : ProofPublicJwk) : List JsString :=
  reason "alg_key_mismatch" (keyMatchesAlg key claims.alg = false)

/-- The signature is tested under a key of the right type only. -/
def signatureReasons (claims : CardProofMeta) (key : ProofPublicJwk) : List JsString :=
  reason "invalid_signature"
    (keyMatchesAlg key claims.alg = true ∧ verifyDetachedJws crypto claims key = false)

/-- What the checks of the bindings find, in order, around those that need a key. -/
def boundReasons (claims : CardProofMeta) (computedHash : JsString) (deps : VerifyProofDeps)
    (alg signature : List JsString) : List JsString :=
  alg ++ reason "audience_mismatch" (claims.audience ≠ deps.expectedAudience) ++
    reason "request_hash_mismatch" (claims.requestHash ≠ computedHash) ++
    checkWindow skewSec claims deps.now ++ signature

def conclude (claims : CardProofMeta) (reasons : List JsString) (fusion : CnfFusion) :
    ProofVerifyResult :=
  if reasons = [] then
    { ok := true, reasons, level := fusion.level, did := claims.did, warnings := fusion.warnings }
  else { ok := false, reasons, warnings := fusion.warnings }

/-- Every binding is authenticated before the nonce is claimed. -/
def claimNonce (claims : CardProofMeta) (deps : VerifyProofDeps) (reasons : List JsString)
    (fusion : CnfFusion) : CardM ProofVerifyResult :=
  if reasons = [] then do
    let replayed ← consumeNonce skewSec claims deps
    return conclude claims replayed fusion
  else return conclude claims reasons fusion

/-- `verifyCardProof`, of a well-formed proof. -/
def verifyClaims (claims : CardProofMeta) (req : ToolRequest JsNumber) (deps : VerifyProofDeps) :
    CardM ProofVerifyResult := do
  let resolved ← resolveKey claims.kid
  let computedHash ← Async.ofExcept (computeRequestHash crypto req)
  let foreign := reason "kid_did_mismatch" (claims.kid.takeWhile (· ≠ 0x23) ≠ claims.did)
  match resolved.1 with
  | none =>
    claimNonce skewSec claims deps
      (foreign ++ resolved.2 ++ boundReasons skewSec claims computedHash deps [] []) {}
  | some key => do
    let unbound ← assertDidMembership crypto key claims.did deps
    reply .settled
    let fusion := checkCnfFusion crypto claims key deps
    claimNonce skewSec claims deps
      (foreign ++ resolved.2 ++ unbound ++
        boundReasons skewSec claims computedHash deps (algReasons claims key)
          (signatureReasons crypto claims key) ++ fusion.reasons) fusion

def verifyCardProof (proof : JsonValue JsNumber) (req : ToolRequest JsNumber)
    (deps : VerifyProofDeps) : CardM ProofVerifyResult :=
  match cardProofMetaSchema proof with
  | none => pure { ok := false, reasons := [js "malformed_proof"] }
  | some claims => verifyClaims crypto skewSec claims req deps

end Verify

/-- The answers that the seams of a call can give. -/
structure ProofSeams where
  resolveKey : JsString → Except Error ProofPublicJwk → Prop
  resolveDidKeys : JsString → Except Error (List ProofPublicJwk) → Prop

structure CardCall where
  proof : JsonValue JsNumber
  req : ToolRequest JsNumber
  deps : VerifyProofDeps
  seams : ProofSeams

/-- Any number of verifications over one cache and with one skew. The instants are
non-decreasing in the order in which the calls come to the cache. -/
def cardProgram {K : Type} (crypto : CardCrypto K) (skewSec : Option JsNumber)
    (ttlSec : JsNumber) {ι : Type} (calls : ι → CardCall) :
    Program cardSetting ι ProofVerifyResult where
  code c := verifyCardProof crypto skewSec (calls c).proof (calls c).req (calls c).deps
  serves c
    | .resolveKey kid, world, answer, world' =>
      (calls c).seams.resolveKey kid answer ∧ world' = world
    | .resolveDidKeys did, world, answer, world' =>
      (calls c).seams.resolveDidKeys did answer ∧ world' = world
    | .settled, world, answer, world' => answer = .ok () ∧ world' = world
    | .consume nonce did minTtlSec, world, answer, world' =>
      world.now ≤ (calls c).deps.now ∧
        (answer, world'.nonceCache) =
          world.nonceCache.consume ttlSec (calls c).deps.now nonce did minTtlSec ∧
        world'.now = (calls c).deps.now
  environment _ _ := False

end KyaOs.Card
