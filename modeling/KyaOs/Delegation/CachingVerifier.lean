import KyaOs.Delegation.VcVerifier
import KyaOs.Utils.TtlCache

/-!
# The verifier and its signature cache

`DelegationCredentialVerifier` as calls of one instance see it: the cache of signature
results is what they share. The DID resolvers, the signature function and `jose` are fixed
functions of what they are handed, so of the awaits of a signature check only that they let
other calls run is left. The clock and the status lists answer anew each time.
-/

namespace KyaOs.CachingVerifier

open Js Untyped Concurrency Untrusted Middleware

inductive Stage where
  | basic
  | signature
  | status
  | complete
  deriving DecidableEq

inductive StatusOutcome where
  | revoked
  | statusUnresolvable
  deriving DecidableEq

structure DelegationVCVerificationResult where
  valid : Bool
  reason : Option JsString := none
  statusOutcome : Option StatusOutcome := none
  stage : Stage
  cached : Bool := false

structure StatusCheckResult where
  valid : Bool
  reason : Option JsString := none
  outcome : Option StatusOutcome := none

abbrev DIDResolver := Untyped → Except Error (Option (List VerificationMethod))

structure VerifyDelegationVCOptions where
  skipCache : Bool := false
  skipSignature : Bool := false
  skipStatus : Bool := false
  didResolver : Option DIDResolver := none
  hasStatusListResolver : Bool := false

/-- A credential as a caller hands it in. -/
structure CredentialValue where
  value : Untyped
  wellFormed : ∀ v, value = some v → v.WellFormed

/-- What a verifier is constructed with, and `jose`. -/
structure VerifierConfig where
  runtime : Runtime
  didResolver : Option DIDResolver
  hasStatusListResolver : Bool
  signatureVerifier : Option (Untyped → Untyped → Except Error Verification)
  /-- Throws unless the key imports; whether it is a small-order point. -/
  importKey : Untyped → Except Error Bool
  compactVerify : JsString → Untyped → Except Error Unit
  cacheTtl : Option JsNumber := none
  maxCacheSize : Option JsNumber := none

inductive VerifierRequest where
  /-- `Date.now()` in the basic checks. -/
  | basicClock
  /-- `Date.now()` in the cache. -/
  | cacheClock
  /-- The awaits of a signature check. -/
  | signatureAwaits
  | checkStatus (credentialStatus : Untyped)

abbrev VerifierRequest.Answer : VerifierRequest → Type
  | .basicClock | .cacheClock => ℚ
  | .signatureAwaits => Unit
  | .checkStatus _ => Bool

abbrev VerifierWorld : Setting where
  State := TtlCache Verification
  Error := Error
  Request := VerifierRequest
  Answer := VerifierRequest.Answer

abbrev VerifierM := Async VerifierWorld

def ask (request : VerifierRequest) : VerifierM request.Answer :=
  Async.ask (I := VerifierWorld) request

namespace VerifierConfig

variable (config : VerifierConfig)

def ttlOptions : TtlOptions where
  ttlMs := config.cacheTtl.getD (.ofNat 60000)
  maxEntries := config.maxCacheSize.getD (.ofNat 1000)

/-- A denial whose reason quotes a value. -/
def quoting (before : JsString) (value : Untyped) (after : JsString) :
    Except Error Verification := do
  return denied (before ++ (← value.text config.runtime) ++ after)

/-- `verifySignature` from the issuer's document on. -/
def checkProof (verify : Untyped → Untyped → Except Error Verification) (vc : Untyped)
    (didDoc : List VerificationMethod) : Except Error Verification :=
  let proof := vc.member? (js "proof")
  let verificationMethodId := proof.member? (js "verificationMethod")
  if !proof.truthy then return denied (js "Proof is missing")
  else if !verificationMethodId.truthy then return denied (js "Proof missing verificationMethod")
  else
    match didDoc.find? fun method => verificationMethodId.isString method.id with
    | none => config.quoting (js "Verification method ") verificationMethodId (js " not found")
    | some method =>
      if !method.publicKeyJwk.truthy then return denied noUsableKey
      else verify vc method.publicKeyJwk

/-- The part of `verifySignature` that its `catch` answers for. -/
def checkSignature (didResolver : Option DIDResolver) (vc : Untyped) :
    Except Error Verification := do
  let issuerDid ← issuerOf vc
  match didResolver, config.signatureVerifier with
  | some resolve, some verify =>
    let proof := vc.member? (js "proof")
    let type := proof.member? (js "type")
    if proof.truthy && !isSupportedCredentialProofType type then
      config.quoting (js "Unsupported credential proof.type: ") type []
    else
      match ← resolve issuerDid with
      | none => config.quoting (js "Could not resolve issuer DID: ") issuerDid []
      | some didDoc => config.checkProof verify vc didDoc
  | _, _ => return denied (js "No DID resolver or signature verifier configured — " ++
      js "signature cannot be verified")

def verifySignature (didResolver : Option DIDResolver) (vc : Untyped) : Verification :=
  match config.checkSignature didResolver vc with
  | .ok result => result
  | .error error => denied (js "Signature verification error: " ++ error.messageOrUnknown)

/-- The part of `verifyVcJwtSignature` that its last `catch` answers for. -/
def checkEnvelope (jwt : JsString) (publicKeyJwk : Untyped) : Except Error Verification := do
  if ← config.importKey publicKeyJwk then
    return denied (js "Verification method key is a small-order Ed25519 point")
  else
    config.compactVerify jwt publicKeyJwk
    return { valid := true }

/-- `verifyVcJwtSignature` from the issuer's document on. -/
def checkToken (jwt : JsString) (kid : Option JsString) (didDoc : List VerificationMethod) :
    Verification :=
  match selectVerificationMethod didDoc kid with
  | none => denied (match kid with
      | some (unit :: units) =>
        js "Verification method " ++ unit :: units ++ js " not found in DID Document"
      | _ => js "DID Document has no verification method")
  | some method =>
    if !method.publicKeyJwk.truthy then denied noUsableKey
    else
      match config.checkEnvelope jwt method.publicKeyJwk with
      | .ok result => result
      | .error error => denied (js "JWT envelope signature is not valid: " ++ errMsg error)

def verifyVcJwtSignature (didResolver : Option DIDResolver) (jwt : JsString)
    (prepared : PreparedVcJwt) : Except Error Verification :=
  match didResolver with
  | none => return denied (js "No DID resolver configured — signature cannot be verified")
  | some resolve =>
    match resolve prepared.issuerDid with
    | .error error =>
      config.quoting (js "Could not resolve issuer DID ") prepared.issuerDid
        (js ": " ++ errMsg error)
    | .ok none => config.quoting (js "Could not resolve issuer DID: ") prepared.issuerDid []
    | .ok (some didDoc) => return config.checkToken jwt prepared.kid didDoc

/-- The part of `checkCredentialStatus` that its `catch` answers for. -/
def askStatus (credentialStatus : Untyped) : VerifierM StatusCheckResult := do
  if ← ask (.checkStatus credentialStatus) then
    let reason ← Async.ofExcept (revokedStatusReason config.runtime credentialStatus)
    return { valid := false, reason := some reason, outcome := some .revoked }
  else return { valid := true }

def checkCredentialStatus (hasResolver : Bool) (credentialStatus : Untyped) :
    VerifierM StatusCheckResult :=
  if !hasResolver then
    return {
      valid := false
      reason := some (js "Credential has credentialStatus but no status list resolver " ++
        js "is configured — cannot verify revocation status")
      outcome := some .statusUnresolvable }
  else
    tryCatch (config.askStatus credentialStatus) fun error =>
      return {
        valid := false
        reason := some (js "Status check error: " ++ error.messageOrUnknown)
        outcome := some .statusUnresolvable }

def statusResult (options : VerifyDelegationVCOptions) (vc : Untyped) :
    VerifierM StatusCheckResult :=
  let credentialStatus := vc.member? (js "credentialStatus")
  if !options.skipStatus && credentialStatus.truthy then
    config.checkCredentialStatus (options.hasStatusListResolver || config.hasStatusListResolver)
      credentialStatus
  else return { valid := true }

/-- The stage of a verdict: the check that failed, signature first. -/
def stageOf (signatureValid statusValid : Bool) : Stage :=
  if signatureValid && statusValid then .complete
  else if signatureValid then .status
  else .signature

def combineVerificationResult (signature : Verification) (status : StatusCheckResult)
    (cached : Bool) : DelegationVCVerificationResult where
  valid := signature.valid && status.valid
  reason :=
    if signature.valid && status.valid then none
    else if KyaOs.truthy signature.reason then signature.reason
    else if KyaOs.truthy status.reason then status.reason
    else some (js "Unknown failure")
  statusOutcome := status.outcome
  stage := stageOf signature.valid status.valid
  cached

/-- Whether a call may use the cache. -/
def cacheAllowed (options : VerifyDelegationVCOptions) : Bool :=
  !options.skipCache && !options.skipSignature && options.didResolver.isNone &&
    !options.hasStatusListResolver

/-- `di\0${vc.id ?? ''}\0${canonicalizeJson(vc)}`. -/
def credentialKey (vc : Untyped) : Except Error JsString := do
  let id ← vc.member (js "id")
  let idText ← (id.orElse (.string [])).toText config.runtime.numbers
  match vc with
  | some v => return js "di" ++ 0 :: idText ++ 0 :: (← canonicalizeJson config.runtime.numbers v)
  | none => throw (.typeError (js "Cannot canonicalize undefined at $"))

def cacheKeyForCredential (vc : Untyped) (options : VerifyDelegationVCOptions) :
    Option JsString :=
  if cacheAllowed options then (config.credentialKey vc).toOption else none

def cacheKeyForJwt (jwt : JsString) (vc : Untyped) (options : VerifyDelegationVCOptions) :
    Except Error (Option JsString) :=
  if cacheAllowed options then some <$> Untrusted.cacheKeyForJwt config.runtime jwt vc
  else return none

/-- An unexpired result in the cache. -/
def lookupSignature (key : JsString) : VerifierM (Option Verification) := do
  let now ← ask .cacheClock
  let cache ← Async.state (I := VerifierWorld)
  Async.update (I := VerifierWorld) fun _ => (cache.get now key).2
  return (cache.get now key).1

/-- The result of a signature check, remembered if it is valid. -/
def storeSignature (key : JsString) (result : Verification) : VerifierM Unit :=
  if result.valid then do
    let now ← ask .cacheClock
    Async.update (I := VerifierWorld) fun cache => cache.set config.ttlOptions now key result
  else return ()

def cachedSignature (cacheKey : Option JsString) (run : VerifierM Verification) :
    VerifierM (Verification × Bool) :=
  match cacheKey with
  | none => do return (← run, false)
  | some key => do
    match ← lookupSignature key with
    | some hit => return (hit, true)
    | none =>
      let result ← run
      config.storeSignature key result
      return (result, false)

def basicFailure (reason : JsString) : DelegationVCVerificationResult where
  valid := false
  reason := some reason
  stage := .basic

/-- The verdict from the signature and status checks on. -/
def finalizeVerification (options : VerifyDelegationVCOptions) (vc : Untyped)
    (cacheKey : Option JsString) (run : VerifierM Verification) :
    VerifierM DelegationVCVerificationResult := do
  let signature ← config.cachedSignature cacheKey run
  let status ← config.statusResult options vc
  return combineVerificationResult signature.1 status signature.2

def runSignature (options : VerifyDelegationVCOptions) (vc : Untyped) : VerifierM Verification :=
  if options.skipSignature then return { valid := true }
  else do
    ask .signatureAwaits
    return config.verifySignature (options.didResolver <|> config.didResolver) vc

def verifyDelegationCredential (vc : Untyped) (options : VerifyDelegationVCOptions) :
    VerifierM DelegationVCVerificationResult := do
  let now ← ask .basicClock
  match ← Async.ofExcept (validateBasicProperties config.runtime now vc true) with
  | some reason => return basicFailure reason
  | none =>
    config.finalizeVerification options vc (config.cacheKeyForCredential vc options)
      (config.runSignature options vc)

def runTokenSignature (options : VerifyDelegationVCOptions) (jwt : JsString)
    (prepared : PreparedVcJwt) : VerifierM Verification :=
  if options.skipSignature then return { valid := true }
  else do
    ask .signatureAwaits
    Async.ofExcept (config.verifyVcJwtSignature (options.didResolver <|> config.didResolver) jwt
      prepared)

def verifyDelegationJwt (jwt : JsString) (options : VerifyDelegationVCOptions) :
    VerifierM DelegationVCVerificationResult := do
  let now ← ask .basicClock
  match ← Async.ofExcept (prepareVcJwtCredential config.runtime now jwt) with
  | .error reason => return basicFailure reason
  | .ok prepared =>
    let cacheKey ← Async.ofExcept (config.cacheKeyForJwt jwt prepared.vc options)
    config.finalizeVerification options prepared.vc cacheKey
      (config.runTokenSignature options jwt prepared)

end VerifierConfig

/-- A key of an entry that `clearCacheEntry(id)` deletes. -/
def isKeyOf (id key : JsString) : Bool :=
  startsWith key (js "di" ++ 0 :: id ++ [0]) || startsWith key (js "jwt" ++ 0 :: id ++ [0])

inductive VerifierCall where
  | verifyDelegationCredential (vc : CredentialValue) (options : VerifyDelegationVCOptions)
  | verifyDelegationJwt (jwt : JsString) (options : VerifyDelegationVCOptions)
  | clearCache
  | clearCacheEntry (id : JsString)

/-- What a call does; clearing answers nothing. -/
def VerifierConfig.code (config : VerifierConfig) :
    VerifierCall → VerifierM (Option DelegationVCVerificationResult)
  | .verifyDelegationCredential vc options =>
    some <$> config.verifyDelegationCredential vc.value options
  | .verifyDelegationJwt jwt options => some <$> config.verifyDelegationJwt jwt options
  | .clearCache => do
    Async.update (I := VerifierWorld) fun _ => .clear
    return none
  | .clearCacheEntry id => do
    Async.update (I := VerifierWorld) fun cache => cache.deleteWhere (isKeyOf id)
    return none

end KyaOs.CachingVerifier
