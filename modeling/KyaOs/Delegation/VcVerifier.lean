import KyaOs.Delegation.BasicChecks
import KyaOs.Delegation.UntrustedChain
import KyaOs.Utils.PlainObject
import KyaOs.Utils.Utf8Decode

/-!
# Verification of a delegation credential

`DelegationCredentialVerifier` on credentials of any JSON type, in both wire forms: with an
embedded proof, or as a compact VC-JWT whose envelope is the proof. A cached signature
result only repeats what the signature check of the same credential came to.
-/

namespace KyaOs.Untrusted

open Js Untyped JsonValue Audit Concurrency Middleware

/-- `errMsg`, where the text of a thrown value that is no `Error` is left out. -/
def errMsg : Error → JsString
  | .nonError => []
  | error => error.messageOrUnknown

def isSupportedCredentialProofType (type : Untyped) : Bool :=
  type.isString (js "Ed25519Signature2020") || type.isString (js "DataIntegrityProof")

/-- The proof's `proofValue`, empty unless it is a string. -/
def readCredentialProofValue (proof : Untyped) : JsString :=
  match proof.member? (js "proofValue") with
  | some (.string value) => value
  | _ => []

/-- The copy of a credential without its `proof`, made by assignment. -/
def withoutProof (vc : Untyped) : JsonValue JsNumber :=
  match vc with
  | some (.object members) =>
    (PlainObject.assignAll {} (fun key => key ≠ js "proof") members).toValue
  | _ => .object []

section Signature

variable (runtime : Runtime)

/-- What the signature verifier of the middleware checks the proof's signature with. -/
def signatureInput (vc : Untyped) (publicKeyJwk : Untyped) :
    Except Error (Except JsString (Bytes × Bytes × Bytes)) := do
  let proofValue := readCredentialProofValue (vc.member? (js "proof"))
  if proofValue = [] then return .error (js "Missing proofValue in proof")
  let canonical ← canonicalizeJson runtime.numbers (withoutProof vc)
  let sigBytes ← base64urlDecodeToBytes proofValue
  match publicKeyJwk.member? (js "x") with
  | some (.string (unit :: units)) =>
    return .ok (encodeUtf8 canonical, sigBytes, ← base64urlDecodeToBytes (unit :: units))
  | x =>
    if x.truthy then throw (.typeError (js "base64.replace is not a function"))
    return .error (js "No x field in publicKeyJwk")

/-- `{ valid: false, reason }`. -/
def denied (reason : JsString) : Verification := { valid := false, reason := some reason }

/-- A denial whose reason quotes a value. -/
def deniedQuoting (before : JsString) (value : Untyped) (after : JsString) : GateM Verification :=
  Async.ofExcept do return denied (before ++ (← value.text runtime) ++ after)

/-- The `signatureVerifier` of the middleware. -/
def signatureVerifier (vc : Untyped) (publicKeyJwk : Untyped) : GateM Verification := do
  match ← Async.ofExcept (signatureInput runtime vc publicKeyJwk) with
  | .error reason => return denied reason
  | .ok (data, sigBytes, publicKey) =>
    if ← Async.ask (I := Gates) (.verifyEd25519 data sigBytes publicKey) then
      return { valid := true }
    else return denied (js "Signature verification failed")

/-- `typeof vc.issuer === "string" ? vc.issuer : vc.issuer.id`. -/
def issuerOf (vc : Untyped) : Except Error Untyped := do
  match ← vc.member (js "issuer") with
  | some (.string did) => return some (.string did)
  | issuer => issuer.member (js "id")

def noUsableKey : JsString :=
  js "Verification method has no usable public key (" ++
    js "publicKeyJwk / publicKeyMultibase / publicKeyBase58)"

/-- `verifySignature` from the issuer's document on. -/
def verifyByDocument (vc : Untyped) (didDoc : List VerificationMethod) : GateM Verification :=
  let proof := vc.member? (js "proof")
  let verificationMethodId := proof.member? (js "verificationMethod")
  if !proof.truthy then return denied (js "Proof is missing")
  else if !verificationMethodId.truthy then return denied (js "Proof missing verificationMethod")
  else
    match didDoc.find? fun method => verificationMethodId.isString method.id with
    | none => deniedQuoting runtime (js "Verification method ") verificationMethodId
      (js " not found")
    | some method =>
      if !method.publicKeyJwk.truthy then return denied noUsableKey
      else signatureVerifier runtime vc method.publicKeyJwk

/-- The part of `verifySignature` that its `catch` answers for. -/
def checkSignature (vc : Untyped) : GateM Verification := do
  let issuerDid ← Async.ofExcept (issuerOf vc)
  let proof := vc.member? (js "proof")
  let type := proof.member? (js "type")
  if proof.truthy && !isSupportedCredentialProofType type then
    deniedQuoting runtime (js "Unsupported credential proof.type: ") type []
  else
    match ← Async.ask (I := Gates) (.resolveDid issuerDid) with
    | none => deniedQuoting runtime (js "Could not resolve issuer DID: ") issuerDid []
    | some didDoc => verifyByDocument runtime vc didDoc

def verifySignature (vc : Untyped) : GateM Verification :=
  tryCatch (checkSignature runtime vc) fun error =>
    return denied (js "Signature verification error: " ++ error.messageOrUnknown)

/-- The text of a failed `credentialStatus`, whose members its reason quotes. -/
def revokedStatusReason (credentialStatus : Untyped) : Except Error JsString := do
  return js "Credential revoked via " ++
    (← (← credentialStatus.member (js "type")).text runtime) ++ js " (" ++
    (← (← credentialStatus.member (js "statusPurpose")).text runtime) ++ js ")"

/-- The part of `checkCredentialStatus` that its `catch` answers for. -/
def askStatus (credentialStatus : Untyped) : GateM Verification := do
  if ← Async.ask (I := Gates) (.checkStatus credentialStatus) then
    Async.ofExcept do return denied (← revokedStatusReason runtime credentialStatus)
  else return { valid := true }

def checkCredentialStatus (hasResolver : Bool) (credentialStatus : Untyped) :
    GateM Verification :=
  if !hasResolver then
    return denied (js "Credential has credentialStatus but no status list resolver " ++
      js "is configured — cannot verify revocation status")
  else
    tryCatch (askStatus runtime credentialStatus) fun error =>
      return denied (js "Status check error: " ++ error.messageOrUnknown)

/-- Fold the signature and status results into the final verdict. -/
def combineVerificationResult (signatureResult statusResult : Verification) : Verification :=
  let valid := signatureResult.valid && statusResult.valid
  { valid
    reason :=
      if valid then none
      else if KyaOs.truthy signatureResult.reason then signatureResult.reason
      else if KyaOs.truthy statusResult.reason then statusResult.reason
      else some (js "Unknown failure") }

def signatureResult (vc : Untyped) (skipSignature : Bool) : GateM Verification :=
  if skipSignature then return { valid := true } else verifySignature runtime vc

def statusResult (hasStatusResolver : Bool) (vc : Untyped) : GateM Verification :=
  let credentialStatus := vc.member? (js "credentialStatus")
  if credentialStatus.truthy then
    checkCredentialStatus runtime hasStatusResolver credentialStatus
  else return { valid := true }

/-- The signature and status checks, once the basic checks have passed. -/
def verifyChecked (hasStatusResolver : Bool) (vc : Untyped) (skipSignature : Bool) :
    GateM Verification := do
  let signature ← signatureResult runtime vc skipSignature
  let status ← statusResult runtime hasStatusResolver vc
  return combineVerificationResult signature status

/-- `verifyDelegationCredential(vc, { skipSignature })`. -/
def verifyDelegationCredential (hasStatusResolver : Bool) (vc : Untyped) (skipSignature : Bool) :
    GateM Verification := do
  let now ← Async.ask (I := Gates) .now
  match ← Async.ofExcept (validateBasicProperties runtime now vc true) with
  | some reason => return denied reason
  | none => verifyChecked runtime hasStatusResolver vc skipSignature

end Signature

/-- The parsed segments of a VC-JWT. -/
structure ParsedVCJWT where
  header : JsonValue JsNumber
  payload : JsonValue JsNumber

/-- A VC-JWT with the coordinates to look up its key. -/
structure PreparedVcJwt where
  vc : Untyped
  issuerDid : Untyped
  kid : Option JsString

section Envelope

variable (runtime : Runtime)

/-- One segment of a VC-JWT as JSON. -/
def parseSegment (segment : JsString) : Option (JsonValue JsNumber) :=
  match base64urlDecodeToString segment with
  | .ok text => JsonValue.parse runtime.numbers text
  | .error _ => none

def parseVCJWT (jwt : JsString) : Option ParsedVCJWT :=
  match jwt.splitOn 0x2E with
  | [header, payload, _] => do
    return { header := ← parseSegment runtime header, payload := ← parseSegment runtime payload }
  | _ => none

def jwtNbfLeewaySeconds : ℚ := 30

/-- A present time claim must be a finite number. -/
def timeClaimError (payload : JsonValue JsNumber) (claim : JsString) : Option JsString :=
  match Untyped.member? (some payload) claim with
  | none => none
  | value =>
    if (epochSeconds? value).isSome then none
    else some (js "JWT " ++ claim ++ js " must be a finite NumericDate")

def validateJwtTimeBounds (payload : JsonValue JsNumber) (now : ℚ) : Option JsString :=
  let exp := epochSeconds? (Untyped.member? (some payload) (js "exp"))
  let nbf := epochSeconds? (Untyped.member? (some payload) (js "nbf"))
  (timeClaimError payload (js "exp")).orElse fun _ =>
  (timeClaimError payload (js "nbf")).orElse fun _ =>
  if exp.any fun exp => exp ≤ now / 1000 then some (js "JWT expired (exp)")
  else if nbf.any fun nbf => now / 1000 + jwtNbfLeewaySeconds < nbf then
    some (js "JWT not yet valid (nbf)")
  else none

/-- The `kid` of a header, which is a string where it is present. -/
def kid? (header : JsonValue JsNumber) : Option (Option JsString) :=
  match Untyped.member? (some header) (js "kid") with
  | none => some none
  | some (.string kid) => some (some kid)
  | some _ => none

/-- The checks of the credential that a VC-JWT holds, or the reason of a failure. -/
def checkJwtCredential (now : ℚ) (payload : JsonValue JsNumber) (kid : Option JsString) :
    Except Error (Except JsString PreparedVcJwt) := do
  let vc := Untyped.member? (some payload) (js "vc")
  let iss := Untyped.member? (some payload) (js "iss")
  match ← validateBasicProperties runtime now vc false with
  | some reason => return .error reason
  | none =>
    if !strictEquals? ((credentialIssuerDid vc).map .string) iss then
      return .error
        (js "Credential \x60issuer\x60 does not match the JWT \x60iss\x60 (the verified signer)")
    else return .ok { vc, issuerDid := iss, kid }

/-- The checks of a VC-JWT without the network, or the reason of a failure. -/
def prepareVcJwtCredential (now : ℚ) (jwt : JsString) :
    Except Error (Except JsString PreparedVcJwt) :=
  match parseVCJWT runtime jwt with
  | some ⟨.object header, .object payload⟩ =>
    match kid? (.object header) with
    | none => return .error (js "Not a valid VC-JWT (parse failed)")
    | some kid =>
      match validateJwtTimeBounds (.object payload) now with
      | some reason => return .error reason
      | none => checkJwtCredential runtime now (.object payload) kid
  | _ => return .error (js "Not a valid VC-JWT (parse failed)")

/-- `jwt\0${vc.id ?? ''}\0${jwt}`. -/
def cacheKeyForJwt (jwt : JsString) (vc : Untyped) : Except Error JsString := do
  let id := (vc.member? (js "id")).orElse (.string [])
  return js "jwt" ++ 0 :: (← id.toText runtime.numbers) ++ 0 :: jwt

/-- The method that `kid` names, or the first. -/
def selectVerificationMethod (methods : List VerificationMethod) (kid : Option JsString) :
    Option VerificationMethod :=
  match kid with
  | some (unit :: units) => methods.find? fun method => method.id = unit :: units
  | _ => methods.head?

/-- The part of `verifyVcJwtSignature` that its last `catch` answers for. -/
def checkEnvelope (jwt : JsString) (publicKeyJwk : Untyped) : GateM Verification := do
  if ← Async.ask (I := Gates) (.importKey publicKeyJwk) then
    return denied (js "Verification method key is a small-order Ed25519 point")
  else
    Async.ask (I := Gates) (.compactVerify jwt publicKeyJwk)
    return { valid := true }

/-- `verifyVcJwtSignature` from the issuer's document on. -/
def verifyEnvelopeByDocument (jwt : JsString) (kid : Option JsString)
    (didDoc : List VerificationMethod) : GateM Verification :=
  match selectVerificationMethod didDoc kid with
  | none => return denied (match kid with
      | some (unit :: units) =>
        js "Verification method " ++ unit :: units ++ js " not found in DID Document"
      | _ => js "DID Document has no verification method")
  | some method =>
    if !method.publicKeyJwk.truthy then return denied noUsableKey
    else
      tryCatch (checkEnvelope jwt method.publicKeyJwk) fun error =>
        return denied (js "JWT envelope signature is not valid: " ++ errMsg error)

def verifyVcJwtSignature (jwt : JsString) (issuerDid : Untyped) (kid : Option JsString) :
    GateM Verification := do
  match ← (Async.ask (I := Gates) (.resolveDid issuerDid)).outcome with
  | .error error =>
    deniedQuoting runtime (js "Could not resolve issuer DID ") issuerDid (js ": " ++ errMsg error)
  | .ok none => deniedQuoting runtime (js "Could not resolve issuer DID: ") issuerDid []
  | .ok (some didDoc) => verifyEnvelopeByDocument jwt kid didDoc

/-- `verifyDelegationJwt(jwt, { skipStatus: true })`. -/
def verifyDelegationJwt (jwt : JsString) : GateM Verification := do
  let now ← Async.ask (I := Gates) .now
  match ← Async.ofExcept (prepareVcJwtCredential runtime now jwt) with
  | .error reason => return denied reason
  | .ok prepared =>
    let _ ← Async.ofExcept (cacheKeyForJwt runtime jwt prepared.vc)
    let signature ← verifyVcJwtSignature runtime jwt prepared.issuerDid prepared.kid
    return combineVerificationResult signature { valid := true }

end Envelope

end KyaOs.Untrusted
