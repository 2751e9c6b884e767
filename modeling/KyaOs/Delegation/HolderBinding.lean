import KyaOs.Middleware.ControlArgs
import KyaOs.Middleware.Ports
import KyaOs.Utils.Base58
import KyaOs.Utils.Base64

/-!
# Holder binding

A delegation whose subject is a `did:key` is bound to its holder: the DID encodes the key,
so a proof that verifies against that key over the call shows that the caller is the
subject. Only an Ed25519 key is read from a DID; any other subject is left for later.
-/

namespace KyaOs

open Js Untyped Audit Proof Concurrency Middleware

/-- The bytes of the Ed25519 key that a `did:key` encodes. -/
def extractPublicKeyFromDidKey (did : JsString) : Option Bytes :=
  if startsWith did (js "did:key:z") then
    match base58Decode (did.drop 9) 64 with
    | .ok multicodecBytes =>
      if multicodecBytes.length = 34 ∧ multicodecBytes.take 2 = [0xed, 0x01] then
        some (multicodecBytes.drop 2)
      else none
    | .error _ => none
  else none

def didKeyFragment (did : JsString) : JsString :=
  if startsWith did (js "did:key:") then did.drop 8 else js "keys-1"

/-- `extractPublicKeyFromDidKey(subjectDid) !== null`, of a subject of any type. -/
def isHolderBindingApplicable (subjectDid : JsonValue JsNumber) : Except Error Bool :=
  match subjectDid with
  | .string did => .ok (extractPublicKeyFromDidKey did).isSome
  | .null => .error (.typeError (js "Cannot read properties of null"))
  | _ => .error (.typeError (js "did.startsWith is not a function"))

/-- The subject's key as the proof verifier gets it. -/
def subjectKey (subjectDid : JsString) (subjectKeyBytes : Bytes) : Ed25519JWK where
  x := base64urlEncodeFromBytes subjectKeyBytes
  kid := some (subjectDid ++ js "#" ++ didKeyFragment subjectDid)

/-- `getDidMethod`: what stands between the first two colons. -/
def getDidMethod (did : JsString) : Option JsString :=
  if startsWith did (js "did:") then
    let method := (did.drop 4).takeWhile (· ≠ 0x3A)
    if method ≠ [] ∧ (did.drop 4).contains 0x3A then some method else none
  else none

/-- What a failed binding is told apart by, on the server only. -/
inductive HolderBindingCause where
  | audience_mismatch
  | verification (errorCode : ProofVerificationErrorCode)
  deriving DecidableEq

inductive HolderBindingResult where
  | bound
  | unbound (reason : JsString) (cause : Option HolderBindingCause := none)
  | notApplicable (reason : JsString)
  deriving DecidableEq

/-- Asserts that the proof is a holder-of-key proof for the subject over the request. -/
def assertHolderBinding (proof : Untyped) (subjectDid : JsString)
    (request : ToolRequest JsNumber) (expectedAudience : JsString) : GateM HolderBindingResult :=
  match extractPublicKeyFromDidKey subjectDid with
  | none => return .notApplicable (js "Holder binding (phase 1) covers did:key subjects only; \"" ++
      (getDidMethod subjectDid).getD (js "unknown") ++
      js "\" is deferred to cnf-based binding")
  | some subjectKeyBytes => do
    let proofMeta := proof.member? (js "meta")
    if !proofMeta.isObject then
      return .unbound (js "Malformed proof: missing meta")
    else if !(proofMeta.member? (js "did")).isString subjectDid then
      return .unbound (js "Proof subject does not match the delegation subject")
    else if !(proofMeta.member? (js "audience")).isString expectedAudience then
      return .unbound (js "Proof audience does not match this server") (some .audience_mismatch)
    else
      match ← Async.ask (I := Gates)
          (.verifyProof proof (subjectKey subjectDid subjectKeyBytes) request) with
      | .valid => return .bound
      | .invalid errorCode _ _ =>
        return .unbound (js "Request proof is not bound to the delegation subject")
          (some (.verification errorCode))

end KyaOs
