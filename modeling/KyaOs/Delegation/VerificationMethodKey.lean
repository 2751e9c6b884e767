import KyaOs.Json.Value
import KyaOs.Utils.Base58
import KyaOs.Utils.Base64

/-!
# Keys of verification methods

`verificationMethodJwk`: the Ed25519 key that a verification method of a DID document
publishes, as a JWK. Of a document only its verification methods are read.
-/

namespace KyaOs.DidDocuments

open Js

structure VerificationMethod where
  id : JsString
  publicKeyJwk : Option Json := none
  publicKeyMultibase : Option JsString := none
  publicKeyBase58 : Option JsString := none

structure DIDDocument where
  verificationMethod : Option (List VerificationMethod)

def maxBase58DecodeLength : Nat := 1024

def ed25519MulticodecPrefix : List UInt8 := [0xED, 0x01]

def ed25519PublicKeyLength : Nat := 32

/-- A JSON value as a condition. -/
def truthy : Json → Bool
  | .null => false
  | .bool value => value
  | .number (.finite text) => text.val ≠ js "0"
  | .number (.infinity _) => true
  | .string value => value ≠ []
  | .array _ | .object _ => true

def publicKeyToJwk (publicKeyBytes : List UInt8) : Json := .object [
  (js "kty", .string (js "OKP")), (js "crv", .string (js "Ed25519")),
  (js "x", .string (base64urlEncodeFromBytes publicKeyBytes))]

def ofKeyLength (bytes : List UInt8) : Option (List UInt8) :=
  if bytes.length = ed25519PublicKeyLength then some bytes else none

/-- The key without its multicodec prefix, if it has one. -/
def stripMulticodec (decoded : List UInt8) : List UInt8 :=
  if decoded.length = ed25519PublicKeyLength + ed25519MulticodecPrefix.length ∧
      decoded.take 2 = ed25519MulticodecPrefix then decoded.drop 2
  else decoded

/-- The raw key of `publicKeyMultibase`, where that is base58btc, else of `publicKeyBase58`. -/
def rawEd25519Key (method : VerificationMethod) : Option (List UInt8) :=
  match method.publicKeyMultibase.filter (startsWith · (js "z")) with
  | some multibase =>
    (base58Decode (multibase.drop 1) maxBase58DecodeLength).toOption.bind fun decoded =>
      ofKeyLength (stripMulticodec decoded)
  | none => (method.publicKeyBase58.filter (· ≠ [])).bind fun encoded =>
    (base58Decode encoded maxBase58DecodeLength).toOption.bind ofKeyLength

def verificationMethodJwk (method : VerificationMethod) : Option Json :=
  match method.publicKeyJwk.filter truthy with
  | some jwk => some jwk
  | none => (rawEd25519Key method).map publicKeyToJwk

end KyaOs.DidDocuments
