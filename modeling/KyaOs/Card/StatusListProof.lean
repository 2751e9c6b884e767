import KyaOs.Audit.Merkle
import KyaOs.Card.Revocation
import KyaOs.Delegation.VerificationMethodKey
import KyaOs.Utils.JsonMembers

/-!
# Proofs of status lists

`createStatusListProofVerifier`: the `eddsa-jcs-2022` proof of a status-list credential, under
a verification method of the list's issuer. The canonicalizer and WebCrypto are parameters.
-/

namespace KyaOs.Card

open Js Audit DidDocuments

/-- `json-canonicalize` and WebCrypto, over imported keys `K`. -/
structure ListProofCrypto (K : Type) where
  canonicalize : Json → Except Error JsString
  sha256 : Bytes → Except Error Bytes
  /-- Of a JWK, only `kty`, `crv` and `x`. -/
  importKey : Option Json → Option Json → Option Json → Except Error K
  isSmallOrderEd25519CryptoKey : K → Except Error Bool
  verify : K → Bytes → Bytes → Except Error Bool

abbrev DIDResolver := JsString → Except Error (Option DIDDocument)

/-- A proof of the shape that is checked. -/
structure ListProof where
  members : List (JsString × Json)
  proofValue : JsString
  verificationMethod : JsString

def hasText (members : List (JsString × Json)) (name text : String) : Bool :=
  asString (members.lookup (js name)) = some (js text)

def readListProof (document : List (JsString × Json)) : Option ListProof :=
  match document.lookup (js "proof") with
  | some (.object members) =>
    if hasText members "type" "DataIntegrityProof" ∧
        hasText members "cryptosuite" "eddsa-jcs-2022" ∧
        hasText members "proofPurpose" "assertionMethod" then do
      let proofValue ← asString (members.lookup (js "proofValue"))
      let verificationMethod ← asString (members.lookup (js "verificationMethod"))
      if startsWith proofValue (js "z") then some { members, proofValue, verificationMethod }
      else none
    else none
  | _ => none

/-- The credential's issuer, a bare string or the `id` of an object. -/
def issuerOf (document : List (JsString × Json)) : Option JsString :=
  match document.lookup (js "issuer") with
  | some (.string issuer) => some issuer
  | some (.object issuer) => asString (issuer.lookup (js "id"))
  | _ => none

/-- `verificationMethod.split('#')[0]`. -/
def didOf (verificationMethod : JsString) : JsString := verificationMethod.takeWhile (· ≠ 0x23)

/-- A method's absolute id. -/
def methodId (method : VerificationMethod) (did : JsString) : JsString :=
  if startsWith method.id (js "#") then did ++ method.id else method.id

def findMethod (didDocument : Option DIDDocument) (did verificationMethod : JsString) :
    Option VerificationMethod :=
  (didDocument.bind DIDDocument.verificationMethod).bind
    (List.find? fun method => methodId method did = verificationMethod)

def isEd25519 (jwk : Json) : Bool :=
  asString (member jwk (js "kty")) = some (js "OKP") ∧
    asString (member jwk (js "crv")) = some (js "Ed25519")

/-- The proof's options and the document without its proof. -/
structure Unsecured where
  options : List (JsString × Json)
  document : List (JsString × Json)

def contextName : JsString := js "@context"

def contexts : Option Json → List Json
  | none => []
  | some (.array items) => items
  | some value => [value]

section Code

variable {K : Type} (crypto : ListProofCrypto K)

/-- Each entry of the second list is that of the first at its place. -/
def everyEntry : List Json → List Json → Except Error Bool
  | whole :: wholeRest, entry :: rest => do
    let text ← crypto.canonicalize entry
    if text = (← crypto.canonicalize whole) then everyEntry wholeRest rest else return false
  | _, _ => return true

def startsWithEntries (whole entries : List Json) : Except Error Bool :=
  if entries.length ≤ whole.length then everyEntry crypto whole entries else return false

/-- The options with the document's `@context`. -/
def withContext (options document : List (JsString × Json)) : Unsecured where
  options := match document.lookup contextName with
    | some context => assignMember contextName context options
    | none => options
  document

/-- What the proof covers, unless it names a context of its own that the document's does not
start with. -/
def unsecured (document : List (JsString × Json)) (proof : ListProof) :
    Except Error (Option Unsecured) :=
  let unsecured := withoutKeys document (· = js "proof")
  let options := withoutKeys proof.members (· = js "proofValue")
  match options.lookup contextName with
  | some own => do
    if ← startsWithEntries crypto (contexts (document.lookup contextName))
        (contexts (some own)) then
      return some (withContext options (assignMember contextName own unsecured))
    else return none
  | none => return some (withContext options unsecured)

def hashMembers (members : List (JsString × Json)) : Except Error Bytes := do
  crypto.sha256 (encodeUtf8 (← crypto.canonicalize (.object members)))

def hashData (covered : Unsecured) : Except Error Bytes := do
  let proofHash ← hashMembers crypto covered.options
  let documentHash ← hashMembers crypto covered.document
  return proofHash ++ documentHash

def importJwk (jwk : Json) : Except Error K :=
  crypto.importKey (member jwk (js "kty")) (member jwk (js "crv")) (member jwk (js "x"))

/-- What the `try` block of `ed25519VerifyRaw` comes to. -/
def verifyRaw (jwk : Json) (signature data : Bytes) : Except Error Bool := do
  let key ← importJwk crypto jwk
  if ← crypto.isSmallOrderEd25519CryptoKey key then return false
  else crypto.verify key signature data

def ed25519VerifyRaw (jwk : Json) (signature data : Bytes) : Bool :=
  (verifyRaw crypto jwk signature data).toOption = some true

def ed25519SignatureLength : Nat := 64

def maxProofValueBase58 : Nat := 100

def verifyUnderJwk (document : List (JsString × Json)) (proof : ListProof) (signature : Bytes)
    (jwk : Json) : Except Error Bool := do
  match ← unsecured crypto document proof with
  | none => return false
  | some covered => return ed25519VerifyRaw crypto jwk signature (← hashData crypto covered)

/-- The proof under the method it names, once it is known to name one of the issuer's. -/
def verifyUnderMethod (didResolver : DIDResolver) (document : List (JsString × Json))
    (proof : ListProof) (did : JsString) : Except Error Bool := do
  let signature ← base58Decode (proof.proofValue.drop 1) maxProofValueBase58
  if signature.length ≠ ed25519SignatureLength then return false
  else
    let didDocument ← didResolver did
    match (findMethod didDocument did proof.verificationMethod).bind verificationMethodJwk with
    | none => return false
    | some jwk =>
      if isEd25519 jwk then verifyUnderJwk crypto document proof signature jwk else return false

def verifyEddsaJcs2022 (didResolver : DIDResolver) (document : List (JsString × Json)) :
    Except Error Bool :=
  match readListProof document with
  | none => return false
  | some proof =>
    let did := didOf proof.verificationMethod
    if issuerOf document = some did then verifyUnderMethod crypto didResolver document proof did
    else return false

def createStatusListProofVerifier (didResolver : DIDResolver) : Json → Except Error Bool
  | .object document =>
    tryCatch (verifyEddsaJcs2022 crypto didResolver document) fun _ => .ok false
  | _ => .ok false

end Code

end KyaOs.Card
