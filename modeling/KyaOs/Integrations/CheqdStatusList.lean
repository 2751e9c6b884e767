import KyaOs.Card.Revocation
import KyaOs.Delegation.VerificationMethodKey
import KyaOs.Utils.TtlCache
import KyaOs.Utils.Untyped
import Mathlib.Logic.Function.Basic

/-!
# The status list resolver for cheqd

`CheqdStatusListResolver`: status lists fetched, verified and kept for a while. Each action runs
one call from one `await` to the next; what the clock, the transport, the DID resolver and the
signature check answer comes with the action.
-/

namespace KyaOs.Cheqd

open Js Card DidDocuments

structure CheqdStatusListResolverOptions where
  expectedIssuerDid : JsString
  /-- Only its decompressor is used. -/
  codec : GzipCodec
  cacheTtlMs : Option JsNumber := none
  runtime : Runtime

/-- What the transport answers. -/
structure ListResponse where
  ok : Bool
  status : Nat
  json : Except Error (JsonValue JsNumber)

/-- What the DID resolver and the signature check answer. -/
structure SignatureAnswers where
  didDocument : Except Error (Option DIDDocument)
  /-- Of the data, the signature and the key in base64. -/
  verify : List UInt8 → List UInt8 → JsString → Except Error Bool

namespace CheqdStatusListResolverOptions

variable (options : CheqdStatusListResolverOptions)

def ttlOptions : TtlOptions where
  ttlMs := options.cacheTtlMs.getD (.ofNat 10000)
  maxEntries := .ofNat 16

def typesOf (vc : Untyped) : List (JsonValue JsNumber) :=
  match vc.member? (js "type") with
  | some (.array types) => types
  | _ => []

/-- A string that is not empty. -/
def isText : Untyped → Bool
  | some (.string text) => text ≠ []
  | _ => false

def assertShape (vc : Untyped) : Except Error Unit :=
  let subject := vc.member? (js "credentialSubject")
  if !(typesOf vc).any fun type => Untyped.isString (some type) (js "StatusList2021Credential") then
    .error (.error (js "Fetched resource is not a StatusList2021Credential"))
  else if !(subject.member? (js "type")).isString (js "StatusList2021") ||
      !isText (subject.member? (js "encodedList")) then
    .error (.error (js "Status list credentialSubject is malformed " ++
      js "(missing StatusList2021 encodedList)"))
  else if !(vc.member? (js "proof")).isObject then
    .error (.error (js "Status list credential is unsigned"))
  else .ok ()

/-- The issuer, a string or the `id` of what it is. -/
def issuerOf (vc : Untyped) : Untyped :=
  match vc.member? (js "issuer") with
  | some (.string issuer) => some (.string issuer)
  | issuer => issuer.member? (js "id")

def assertIssuer (vc : Untyped) : Except Error Unit := do
  if (issuerOf vc).isString options.expectedIssuerDid then return ()
  else throw (.error (js "Status list issuer \"" ++ (← (issuerOf vc).text options.runtime) ++
    js "\" is not the expected issuer \"" ++ options.expectedIssuerDid ++ js "\""))

/-- The members that are signed. -/
def unsignedMembers : Untyped → List (JsString × JsonValue JsNumber)
  | some (.object members) => withoutKeys members (· = js "proof")
  | _ => []

/-- The methods that the proof may be of. -/
def candidates (methods : List VerificationMethod) (verificationMethod : Untyped) :
    List VerificationMethod :=
  match verificationMethod with
  | some (.string (unit :: units)) => methods.filter fun method => method.id = unit :: units
  | _ => methods

/-- `jwk.x` as bytes. -/
def keyBytes (jwk : Json) : Except Error (List UInt8) :=
  match asString (member jwk (js "x")) with
  | some x => base64urlDecodeToBytes x
  | none => .error (.typeError (js "input is not a string"))

/-- Whether a method's key verifies the signature. -/
def verifiesUnder (verify : JsString → Except Error Bool) (method : VerificationMethod) :
    Except Error Bool :=
  match verificationMethodJwk method with
  | none => .ok false
  | some jwk => do verify (btoa (← keyBytes jwk))

/-- The loop over the candidates, up to the first that verifies. -/
def verifyAny (verify : JsString → Except Error Bool) : List VerificationMethod → Except Error Bool
  | [] => .ok false
  | method :: rest => do
    if ← verifiesUnder verify method then return true else verifyAny verify rest

def noSuchMethod (verificationMethod : Untyped) : Error :=
  .error (js "Issuer DID document has no verification method matching \"" ++
    (match verificationMethod with
      | some (.string id) => id
      | _ => js "(any)") ++ js "\"")

/-- `assertSignature`, with what it is answered. -/
def assertSignature (vc : Untyped) (answers : SignatureAnswers) : Except Error Unit :=
  let proof := vc.member? (js "proof")
  let verificationMethod := proof.member? (js "verificationMethod")
  match proof.member? (js "proofValue") with
  | some (.string (unit :: units)) => do
    let text ← canonicalizeJson options.runtime.numbers (.object (unsignedMembers vc))
    let signature ← base64urlDecodeToBytes (unit :: units)
    match ← answers.didDocument with
    | none => throw (.error (js "Could not resolve issuer DID " ++ options.expectedIssuerDid))
    | some didDoc =>
      match candidates (didDoc.verificationMethod.getD []) verificationMethod with
      | [] => throw (noSuchMethod verificationMethod)
      | method :: methods =>
        if ← verifyAny (answers.verify (encodeUtf8 text) signature) (method :: methods) then
          return ()
        else throw (.error
          (js "Status list signature verification FAILED against the issuer DID document"))
  | _ => .error (.error (js "Status list proof is missing proofValue"))

/-- A fetched body that is a list of the issuer's, up to its signature. -/
def acceptBody (url : JsString) (response : Except Error ListResponse) :
    Except Error (JsonValue JsNumber) := do
  let response ← response
  if !response.ok then
    throw (.error (js "Status list fetch failed: HTTP " ++ decimalText response.status ++
      js " for " ++ url))
  else
    let body ← response.json
    assertShape (some body)
    options.assertIssuer (some body)
    return body

def textOf : Untyped → Option JsString
  | some (.string text) => some text
  | _ => none

/-- `checkStatus` from the list on. -/
def readStatus (status : CredentialStatus) (index : Nat) (credential : JsonValue JsNumber) :
    Except Error Bool := do
  let subject ← Untyped.member (some credential) (js "credentialSubject")
  assertStatusPurpose (textOf (← subject.member (js "statusPurpose"))) status.statusPurpose
  let bits ← decodeStatusListPayload options.codec
    ((textOf (subject.member? (js "encodedList"))).getD [])
  readStatusBit bits index

end CheqdStatusListResolverOptions

/-- A fetch of a list. Its call, and how many `invalidateCache` calls came before it, are read
by no operation. -/
structure ListFetch where
  call : Nat
  url : JsString
  noCache : Bool
  invalidated : Nat
  deriving DecidableEq

/-- A cached list; which fetch it is from is read by no operation. -/
structure CachedList where
  credential : JsonValue JsNumber
  fetch : ListFetch

/-- The entry that a call is about, its index parsed. -/
structure ListEntry where
  status : CredentialStatus
  index : Nat

/-- How far a call of `checkStatus` has come. -/
inductive CheqdPhase where
  /-- It waits for the transport. -/
  | fetching (entry : ListEntry) (fetch : ListFetch)
  /-- It waits in `assertSignature`. -/
  | verifying (entry : ListEntry) (fetch : ListFetch) (body : JsonValue JsNumber)
  | verified (entry : ListEntry) (fetch : ListFetch) (body : JsonValue JsNumber)
  | reading (entry : ListEntry) (list : CachedList)
  | ended (result : Except Error Bool)

/-- A list that a call reads, and how many `invalidateCache` calls came before the call. -/
structure ListRead where
  started : Nat
  fetch : ListFetch
  deriving DecidableEq

/-- The state of one resolver and its calls; no operation reads `invalidations` and the lists
of fetches, stores and reads, oldest first. A store is the number of invalidations before it. -/
structure CheqdWorld where
  cache : TtlCache CachedList := {}
  bustNextFetch : Bool := false
  calls : Nat → Option CheqdPhase := fun _ => none
  invalidations : Nat := 0
  fetches : List ListFetch := []
  stores : List Nat := []
  reads : List ListRead := []

inductive CheqdAction where
  | invalidateCache
  | checkStatus (call : Nat) (status : CredentialStatus) (now : ℚ)
  | fetched (call : Nat) (response : Except Error ListResponse)
  | verify (call : Nat) (answers : SignatureAnswers)
  | store (call : Nat) (now : ℚ)
  | read (call : Nat)

namespace CheqdWorld

variable (w : CheqdWorld) (options : CheqdStatusListResolverOptions)

def setPhase (call : Nat) (phase : CheqdPhase) : CheqdWorld :=
  { w with calls := Function.update w.calls call (some phase) }

def invalidateCache : CheqdWorld :=
  { w with cache := .clear, bustNextFetch := true, invalidations := w.invalidations + 1 }

/-- The start of `fetchAndVerifyList`: a cached list is read, another one is fetched. -/
def fetchList (call : Nat) (entry : ListEntry) (now : ℚ) : CheqdWorld :=
  let url := entry.status.statusListCredential
  match w.cache.get now url with
  | (some list, cache) =>
    setPhase { w with cache, reads := w.reads ++ [⟨w.invalidations, list.fetch⟩] } call
      (.reading entry list)
  | (none, cache) =>
    let fetch : ListFetch :=
      { call, url, noCache := w.bustNextFetch, invalidated := w.invalidations }
    setPhase { w with cache, fetches := w.fetches ++ [fetch] } call (.fetching entry fetch)

def checkStatus (call : Nat) (status : CredentialStatus) (now : ℚ) : CheqdWorld :=
  if !startsWith status.statusListCredential (js "https://") then
    w.setPhase call (.ended (.error
      (.error (js "credentialStatus.statusListCredential must be an https URL"))))
  else
    match parseStatusListIndex status.statusListIndex with
    | .error error => w.setPhase call (.ended (.error error))
    | .ok index => w.fetchList call ⟨status, index⟩ now

/-- The end of `fetchAndVerifyList`. -/
def storeList (call : Nat) (entry : ListEntry) (fetch : ListFetch) (body : JsonValue JsNumber)
    (now : ℚ) : CheqdWorld :=
  setPhase { w with
    bustNextFetch := false
    cache := w.cache.set options.ttlOptions now entry.status.statusListCredential ⟨body, fetch⟩
    stores := w.stores ++ [w.invalidations]
    reads := w.reads ++ [⟨fetch.invalidated, fetch⟩] } call (.reading entry ⟨body, fetch⟩)

def act : CheqdAction → Option CheqdWorld
  | .invalidateCache => some w.invalidateCache
  | .checkStatus call status now =>
    match w.calls call with
    | none => some (w.checkStatus call status now)
    | some _ => none
  | .fetched call response =>
    match w.calls call with
    | some (.fetching entry fetch) =>
      match options.acceptBody entry.status.statusListCredential response with
      | .error error => some (w.setPhase call (.ended (.error error)))
      | .ok body => some (w.setPhase call (.verifying entry fetch body))
    | _ => none
  | .verify call answers =>
    match w.calls call with
    | some (.verifying entry fetch body) =>
      match options.assertSignature (some body) answers with
      | .error error => some (w.setPhase call (.ended (.error error)))
      | .ok () => some (w.setPhase call (.verified entry fetch body))
    | _ => none
  | .store call now =>
    match w.calls call with
    | some (.verified entry fetch body) => some (w.storeList options call entry fetch body now)
    | _ => none
  | .read call =>
    match w.calls call with
    | some (.reading entry list) =>
      some (w.setPhase call
        (.ended (options.readStatus entry.status entry.index list.credential)))
    | _ => none

end CheqdWorld

end KyaOs.Cheqd
