import KyaOs.Concurrency.Conversations
import KyaOs.Delegation.DidWebResolver
import KyaOs.Utils.Untyped

/-!
# Resolving a card

`resolveCard` over a fetch seam that answers as it likes. The card schema and `toLowerCase`
are parameters.
-/

open Js Concurrency

namespace KyaOs.CardResolution

open DidWebResolver (didWebPrefix labels)

structure EntityCard where
  id : JsString
  value : JsonValue JsNumber

structure CardResponse where
  ok : Bool
  /-- The text of `status`. -/
  status : JsString

inductive CardRequest where
  | fetch (url : JsString)
  /-- `res.json()`. -/
  | json (response : CardResponse)

abbrev CardFetching : Setting where
  State := Unit
  Error := Error
  Request := CardRequest
  Answer
    | .fetch _ => CardResponse
    | .json _ => Untyped

/-- A reference to a card. -/
inductive CardRef where
  | string (did : JsString)
  | did (did : JsString)
  | cardUrl (url : JsString)
  | serverMeta (serverMeta : Untyped)
  | a2a (a2a : Untyped)
  | agentFacts (agentFacts : Untyped)
  | unrecognized

structure CardResolver where
  toLowerCase : JsString → JsString
  /-- `EntityCardSchema.parse`. -/
  parseCard : Untyped → Except Error EntityCard

def cardServiceType : JsString := js "KyaOsEntityCard"
def cardMetaKey : JsString := js "org.kya-os/card"
def cardRefKey : JsString := js "org.kya-os/cardRef"
def cardWellKnownPath : JsString := js ".well-known/kya-os-card.json"

/-- `did.slice('did:web:'.length).split(':').map(decodeURIComponent)`. -/
def didWebSegments (did : JsString) : Except Error (List JsString) :=
  (labels did).mapM decodeURIComponent

/-- The host and the path of a DID's URLs. -/
def parseDidWeb (did : JsString) : Except Error (JsString × JsString) := do
  let parts ← didWebSegments did
  return (parts.headD [], (js "/").intercalate parts.tail)

def didWebToDidDocUrl (did : JsString) : Except Error JsString := do
  let (host, path) ← parseDidWeb did
  return js "https://" ++ host ++
    (if path ≠ [] then js "/" ++ path ++ js "/did.json" else js "/.well-known/did.json")

def didWebToCardUrl (did : JsString) : Except Error JsString := do
  if !startsWith did didWebPrefix then
    throw (.error (js "didWebToCardUrl: only a did:web has a web card URL (got \"" ++ did ++
      js ("\"); a did:key card has no web home — emit it onto the inline summary + AgentFacts " ++
        "surfaces, or supply an explicit serviceEndpoint")))
  let (host, path) ← parseDidWeb did
  return js "https://" ++ host ++ js "/" ++
    (if path ≠ [] then path ++ js "/card.json" else cardWellKnownPath)

/-- The member of a record. -/
def field (value : Untyped) (name : JsString) : Untyped := value.member? name

def textField (value : Untyped) (name : JsString) : Option JsString :=
  match field value name with
  | some (.string text) => some text
  | _ => none

/-- The first service entry that anchors a card. -/
def cardEndpoint : List (JsonValue JsNumber) → Option JsString
  | [] => none
  | service :: rest =>
    if (field (some service) (js "type")).isString cardServiceType then
      match textField (some service) (js "serviceEndpoint") with
      | some endpoint => some endpoint
      | none => cardEndpoint rest
    else cardEndpoint rest

def cardEndpointFromDidDoc (didDoc : Untyped) (did : JsString) : Except Error JsString :=
  let services := match field didDoc (js "service") with
    | some (.array services) => services
    | _ => []
  match cardEndpoint services with
  | some endpoint => .ok endpoint
  | none => .error (.error (js "resolveCard: DID document for \"" ++ did ++ js "\" has no " ++
      cardServiceType ++ js " service entry"))

def cardUrlFromA2A (a2a : Untyped) : Except Error JsString :=
  match textField (field a2a (js "params")) (js "cardUrl") with
  | some cardUrl => .ok cardUrl
  | none => .error (.error (js "resolveCard: A2A extension has no string params.cardUrl"))

def didFromAgentFacts (agentFacts : Untyped) : Except Error JsString :=
  match textField agentFacts (js "id") with
  | some id => .ok id
  | none => .error (.error (js "resolveCard: AgentFacts has no string id (DID)"))

def fetchJson (url : JsString) : Async CardFetching Untyped := do
  let res ← Async.ask (I := CardFetching) (.fetch url)
  if !res.ok then
    throw (.error (js "resolveCard: GET " ++ url ++ js " → " ++ res.status))
  Async.ask (I := CardFetching) (.json res)

namespace CardResolver

variable (resolver : CardResolver)

/-- The segments of a DID, with the host in lower case. -/
def lowered : List JsString → List JsString
  | [] => []
  | host :: path => resolver.toLowerCase host :: path

def normalizeDid (did : JsString) : Except Error JsString :=
  if !startsWith did didWebPrefix then .ok did
  else do
    let segments ← didWebSegments did
    let encoded ← (resolver.lowered segments).mapM encodeURIComponent
    return didWebPrefix ++ (js ":").intercalate encoded

def fetchCard (url : JsString) (expectedDid : Option JsString) : Async CardFetching EntityCard := do
  let json ← fetchJson url
  let card ← Async.ofExcept (resolver.parseCard json)
  match expectedDid with
  | none => return card
  | some expectedDid =>
    let own ← Async.ofExcept (resolver.normalizeDid card.id)
    let expected ← Async.ofExcept (resolver.normalizeDid expectedDid)
    if own ≠ expected then
      throw (.error (js "resolveCard: resolved card id \"" ++ card.id ++
        js "\" ≠ requested DID \"" ++
        expectedDid ++ js "\" (identity mismatch) — fail-closed"))
    return card

def resolveDidWeb (did : JsString) : Async CardFetching EntityCard := do
  if !startsWith did didWebPrefix then
    throw (.error (js "resolveCard: only did:web is resolvable (got \"" ++ did ++
      js "\"); supply a did:key card directly"))
  let url ← Async.ofExcept (didWebToDidDocUrl did)
  let didDoc ← fetchJson url
  let endpoint ← Async.ofExcept (cardEndpointFromDidDoc didDoc did)
  resolver.fetchCard endpoint (some did)

def resolveInlineSummary (entry : Untyped) : Async CardFetching EntityCard :=
  match textField entry (js "id") with
  | none => throw (.error (js "resolveCard: inline \"" ++ cardMetaKey ++
      js "\" summary has no string id (DID)"))
  | some id => do
    if startsWith id didWebPrefix then
      let url ← Async.ofExcept (didWebToCardUrl id)
      resolver.fetchCard url (some id)
    else Async.ofExcept (resolver.parseCard entry)

def resolveFromServerMeta (serverMeta : Untyped) : Async CardFetching EntityCard :=
  let entry := field serverMeta cardMetaKey
  if entry.isNone then
    throw (.error (js "resolveCard: serverMeta has no \"" ++ cardMetaKey ++ js "\" entry"))
  else match textField entry cardRefKey with
    | some ref => resolver.fetchCard ref none
    | none => resolver.resolveInlineSummary entry

def resolveCard : CardRef → Async CardFetching EntityCard
  | .string did | .did did => resolver.resolveDidWeb did
  | .cardUrl url => resolver.fetchCard url none
  | .serverMeta serverMeta => resolver.resolveFromServerMeta serverMeta
  | .a2a a2a => do
    let url ← Async.ofExcept (cardUrlFromA2A a2a)
    resolver.fetchCard url none
  | .agentFacts agentFacts => do
    let did ← Async.ofExcept (didFromAgentFacts agentFacts)
    resolver.resolveDidWeb did
  | .unrecognized => throw (.error (js "resolveCard: unrecognized reference form"))

end CardResolver

end KyaOs.CardResolution
