import KyaOs.Card.DidWebReaders
import KyaOs.Utils.Utf8Bytes
import KyaOs.Whatwg.HttpsUrl

/-!
# The CIMD bind

A did:web DID and the OAuth `client_id` that is its HTTPS form, and the check of a CIMD binding
against the DID document.
-/

open Js Whatwg

namespace KyaOs.Cimd

open DidWebResolver (didWebPrefix)
open CardResolution (bindClientId field textField)

/-- What the code reads of a `URL`. -/
structure WebUrl where
  protocol : JsString
  origin : JsString
  host : JsString
  pathname : JsString
  href : JsString

def WebUrl.ofHttps (url : Whatwg.Url) : WebUrl where
  protocol := js "https:"
  origin := asciiText url.origin
  host := asciiText url.hostText
  pathname := asciiText url.pathname
  href := asciiText url.href

/-- `new URL(text)`: `others` reads what has another scheme than https. -/
structure UrlParser where
  hosts : HostParser
  others : JsString → Option WebUrl

/-- `isRecord` of a value. -/
def isRecord : Untyped → Bool
  | some (.object _) => true
  | _ => false

structure CimdBinding where
  clientId : JsString
  jwksUri : JsString

structure CimdBindResult where
  ok : Bool
  reasons : List JsString
deriving DecidableEq

namespace UrlParser

variable (urls : UrlParser)

def parse (text : JsString) : Option WebUrl :=
  if (afterHttps (encodeUtf8 text)).isSome then
    (urls.hosts.parseHttps (encodeUtf8 text)).map WebUrl.ofHttps
  else urls.others text

def didFromClientId (clientId : JsString) : Except Error JsString := do
  match urls.parse clientId with
  | none =>
    throw (.error (js "didFromClientId: client_id is not a valid URL (\"" ++ clientId ++ js "\")"))
  | some url =>
    if url.protocol ≠ js "https:" then
      throw (.error (js "didFromClientId: client_id must be https (got \"" ++ url.protocol ++
        js "\")"))
    let authority ← encodeURIComponent url.host
    let segments ← ((url.pathname.splitOn 0x2F).filter (· ≠ [])).mapM encodeURIComponent
    return didWebPrefix ++ (js ":").intercalate (authority :: segments)

/-- An origin, or the reason there is none. -/
def safeDidOrigin (did : JsString) : Except JsString JsString :=
  if !startsWith did didWebPrefix then
    .error (js "DID document id is not a did:web (\"" ++ did ++ js "\")")
  else
    match bindClientId did with
    | .error _ => .error (js "DID document id has no resolvable origin (\"" ++ did ++ js "\")")
    | .ok clientId =>
      match urls.parse clientId with
      | none => .error (js "DID document id has no resolvable origin (\"" ++ did ++ js "\")")
      | some url => .ok url.origin

def safeOrigin (url label : JsString) : Except JsString JsString :=
  match urls.parse url with
  | none => .error (label ++ js " is not a valid URL (\"" ++ url ++ js "\")")
  | some parsed =>
    if parsed.protocol ≠ js "https:" then
      .error (label ++ js " must be https (got \"" ++ parsed.protocol ++ js "\")")
    else .ok parsed.origin

/-- Two texts are URLs with one normal form. -/
def sameUrl (a b : JsString) : Bool :=
  match urls.parse a, urls.parse b with
  | some url, some url' => url.href = url'.href
  | _, _ => false

def aliasListed (alsoKnownAs : Untyped) (clientId : JsString) : Bool :=
  match alsoKnownAs with
  | some (.array aliases) => aliases.any fun
    | .string aka => urls.sameUrl aka clientId
    | _ => false
  | _ => false

/-- The reason an origin is missing. -/
def missing : Except JsString JsString → List JsString
  | .error reason => [reason]
  | .ok _ => []

/-- What is wrong between the DID and the client_id. -/
def didReasons (did clientId : JsString) (expected : Bool) :
    Except JsString JsString → Except JsString JsString → Except Error (List JsString)
  | .ok didOrigin, .ok clientOrigin =>
    if didOrigin ≠ clientOrigin then
      return [js "origin mismatch: did:web (" ++ didOrigin ++ js ") !== client_id (" ++
        clientOrigin ++ js ")"]
    else if expected then do
      let form ← bindClientId did
      if urls.sameUrl form clientId then return []
      else
        return [js "client_id \"" ++ clientId ++ js "\" is not the HTTPS form of " ++ did ++
          js " (\"" ++ form ++ js "\")"]
    else return []
  | _, _ => return []

def jwksReasons : Except JsString JsString → Except JsString JsString → List JsString
  | .ok clientOrigin, .ok jwksOrigin =>
    if clientOrigin ≠ jwksOrigin then
      [js "origin mismatch: client_id (" ++ clientOrigin ++ js ") !== jwks_uri (" ++ jwksOrigin ++
        js ")"]
    else []
  | _, _ => []

def verifyCimdBind (cimd : CimdBinding) (didDoc : Untyped) (expectedDid : Option JsString) :
    Except Error CimdBindResult := do
  let doc := if isRecord didDoc then didDoc else some (.object [])
  let docId := (textField doc (js "id")).getD []
  let did := expectedDid.getD docId
  let didOrigin := urls.safeDidOrigin did
  let clientOrigin := urls.safeOrigin cimd.clientId (js "client_id")
  let jwksOrigin := urls.safeOrigin cimd.jwksUri (js "jwks_uri")
  let bound ← urls.didReasons did cimd.clientId expectedDid.isSome didOrigin clientOrigin
  let reasons :=
    (if docId ≠ did then
      [js "DID document id \"" ++ docId ++ js "\" is not the card's DID \"" ++ did ++ js "\""]
      else []) ++
    missing didOrigin ++ missing clientOrigin ++ missing jwksOrigin ++ bound ++
    jwksReasons clientOrigin jwksOrigin ++
    (if urls.aliasListed (field doc (js "alsoKnownAs")) cimd.clientId then []
      else [js "DID document alsoKnownAs does not list client_id \"" ++ cimd.clientId ++
        js "\" (no reciprocal bind)"])
  return { ok := reasons.isEmpty, reasons }

end UrlParser

end KyaOs.Cimd
