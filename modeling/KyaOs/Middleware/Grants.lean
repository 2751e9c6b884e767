import KyaOs.Audit.Digests
import KyaOs.Delegation.UntrustedScopes
import KyaOs.Middleware.Ports

/-!
# Grants minted from delegations

A verified delegation is kept as a grant, whose id is a hash of the agent, the session
and the sorted scopes joined by `|` and `,`. Two bindings overwrite one another exactly
when these texts encode to the same bytes, which they do for different tuples too.
-/

namespace KyaOs.Middleware

open Js Untyped JsonValue Audit Providers Concurrency

inductive HolderBindingMode where
  | off
  | observe
  | enforce
  deriving DecidableEq

/-- What the grants read of the middleware's dependencies. -/
structure GrantConfig where
  numbers : Doubles JsNumber
  holderBindingMode : HolderBindingMode

/-- The arguments of one `bindGrantOnSuccess`. -/
structure GrantBinding where
  vc : JsonValue JsNumber
  delegationArg : JsonValue JsNumber
  isVCJWT : Bool
  sessionId : Option JsString
  scopeId : JsString
  expiresAt : Option JsNumber

section Code

variable (config : GrantConfig)

/-- `[...scopes].sort()`: by the UTF-16 units of their texts. -/
def sortScopes (scopes : List (JsonValue JsNumber)) : Except Error (List (JsonValue JsNumber)) := do
  let keyed ← scopes.mapM fun scope => do return (← scope.toText config.numbers, scope)
  return (Json.byName keyed).map Prod.snd

/-- The text that a grant id is the hash of. -/
def grantKey (agentDid : JsonValue JsNumber) (sessionId : Option JsString)
    (scopes : List (JsonValue JsNumber)) : Except Error JsString := do
  let agentText ← agentDid.toText config.numbers
  let sorted ← sortScopes config scopes
  let scopesText ← joinTexts config.numbers sorted
  return agentText ++ js "|" ++ sessionId.getD [] ++ js "|" ++ (js ",").intercalate scopesText

/-- `digest.replace(/^sha256:/, "")`. -/
def digestHex (digest : Digest) : JsString :=
  if startsWith digest (js "sha256:") then digest.drop 7 else digest

def grantId (agentDid : JsonValue JsNumber) (sessionId : Option JsString)
    (scopes : List (JsonValue JsNumber)) : GateM JsString := do
  let key ← Async.ofExcept (grantKey config agentDid sessionId scopes)
  let digest ← Async.ask (I := Gates) (.hash (encodeUtf8 key))
  return js "grant_" ++ digestHex digest

/-- The grant that a binding keeps. -/
def GrantBinding.grant (call : GrantBinding) (id : JsString) (agentDid : JsonValue JsNumber)
    (userDid : Untyped) (scopes : List (JsonValue JsNumber)) (issuedAt : ℚ) : Grant :=
  { id
    agentDid
    userDid
    scopes
    sessionId := call.sessionId
    authorization := some { type := js "delegation" }
    credentialJwt := match call.isVCJWT, call.delegationArg with
      | true, .string jwt => some jwt
      | _, _ => none
    delegationCredential := match call.isVCJWT, call.delegationArg with
      | true, .string _ => none
      | _, _ => some call.vc
    issuedAt
    expiresAt := call.expiresAt
    status := .active }

/-- Mint a durable grant from a freshly verified delegation, best-effort. -/
def bindGrantOnSuccess (call : GrantBinding) : GateM Unit :=
  tryCatch (do
    let subject := Untyped.member? (some call.vc) (js "credentialSubject")
    match subject.member? (js "id") with
    | none => return ()
    | some agentDid =>
      if !Untyped.truthy (some agentDid) then return ()
      if config.holderBindingMode = .off ∧ call.sessionId = none then return ()
      let delegatedScopes :=
        (Untrusted.getDelegationScopes (some call.vc)).toOption.getD []
      let scopes := distinct (.string call.scopeId :: delegatedScopes)
      let userDid := (subject.member? (js "delegation")).member? (js "controller")
      let id ← grantId config agentDid call.sessionId scopes
      let issuedAt ← Async.ask (I := Gates) .now
      Async.ask (I := Gates) (.bindGrant (call.grant id agentDid userDid scopes issuedAt)))
    fun _ => return ()

end Code

end KyaOs.Middleware
