import KyaOs.Delegation.VcVerifier
import KyaOs.Middleware.GrantResolution

/-!
# Authenticating a pasted delegation

`verifyDelegation` takes a VC-JWT text, whose envelope is verified first, or an object with
an embedded proof; either then goes through the chain walk.
-/

namespace KyaOs.Middleware

open Js Untyped JsonValue Untrusted Concurrency

/-- What the gates are made with, and the options of the delegation verifier. -/
structure DelegationConfig extends GateConfig where
  resolvesChains : Bool
  hasStatusListResolver : Bool
  hasRevocationChecker : Bool
  trustedRootIssuers : Option (List JsString)
  maxChainLength : Option JsNumber

section Code

variable (config : DelegationConfig)

/-- The dependencies of the chain walk. -/
def DelegationConfig.chainDeps : ChainDeps where
  serverDid := config.serverDid
  verify credential skipSignature :=
    verifyDelegationCredential config.runtime config.hasStatusListResolver
      (some credential.value) skipSignature
  resolveDelegationChain :=
    if config.resolvesChains then
      some fun leaf => Async.ask (I := Gates) (.resolveDelegationChain leaf)
    else none
  statusListConfigured := config.hasStatusListResolver
  isRevoked :=
    if config.hasRevocationChecker then
      some fun delegationId => Async.ask (I := Gates) (.isRevoked delegationId)
    else none
  trustedRootIssuers := config.trustedRootIssuers
  maxChainLength := config.maxChainLength

/-- The presented credential is an object of its own. -/
def presented (vc : JsonValue JsNumber) : Presented := ⟨0, vc⟩

/-- `{ ...vc, proof: { type: "JwtProof2020", jwt } }`, unless the credential has a proof. -/
def withProofMarker (jwt : JsString) (vc : JsonValue JsNumber) : JsonValue JsNumber :=
  if (Untyped.member? (some vc) (js "proof")).truthy then vc
  else
    let marker := .object [(js "type", .string (js "JwtProof2020")), (js "jwt", .string jwt)]
    match vc with
    | .object members => .object (assignMember (js "proof") marker members)
    | vc => vc

/-- The chain walk, with any throw of it as a rejection. -/
def walkPresented (vc : JsonValue JsNumber) (skipSignature : Bool) : GateM ChainValidationResult :=
  tryCatch (Untrusted.validateDelegationChain config.runtime config.chainDeps (presented vc)
      skipSignature)
    fun _ => return { valid := false
                      reason := some (js "Delegation credential could not be verified") }

/-- `Math.min(jwtExpiresAt, chain.expiresAt ?? jwtExpiresAt)`, or the one that is there. -/
def combinedExpiry (jwtExpiresAt : Option JsNumber) (chainExpiresAt : Option ℚ) :
    Option JsNumber :=
  match jwtExpiresAt, chainExpiresAt with
  | none, expiresAt => expiresAt.map .finite
  | some (.finite jwtExpiresAt), some expiresAt => some (.finite (min jwtExpiresAt expiresAt))
  | some (.infinity false), some expiresAt => some (.finite expiresAt)
  | jwtExpiresAt, _ => jwtExpiresAt

/-- What follows once the wire form is known. -/
def verifyPresented (vc : JsonValue JsNumber) (isJwt : Bool) (jwtExpiresAt : Option JsNumber) :
    GateM DelegationCheck := do
  let chain ← walkPresented config vc isJwt
  if chain.valid then return .valid vc isJwt (combinedExpiry jwtExpiresAt chain.expiresAt)
  else
    return .invalid (chain.reason.getD (js "Unknown delegation validation error")) (some vc)

/-- `parsed.payload.exp * 1000`. -/
def jwtExpiresAt (payload : JsonValue JsNumber) : Option JsNumber :=
  (epochSeconds? (Untyped.member? (some payload) (js "exp"))).map fun exp =>
    JsNumber.scale 1000 (.finite exp)

/-- A parsed VC-JWT, envelope first. -/
def verifyParsed (jwt : JsString) (payload vc : JsonValue JsNumber) : GateM DelegationCheck := do
  let envelope ← verifyDelegationJwt config.runtime jwt
  if envelope.valid then
    verifyPresented config (withProofMarker jwt vc) true (jwtExpiresAt payload)
  else
    return .invalid (envelope.reason.getD (js "VC-JWT envelope signature is not valid")) (some vc)

def verifyJwt (jwt : JsString) : GateM DelegationCheck :=
  match parseVCJWT config.runtime jwt with
  | none => return .invalid (js "Invalid VC-JWT format") none
  | some parsed => do
    match ← Async.ofExcept (Untyped.member (some parsed.payload) (js "vc")) with
    | none => return .invalid (js "Invalid VC-JWT format") none
    | some vc =>
      if Untyped.truthy (some vc) then verifyParsed config jwt parsed.payload vc
      else return .invalid (js "Invalid VC-JWT format") none

def verifyDelegation (delegationArg : JsonValue JsNumber) : GateM DelegationCheck :=
  match delegationArg with
  | .string jwt => verifyJwt config jwt
  | vc => verifyPresented config vc false none

end Code

end KyaOs.Middleware
