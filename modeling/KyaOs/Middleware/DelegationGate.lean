import KyaOs.Delegation.HolderBinding
import KyaOs.Middleware.GrantResolution
import KyaOs.Middleware.ResultMeta

/-!
# The delegation gate

`wrapWithDelegation`: a call that pastes a delegation is checked against it, one that
pastes none may be authorized by a durable grant, and any other is answered by a challenge
or a refusal in place of the handler.
-/

namespace KyaOs.Middleware

open Js Untyped JsonValue Audit Proof Concurrency

abbrev ToolHandler := PlainObject JsNumber → Option JsString → Option CallContext → GateM ToolResult

/-- The wrapped handler. -/
def innermost : ToolHandler := fun args sessionId context =>
  Async.ask (I := Gates) (.callHandler args sessionId context)

structure DelegationGateConfig where
  scopeId : JsString
  consentUrl : JsString
  /-- Whether there is a `formatChallenge` hook. -/
  formatsChallenge : Bool := false

/-- The best-effort reference to a rejected credential. -/
def rejectedDelegationRef (value : Untyped) : JsString :=
  match value.member? (js "id") with
  | some (.string (unit :: units)) => (unit :: units).take 256
  | _ =>
    match (Untrusted.delegation? value).member? (js "id") with
    | some (.string (unit :: units)) => (unit :: units).take 256
    | _ => js "unknown"

/-- The approval grants that travel on in the call context. -/
def forwardedApprovals (args : PlainObject JsNumber) : Untyped :=
  argument args (js "_kyaos_approvals")

/-- `controller?.startsWith('did:')`, with the DID where it does. -/
def responsibleDid (controller : Untyped) : Except Error Untyped :=
  match controller with
  | none | some .null => .ok none
  | some (.string did) =>
    .ok (if startsWith did (js "did:") then some (.string did) else none)
  | some _ => .error (.typeError (js "controller.startsWith is not a function"))

section Challenge

/-- `b.toString(16).padStart(2, "0")` of every byte. -/
def hexText (bytes : Bytes) : JsString :=
  bytes.flatMap fun b => [Json.hexDigit (b.toNat / 16), Json.hexDigit (b.toNat % 16)]

def resumeToken (tokenBytes : Bytes) : JsString :=
  let hex := hexText tokenBytes
  (js "-").intercalate
    [hex.take 8, (hex.drop 8).take 4, (hex.drop 12).take 4, (hex.drop 16).take 4, hex.drop 20]

def createNeedsAuthorizationError (message authorizationUrl resumeToken : JsString)
    (expiresAt : ℚ) (scopes : List JsString) : JsonValue JsNumber :=
  .object [(js "error", .string (js "needs_authorization")), (js "message", .string message),
    (js "authorizationUrl", .string authorizationUrl), (js "resumeToken", .string resumeToken),
    (js "expiresAt", .number (.finite expiresAt)), (js "scopes", .array (scopes.map .string))]

/-- A member of a formatted challenge that is kept. -/
def keptMember (formatted : Untyped) (name : String) (keep : JsonValue JsNumber → Bool) :
    Members JsNumber :=
  match formatted.member? (js name) with
  | some value => if keep value then [(js name, value)] else []
  | none => []

/-- The challenge result a `formatChallenge` hook returned, in either form. -/
def toChallengeResult (formatted : Untyped) : Option ToolResult :=
  match formatted with
  | some (.array items) => some (.object [(js "content", .array items)])
  | formatted =>
    match formatted.member? (js "content") with
    | some (.array items) => some (withoutOutcomeMeta (.object ([(js "content", .array items)] ++
        keptMember formatted "structuredContent" (fun v => v matches .object _) ++
        keptMember formatted "isError" (fun v => v matches .bool _) ++
        keptMember formatted "_meta" (fun v => v matches .object _))))
    | _ => none

/-- The challenge of a call without a delegation or a grant, with its message. -/
def buildNeedsAuthorizationChallenge (runtime : Runtime) (toolName : JsString)
    (gate : DelegationGateConfig) : GateM (ToolResult × JsString) := do
  let tokenBytes ← Async.ask (I := Gates) (.randomBytes 16)
  let now ← Async.ask (I := Gates) .now
  let message :=
    js "Tool \"" ++ toolName ++ js "\" requires delegation with scope: " ++ gate.scopeId
  let authError := createNeedsAuthorizationError message gate.consentUrl (resumeToken tokenBytes)
    ((now / 1000).floor + 300) [gate.scopeId]
  let defaultChallenge := textResult (jsonText runtime.numbers authError)
  if gate.formatsChallenge then
    match ← (Async.ask (I := Gates) (.formatChallenge authError)).outcome with
    | .ok formatted => return ((toChallengeResult formatted).getD defaultChallenge, message)
    | .error _ => return (defaultChallenge, message)
  else return (defaultChallenge, message)

end Challenge

section Code

variable (config : GateConfig)
  (verifyDelegation : JsonValue JsNumber → GateM DelegationCheck)

/-- `audit?.…(…)`. -/
def recordAudit (event : GateEvent) : GateM Unit :=
  if config.audit then Async.ask (I := Gates) (.recordAudit event) else return ()

/-- A refusal with its signed outcome. -/
def refuse (toolName : JsString) (args : PlainObject JsNumber) (sessionId : Option JsString)
    (error reason : JsString) : GateM ToolResult :=
  Async.ask (I := Gates) (.attachOutcomeProof
    (buildDelegationErrorResponse config.runtime.numbers error reason) toolName args sessionId
    reason (js "denied"))

/-- The reason of a binding that did not hold, where it is enforced. -/
def enforced (reason : JsString) : Option JsString :=
  if config.holderBindingMode = .enforce then some reason else none

/-- The holder binding of a `did:key` subject. -/
def bindHolder (toolName : JsString) (args : PlainObject JsNumber) (subjectDid : JsString) :
    GateM (Option JsString) :=
  match argument args (js "_kyaos_proof") with
  | none =>
    return enforced config
      (js "Holder-of-key proof (_kyaos_proof) is required for this delegation subject")
  | some proofArg => do
    let proof := parsedProof config.runtime (some proofArg) (some (.object []))
    match ← assertHolderBinding proof subjectDid (toHolderBindingRequest toolName args)
        config.serverDid with
    | .bound => return none
    | .unbound reason _ | .notApplicable reason => return enforced config reason

/-- Why the holder binding refuses the call, if it does. -/
def checkHolder (toolName : JsString) (args : PlainObject JsNumber) (vc : JsonValue JsNumber) :
    GateM (Option JsString) := do
  if config.holderBindingMode ≠ .off ∧ config.holderBindingVerifier then
    let subject ← Async.ofExcept (Untyped.member (some vc) (js "credentialSubject"))
    match subject.member? (js "id") with
    | none => return none
    | some subjectDid =>
      if !Untyped.truthy (some subjectDid) then return none
      if !(← Async.ofExcept (isHolderBindingApplicable subjectDid)) then return none
      match subjectDid with
      | .string did => bindHolder config toolName args did
      | _ => return none
  else return none

/-- The bytes that the credential's digest is the hash of. -/
def serializedCredential (delegationArg vc : JsonValue JsNumber) (isJwt : Bool) :
    Except Error Bytes :=
  match isJwt, delegationArg with
  | true, .string jwt => .ok (encodeUtf8 jwt)
  | _, _ => do return encodeUtf8 (← canonicalizeJson config.runtime.numbers vc)

/-- The context of a call that a delegation allows. -/
def delegationContext (scopeId : JsString) (vc : JsonValue JsNumber) (digest : Digest) :
    Except Error CallContext := do
  let subject ← Untyped.member (some vc) (js "credentialSubject")
  let delegation ← subject.member (js "delegation")
  let vcId := Untyped.member? (some vc) (js "id")
  let delegationRef := if vcId.isNullish then delegation.member? (js "id") else vcId
  let controller ← delegation.member (js "controller")
  return {
    scopeId
    actor := subject.member? (js "id")
    responsibleParty := ← responsibleDid controller
    authorization := .delegation scopeId delegationRef digest
    principal :=
      { agentDid := subject.member? (js "id")
        responsibleParty := controller
        delegatedScopes := [] } }

/-- What follows once the delegation and its holder are verified. -/
def runDelegated (toolName : JsString) (gate : DelegationGateConfig) (handler : ToolHandler)
    (args : PlainObject JsNumber) (sessionId : Option JsString)
    (delegationArg vc : JsonValue JsNumber) (isJwt : Bool) (expiresAt : Option JsNumber) :
    GateM ToolResult := do
  let scopeResult ← Async.ofExcept
    (Untrusted.scopeSatisfies config.runtime gate.scopeId (some vc))
  if !scopeResult.satisfied then
    refuse config toolName args sessionId (js "insufficient_scope")
      (js "Required scope \"" ++ gate.scopeId ++ js "\" not in delegation scopes")
  else
    let bytes ← Async.ofExcept (serializedCredential config delegationArg vc isJwt)
    let credentialDigest ← Async.ask (I := Gates) (.hash bytes)
    let callContext ← Async.ofExcept (delegationContext gate.scopeId vc credentialDigest)
    let delegation := Untrusted.delegation? (some vc)
    recordAudit config (.delegationVerified (match callContext.authorization with
      | .delegation _ ref _ => ref
      | .grant .. => none) (delegation.member? (js "parentId")) callContext)
    recordAudit config (.authorizationApproved (some callContext))
    bindGrantOnSuccess { numbers := config.runtime.numbers
                         holderBindingMode := config.holderBindingMode }
      { vc, delegationArg, isVCJWT := isJwt, sessionId, scopeId := gate.scopeId, expiresAt }
    let delegatedScopes ← Async.ofExcept (Untrusted.getDelegationScopes (some vc))
    handler (withoutControlArgs args) sessionId (some
      { callContext with
        principal := { callContext.principal with delegatedScopes }
        approvals := forwardedApprovals args })

/-- The call of a grant that was resolved. -/
def runGranted (gate : DelegationGateConfig) (handler : ToolHandler)
    (args : PlainObject JsNumber) (sessionId : Option JsString) (resolved : ResolvedGrant) :
    GateM ToolResult := do
  let grant := resolved.grant
  let context : CallContext :=
    { scopeId := gate.scopeId
      actor := some grant.agentDid
      responsibleParty := ← Async.ofExcept (responsibleDid grant.userDid)
      authorization := .grant gate.scopeId grant.id
      principal :=
        { agentDid := some grant.agentDid
          responsibleParty := grant.userDid
          delegatedScopes := resolved.delegatedScopes }
      approvals := forwardedApprovals args }
  recordAudit config (.grantUsed grant.id context)
  handler (withoutControlArgs args) sessionId (some context)

/-- A call that pastes no delegation. -/
def withoutDelegation (toolName : JsString) (gate : DelegationGateConfig) (handler : ToolHandler)
    (args : PlainObject JsNumber) (sessionId : Option JsString) : GateM ToolResult := do
  match ← resolveExistingGrant config verifyDelegation toolName args sessionId gate.scopeId with
  | some resolved => runGranted config gate handler args sessionId resolved
  | none =>
    let (challenge, message) ← buildNeedsAuthorizationChallenge config.runtime toolName gate
    Async.ask (I := Gates)
      (.attachOutcomeProof challenge toolName args sessionId message (js "needs_authorization"))

/-- A call that pastes a delegation. -/
def withDelegation (toolName : JsString) (gate : DelegationGateConfig) (handler : ToolHandler)
    (args : PlainObject JsNumber) (sessionId : Option JsString)
    (delegationArg : JsonValue JsNumber) : GateM ToolResult := do
  match ← verifyDelegation delegationArg with
  | .invalid reason vc =>
    tryCatch (recordAudit config (.delegationRejected (rejectedDelegationRef vc)))
      fun _ => return ()
    refuse config toolName args sessionId (js "delegation_invalid") reason
  | .valid vc isJwt expiresAt =>
    match ← checkHolder config toolName args vc with
    | some reason => refuse config toolName args sessionId (js "holder_binding_failed") reason
    | none =>
      runDelegated config toolName gate handler args sessionId delegationArg vc isJwt expiresAt

def wrapWithDelegation (toolName : JsString) (gate : DelegationGateConfig) (handler : ToolHandler) :
    ToolHandler := fun args sessionId _ => do
  Async.ask (I := Gates) .requireProofLayer
  match argument args (js "_kyaos_delegation") with
  | none | some .null =>
    withoutDelegation config verifyDelegation toolName gate handler args sessionId
  | some delegationArg =>
    withDelegation config verifyDelegation toolName gate handler args sessionId delegationArg

end Code

end KyaOs.Middleware
