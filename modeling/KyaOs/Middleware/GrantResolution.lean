import KyaOs.Delegation.HolderBinding
import KyaOs.Delegation.UntrustedChain
import KyaOs.Middleware.Grants

/-!
# Resolving a call from a durable grant

A call that pastes no delegation may be authorized by a grant of the shared store: first
one whose agent proves possession of its key over the call, then one of the call's session
where the binding policy permits it. A grant is evidence only: the delegation it retains is
verified again, and must name the grant's agent and user and satisfy the scope.
-/

namespace KyaOs.Middleware

open Js Untyped JsonValue Proof Providers Concurrency

/-- Outcome of authenticating a presented delegation. -/
inductive DelegationCheck where
  | valid (vc : JsonValue JsNumber) (isJwt : Bool) (expiresAt : Option JsNumber)
  | invalid (reason : JsString) (vc : Untyped)

/-- What the gates are made with. -/
structure GateConfig where
  runtime : Runtime
  /-- `identity.did`. -/
  serverDid : JsString
  holderBindingMode : HolderBindingMode
  /-- Whether there is an audit. -/
  audit : Bool
  /-- Whether there is a `holderBindingVerifier`. -/
  holderBindingVerifier : Bool

/-- A durable grant whose retained delegation was verified again for this call. -/
structure ResolvedGrant where
  grant : Grant
  delegatedScopes : List (JsonValue JsNumber)

/-- A member of the call's arguments whose name is on no built-in prototype. -/
def argument (args : PlainObject JsNumber) (name : JsString) : Untyped :=
  match args.get name with
  | .json value => some value
  | _ => none

/-- `typeof arg === "string" ? JSON.parse(arg) : arg`, where a text that is no JSON is
`fallback`. -/
def parsedProof (runtime : Runtime) (proofArg fallback : Untyped) : Untyped :=
  match proofArg with
  | some (.string text) =>
    match JsonValue.parse runtime.numbers text with
    | some proof => some proof
    | none => fallback
  | proof => proof

section Code

variable (config : GateConfig)
  (verifyDelegation : JsonValue JsNumber → GateM DelegationCheck)

/-- `grant.expiresAt === undefined`, or a finite time that has not come. -/
def isUnexpired (grant : Grant) : GateM Bool :=
  match grant.expiresAt with
  | none => return true
  | some (.finite expiresAt) => do return !(expiresAt ≤ (← Async.ask (I := Gates) .now))
  | some _ => return false

/-- `grant.credentialJwt ?? grant.delegationCredential`. -/
def evidence (grant : Grant) : Untyped :=
  match grant.credentialJwt with
  | some jwt => some (.string jwt)
  | none => grant.delegationCredential

/-- What the verified credential says of the grant. -/
def judgeEvidence (grant : Grant) (scopeId : JsString) (vc : JsonValue JsNumber) :
    Except Error (Option ResolvedGrant) := do
  let subject ← Untyped.member (some vc) (js "credentialSubject")
  let subjectId ← subject.member (js "id")
  if !Untrusted.strictEquals? subjectId (some grant.agentDid) then return none
  let controller ← (← subject.member (js "delegation")).member (js "controller")
  if !Untrusted.strictEquals? controller grant.userDid then return none
  let scopeResult ← Untrusted.scopeSatisfies config.runtime scopeId (some vc)
  if !scopeResult.satisfied then return none
  return some { grant, delegatedScopes := ← Untrusted.getDelegationScopes (some vc) }

/-- The delegation that a grant retains, verified for this call. -/
def authorizeEvidence (grant : Grant) (scopeId : JsString) (evidence : JsonValue JsNumber) :
    GateM (Option ResolvedGrant) :=
  tryCatch (do
    match ← verifyDelegation evidence with
    | .invalid .. => return none
    | .valid vc _ _ => Async.ofExcept (judgeEvidence config grant scopeId vc))
    fun _ => return none

/-- A grant caches evidence, never a permanent authorization decision. -/
def authorizeGrant (grant : Grant) (scopeId : JsString) : GateM (Option ResolvedGrant) :=
  if grant.status = .active ∧ grant.lists scopeId then do
    if ← isUnexpired grant then
      match evidence grant with
      | none => return none
      | some evidence => authorizeEvidence config verifyDelegation grant scopeId evidence
    else return none
  else return none

/-- The loop over the grants of an agent. -/
def firstOfAgent (agentDid : JsString) (sessionId : Option JsString) (scopeId : JsString) :
    List Grant → GateM (Option ResolvedGrant)
  | [] => return none
  | grant :: rest =>
    if !JsonValue.strictEquals (.string agentDid) grant.agentDid ||
        (grant.sessionId.isSome && grant.sessionId ≠ sessionId) then
      firstOfAgent agentDid sessionId scopeId rest
    else do
      match ← authorizeGrant config verifyDelegation grant scopeId with
      | some resolved => return some resolved
      | none => firstOfAgent agentDid sessionId scopeId rest

/-- A grant of the agent that the call's proof shows the possession of. -/
def resolveAgentGrant (toolName : JsString) (args : PlainObject JsNumber)
    (sessionId : Option JsString) (scopeId : JsString) : GateM (Option ResolvedGrant) :=
  if config.holderBindingVerifier then
    let proof := parsedProof config.runtime (argument args (js "_kyaos_proof")) none
    match (proof.member? (js "meta")).member? (js "did") with
    | some (.string agentDid) =>
      if (extractPublicKeyFromDidKey agentDid).isSome then do
        match ← assertHolderBinding proof agentDid (toHolderBindingRequest toolName args)
            config.serverDid with
        | .bound =>
          let grants ← Async.ask (I := Gates) (.getByAgent agentDid [scopeId])
          firstOfAgent config verifyDelegation agentDid sessionId scopeId grants
        | _ => return none
      else return none
    | _ => return none
  else return none

/-- `holderBindingMode === "enforce" && isHolderBindingApplicable(agentDid)`. -/
def needsProof (agentDid : JsonValue JsNumber) : Except Error Bool :=
  if config.holderBindingMode = .enforce then isHolderBindingApplicable agentDid else .ok false

/-- The loop over the grants of a session. -/
def firstOfSession (sessionId scopeId : JsString) : List Grant → GateM (Option ResolvedGrant)
  | [] => return none
  | grant :: rest =>
    if grant.sessionId ≠ some sessionId then firstOfSession sessionId scopeId rest
    else do
      if ← Async.ofExcept (needsProof config grant.agentDid) then
        firstOfSession sessionId scopeId rest
      else
        match ← authorizeGrant config verifyDelegation grant scopeId with
        | some resolved => return some resolved
        | none => firstOfSession sessionId scopeId rest

def resolveExistingGrant (toolName : JsString) (args : PlainObject JsNumber)
    (sessionId : Option JsString) (scopeId : JsString) : GateM (Option ResolvedGrant) := do
  match ← resolveAgentGrant config verifyDelegation toolName args sessionId scopeId with
  | some resolved => return some resolved
  | none =>
    match sessionId with
    | some (unit :: units) =>
      let grants ← Async.ask (I := Gates) (.getBySession (unit :: units) [scopeId])
      firstOfSession config verifyDelegation (unit :: units) scopeId grants
    | _ => return none

end Code

end KyaOs.Middleware
