import KyaOs.Middleware.DelegationGate

/-!
# The policy gate

`withPolicyGate`, composed after the delegation gate: a policy engine allows the call,
denies it, or requires the approval of a quorum, whose grants bind the call by its hash.
-/

namespace KyaOs.Middleware

open Js Untyped JsonValue Audit Proof Concurrency

structure PolicyGateOptions where
  approvalsArgKey : Option JsString := none
  /-- Whether there is a `resolveNamespace` hook. -/
  resolvesNamespace : Bool := false
  scopeMatched : Bool := false
  /-- Whether there is an `isValidApprovalSignature`; without one no signature is valid. -/
  checksSignatures : Bool := false

def PolicyGateOptions.approvalsKey (opts : PolicyGateOptions) : JsString :=
  opts.approvalsArgKey.getD (js "_kyaos_approvals")

/-- The call's arguments with the approvals that the delegation gate forwarded. -/
def restoreApprovals (approvalsKey : JsString) (callArgs : PlainObject JsNumber)
    (approvals : Untyped) : PlainObject JsNumber :=
  match callArgs.get approvalsKey, approvals with
  | .undefined, some approvals =>
    { members := assignMember approvalsKey approvals callArgs.members }
  | _, _ => callArgs

/-- Best-effort projection of a delegation into policy principal facts. -/
def extractPolicyPrincipal (del : Untyped) : CallPrincipal :=
  let subject := del.member? (js "credentialSubject")
  let delegation := subject.member? (js "delegation")
  let controller := delegation.member? (js "controller")
  { agentDid := some ((delegation.member? (js "subjectDid")).orElse
      ((subject.member? (js "id")).orElse (.string (js "unknown"))))
    responsibleParty := if controller.truthy then controller else none
    delegatedScopes := (Untrusted.getDelegationScopes del).toOption.getD [] }

/-- The request that the policy engine evaluates. -/
def buildPolicyRequest (opts : PolicyGateOptions) (principal : CallPrincipal)
    (toolName resourceNamespace : JsString) (risk : RiskAssessment) : PolicyRequest where
  principal :=
    { principal with
      responsibleParty :=
        if principal.responsibleParty.truthy then principal.responsibleParty else none }
  toolName
  resourceNamespace
  scopeMatched := opts.scopeMatched
  risk

/-- `quorum.n <= 0`. -/
def Quorum.isUnsatisfiable (quorum : Quorum) : Bool :=
  match quorum.n with
  | .finite n => n ≤ 0
  | .infinity negative => negative
  | .nan => false

/-- `size >= quorum.n`. -/
def Quorum.isReachedBy (quorum : Quorum) (size : Nat) : Bool :=
  match quorum.n with
  | .finite n => n ≤ size
  | .infinity negative => negative
  | .nan => false

/-- `SameValueZero` of two approver DIDs of any type. -/
def sameApprover : Untyped → Untyped → Bool
  | none, none => true
  | some did, some did' => sameValueZero did did'
  | _, _ => false

/-- `approvers.add(approverDid)`. -/
def addApprover (approvers : List Untyped) (approverDid : Untyped) : List Untyped :=
  if approvers.any (sameApprover approverDid) then approvers else approvers ++ [approverDid]

/-- `values.includes(value)`, of strings. -/
def includesValue (values : List JsString) (value : Untyped) : Bool :=
  values.any (Untyped.isString value)

/-- The checks of a grant that need no signature. -/
def bindsAction (actionHashes : List Digest) (quorum : Quorum) (g : JsonValue JsNumber) : Bool :=
  let grant : Untyped := some g
  (grant.member? (js "decision")).isString (js "approve") &&
    includesValue actionHashes (grant.member? (js "requestHash")) &&
    (quorum.approvers.isEmpty || includesValue quorum.approvers (grant.member? (js "approverDid")))

section Code

variable (config : GateConfig) (opts : PolicyGateOptions)

/-- `isValidApprovalSignature`, which without an option rejects every signature. -/
def isValidSignature (g : JsonValue JsNumber) : GateM Bool :=
  if opts.checksSignatures then Async.ask (I := Gates) (.isValidApprovalSignature g)
  else return false

/-- The loop over the grants. -/
def collectApprovers (actionHashes : List Digest) (quorum : Quorum) (approvers : List Untyped) :
    List (JsonValue JsNumber) → GateM (List Untyped)
  | [] => return approvers
  | g :: rest => do
    let _ ← Async.ofExcept (Untyped.member (some g) (js "decision"))
    if bindsAction actionHashes quorum g then
      if ← isValidSignature opts g then
        collectApprovers actionHashes quorum
          (addApprover approvers (Untyped.member? (some g) (js "approverDid"))) rest
      else collectApprovers actionHashes quorum approvers rest
    else collectApprovers actionHashes quorum approvers rest

/-- Whether enough distinct approvers signed grants over one of the hashes. -/
def verifyApprovalQuorum (grants : List (JsonValue JsNumber)) (actionHashes : List Digest)
    (quorum : Quorum) : GateM Bool := do
  if quorum.isUnsatisfiable then return false
  let approvers ← collectApprovers opts actionHashes quorum [] grants
  return quorum.isReachedBy approvers.length

/-- `computeCanonicalHashes(shape).requestHash`. -/
def hashShape (shape : ToolRequest JsNumber) : GateM Digest := do
  let text ← Async.ofExcept (canonicalizeJson config.runtime.numbers
    (canonicalRequest config.runtime.numbers shape))
  Async.ask (I := Gates) (.hash (encodeUtf8 text))

def hashShapes : List (ToolRequest JsNumber) → GateM (List Digest)
  | [] => return []
  | shape :: rest => do
    let requestHash ← hashShape config shape
    return requestHash :: (← hashShapes rest)

/-- The challenge of a step-up that lacks its quorum. -/
def createNeedsApprovalError (toolName requestHash reason : JsString) (quorum : Quorum) (now : ℚ) :
    JsonValue JsNumber :=
  .object [(js "error", .string (js "needs_approval")),
    (js "message", .string (js "Tool \"" ++ toolName ++ js "\" requires " ++
      config.runtime.numbers.text quorum.n ++ js "-of-N approval before it may proceed (" ++
      sanitizeForMessage reason ++ js ").")),
    (js "resumeToken", .string (js "step_up:" ++ requestHash)),
    (js "expiresAt", .number (.finite ((now / 1000).floor + 300))),
    (js "requestHash", .string requestHash),
    (js "quorum", .object [(js "n", .number quorum.n),
      (js "approvers", .array (quorum.approvers.map .string))])]

/-- A step-up: the grants supplied with the call decide. -/
def stepUp (toolName : JsString) (handler : ToolHandler) (callArgs args : PlainObject JsNumber)
    (sessionId : Option JsString) (context : Option CallContext) (quorum : Quorum)
    (reason : JsString) : GateM ToolResult := do
  let handlerArgs := withoutControlArgs callArgs
  let action := approvedAction toolName opts.approvalsKey handlerArgs
  let requestHash ← hashShape config action
  let grants := match argument args opts.approvalsKey with
    | some (.array grants) => grants
    | _ => []
  let actionHashes ← hashShapes config (action :: alternateRequestShapes action)
  if ← verifyApprovalQuorum opts grants actionHashes quorum then
    recordAudit config (.authorizationApproved context)
    handler handlerArgs sessionId context
  else
    let now ← Async.ask (I := Gates) .now
    Async.ask (I := Gates) (.attachOutcomeProof
      (errorResult (jsonText config.runtime.numbers
        (createNeedsApprovalError config toolName requestHash reason quorum now)))
      toolName callArgs sessionId reason (js "step_up_required"))

/-- The outcome and reason code that an evaluation is recorded with. -/
def evaluationEvent (decision : PolicyDecision) (context : Option CallContext) : GateEvent :=
  match decision with
  | .allow => .authorizationEvaluated (js "succeeded") none context
  | .deny _ => .authorizationEvaluated (js "denied") (some (js "POLICY_DENIED")) context
  | .stepUp .. => .authorizationEvaluated (js "challenged") (some (js "POLICY_STEP_UP")) context

/-- What a decision of the policy engine comes to. -/
def applyDecision (toolName : JsString) (handler : ToolHandler)
    (callArgs args : PlainObject JsNumber)
    (sessionId : Option JsString) (context : Option CallContext) (decision : PolicyDecision) :
    GateM ToolResult := do
  recordAudit config (evaluationEvent decision context)
  match decision with
  | .allow =>
    recordAudit config (.authorizationApproved context)
    handler (withoutControlArgs callArgs) sessionId context
  | .deny reason =>
    Async.ask (I := Gates) (.attachOutcomeProof
      (errorResult (jsonText config.runtime.numbers (.object
        [(js "error", .string (js "policy_denied")),
          (js "reason", .string (sanitizeForMessage reason))])))
      toolName callArgs sessionId reason (js "denied"))
  | .stepUp quorum reason =>
    stepUp config opts toolName handler callArgs args sessionId context quorum reason

/-- `opts.resolveNamespace?.(args) ?? toolName`. -/
def resolveNamespace (toolName : JsString) (args : PlainObject JsNumber) : GateM JsString :=
  if opts.resolvesNamespace then Async.ask (I := Gates) (.resolveNamespace args)
  else return toolName

/-- The principal that was authenticated, or the unverified projection. -/
def principalOf (context : Option CallContext) (args : PlainObject JsNumber) : CallPrincipal :=
  match context with
  | some context => context.principal
  | none => extractPolicyPrincipal (argument args (js "_kyaos_delegation"))

def withPolicyGate (toolName : JsString) (handler : ToolHandler) : ToolHandler :=
  fun callArgs sessionId context => do
    Async.ask (I := Gates) .requireProofLayer
    let args := restoreApprovals opts.approvalsKey callArgs (context.bind (·.approvals))
    let resourceNamespace ← resolveNamespace opts toolName args
    let risk ← Async.ask (I := Gates) (.classify toolName resourceNamespace)
    let decision ← Async.ask (I := Gates) (.evaluatePolicy
      (buildPolicyRequest opts (principalOf context args) toolName resourceNamespace risk))
    applyDecision config opts toolName handler callArgs args sessionId context decision

end Code

end KyaOs.Middleware
