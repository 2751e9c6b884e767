import KyaOs.Utils.CanonicalInjective
import KyaOs.Utils.JsonMembers
import KyaOs.Utils.Untyped

/-!
# What goes through the gates of a call

The context that the delegation gate hands on, what the policy engine is asked and
answers, and the results that a gate returns in place of its handler's.
-/

namespace KyaOs.Middleware

open Js Untyped JsonValue

abbrev ToolResult := JsonValue JsNumber

/-- The principal that `wrapWithDelegation` authenticated. -/
structure CallPrincipal where
  agentDid : Untyped
  responsibleParty : Untyped := none
  delegatedScopes : List (JsonValue JsNumber)

/-- The evidence of an allowed call: by its source, the grant or the delegation. -/
inductive CallAuthorization where
  | grant (scopeId grantRef : JsString)
  | delegation (scopeId : JsString) (delegationRef : Untyped)
      (delegationCredentialDigest : JsString)

/-- `KyaOsCallContext`, as the delegation gate fills it. -/
structure CallContext where
  scopeId : JsString
  /-- The actor's DID. -/
  actor : Untyped
  /-- The responsible party's DID. -/
  responsibleParty : Untyped
  authorization : CallAuthorization
  principal : CallPrincipal
  approvals : Untyped := none

/-- The audit events of the two gates, with what they record. -/
inductive GateEvent where
  | delegationRejected (delegationRef : JsString)
  | delegationVerified (delegationRef parentRef : Untyped) (context : CallContext)
  | authorizationApproved (context : Option CallContext)
  | grantUsed (grantRef : JsString) (context : CallContext)
  | authorizationEvaluated (outcome : JsString) (reasonCode : Option JsString)
      (context : Option CallContext)

structure RiskAssessment where
  reversibility : JsString
  blastRadius : JsString
  severity : JsString

structure PolicyRequest where
  principal : CallPrincipal
  toolName : JsString
  resourceNamespace : JsString
  scopeMatched : Bool
  humanApprovals : List JsString := []
  risk : RiskAssessment

structure Quorum where
  n : JsNumber
  /-- Allowed approver DIDs; empty for any. -/
  approvers : List JsString

inductive PolicyDecision where
  | allow
  | deny (reason : JsString)
  | stepUp (quorum : Quorum) (reason : JsString)

/-- `JSON.stringify`. -/
def jsonText (numbers : Doubles JsNumber) (value : JsonValue JsNumber) : JsString :=
  Json.stringify (toJson numbers value)

/-- A result of one text. -/
def textResult (text : JsString) : ToolResult :=
  .object [(js "content", .array [.object [(js "type", .string (js "text")),
    (js "text", .string text)]])]

/-- A failed result of one text. -/
def errorResult (text : JsString) : ToolResult :=
  .object [(js "content", .array [.object [(js "type", .string (js "text")),
    (js "text", .string text)]]), (js "isError", .bool true)]

/-- A control character. -/
def isControl (u : UInt16) : Bool := u ≤ 0x1F || (0x7F ≤ u && u ≤ 0x9F)

/-- Control characters replaced, and cut at `maxLen`. -/
def sanitizeForMessage (value : JsString) : JsString :=
  let out := value.map fun u => if isControl u then 0xFFFD else u
  if 256 < out.length then out.take 256 ++ [0x2026] else out

/-- `{ error, reason }` with a sanitized reason. -/
def buildDelegationErrorResponse (numbers : Doubles JsNumber) (error reason : JsString) :
    ToolResult :=
  errorResult (jsonText numbers (.object [(js "error", .string error),
    (js "reason", .string (sanitizeForMessage reason))]))

end KyaOs.Middleware
