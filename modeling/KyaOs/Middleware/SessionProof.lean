import KyaOs.Concurrency.Conversations
import KyaOs.Middleware.ControlArgs
import KyaOs.Middleware.PendingProofs
import KyaOs.Middleware.Scrub

/-!
# Session proofs

`createSessionProof`: what the wrappers do with a handler's result, and what the outer layer
does with a result before it leaves. Every `await` is a request, and so is each operation on
the store of pending proofs, which runs in one piece. A requested value may be anything, and
a request may throw. What is logged is left out, and so is the establishment of sessions:
the fallback session is whatever it is answered to be.
-/

namespace KyaOs.Middleware

open Js Untyped JsonValue Audit Proof Concurrency

def unprovenProofError : JsString := js "Proof generation failed — response is unproven"
def ambiguousSessionProofError : JsString :=
  js "Proof session is ambiguous (several live sessions, none threaded) — response is unproven"

/-- A result object, and whether it is one of the `auditedTerminalResponses`. -/
structure Returned where
  value : ToolResult
  audited : Bool := false

structure KyaOsCallContext where
  scopeId : Option JsString := none
  actor : Untyped := none
  responsibleParty : Untyped := none
  authorization : Untyped := none
  correlationId : Untyped := none
  causationId : Untyped := none

inductive FallbackSession where
  | found (sessionId : JsString)
  | missing (ambiguous : Bool)

inductive ToolPhase where
  | started
  | completed
  | failed
  | denied
  | challenged
  deriving DecidableEq

inductive ProofPhase where
  | generated
  | rejected

inductive SessionEvent where
  /-- The event of a tool; the number is that of the call it is about, which no code reads. -/
  | tool (call : Nat) (phase : ToolPhase) (toolName outcome : JsString)
      (reasonCode : Option JsString) (context : Option AuditContext)
  | proof (phase : ProofPhase) (outcome : JsString) (verificationCode : Option JsString)
      (context : Option AuditContext)
  | authorization (phase outcome reasonCode : JsString)

inductive SessionRequest where
  | requireProofLayer
  | recordAudit (event : SessionEvent)
  | callHandler (args : PlainObject JsNumber) (sessionId : Option JsString)
      (context : Option KyaOsCallContext)
  | ensureSession
  | getSession (sessionId : JsString)
  | hashRequest (request : ToolRequest JsNumber)
  | leaveToOuterLayer (pending : PendingProof)
  | takePendingProof (id : JsString)
  /-- `closedProofs.get(id)`. -/
  | closedProof (id : JsString)
  | closeFoundProofs (ids leaked : List JsString) (exempt : Untyped)
  /-- The id is that of the proof redeemed, which the generator does not get. -/
  | generateProof (id : JsString) (request : ToolRequest JsNumber)
      (response : Option (ToolResponse JsNumber)) (session : SessionContext)
      (options : ProofOptions)
  | logAuditRecord (session : SessionContext) (requestHash : Digest)
      (responseHash : Option Digest) (scopeId : Option JsString)
  /-- A proof taken to be closed in the background, if one is. -/
  | nextClosing
  | openTransport
  | releaseTransport
  /-- `inner.send(message)`. -/
  | innerSend (message : Members JsNumber)

abbrev SessionRequest.Answer : SessionRequest → Type
  | .requireProofLayer => Unit
  | .recordAudit _ => Unit
  | .callHandler .. => Returned
  | .ensureSession => FallbackSession
  | .getSession _ => Option SessionContext
  | .hashRequest _ => Digest
  | .leaveToOuterLayer _ => JsString
  | .takePendingProof _ => Option PendingProof
  | .closedProof _ => Option ClosedProof
  | .closeFoundProofs .. => Unit
  | .generateProof .. => DetachedProof
  | .logAuditRecord .. => Unit
  | .nextClosing => Option PendingProof
  | .openTransport => Unit
  | .releaseTransport => Unit
  | .innerSend _ => Unit

abbrev Sessions : Setting where
  State := ProofStore
  Error := Error
  Request := SessionRequest
  Answer := SessionRequest.Answer

abbrev SessionM := Async Sessions

structure SessionConfig where
  numbers : Doubles JsNumber
  /-- The middleware's lifecycle stamp, made when its first transport attached. -/
  lifecycleStamp : JsString
  /-- Whether audit is configured. -/
  audit : Bool
  emitLegacyProofKey : Bool
  responseProofProfile : JsString

def SessionConfig.bindsEnvelope (config : SessionConfig) : Bool :=
  config.responseProofProfile = responseProofProfileEnvelope

section Copies

/-- `{ ...response, ...members }`, which is as audited as the response. -/
def withMembers (response : Returned) (members : Members JsNumber) : Returned where
  value := .object (members.foldl (fun copy member => assignMember member.1 member.2 copy)
    (spreadOf (some response.value)))
  audited := response.audited

/-- `{ ...(response._meta ?? {}) }`. -/
def metaMembers (response : Returned) : Members JsNumber := spreadOf (metaOf response.value)

/-- A copy of the response with this `_meta`. -/
def withMetadata (response : Returned) (metadata : Members JsNumber) : Returned :=
  withMembers response [(js "_meta", .object metadata)]

/-- The audit marker with a failed delivery noted. -/
def degraded (marker : Members JsNumber) (reason : JsString) : JsonValue JsNumber :=
  .object (assignMember (js "reason") (.string reason)
    (assignMember (js "status") (.string (js "degraded")) marker))

/-- A copy of the response marked as an error whose audit delivery failed. -/
def markAuditDegraded (response : Returned) (reason : JsString) (stripSuccessProof : Bool) :
    Returned :=
  let metadata := if stripSuccessProof
    then withoutKeys (metaMembers response) [kyaOsProofMetaKey, legacyProofMetaKey].contains
    else metaMembers response
  let marker := metadata.lookup auditMetaKey
  let marker := if isObject marker then spreadOf marker else []
  withMembers response
    [(js "_meta", .object (assignMember auditMetaKey (degraded marker reason) metadata)),
      (js "isError", .bool true)]

def auditUnavailableResponse (numbers : Doubles JsNumber) (reason : JsString) : Returned where
  value := .object [(js "content", .array [.object [(js "type", .string (js "text")),
      (js "text", .string (jsonText numbers (.object [(js "success", .bool false),
        (js "error", .object [(js "code", .string (js "audit_delivery_failed")),
          (js "message", .string reason)])])))]]),
    (js "isError", .bool true),
    (js "_meta", .object [(auditMetaKey, degraded [] reason)])]

def hasTerminalAuditMarker (response : Returned) : Bool :=
  response.audited ||
    ((metaOf response.value).member? auditMetaKey).member? (js "terminal") matches some (.bool true)

/-- The handler's `_meta` members that a proof or a proof error is merged into. -/
def handlerMeta (response : Returned) : Except Error (Members JsNumber) := do
  let kept ← tryWithoutMetaKeys response.value outcomeMetaKeys false
  return spreadOf (metaOf kept)

/-- A copy of the response that says it has no proof, over these members of its `_meta`. -/
def withProofError (response : Returned) (metadata : Members JsNumber) (text : JsString) :
    Returned :=
  withMetadata response (assignMember (js "proofError") (.string text) metadata)

/-- A copy of the response that goes out without the proof it was meant to carry. -/
def markUnproven (response : Returned) : Except Error Returned := do
  let kept ← tryWithoutMetaKeys response.value proofMetaKeys false
  return withProofError response (spreadOf (metaOf kept)) unprovenProofError

end Copies

def auditContext (context : KyaOsCallContext) : AuditContext :=
  let present (name : String) (value : Untyped) : Members JsNumber :=
    (value.map fun value => (js name, value)).toList
  .object (present "actor" context.actor ++ present "responsibleParty" context.responsibleParty ++
    present "authorization" context.authorization ++
    present "correlationId" context.correlationId ++ present "causationId" context.causationId)

section Code

variable (config : SessionConfig)

def hasOwnStamp (response : ToolResult) : Bool :=
  isString ((metaOf response).member? lifecycleStampMetaKey) config.lifecycleStamp

def stampLifecycle (response : Returned) : Returned :=
  withMetadata response (assignMember lifecycleStampMetaKey (.string config.lifecycleStamp)
    (metaMembers response))

/-- A proof under the namespaced key, and under the legacy one where it is emitted. -/
def withProofMeta (base : Members JsNumber) (proof : DetachedProof) : Members JsNumber :=
  let placed := assignMember kyaOsProofMetaKey proof.toValue base
  if config.emitLegacyProofKey then assignMember legacyProofMetaKey proof.toValue placed else placed

/-- What a proof binds of a result. -/
def boundData (result : ToolResult) : JsonValue JsNumber :=
  if config.bindsEnvelope then result
  else (Untyped.member? (some result) (js "content")).getD (.refused (js "undefined"))

/-- Whether the event was delivered. -/
def emitAudit (event : SessionEvent) : SessionM Bool :=
  if config.audit then
    tryCatch (do
      Async.ask (I := Sessions) (.recordAudit event)
      return true) fun _ => return false
  else return true

/-- The second event is recorded only where the first was delivered. -/
def emitBoth (first second : SessionEvent) : SessionM Bool := do
  let delivered ← emitAudit config first
  if delivered then emitAudit config second else return false

/-- Leaves the proof for the outer layer: the copy returned carries its id. -/
def leaveToOuterLayer (response : Returned) (pending : PendingProof) : SessionM Returned := do
  let id ← Async.ask (I := Sessions) (.leaveToOuterLayer pending)
  return withMetadata response
    (assignMember pendingProofMetaKey (.string id) (metaMembers response))

/-- An allowed call whose proof could not be made. -/
def allowedProofFailed (result : Returned) (context : Option AuditContext) :
    SessionM Returned := do
  let kept ← Async.ofExcept (handlerMeta result)
  let unproven := withProofError result kept unprovenProofError
  let delivered ← emitAudit config (.proof .rejected (js "failed")
    (some (js "PROOF_GENERATION_FAILED")) context)
  return if delivered then unproven else markAuditDegraded unproven
    (js "Required proof-failure audit delivery failed after tool completion") true

section Wrapped

variable (call : Nat) (toolName : JsString) (callAudit : Option AuditContext)

/-- A completed call whose proof has no session. -/
def completeUnproven (verificationCode : JsString) (result : Returned) : SessionM Returned := do
  let delivered ← emitBoth config
    (.proof .rejected (js "failed") (some verificationCode) callAudit)
    (.tool call .completed toolName (js "succeeded") none callAudit)
  return if delivered then result else markAuditDegraded result
    (js "Required terminal audit delivery failed after tool completion") true

/-- No session: one that is ambiguous is reported on the result. -/
def sessionUnavailable (ambiguous : Bool) (result : Returned) : SessionM Returned := do
  let result ← Async.ofExcept <|
    if ambiguous then do
      return withProofError result (← handlerMeta result) ambiguousSessionProofError
    else return result
  completeUnproven config call toolName callAudit (js "PROOF_SESSION_UNAVAILABLE") result

/-- An error result of a handler. -/
def settleError (result : Returned) : SessionM Returned :=
  if hasTerminalAuditMarker result then return result
  else do
    let delivered ← emitAudit config (.tool call .failed toolName (js "failed")
      (some (js "HANDLER_ERROR_RESULT")) callAudit)
    return if delivered then result else markAuditDegraded result
      (js "Required terminal audit delivery failed for an error response") false

/-- The request is hashed now, as the wrapper saw it. -/
def leaveAllowed (args : PlainObject JsNumber) (scopeId : Option JsString) (result : Returned)
    (session : SessionContext) : SessionM Returned := do
  match ← (Async.ask (I := Sessions) (.hashRequest
      { method := toolName, params := some args.toValue })).outcome with
  | .ok requestHash => leaveToOuterLayer result (.allowed
      { toolName, requestHash, sessionId := session.sessionId, scopeId, context := callAudit,
        call })
  | .error _ => allowedProofFailed config result callAudit

/-- The explicit session, or the fallback. -/
def resolveSession (sessionId : Option JsString) : SessionM FallbackSession :=
  match sessionId with
  | some sessionId => return .found sessionId
  | none => Async.ask (I := Sessions) .ensureSession

/-- A successful result of a handler. -/
def settleSuccess (args : PlainObject JsNumber) (sessionId scopeId : Option JsString)
    (result : Returned) : SessionM Returned := do
  match ← resolveSession sessionId with
  | .missing ambiguous => sessionUnavailable config call toolName callAudit ambiguous result
  | .found resolved =>
    if resolved = [] then sessionUnavailable config call toolName callAudit false result
    else do
      match ← Async.ask (I := Sessions) (.getSession resolved) with
      | none =>
        completeUnproven config call toolName callAudit (js "PROOF_SESSION_NOT_FOUND") result
      | some session => leaveAllowed config call toolName callAudit args scopeId result session

/-- What follows the handler. -/
def settleResult (args : PlainObject JsNumber) (sessionId scopeId : Option JsString)
    (result : Returned) : SessionM Returned :=
  if result.audited then return result else do
    let isError ← Async.ofExcept (Untyped.member (some result.value) (js "isError"))
    if Untyped.truthy isError then settleError config call toolName callAudit result
    else settleSuccess config call toolName callAudit args sessionId scopeId result

end Wrapped

section Calls

variable (call : Nat) (toolName : JsString) (args : PlainObject JsNumber)
  (sessionId : Option JsString)

/-- The handler; that it threw is recorded. -/
def callRecorded (callAudit : Option AuditContext) (handler : SessionM Returned) :
    SessionM Returned :=
  tryCatch handler fun error => do
    let _ ← emitAudit config (.tool call .failed toolName (js "failed")
      (some (js "HANDLER_THROWN")) callAudit)
    throw error

def runWrapped (context : Option KyaOsCallContext) (handler : SessionM Returned) :
    SessionM Returned := do
  let callAudit := context.map auditContext
  let scopeId := context.bind KyaOsCallContext.scopeId
  let delivered ← emitAudit config
    (.tool call .started toolName (js "unknown") none callAudit)
  if delivered then
    let result ← callRecorded config call toolName callAudit handler
    settleResult config call toolName callAudit args sessionId scopeId result
  else
    return auditUnavailableResponse config.numbers
      (js "Required intent audit delivery failed before tool execution")

/-- The wrapped handler of a tool. -/
def wrapWithProof (context : Option KyaOsCallContext) (handler : SessionM Returned) :
    SessionM Returned := do
  Async.ask (I := Sessions) .requireProofLayer
  let result ← runWrapped config call toolName args sessionId context handler
  return stampLifecycle config result

def outcomeProofFailed (terminalAuditDelivered : Bool) : SessionM Unit := do
  if terminalAuditDelivered then
    let _ ← emitAudit config (.proof .rejected (js "failed")
      (some (js "OUTCOME_PROOF_GENERATION_FAILED")) none)
  return ()

/-- The audit marker of an outcome. -/
def outcomeMarker (outcome : AuthorizationOutcome) (terminalAuditDelivered : Bool) :
    JsonValue JsNumber :=
  let marker : Members JsNumber :=
    [(js "terminal", .bool true), (js "outcome", .string outcome.text)]
  if terminalAuditDelivered then .object marker
  else degraded marker (js "Required terminal audit delivery failed for authorization outcome")

def resolveOutcomeSession : SessionM (Option SessionContext) := do
  match ← resolveSession sessionId with
  | .missing _ => return none
  | .found resolved =>
    if resolved = [] then return none else Async.ask (I := Sessions) (.getSession resolved)

def AuthorizationOutcome.phase : AuthorizationOutcome → ToolPhase
  | .denied => .denied
  | _ => .challenged

def AuthorizationOutcome.auditOutcome : AuthorizationOutcome → JsString
  | .denied => js "denied"
  | _ => js "challenged"

def AuthorizationOutcome.reasonCode : AuthorizationOutcome → JsString
  | .needsAuthorization => js "NEEDS_AUTHORIZATION"
  | .stepUpRequired => js "STEP_UP_REQUIRED"
  | .denied => js "AUTHORIZATION_DENIED"

/-- The outcome's proof is left for the outer layer, over the request without its control
arguments. -/
def leaveOutcome (audited : Returned) (reason : JsString) (outcome : AuthorizationOutcome)
    (terminalAuditDelivered : Bool) (session : SessionContext) : SessionM Returned := do
  match ← (Async.ask (I := Sessions) (.hashRequest
      { method := toolName, params := some (withoutControlArgs args).toValue })).outcome with
  | .ok requestHash => leaveToOuterLayer audited (.outcome
      { toolName, requestHash, sessionId := session.sessionId, outcome
        reason := sanitizeForMessage reason, terminalAuditDelivered })
  | .error _ => do
    outcomeProofFailed config terminalAuditDelivered
    Async.ofExcept (markUnproven audited)

def outcomeProof (response : ToolResult) (reason : JsString) (outcome : AuthorizationOutcome) :
    SessionM Returned := do
  let terminalAuditDelivered ← emitBoth config
    (.authorization (if outcome = .denied then js "denied" else js "step_up_required")
      outcome.auditOutcome outcome.reasonCode)
    (.tool call outcome.phase toolName outcome.auditOutcome (some outcome.reasonCode) none)
  let marked := withMetadata ⟨response, true⟩ (assignMember auditMetaKey
    (outcomeMarker outcome terminalAuditDelivered) (spreadOf (metaOf response)))
  match ← (resolveOutcomeSession sessionId).outcome with
  | .error _ => do
    outcomeProofFailed config terminalAuditDelivered
    return marked
  | .ok none => return marked
  | .ok (some session) =>
    leaveOutcome config toolName args marked reason outcome terminalAuditDelivered session

def attachOutcomeProof (response : ToolResult) (reason : JsString)
    (outcome : AuthorizationOutcome) : SessionM Returned := do
  let result ← outcomeProof config call toolName args sessionId response reason outcome
  return stampLifecycle config result

end Calls

/-- A proof that nothing will redeem is closed in the audit trail. -/
def closeTaken (pending : PendingProof) (verificationCode : JsString) : SessionM Unit := do
  match pending with
  | .outcome pending =>
    if pending.terminalAuditDelivered then
      let _ ← emitAudit config (.proof .rejected (js "failed") (some verificationCode) none)
    return ()
  | .allowed pending =>
    let _ ← emitBoth config
      (.proof .rejected (js "failed") (some verificationCode) pending.context)
      (.tool pending.call .failed pending.toolName (js "failed") (some (js "RESULT_NOT_SENT"))
        pending.context)
    return ()

def closeUnsentProof (id : JsString) : SessionM Unit := do
  match ← Async.ask (I := Sessions) (.takePendingProof id) with
  | some pending => closeTaken config pending (js "PROOF_NOT_SENT")
  | none => return ()

/-- The request a proof names when its hash was computed earlier. -/
def hashedRequest (toolName : JsString) : ToolRequest JsNumber :=
  { method := toolName, params := none }

section Sending

variable (id : JsString)

/-- The audit of an allowed call's proof, and the call's record. -/
def recordAllowed (proved : Returned) (pending : PendingAllowedProof) (session : SessionContext)
    (proof : DetachedProof) : SessionM Returned := do
  let delivered ← emitBoth config
    (.proof .generated (js "succeeded") none pending.context)
    (.tool pending.call .completed pending.toolName (js "succeeded") none pending.context)
  if delivered then
    tryCatch (Async.ask (I := Sessions) (.logAuditRecord session proof.proofMeta.requestHash
      proof.proofMeta.responseHash proof.proofMeta.scopeId)) fun _ => return ()
    return proved
  else
    return markAuditDegraded proved
      (js "Required terminal audit delivery failed after tool completion") true

/-- Signs an allowed call's result, as it is sent. -/
def proveAllowedCall (result : Returned) (pending : PendingAllowedProof)
    (session : SessionContext) : SessionM Returned :=
  tryCatch (do
    let proof ← Async.ask (I := Sessions) (.generateProof id (hashedRequest pending.toolName)
      (some { data := boundData config result.value }) session
      { scopeId := pending.scopeId, profile := config.responseProofProfile
        precomputedRequestHash := some pending.requestHash })
    let kept ← Async.ofExcept (handlerMeta result)
    recordAllowed config (withMetadata result (withProofMeta config kept proof)) pending session
      proof) fun _ => allowedProofFailed config result pending.context

/-- A needs-authorization challenge has a body to bind; other outcomes have none. -/
def outcomeResponse (outcome : AuthorizationOutcome) (response : ToolResult) :
    Option (ToolResponse JsNumber) :=
  if outcome = .needsAuthorization then some { data := boundData config response } else none

/-- The audit of an outcome's proof. Its failure marks the result as an error, which the
envelope profile covers. -/
def recordOutcome (proved : Returned) (terminalAuditDelivered : Bool) : SessionM Returned := do
  if terminalAuditDelivered then
    let delivered ← emitAudit config (.proof .generated (js "succeeded") none none)
    return if delivered then proved else markAuditDegraded proved
      (js "Required proof audit delivery failed for authorization outcome") config.bindsEnvelope
  else return proved

/-- Signs an authorization outcome. Nothing throws once the proof is placed, so what is
marked unproven is the response. -/
def proveAuthorizationOutcome (response : Returned) (pending : PendingOutcomeProof)
    (session : SessionContext) : SessionM Returned :=
  tryCatch (do
    let proof ← Async.ask (I := Sessions) (.generateProof id (hashedRequest pending.toolName)
      (outcomeResponse config pending.outcome response.value) session
      { outcome := some pending.outcome.text, reason := some (sanitizeForMessage pending.reason)
        profile := config.responseProofProfile
        precomputedRequestHash := some pending.requestHash })
    recordOutcome config (withMetadata response
      (withProofMeta config (metaMembers response) proof)) pending.terminalAuditDelivered)
    fun _ => do
      outcomeProofFailed config pending.terminalAuditDelivered
      Async.ofExcept (markUnproven response)

/-- A result sent without the proof left for it. -/
def unprovenAtSend (response : Returned) (pending : PendingProof) (verificationCode : JsString) :
    SessionM Returned := do
  let unproven ← Async.ofExcept (markUnproven response)
  match pending with
  | .outcome pending =>
    if pending.terminalAuditDelivered then
      let _ ← emitAudit config (.proof .rejected (js "failed") (some verificationCode) none)
    return unproven
  | .allowed pending =>
    let _ ← emitBoth config
      (.proof .rejected (js "failed") (some verificationCode) pending.context)
      (.tool pending.call .completed pending.toolName (js "succeeded") none pending.context)
    return unproven

end Sending

/-- The pending-proof member of a result that carries the middleware's stamp. -/
def ownPending (result : ToolResult) : Untyped :=
  if hasOwnStamp config result then (metaOf result).member? pendingProofMetaKey else none

/-- The proof waiting under an id. -/
def takeNamed (id : JsonValue JsNumber) : SessionM (Option PendingProof) :=
  match id with
  | .string id => Async.ask (I := Sessions) (.takePendingProof id)
  | _ => return none

def closedNamed (id : JsonValue JsNumber) : SessionM (Option ClosedProof) :=
  match id with
  | .string id => Async.ask (I := Sessions) (.closedProof id)
  | _ => return none

/-- The stamp is inside a string, where it cannot be removed: nothing is signed. -/
def sendLeaked (id : Untyped) (sent : Returned) : SessionM Returned := do
  match id with
  | none => return sent
  | some id =>
    match ← takeNamed id with
    | some own => unprovenAtSend config sent own (js "PRIVATE_MEMBER_IN_RESULT")
    | none => Async.ofExcept (markUnproven sent)

/-- The proof that the result named is no longer waiting. -/
def sendExpired (id : JsonValue JsNumber) (sent : Returned) : SessionM Returned := do
  let closed ← closedNamed id
  let _ ← emitAudit config (.proof .rejected (js "failed") (some (js "PROOF_EXPIRED"))
    (closed.bind ClosedProof.context))
  Async.ofExcept (markUnproven sent)

/-- The session is read again; a lookup that throws finds none. -/
def prove (id : JsString) (sent : Returned) (pending : PendingProof) : SessionM Returned := do
  let session ← tryCatch (Async.ask (I := Sessions) (.getSession pending.sessionId))
    fun _ => return none
  match session with
  | none => unprovenAtSend config sent pending (js "PROOF_SESSION_NOT_FOUND")
  | some session =>
    match pending with
    | .allowed pending => proveAllowedCall config id sent pending session
    | .outcome pending => proveAuthorizationOutcome config id sent pending session

/-- A proof left for another tool is closed unmade. -/
def redeem (id : JsString) (sent : Returned) (pending : PendingProof)
    (answering : Option JsString) : SessionM Returned :=
  if answering.any fun toolName => toolName ≠ pending.toolName then do
    closeTaken config pending (js "PROOF_TOOL_MISMATCH")
    Async.ofExcept (markUnproven sent)
  else prove config id sent pending

/-- A stamped result that names a proof. -/
def sendNaming (id : JsonValue JsNumber) (sent : Returned) (answering : Option JsString) :
    SessionM Returned :=
  match id with
  | .string id => do
    match ← Async.ask (I := Sessions) (.takePendingProof id) with
    | some pending => redeem config id sent pending answering
    | none => sendExpired config (.string id) sent
  | id => sendExpired config id sent

/-- What is sent of a scrubbed result. -/
def sendScrubbed (id : Untyped) (found : Scrubbed) (answering : Option JsString) :
    SessionM Returned :=
  if found.leaked ≠ [] then sendLeaked config id ⟨found.value, false⟩
  else
    match id with
    | none => return ⟨found.value, false⟩
    | some id => sendNaming config id ⟨found.value, false⟩ answering

/-- The last step before a result leaves the process. -/
def sendResult (result : ToolResult) (answering : Option JsString) : SessionM ToolResult := do
  let id := ownPending config result
  let found ← Async.ofExcept
    (scrubPrivateMeta config.numbers result (some config.lifecycleStamp) id.isSome)
  Async.ask (I := Sessions) (.closeFoundProofs found.ids found.leaked id)
  let sent ← sendScrubbed config id found answering
  return sent.value

def scrubOutgoing (value : JsonValue JsNumber) : SessionM (JsonValue JsNumber) := do
  let found ← Async.ofExcept
    (scrubPrivateMeta config.numbers value (some config.lifecycleStamp) false)
  Async.ask (I := Sessions) (.closeFoundProofs found.ids found.leaked none)
  return found.value

end Code

end KyaOs.Middleware
