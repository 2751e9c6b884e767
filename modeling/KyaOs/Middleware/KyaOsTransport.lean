import KyaOs.Middleware.SessionProof

/-!
# The proof-injecting transport

What `send` of the transport does with an outgoing message: the result of a tracked call
that no wrapper returned is proved and audited as any other, a proof left for the wire is
made over the result as it is sent, and the private members leave from no part of it.
-/

namespace KyaOs.Middleware

open Js Untyped JsonValue Concurrency

/-- A tracked `tools/call` request. -/
structure PendingCall where
  toolName : JsString
  args : PlainObject JsNumber

variable (config : SessionConfig) (call : Nat)

/-- `{ ...received, _meta: { ...received._meta, proofError } }`. -/
def withInjectionError (received : ToolResult) : ToolResult :=
  (withProofError ⟨received, false⟩ (spreadOf (metaOf received)) unprovenProofError).value

/-- The proved copy of a result, without a success proof on an error response. -/
def chooseProofed (received : ToolResult) (proofed : Returned) : ToolResult :=
  if !Untyped.truthy (Untyped.member? (some received) (js "isError")) &&
      (metaOf proofed.value).isSome
  then proofed.value else received

/-- A result that no wrapper returned is proved and audited here, without the members that
only the middleware may set. -/
def proveUnstamped (tracked : PendingCall) (rawResult : ToolResult) : SessionM ToolResult := do
  let received ← Async.ofExcept (tryWithoutMetaKeys rawResult outcomeMetaKeys false)
  tryCatch (do
    let proofed ← wrapWithProof config call tracked.toolName tracked.args none none
      (return ⟨.object (spreadOf (some received)), false⟩)
    return chooseProofed received proofed) fun _ => return withInjectionError received

/-- The call that a message answers, of the one tracked under its id. -/
def answeredCall (tracked : Option PendingCall) (message : Members JsNumber) :
    Option PendingCall :=
  let isResponse := (message.lookup (js "method")).isNone &&
    ((message.lookup (js "result")).isSome || (message.lookup (js "error")).isSome)
  if isResponse && (message.lookup (js "id")).isSome then tracked else none

/-- The message with the result of the call it answers proved where no wrapper did. -/
def proveTracked (answered : Option PendingCall) (message : Members JsNumber) :
    SessionM (Members JsNumber) :=
  match answered, message.lookup (js "result") with
  | some tracked, some rawResult =>
    if Untyped.truthy (some rawResult) && !hasOwnStamp config rawResult then do
      let result ← proveUnstamped config call tracked rawResult
      return assignMember (js "result") result message
    else return message
  | _, _ => return message

/-- The result as it may leave the process. -/
def sendOwnResult (answered : Option PendingCall) (message : Members JsNumber) :
    SessionM (Members JsNumber) :=
  match message.lookup (js "result") with
  | some result =>
    if isObject (some result) then do
      let sent ← sendResult config result (answered.map PendingCall.toolName)
      return assignMember (js "result") sent message
    else return message
  | none => return message

def scrubParams (message : Members JsNumber) : SessionM (Members JsNumber) :=
  match message.lookup (js "params") with
  | some params => do
    let params ← scrubOutgoing config params
    return assignMember (js "params") params message
  | none => return message

def scrubErrorData (message : Members JsNumber) : SessionM (Members JsNumber) :=
  match message.lookup (js "error") with
  | some (.object error) =>
    match error.lookup (js "data") with
    | some data => do
      let data ← scrubOutgoing config data
      return assignMember (js "error") (.object (assignMember (js "data") data error)) message
    | none => return message
  | _ => return message

/-- `send(message)`, with the call tracked under the message's id. -/
def sendMessage (tracked : Option PendingCall) (message : Members JsNumber) : SessionM Unit := do
  let answered := answeredCall tracked message
  let message ← proveTracked config call answered message
  let message ← sendOwnResult config answered message
  let message ← scrubParams config message
  let message ← scrubErrorData config message
  Async.ask (I := Sessions) (.innerSend message)

end KyaOs.Middleware
