import KyaOs.Concurrency.History
import KyaOs.Middleware.KyaOsTransport

/-!
# Each pending proof is redeemed once

The calls of one middleware, in any order and interleaving: wrapped tools, authorization
outcomes, messages, results sent and values scrubbed directly, timers, background closings
and transports. An id taken is taken for good, so what its taker may spend, one proof and
one terminal audit event, is spent by nobody else.
-/

namespace KyaOs.Middleware

open Js Untyped JsonValue Proof Concurrency Concurrency.Async

inductive SessionCall where
  | wrapped (toolName : JsString) (args : PlainObject JsNumber) (sessionId : Option JsString)
      (context : Option KyaOsCallContext)
  | outcome (toolName : JsString) (args : PlainObject JsNumber) (sessionId : Option JsString)
      (response : ToolResult) (reason : JsString) (outcome : AuthorizationOutcome)
  | message (tracked : Option PendingCall) (message : Members JsNumber)
  | send (result : ToolResult) (answering : Option JsString)
  | scrub (value : JsonValue JsNumber)
  /-- The timer of a pending proof. -/
  | timer (id : JsString)
  /-- A proof that was taken, closed in the background. -/
  | background
  | transport

/-- A transport, from its start to its close. -/
def openAndRelease : SessionM Unit := do
  Async.ask (I := Sessions) .openTransport
  Async.ask (I := Sessions) .releaseTransport

def closeInBackground (config : SessionConfig) : SessionM Unit := do
  match ← Async.ask (I := Sessions) .nextClosing with
  | some pending => closeTaken config pending (js "PROOF_NOT_SENT")
  | none => return ()

/-- `Map`, of what a call comes to. -/
def andReturn {α : Type} (p : SessionM α) (f : α → ToolResult) : SessionM (Option ToolResult) := do
  let a ← p
  return some (f a)

def andEnd {α : Type} (p : SessionM α) : SessionM (Option ToolResult) := do
  let _ ← p
  return none

/-- The code of a call, with the result it returns where it returns one. -/
def SessionCall.code (config : SessionConfig) (number : Nat) :
    SessionCall → SessionM (Option ToolResult)
  | .wrapped toolName args sessionId context =>
    andReturn (wrapWithProof config number toolName args sessionId context
      (Async.ask (I := Sessions) (.callHandler args sessionId context))) Returned.value
  | .outcome toolName args sessionId response reason decided =>
    andReturn (attachOutcomeProof config number toolName args sessionId response reason decided)
      Returned.value
  | .message tracked outgoing => andEnd (sendMessage config number tracked outgoing)
  | .send result answering => andReturn (sendResult config result answering) id
  | .scrub value => andReturn (scrubOutgoing config value) id
  | .timer id => andEnd (closeUnsentProof config id)
  | .background => andEnd (closeInBackground config)
  | .transport => andEnd openAndRelease

/-- How requests are served. The random source never makes an id twice. -/
def serves (numbers : Doubles JsNumber) (number : Nat) : (request : SessionRequest) →
    ProofStore → Except Error request.Answer → ProofStore → Prop
  | .requireProofLayer, s, answer, s' => s' = s ∧ (answer = .ok () ↔ s.openTransports ≠ 0)
  | .leaveToOuterLayer pending, s, answer, s' =>
    (∃ id, id ∉ s.issued.map Prod.fst ∧ answer = .ok id ∧
        s' = s.leaveToOuterLayer numbers pending id) ∨
      ∃ e, answer = .error e ∧ s' = s
  | .takePendingProof id, s, answer, s' =>
    ∃ pending, ProofStore.takePendingProof numbers (.call number) id s = (pending, s') ∧
      answer = .ok pending
  | .closedProof id, s, answer, s' => answer = .ok (s.closedProofs.lookup id) ∧ s' = s
  | .closeFoundProofs ids leaked exempt, s, answer, s' =>
    answer = .ok () ∧ s' = ProofStore.closeFoundProofs numbers ids leaked exempt s
  | .nextClosing, s, answer, s' =>
    (s.closing = [] ∧ answer = .ok none ∧ s' = s) ∨
      ∃ before pending after, s.closing = before ++ pending :: after ∧
        answer = .ok (some pending) ∧ s' = { s with closing := before ++ after }
  | .openTransport, s, answer, s' =>
    answer = .ok () ∧ s' = { s with openTransports := s.openTransports + 1 }
  | .releaseTransport, s, answer, s' => answer = .ok () ∧ s' = ProofStore.release numbers s
  | _, s, _, s' => s' = s

/-- One middleware and its calls. -/
def middleware (config : SessionConfig) (calls : Nat → SessionCall) :
    Program Sessions Nat (Option ToolResult) where
  code number := (calls number).code config number
  serves := serves config.numbers
  environment _ _ := False

/-- What a terminal audit event of a call, and a proof for an id, count. -/
structure Meter where
  terminal : Nat → Nat
  proof : JsString → Nat

namespace Meter

variable (m : Meter)

/-- What taking a pending proof entitles to, its proof aside. -/
def ofPending : PendingProof → Nat
  | .allowed pending => m.terminal pending.call
  | .outcome _ => 0

def ofEvent : SessionEvent → Nat
  | .tool call phase _ _ _ _ =>
    if phase = .completed ∨ phase = .failed then m.terminal call else 0
  | _ => 0

/-- What is spent for good. -/
def spent : Exchange Sessions → Nat
  | ⟨.recordAudit event, _⟩ => m.ofEvent event
  | ⟨.generateProof id _ _ _ _, _⟩ => m.proof id
  | _ => 0

/-- What is left to whoever takes the proof. -/
def left : Exchange Sessions → Nat
  | ⟨.leaveToOuterLayer pending, .ok _⟩ => m.ofPending pending
  | _ => 0

def cost (exchange : Exchange Sessions) : Nat := m.spent exchange + m.left exchange

def gain : Exchange Sessions → Nat
  | ⟨.takePendingProof id, .ok (some pending)⟩ => m.proof id + m.ofPending pending
  | ⟨.nextClosing, .ok (some pending)⟩ => m.ofPending pending
  | _ => 0

end Meter

section Affords

variable {config : SessionConfig} {m : Meter} {gain : Exchange Sessions → Nat}
  {n returned thrown : Nat}

theorem emitAudit_affords {event : SessionEvent} (h : m.ofEvent event + returned ≤ n) :
    (emitAudit config event).Affords m.cost gain (Leaves returned thrown) n := by
  have hcost : ∀ answer, m.cost ⟨.recordAudit event, answer⟩ = m.ofEvent event := fun _ => rfl
  unfold emitAudit
  split_ifs
  · refine Affords.tryCatch (m := returned) (Affords.bind (m := returned)
      (affords_ask (fun a => ?_) fun e => ?_) fun _ => affords_pure le_rfl)
      fun _ => affords_pure le_rfl
    · rw [hcost]
      omega
    · rw [hcost]
      omega
  · exact affords_pure (by omega)

theorem emitBoth_affords {first second : SessionEvent} (hfirst : m.ofEvent first = 0)
    (h : m.ofEvent second + returned ≤ n) :
    (emitBoth config first second).Affords m.cost gain (Leaves returned thrown) n := by
  refine Affords.bind (m := n) (emitAudit_affords (by omega)) fun delivered => ?_
  split_ifs
  · exact emitAudit_affords h
  · exact affords_pure (by omega)

theorem ofEvent_terminal {call : Nat} {phase : ToolPhase} {toolName outcome : JsString}
    {reasonCode : Option JsString} {context : Option AuditContext} :
    m.ofEvent (.tool call phase toolName outcome reasonCode context) ≤ m.terminal call := by
  rw [Meter.ofEvent]
  split_ifs
  · exact le_rfl
  · exact Nat.zero_le _

section Wrapped

variable {call : Nat} {toolName : JsString} {callAudit : Option AuditContext}
  {args : PlainObject JsNumber} {sessionId scopeId : Option JsString} {result : Returned}

theorem allowedProofFailed_affords :
    (allowedProofFailed config result callAudit).Affords m.cost gain (Leaves 0 0) n := by
  refine Affords.bind (m := 0) (affords_ofExcept (Nat.zero_le _) (Nat.zero_le _)) fun kept => ?_
  exact Affords.bind (m := 0) (emitAudit_affords (by simp [Meter.ofEvent]))
    fun delivered => affords_pure le_rfl

theorem leaveToOuterLayer_affords {pending : PendingProof} (h : m.ofPending pending ≤ n) :
    (leaveToOuterLayer result pending).Affords m.cost gain (Leaves 0 0) n := by
  refine Affords.bind (m := 0) (affords_ask (fun id => ?_) fun e => Nat.zero_le _)
    fun id => affords_pure le_rfl
  have hcost : m.cost ⟨.leaveToOuterLayer pending, .ok id⟩ = m.ofPending pending :=
    Nat.zero_add _
  omega

theorem completeUnproven_affords {verificationCode : JsString} (h : m.terminal call ≤ n) :
    (completeUnproven config call toolName callAudit verificationCode result).Affords m.cost gain
      (Leaves 0 0) n :=
  Affords.bind (m := 0)
    (emitBoth_affords rfl ((Nat.add_zero _).trans_le (ofEvent_terminal.trans h)))
    fun _ => affords_pure le_rfl

theorem sessionUnavailable_affords {ambiguous : Bool} (h : m.terminal call ≤ n) :
    (sessionUnavailable config call toolName callAudit ambiguous result).Affords m.cost gain
      (Leaves 0 0) n :=
  Affords.bind (m := n) (affords_ofExcept le_rfl (Nat.zero_le _))
    fun _ => completeUnproven_affords h

theorem settleError_affords (h : m.terminal call ≤ n) :
    (settleError config call toolName callAudit result).Affords m.cost gain (Leaves 0 0) n := by
  unfold settleError
  split_ifs
  · exact affords_pure (Nat.zero_le _)
  · exact Affords.bind (m := 0)
      (emitAudit_affords ((Nat.add_zero _).trans_le (ofEvent_terminal.trans h)))
      fun _ => affords_pure le_rfl

theorem leaveAllowed_affords {session : SessionContext} (h : m.terminal call ≤ n) :
    (leaveAllowed config call toolName callAudit args scopeId result session).Affords m.cost gain
      (Leaves 0 0) n := by
  refine Affords.bind (m := n) (Affords.outcome (affords_free fun _ => rfl)) fun hashed => ?_
  cases hashed with
  | ok requestHash => exact leaveToOuterLayer_affords h
  | error e => exact allowedProofFailed_affords

theorem resolveSession_affords :
    (resolveSession sessionId).Affords m.cost gain (Leaves n n) n := by
  cases sessionId with
  | some sessionId => exact affords_pure le_rfl
  | none => exact affords_free fun _ => rfl

theorem settleSuccess_affords (h : m.terminal call ≤ n) :
    (settleSuccess config call toolName callAudit args sessionId scopeId result).Affords m.cost
      gain (Leaves 0 0) n := by
  refine Affords.bind (m := n) (resolveSession_affords.weaken le_rfl le_rfl (Nat.zero_le _))
    fun session => ?_
  cases session with
  | missing ambiguous => exact sessionUnavailable_affords h
  | found resolved =>
      dsimp only
      split_ifs
      · exact sessionUnavailable_affords h
      · refine Affords.bind (m := n)
          ((affords_free fun _ => rfl).weaken le_rfl le_rfl (Nat.zero_le _)) fun session => ?_
        cases session with
        | none => exact completeUnproven_affords h
        | some session => exact leaveAllowed_affords h

theorem settleResult_affords (h : m.terminal call ≤ n) :
    (settleResult config call toolName callAudit args sessionId scopeId result).Affords m.cost
      gain (Leaves 0 0) n := by
  unfold settleResult
  split_ifs
  · exact affords_pure (Nat.zero_le _)
  · refine Affords.bind (m := n) (affords_ofExcept le_rfl (Nat.zero_le _)) fun isError => ?_
    split_ifs
    · exact settleError_affords h
    · exact settleSuccess_affords h

variable {context : Option KyaOsCallContext} {handler : SessionM Returned}

theorem callRecorded_affords
    (hhandler : handler.Affords m.cost gain (Leaves (m.terminal call) (m.terminal call))
      (m.terminal call)) :
    (callRecorded config call toolName callAudit handler).Affords m.cost gain
      (Leaves (m.terminal call) 0) (m.terminal call) := by
  refine Affords.tryCatch hhandler fun e => ?_
  exact Affords.bind (m := 0) (emitAudit_affords ((Nat.add_zero _).trans_le ofEvent_terminal))
    fun _ => affords_throw le_rfl

/-- A wrapped call spends one terminal event, or leaves it with its proof. -/
theorem wrapWithProof_affords
    (hhandler : handler.Affords m.cost gain (Leaves (m.terminal call) (m.terminal call))
      (m.terminal call)) :
    (wrapWithProof config call toolName args sessionId context handler).Affords m.cost gain
      (Leaves 0 0) (m.terminal call) := by
  refine Affords.bind (m := m.terminal call)
    ((affords_free fun _ => rfl).weaken le_rfl le_rfl (Nat.zero_le _)) fun _ => ?_
  refine Affords.bind (m := 0) ?_ fun _ => affords_pure le_rfl
  refine Affords.bind (m := m.terminal call) (emitAudit_affords (by simp [Meter.ofEvent]))
    fun delivered => ?_
  split_ifs
  · exact Affords.bind (callRecorded_affords hhandler) fun _ => settleResult_affords le_rfl
  · exact affords_pure (Nat.zero_le _)

end Wrapped

section Outcomes

variable {call : Nat} {toolName reason : JsString} {args : PlainObject JsNumber}
  {sessionId : Option JsString} {outcome : AuthorizationOutcome}

theorem outcomeProofFailed_affords {delivered : Bool} :
    (outcomeProofFailed config delivered).Affords m.cost gain (Leaves 0 0) n := by
  unfold outcomeProofFailed
  split_ifs
  · exact Affords.bind (m := 0) (emitAudit_affords (by simp [Meter.ofEvent]))
      fun _ => affords_pure le_rfl
  · exact affords_pure (Nat.zero_le _)

theorem attachOutcomeProof_affords {response : ToolResult} :
    (attachOutcomeProof config call toolName args sessionId response reason outcome).Affords m.cost
      gain (Leaves 0 0) n := by
  refine Affords.bind (m := 0) ?_ fun _ => affords_pure le_rfl
  refine Affords.bind (m := 0) (emitBoth_affords rfl ?_) fun delivered => ?_
  · cases outcome <;> simp [Meter.ofEvent, AuthorizationOutcome.phase]
  refine Affords.bind (m := 0) (Affords.outcome (m := 0) ?_) fun session => ?_
  · refine Affords.bind (m := 0) resolveSession_affords fun session => ?_
    cases session with
    | missing ambiguous => exact affords_pure le_rfl
    | found resolved =>
        dsimp only
        split_ifs
        · exact affords_pure le_rfl
        · exact affords_free fun _ => rfl
  · cases session with
    | error e => exact Affords.bind (m := 0) outcomeProofFailed_affords fun _ => affords_pure le_rfl
    | ok session =>
        cases session with
        | none => exact affords_pure le_rfl
        | some session =>
            refine Affords.bind (m := 0) (Affords.outcome (affords_free fun _ => rfl))
              fun hashed => ?_
            cases hashed with
            | ok requestHash => exact leaveToOuterLayer_affords le_rfl
            | error e =>
                exact Affords.bind (m := 0) outcomeProofFailed_affords
                  fun _ => affords_ofExcept le_rfl le_rfl

end Outcomes

section Sending

variable {id : JsString} {sent : Returned} {pending : PendingProof} {session : SessionContext}

theorem closeTaken_affords {verificationCode : JsString} (h : m.ofPending pending ≤ n) :
    (closeTaken config pending verificationCode).Affords m.cost gain (Leaves 0 0) n := by
  cases pending with
  | outcome pending =>
      unfold closeTaken
      dsimp only
      split_ifs
      · exact Affords.bind (m := 0) (emitAudit_affords (by simp [Meter.ofEvent]))
          fun _ => affords_pure le_rfl
      · exact affords_pure (Nat.zero_le _)
  | allowed pending =>
      exact Affords.bind (m := 0)
        (emitBoth_affords rfl ((Nat.add_zero _).trans_le (ofEvent_terminal.trans h)))
        fun _ => affords_pure le_rfl

theorem unprovenAtSend_affords {verificationCode : JsString} (h : m.ofPending pending ≤ n) :
    (unprovenAtSend config sent pending verificationCode).Affords m.cost gain (Leaves 0 0) n := by
  refine Affords.bind (m := n) (affords_ofExcept le_rfl (Nat.zero_le _)) fun unproven => ?_
  cases pending with
  | outcome pending =>
      dsimp only
      split_ifs
      · exact Affords.bind (m := 0) (emitAudit_affords (by simp [Meter.ofEvent]))
          fun _ => affords_pure le_rfl
      · exact affords_pure (Nat.zero_le _)
  | allowed pending =>
      exact Affords.bind (m := 0)
        (emitBoth_affords rfl ((Nat.add_zero _).trans_le (ofEvent_terminal.trans h)))
        fun _ => affords_pure le_rfl

/-- The generator is asked once, and a proof that failed spends no terminal event. -/
theorem proveAllowedCall_affords {pending : PendingAllowedProof} :
    (proveAllowedCall config id sent pending session).Affords m.cost gain (Leaves 0 0)
      (m.proof id + m.terminal pending.call) := by
  refine Affords.tryCatch (m := 0) ?_ fun _ => allowedProofFailed_affords
  refine Affords.bind (m := m.terminal pending.call) (affords_ask (fun proof => ?_) fun e => ?_)
    fun proof => ?_
  · exact (Nat.add_le_add_right (Nat.add_zero _).le _).trans (Nat.le_add_right _ _)
  · exact (Nat.add_le_add_right (Nat.add_zero _).le _).trans
      ((Nat.add_le_add_left (Nat.zero_le _) _).trans (Nat.le_add_right _ _))
  · refine Affords.bind (m := m.terminal pending.call)
      (affords_ofExcept le_rfl (Nat.zero_le _)) fun kept => ?_
    refine Affords.bind (m := 0)
      (emitBoth_affords rfl ((Nat.add_zero _).trans_le ofEvent_terminal)) fun delivered => ?_
    split_ifs
    · refine Affords.bind (m := 0) (Affords.tryCatch (m := 0) (affords_free fun _ => rfl)
        fun _ => affords_pure le_rfl) fun _ => affords_pure le_rfl
    · exact affords_pure le_rfl

theorem proveAuthorizationOutcome_affords {pending : PendingOutcomeProof} :
    (proveAuthorizationOutcome config id sent pending session).Affords m.cost gain (Leaves 0 0)
      (m.proof id) := by
  refine Affords.tryCatch (m := 0) ?_ fun _ => ?_
  · refine Affords.bind (m := 0) (affords_ask (fun proof => Nat.le_add_right _ _)
      fun e => Nat.le_add_right _ _) fun proof => ?_
    unfold recordOutcome
    split_ifs
    · exact Affords.bind (m := 0) (emitAudit_affords (by simp [Meter.ofEvent]))
        fun _ => affords_pure le_rfl
    · exact affords_pure le_rfl
  · exact Affords.bind (m := 0) outcomeProofFailed_affords fun _ => affords_ofExcept le_rfl le_rfl

/-- Redeeming a proof spends what taking it entitled to. -/
theorem redeem_affords {answering : Option JsString} :
    (redeem config id sent pending answering).Affords m.cost gain (Leaves 0 0)
      (m.proof id + m.ofPending pending) := by
  unfold redeem
  split_ifs
  · exact Affords.bind (m := 0) (closeTaken_affords (Nat.le_add_left _ _))
      fun _ => affords_ofExcept le_rfl le_rfl
  · refine Affords.bind (m := m.proof id + m.ofPending pending)
      (Affords.tryCatch (affords_free fun _ => rfl) fun _ => affords_pure le_rfl) fun session => ?_
    cases session with
    | none => exact unprovenAtSend_affords (Nat.le_add_left _ _)
    | some session =>
        cases pending with
        | allowed pending => exact proveAllowedCall_affords
        | outcome pending =>
            exact proveAuthorizationOutcome_affords.weaken (Nat.le_add_right _ _) le_rfl le_rfl

theorem sendExpired_affords {id : JsonValue JsNumber} :
    (sendExpired config id sent).Affords m.cost gain (Leaves 0 0) n := by
  refine Affords.bind (m := 0) ?_ fun closed => Affords.bind (m := 0)
    (emitAudit_affords (by simp [Meter.ofEvent])) fun _ => affords_ofExcept le_rfl le_rfl
  unfold closedNamed
  split
  · exact (affords_free fun _ => rfl).weaken (Nat.zero_le n) le_rfl le_rfl
  · exact affords_pure (Nat.zero_le _)

/-- Taking an id gives what its proof entitles to. -/
theorem take_affords {α : Type} {next : Option PendingProof → SessionM α}
    (hnone : (next none).Affords m.cost m.gain (Leaves 0 0) 0)
    (hsome : ∀ pending, (next (some pending)).Affords m.cost m.gain (Leaves 0 0)
      (m.proof id + m.ofPending pending)) :
    (Async.ask (I := Sessions) (.takePendingProof id) >>= next).Affords m.cost m.gain (Leaves 0 0)
      0 := by
  refine Affords.ask_bind (fun _ => rfl) (fun taken => ?_) le_rfl
  cases taken with
  | none => exact hnone
  | some pending => exact (hsome pending).weaken (Nat.zero_add _).ge le_rfl le_rfl

theorem sendResult_affords {result : ToolResult} {answering : Option JsString} :
    (sendResult config result answering).Affords m.cost m.gain (Leaves 0 0) 0 := by
  refine Affords.bind (m := 0) (affords_ofExcept le_rfl le_rfl) fun found =>
    Affords.bind (m := 0) (affords_free fun _ => rfl) fun _ =>
      Affords.bind (m := 0) ?_ fun _ => affords_pure le_rfl
  unfold sendScrubbed
  split_ifs
  · unfold sendLeaked
    split
    · exact affords_pure le_rfl
    · unfold takeNamed
      split
      · exact take_affords (affords_ofExcept le_rfl le_rfl)
          fun pending => unprovenAtSend_affords (Nat.le_add_left _ _)
      · exact affords_ofExcept le_rfl le_rfl
  · split
    · exact affords_pure le_rfl
    · unfold sendNaming
      split
      · exact take_affords sendExpired_affords fun pending => redeem_affords
      · exact sendExpired_affords

theorem scrubOutgoing_affords {value : JsonValue JsNumber} :
    (scrubOutgoing config value).Affords m.cost gain (Leaves 0 0) 0 :=
  Affords.bind (m := 0) (affords_ofExcept le_rfl le_rfl) fun _ =>
    Affords.bind (m := 0) (affords_free fun _ => rfl) fun _ => affords_pure le_rfl

theorem proveTracked_affords {call : Nat} {answered : Option PendingCall}
    {message : Members JsNumber} :
    (proveTracked config call answered message).Affords m.cost gain (Leaves 0 0)
      (m.terminal call) := by
  unfold proveTracked
  split
  · split_ifs
    · refine Affords.bind (m := 0) ?_ fun _ => affords_pure le_rfl
      refine Affords.bind (m := m.terminal call) (affords_ofExcept le_rfl (Nat.zero_le _))
        fun received => Affords.tryCatch (m := 0) ?_ fun _ => affords_pure le_rfl
      exact Affords.bind (m := 0) (wrapWithProof_affords (affords_pure le_rfl))
        fun _ => affords_pure le_rfl
    · exact affords_pure (Nat.zero_le _)
  · exact affords_pure (Nat.zero_le _)

theorem scrubParams_affords {message : Members JsNumber} :
    (scrubParams config message).Affords m.cost gain (Leaves 0 0) 0 := by
  unfold scrubParams
  split
  · exact Affords.bind (m := 0) scrubOutgoing_affords fun _ => affords_pure le_rfl
  · exact affords_pure le_rfl

theorem scrubErrorData_affords {message : Members JsNumber} :
    (scrubErrorData config message).Affords m.cost gain (Leaves 0 0) 0 := by
  unfold scrubErrorData
  split
  · split
    · exact Affords.bind (m := 0) scrubOutgoing_affords fun _ => affords_pure le_rfl
    · exact affords_pure le_rfl
  · exact affords_pure le_rfl

theorem sendOwnResult_affords {answered : Option PendingCall} {message : Members JsNumber} :
    (sendOwnResult config answered message).Affords m.cost m.gain (Leaves 0 0) 0 := by
  unfold sendOwnResult
  split
  · split_ifs
    · exact Affords.bind (m := 0) sendResult_affords fun _ => affords_pure le_rfl
    · exact affords_pure le_rfl
  · exact affords_pure le_rfl

theorem sendMessage_affords {call : Nat} {tracked : Option PendingCall}
    {message : Members JsNumber} :
    (sendMessage config call tracked message).Affords m.cost m.gain (Leaves 0 0)
      (m.terminal call) :=
  Affords.bind (m := 0) proveTracked_affords fun _ =>
    Affords.bind (m := 0) sendOwnResult_affords fun _ =>
      Affords.bind (m := 0) scrubParams_affords fun _ =>
        Affords.bind (m := 0) scrubErrorData_affords fun _ => affords_free fun _ => rfl

theorem closeUnsentProof_affords :
    (closeUnsentProof config id).Affords m.cost m.gain (Leaves 0 0) 0 :=
  take_affords (affords_pure le_rfl) fun _ => closeTaken_affords (Nat.le_add_left _ _)

theorem closeInBackground_affords :
    (closeInBackground config).Affords m.cost m.gain (Leaves 0 0) 0 := by
  refine Affords.ask_bind (fun _ => rfl) (fun taken => ?_) le_rfl
  cases taken with
  | none => exact affords_pure le_rfl
  | some pending => exact closeTaken_affords (Nat.zero_add _).ge

theorem affords_andReturn {α : Type} {p : SessionM α} {f : α → ToolResult}
    (h : p.Affords m.cost gain (Leaves 0 0) n) :
    (andReturn p f).Affords m.cost gain (Leaves 0 0) n :=
  Affords.bind h fun _ => affords_pure le_rfl

theorem affords_andEnd {α : Type} {p : SessionM α} (h : p.Affords m.cost gain (Leaves 0 0) n) :
    (andEnd p).Affords m.cost gain (Leaves 0 0) n :=
  Affords.bind h fun _ => affords_pure le_rfl

/-- Every call keeps within its own terminal event and what it takes. -/
theorem code_affords (sessionCall : SessionCall) (number : Nat) :
    (sessionCall.code config number).Affords m.cost m.gain (Leaves 0 0) (m.terminal number) := by
  cases sessionCall with
  | wrapped toolName args sessionId context =>
      exact affords_andReturn (wrapWithProof_affords (affords_free fun _ => rfl))
  | outcome toolName args sessionId response reason outcome =>
      exact affords_andReturn attachOutcomeProof_affords
  | message tracked message => exact affords_andEnd sendMessage_affords
  | send result answering =>
      exact (affords_andReturn sendResult_affords).weaken (Nat.zero_le _) le_rfl le_rfl
  | scrub value =>
      exact (affords_andReturn scrubOutgoing_affords).weaken (Nat.zero_le _) le_rfl le_rfl
  | timer id => exact (affords_andEnd closeUnsentProof_affords).weaken (Nat.zero_le _) le_rfl le_rfl
  | background =>
      exact (affords_andEnd closeInBackground_affords).weaken (Nat.zero_le _) le_rfl le_rfl
  | transport =>
      exact affords_andEnd (Affords.bind (m := 0)
        ((affords_free fun _ => rfl).weaken (Nat.zero_le _) le_rfl (Nat.zero_le _))
        fun _ => affords_free fun _ => rfl)

end Sending

end Affords

section Invariant

variable {config : SessionConfig} {m : Meter} {s s' : ProofStore} {history : History Sessions Nat}

/-- The store is consistent with the history, and what takers were given is what was left to
them. -/
structure Kept (m : Meter) (s : ProofStore) (history : History Sessions Nat) : Prop where
  consistent : s.Consistent
  taken : ∀ id call, (id, Taker.call call) ∈ s.taken ↔
    ∃ pending, (call, ⟨.takePendingProof id, .ok (some pending)⟩) ∈ history
  issued : ∀ id pending, (id, pending) ∈ s.issued ↔
    ∃ call, (call, ⟨.leaveToOuterLayer pending, .ok id⟩) ∈ history
  answered : ∀ call id pending, (call, ⟨.takePendingProof id, .ok (some pending)⟩) ∈ history →
    (id, pending) ∈ s.issued
  balance : history.total m.gain + s.weight m.ofPending ≤
    history.total m.left + (s.taken.map fun entry => m.proof entry.1).sum

theorem mem_append_single {α β : Type} {entries : List (α × β)} {a a' : α} {b b' : β} :
    (a, b) ∈ entries ++ [(a', b')] ↔ (a, b) ∈ entries ∨ a = a' ∧ b = b' := by
  rw [List.mem_append, List.mem_singleton, Prod.mk.injEq]

/-- A request that takes no proof by an id and leaves none. -/
theorem Kept.other (h : Kept m s history) (number : Nat) {served : Exchange Sessions}
    (hconsistent : s'.Consistent) (hissued : s'.issued = s.issued)
    (htaken : ∃ others, s'.taken = s.taken ++ others ∧
      ∀ entry ∈ others, ∀ call, entry.2 ≠ Taker.call call)
    (hweight : m.gain served + s'.weight m.ofPending ≤ s.weight m.ofPending)
    (htakes : ∀ id pending, served ≠ ⟨.takePendingProof id, .ok (some pending)⟩)
    (hleaves : ∀ pending id, served ≠ ⟨.leaveToOuterLayer pending, .ok id⟩) :
    Kept m s' (history ++ [(number, served)]) := by
  obtain ⟨others, hothers, hnone⟩ := htaken
  refine ⟨hconsistent, ?_, ?_, ?_, ?_⟩
  · intro id call
    rw [hothers, List.mem_append, h.taken]
    simp only [mem_append_single]
    constructor
    · rintro (⟨pending, hmem⟩ | hother)
      · exact ⟨pending, .inl hmem⟩
      · exact absurd rfl (hnone _ hother call)
    · rintro ⟨pending, hmem | ⟨-, hsame⟩⟩
      · exact .inl ⟨pending, hmem⟩
      · exact absurd hsame.symm (htakes id pending)
  · intro id pending
    simp only [hissued, h.issued, mem_append_single]
    constructor
    · rintro ⟨call, hmem⟩
      exact ⟨call, .inl hmem⟩
    · rintro ⟨call, hmem | ⟨-, hsame⟩⟩
      · exact ⟨call, hmem⟩
      · exact absurd hsame.symm (hleaves pending id)
  · intro call id pending hmem
    rw [hissued]
    obtain hold | ⟨-, hsame⟩ := mem_append_single.mp hmem
    · exact h.answered call id pending hold
    · exact absurd hsame.symm (htakes id pending)
  · have hbalance := h.balance
    rw [History.total_append, History.total_append, History.total_single, History.total_single,
      hothers, List.map_append, List.sum_append]
    omega

/-- A request that changes nothing of this. -/
theorem Kept.same (h : Kept m s history) (number : Nat) {served : Exchange Sessions}
    (hgain : m.gain served = 0)
    (htakes : ∀ id pending, served ≠ ⟨.takePendingProof id, .ok (some pending)⟩)
    (hleaves : ∀ pending id, served ≠ ⟨.leaveToOuterLayer pending, .ok id⟩) :
    Kept m s (history ++ [(number, served)]) :=
  h.other number h.consistent rfl ⟨[], (List.append_nil _).symm, by simp⟩ (by omega) htakes hleaves

theorem Kept.closesTo {numbers : Doubles JsNumber} (h : Kept m s history) (number : Nat)
    {served : Exchange Sessions} (hcloses : ProofStore.ClosesTo numbers s s')
    (hgain : m.gain served = 0)
    (htakes : ∀ id pending, served ≠ ⟨.takePendingProof id, .ok (some pending)⟩)
    (hleaves : ∀ pending id, served ≠ ⟨.leaveToOuterLayer pending, .ok id⟩) :
    Kept m s' (history ++ [(number, served)]) :=
  h.other number (hcloses.consistent h.consistent) hcloses.issued hcloses.taken
    (by rw [hgain, hcloses.weight h.consistent, Nat.zero_add]) htakes hleaves

theorem Kept.takes {numbers : Doubles JsNumber} (h : Kept m s history) {number : Nat}
    {id : JsString} {pending : PendingProof}
    (htakes : ProofStore.Takes numbers (.call number) id pending s s') :
    Kept m s' (history ++ [(number, ⟨.takePendingProof id, .ok (some pending)⟩)]) := by
  refine ⟨htakes.consistent h.consistent, ?_, ?_, ?_, ?_⟩
  · intro id' call
    rw [htakes.taken, mem_append_single, h.taken]
    simp only [mem_append_single, Taker.call.injEq]
    constructor
    · rintro (⟨pending', hmem⟩ | ⟨rfl, rfl⟩)
      · exact ⟨pending', .inl hmem⟩
      · exact ⟨pending, .inr ⟨rfl, rfl⟩⟩
    · rintro ⟨pending', hmem | ⟨rfl, hsame⟩⟩
      · exact .inl ⟨pending', hmem⟩
      · cases hsame
        exact .inr ⟨rfl, rfl⟩
  · intro id' pending'
    simp only [htakes.issued, h.issued, mem_append_single]
    constructor
    · rintro ⟨call, hmem⟩
      exact ⟨call, .inl hmem⟩
    · rintro ⟨call, hmem | ⟨-, hsame⟩⟩
      · exact ⟨call, hmem⟩
      · cases hsame
  · intro call id' pending' hmem
    rw [htakes.issued]
    obtain hold | ⟨-, hsame⟩ := mem_append_single.mp hmem
    · exact h.answered call id' pending' hold
    · cases hsame
      exact htakes.waited h.consistent
  · have hbalance := h.balance
    have hweight := htakes.weight h.consistent m.ofPending
    have hgain : m.gain ⟨.takePendingProof id, .ok (some pending)⟩ =
      m.proof id + m.ofPending pending := rfl
    have hleft : m.left ⟨.takePendingProof id, .ok (some pending)⟩ = 0 := rfl
    rw [History.total_append, History.total_append, History.total_single, History.total_single,
      htakes.taken, List.map_append, List.sum_append, hgain, hleft]
    simp only [List.map_cons, List.map_nil, List.sum_cons, List.sum_nil]
    omega

theorem Kept.leaves {numbers : Doubles JsNumber} (h : Kept m s history) {number : Nat}
    {id : JsString} {pending : PendingProof} (hfresh : id ∉ s.issued.map Prod.fst) :
    Kept m (s.leaveToOuterLayer numbers pending id)
      (history ++ [(number, ⟨.leaveToOuterLayer pending, .ok id⟩)]) := by
  obtain ⟨others, hothers, hnone⟩ :=
    @ProofStore.taken_leave numbers s id pending
  refine ⟨h.consistent.leave pending hfresh, ?_, ?_, ?_, ?_⟩
  · intro id' call
    rw [hothers, List.mem_append, h.taken]
    simp only [mem_append_single]
    constructor
    · rintro (⟨pending', hmem⟩ | hother)
      · exact ⟨pending', .inl hmem⟩
      · exact absurd rfl (hnone _ hother call)
    · rintro ⟨pending', hmem | ⟨-, hsame⟩⟩
      · exact .inl ⟨pending', hmem⟩
      · cases hsame
  · intro id' pending'
    rw [ProofStore.issued_leave, mem_append_single, h.issued]
    simp only [mem_append_single]
    constructor
    · rintro (⟨call, hmem⟩ | ⟨rfl, rfl⟩)
      · exact ⟨call, .inl hmem⟩
      · exact ⟨number, .inr ⟨rfl, rfl⟩⟩
    · rintro ⟨call, hmem | ⟨-, hsame⟩⟩
      · exact .inl ⟨call, hmem⟩
      · cases hsame
        exact .inr ⟨rfl, rfl⟩
  · intro call id' pending' hmem
    rw [ProofStore.issued_leave, List.mem_append]
    obtain hold | ⟨-, hsame⟩ := mem_append_single.mp hmem
    · exact .inl (h.answered call id' pending' hold)
    · cases hsame
  · have hbalance := h.balance
    have hweight := @ProofStore.weight_leave numbers s id h.consistent pending hfresh
      m.ofPending
    have hgain : m.gain ⟨.leaveToOuterLayer pending, .ok id⟩ = 0 := rfl
    have hleft : m.left ⟨.leaveToOuterLayer pending, .ok id⟩ = m.ofPending pending := rfl
    rw [History.total_append, History.total_append, History.total_single, History.total_single,
      hothers, List.map_append, List.sum_append, hgain, hleft, hweight]
    omega

end Invariant

end KyaOs.Middleware
