import KyaOs.Middleware.DelegationVerify
import KyaOs.Middleware.PolicyGate

/-!
# The parts of the gates that leave the handler alone

Of all that a gated call does, only the two gates themselves call the wrapped handler:
verifying a delegation, resolving a grant, binding a holder, recording an audit event and
counting approvals make other requests. And of these parts only the binding of a holder,
of a delegation's subject or of a grant's agent, has a proof checked.
-/

namespace KyaOs.Middleware

open Js Untrusted Proof Providers Concurrency Concurrency.Async

/-- A request that does not call the handler. -/
def IsOther (request : GateRequest) : Prop :=
  ∀ args sessionId context, request ≠ .callHandler args sessionId context

/-- A request that has no proof checked. -/
def IsUnproving (request : GateRequest) : Prop :=
  ∀ proof publicKey content, request ≠ .verifyProof proof publicKey content

/-- A request that neither calls the handler nor has a proof checked. -/
def IsPlain : GateRequest → Prop
  | .callHandler .. => False
  | .verifyProof .. => False
  | _ => True

/-- The call never calls the handler. -/
abbrev Spares {α : Type} (p : GateM α) : Prop := p.Only IsOther

/-- The call neither calls the handler nor has a proof checked. -/
abbrev Plain {α : Type} (p : GateM α) : Prop := p.Only IsPlain

theorem Plain.spares {α : Type} {p : GateM α} (h : Plain p) : Spares p := by
  refine h.mono ?_
  rintro _ hplain args sessionId context rfl
  exact hplain

theorem Plain.unproving {α : Type} {p : GateM α} (h : Plain p) : p.Only IsUnproving := by
  refine h.mono ?_
  rintro _ hplain proof publicKey content rfl
  exact hplain

theorem ask_plain {request : GateRequest} (h : IsPlain request) :
    Plain (Async.ask (I := Gates) request) := only_ask h

theorem ask_unproving {request : GateRequest} (h : IsPlain request) :
    (Async.ask (I := Gates) request).Only IsUnproving := (ask_plain h).unproving

theorem ask_spares {request : GateRequest} (h : IsOther request) :
    Spares (Async.ask (I := Gates) request) := only_ask h

section Chain

variable {α : Type} {runtime : Runtime} {deps : ChainDeps} {leaf : Presented}
  {leafDelegation : Record} {skipSignature : Bool}

theorem settle_plain {check : Check α} : Plain (settle check) := by
  cases check with
  | ok a => exact only_pure
  | error stop => cases stop <;> exact trivial

/-- A step that goes on with a value or ends with a verdict. -/
theorem verdict_plain {ε β : Type} {step : GateM (Except ε α)} {next : Except ε α → GateM β}
    (hstep : Plain step) (hrejected : ∀ reason, Plain (next (.error reason)))
    (hnext : ∀ a, Plain (next (.ok a))) : Plain (step >>= next) := by
  refine hstep.bind fun result => ?_
  cases result with
  | error reason => exact hrejected reason
  | ok a => exact hnext a

theorem outcome_plain {p : GateM α} (h : Plain p) : Plain p.outcome :=
  h.andThen fun _ => trivial

/-- The ports of a chain walk never call the handler. -/
structure PortsPlain (deps : ChainDeps) : Prop where
  verify : ∀ credential skip, Plain (deps.verify credential skip)
  resolve : ∀ resolve, deps.resolveDelegationChain = some resolve → ∀ leaf, Plain (resolve leaf)
  revoked : ∀ isRevoked, deps.isRevoked = some isRevoked → ∀ id, Plain (isRevoked id)

theorem presentedChain_plain (hports : PortsPlain deps) :
    Plain (Untrusted.presentedChain runtime deps leaf leafDelegation) := by
  unfold Untrusted.presentedChain
  split_ifs
  · exact only_pure
  · split
    · exact settle_plain
    · rename_i resolve hresolve
      refine (outcome_plain (hports.resolve resolve hresolve leaf)).bind fun result => ?_
      cases result with
      | error error => exact only_pure
      | ok resolved => exact settle_plain

theorem walkChain_plain (hports : PortsPlain deps) (state : WalkState) (chain : List Presented) :
    Plain (Untrusted.walkChain runtime deps leaf skipSignature state chain) := by
  induction chain generalizing state with
  | nil => exact only_pure
  | cons credential rest ih =>
      refine verdict_plain ?_ (fun _ => only_pure) ih
      refine verdict_plain settle_plain (fun _ => only_pure) fun delegation => ?_
      exact (hports.verify _ _).bind fun _ => settle_plain

theorem checkRevocations_plain {isRevoked : Untyped → GateM Revocation}
    (h : ∀ id, Plain (isRevoked id)) (chain : List Presented) :
    Plain (checkRevocations runtime leaf leafDelegation isRevoked chain) := by
  induction chain with
  | nil => exact only_pure
  | cons credential rest ih =>
      refine only_ofExcept.bind fun id => (outcome_plain (h id)).bind fun result => ?_
      cases result with
      | error error => exact settle_plain
      | ok revocation =>
          show Plain (if revocation.revoked then _ else _)
          split_ifs
          · exact settle_plain
          · exact ih

theorem concludeChain_plain (hports : PortsPlain deps) {chain : List Presented}
    {state : WalkState} :
    Plain (concludeChain runtime deps leaf leafDelegation chain state) := by
  refine verdict_plain settle_plain (fun _ => only_pure) fun _ => ?_
  refine verdict_plain ?_ (fun _ => only_pure) fun _ => only_pure
  unfold askRevocations
  split
  · exact only_pure
  · rename_i isRevoked hrevoked
    exact checkRevocations_plain (hports.revoked isRevoked hrevoked) chain

theorem validateDelegationChain_plain (hports : PortsPlain deps) :
    Plain (Untrusted.validateDelegationChain runtime deps leaf skipSignature) := by
  unfold Untrusted.validateDelegationChain
  split_ifs
  · refine only_ofExcept.bind fun record => ?_
    refine verdict_plain (presentedChain_plain hports) (fun _ => only_pure) fun chain => ?_
    refine verdict_plain settle_plain (fun _ => only_pure) fun _ => ?_
    exact verdict_plain (walkChain_plain hports {} chain) (fun _ => only_pure)
      fun _ => concludeChain_plain hports
  · exact only_pure

end Chain

section Verifier

variable {runtime : Runtime} {vc : Untyped} {jwt : JsString}

theorem verifyByDocument_plain {didDoc : List VerificationMethod} :
    Plain (verifyByDocument runtime vc didDoc) := by
  unfold verifyByDocument
  dsimp only
  split_ifs
  · exact only_pure
  · exact only_pure
  · split
    · exact only_ofExcept
    · split_ifs
      · exact only_pure
      · refine verdict_plain only_ofExcept (fun _ => only_pure) fun input => ?_
        refine Only.bind (ask_plain trivial) fun valid => ?_
        cases valid <;> exact only_pure

theorem verifySignature_plain : Plain (verifySignature runtime vc) := by
  refine Only.tryCatch (only_ofExcept.bind fun issuerDid => ?_) fun _ => only_pure
  dsimp only
  split_ifs
  · exact only_ofExcept
  · refine Only.bind (ask_plain trivial) fun didDoc => ?_
    cases didDoc with
    | none => exact only_ofExcept
    | some didDoc => exact verifyByDocument_plain

theorem checkCredentialStatus_plain {hasResolver : Bool} {credentialStatus : Untyped} :
    Plain (checkCredentialStatus runtime hasResolver credentialStatus) := by
  unfold checkCredentialStatus
  split_ifs
  · exact only_pure
  · refine Only.tryCatch (Only.bind (ask_plain trivial) fun isRevoked => ?_)
      fun _ => only_pure
    cases isRevoked with
    | true => exact only_ofExcept
    | false => exact only_pure

theorem verifyDelegationCredential_plain {hasStatusResolver skipSignature : Bool} :
    Plain (verifyDelegationCredential runtime hasStatusResolver vc skipSignature) := by
  refine Only.bind (ask_plain trivial) fun now => only_ofExcept.bind fun reason => ?_
  cases reason with
  | some reason => exact only_pure
  | none =>
      have hsignature : Plain (signatureResult runtime vc skipSignature) := by
        unfold signatureResult
        split_ifs
        · exact only_pure
        · exact verifySignature_plain
      have hstatus : Plain (statusResult runtime hasStatusResolver vc) := by
        unfold statusResult
        dsimp only
        split_ifs
        · exact checkCredentialStatus_plain
        · exact only_pure
      exact hsignature.bind fun _ => hstatus.bind fun _ => only_pure

theorem verifyEnvelopeByDocument_plain {kid : Option JsString} {didDoc : List VerificationMethod} :
    Plain (verifyEnvelopeByDocument jwt kid didDoc) := by
  unfold verifyEnvelopeByDocument
  split
  · exact only_pure
  · split_ifs
    · exact only_pure
    · refine Only.tryCatch (Only.bind (ask_plain trivial) fun smallOrder => ?_)
        fun _ => only_pure
      cases smallOrder with
      | true => exact only_pure
      | false => exact Only.bind (ask_plain trivial) fun _ => only_pure

theorem verifyDelegationJwt_plain : Plain (verifyDelegationJwt runtime jwt) := by
  refine Only.bind (ask_plain trivial) fun now => ?_
  refine verdict_plain only_ofExcept (fun _ => only_pure) fun prepared => ?_
  refine only_ofExcept.bind fun _ => Only.bind ?_ fun _ => only_pure
  refine verdict_plain (outcome_plain (ask_plain trivial)) (fun _ => only_ofExcept)
    fun didDoc => ?_
  cases didDoc with
  | none => exact only_ofExcept
  | some didDoc => exact verifyEnvelopeByDocument_plain

variable (config : DelegationConfig)

theorem chainDeps_plain : PortsPlain config.chainDeps where
  verify _ _ := verifyDelegationCredential_plain
  resolve resolve hresolve leaf := by
    simp only [DelegationConfig.chainDeps] at hresolve
    split_ifs at hresolve
    cases hresolve
    exact ask_plain trivial
  revoked isRevoked hrevoked id := by
    simp only [DelegationConfig.chainDeps] at hrevoked
    split_ifs at hrevoked
    cases hrevoked
    exact ask_plain trivial

theorem verifyPresented_plain {vc : JsonValue JsNumber} {isJwt : Bool}
    {jwtExpiresAt : Option JsNumber} : Plain (verifyPresented config vc isJwt jwtExpiresAt) := by
  refine Only.bind (Only.tryCatch (validateDelegationChain_plain (chainDeps_plain config))
    fun _ => only_pure) fun chain => ?_
  split_ifs <;> exact only_pure

theorem verifyDelegation_plain (delegationArg : JsonValue JsNumber) :
    Plain (verifyDelegation config delegationArg) := by
  have hjwt : ∀ jwt, Plain (verifyJwt config jwt) := by
    intro jwt
    unfold verifyJwt
    split
    · exact only_pure
    · refine only_ofExcept.bind fun vc => ?_
      cases vc with
      | none => exact only_pure
      | some vc =>
          dsimp only
          split_ifs
          · refine Only.bind verifyDelegationJwt_plain fun envelope => ?_
            split_ifs
            · exact verifyPresented_plain config
            · exact only_pure
          · exact only_pure
  cases delegationArg with
  | string jwt => exact hjwt jwt
  | _ => exact verifyPresented_plain config

end Verifier

section Gates

variable {config : GateConfig} {verifyDelegation : JsonValue JsNumber → GateM DelegationCheck}
  {toolName scopeId : JsString} {args : PlainObject JsNumber} {sessionId : Option JsString}

theorem assertHolderBinding_spares {proof : Untyped} {subjectDid expectedAudience : JsString}
    {request : ToolRequest JsNumber} :
    Spares (assertHolderBinding proof subjectDid request expectedAudience) := by
  unfold assertHolderBinding
  split
  · exact only_pure
  · dsimp only
    split_ifs
    · exact only_pure
    · exact only_pure
    · exact only_pure
    · refine Only.bind (ask_spares (by simp [IsOther])) fun verification => ?_
      cases verification <;> exact only_pure

theorem recordAudit_plain {event : GateEvent} : Plain (recordAudit config event) := by
  unfold recordAudit
  split_ifs
  · exact ask_plain trivial
  · exact only_pure

theorem refuse_plain {error reason : JsString} :
    Plain (refuse config toolName args sessionId error reason) := ask_plain trivial

theorem checkHolder_spares {vc : JsonValue JsNumber} :
    Spares (checkHolder config toolName args vc) := by
  have hbind : ∀ did, Spares (bindHolder config toolName args did) := by
    intro did
    unfold bindHolder
    split
    · exact only_pure
    · refine assertHolderBinding_spares.bind fun result => ?_
      cases result <;> exact only_pure
  unfold checkHolder
  split_ifs
  · refine only_ofExcept.bind fun subject => ?_
    split
    · exact only_pure
    · split_ifs
      · exact only_pure
      · refine only_ofExcept.bind fun applicable => ?_
        split_ifs
        · exact only_pure
        · split
          · exact hbind _
          · exact only_pure
  · exact only_pure

theorem buildNeedsAuthorizationChallenge_plain {runtime : Runtime} {gate : DelegationGateConfig} :
    Plain (buildNeedsAuthorizationChallenge runtime toolName gate) := by
  refine Only.bind (ask_plain trivial) fun tokenBytes =>
    Only.bind (ask_plain trivial) fun now => ?_
  dsimp only
  split_ifs
  · exact verdict_plain (outcome_plain (ask_plain trivial)) (fun _ => only_pure)
      fun _ => only_pure
  · exact only_pure

theorem bindGrantOnSuccess_plain {grants : GrantConfig} {call : GrantBinding} :
    Plain (bindGrantOnSuccess grants call) := by
  refine Only.tryCatch ?_ fun _ => only_pure
  dsimp only
  split
  · exact only_pure
  · split_ifs
    · exact only_pure
    · exact only_pure
    · refine Only.bind (only_ofExcept.bind fun key => Only.bind (ask_plain trivial)
        fun _ => only_pure) fun id => ?_
      exact Only.bind (ask_plain trivial) fun _ => ask_plain trivial

variable (hverify : ∀ delegationArg, Spares (verifyDelegation delegationArg))

include hverify in
theorem authorizeGrant_spares {grant : Grant} :
    Spares (authorizeGrant config verifyDelegation grant scopeId) := by
  have hunexpired : Spares (isUnexpired grant) := by
    unfold isUnexpired
    split
    · exact only_pure
    · exact Only.bind (ask_spares (by simp [IsOther])) fun _ => only_pure
    · exact only_pure
  unfold authorizeGrant
  split_ifs
  · refine hunexpired.bind fun unexpired => ?_
    split_ifs
    · split
      · exact only_pure
      · refine Only.tryCatch ((hverify _).bind fun check => ?_) fun _ => only_pure
        cases check with
        | valid vc isJwt expiresAt => exact only_ofExcept
        | invalid reason vc => exact only_pure
    · exact only_pure
  · exact only_pure

include hverify in
theorem firstOfAgent_spares {agentDid : JsString} (grants : List Grant) :
    Spares (firstOfAgent config verifyDelegation agentDid sessionId scopeId grants) := by
  induction grants with
  | nil => exact only_pure
  | cons grant rest ih =>
      unfold firstOfAgent
      split_ifs
      · exact ih
      · refine (authorizeGrant_spares hverify).bind fun resolved => ?_
        cases resolved with
        | some resolved => exact only_pure
        | none => exact ih

include hverify in
theorem firstOfSession_spares {session : JsString} (grants : List Grant) :
    Spares (firstOfSession config verifyDelegation session scopeId grants) := by
  induction grants with
  | nil => exact only_pure
  | cons grant rest ih =>
      unfold firstOfSession
      split_ifs
      · exact ih
      · refine only_ofExcept.bind fun needed => ?_
        split_ifs
        · exact ih
        · refine (authorizeGrant_spares hverify).bind fun resolved => ?_
          cases resolved with
          | some resolved => exact only_pure
          | none => exact ih

include hverify in
theorem resolveExistingGrant_spares :
    Spares (resolveExistingGrant config verifyDelegation toolName args sessionId scopeId) := by
  have hagent :
      Spares (resolveAgentGrant config verifyDelegation toolName args sessionId scopeId) := by
    unfold resolveAgentGrant
    split_ifs
    · dsimp only
      split
      · split_ifs
        · refine assertHolderBinding_spares.bind fun binding => ?_
          cases binding with
          | bound =>
              exact Only.bind (ask_spares (by simp [IsOther])) fun grants =>
                firstOfAgent_spares hverify grants
          | _ => exact only_pure
        · exact only_pure
      · exact only_pure
    · exact only_pure
  refine hagent.bind fun resolved => ?_
  cases resolved with
  | some resolved => exact only_pure
  | none =>
      dsimp only
      split
      · exact Only.bind (ask_spares (by simp [IsOther])) fun grants =>
          firstOfSession_spares hverify grants
      · exact only_pure

variable {opts : PolicyGateOptions}

theorem hashShape_plain {shape : ToolRequest JsNumber} : Plain (hashShape config shape) :=
  only_ofExcept.bind fun _ => ask_plain trivial

theorem hashShapes_plain (shapes : List (ToolRequest JsNumber)) :
    Plain (hashShapes config shapes) := by
  induction shapes with
  | nil => exact only_pure
  | cons shape rest ih => exact hashShape_plain.bind fun _ => ih.bind fun _ => only_pure

theorem collectApprovers_plain {actionHashes : List JsString} {quorum : Quorum}
    (approvers : List Untyped) (grants : List (JsonValue JsNumber)) :
    Plain (collectApprovers opts actionHashes quorum approvers grants) := by
  induction grants generalizing approvers with
  | nil => exact only_pure
  | cons g rest ih =>
      refine only_ofExcept.bind fun _ => ?_
      split_ifs
      · refine Only.bind ?_ fun valid => ?_
        · unfold isValidSignature
          split_ifs
          · exact ask_plain trivial
          · exact only_pure
        · split_ifs
          · exact ih _
          · exact ih _
      · exact ih _

theorem verifyApprovalQuorum_plain {grants : List (JsonValue JsNumber)}
    {actionHashes : List JsString} {quorum : Quorum} :
    Plain (verifyApprovalQuorum opts grants actionHashes quorum) := by
  unfold verifyApprovalQuorum
  split_ifs
  · exact only_pure
  · exact (collectApprovers_plain [] grants).bind fun _ => only_pure

theorem resolveNamespace_plain : Plain (resolveNamespace opts toolName args) := by
  unfold resolveNamespace
  split_ifs
  · exact ask_plain trivial
  · exact only_pure

end Gates

end KyaOs.Middleware
