import KyaOs.Middleware.DelegatedTotality
import KyaOs.Middleware.GrantReuse

/-!
# Where the delegation gate throws

With ports that do not throw, the resolvers and the checks of keys, signatures and statuses
aside, the gate answers every call by the handler or by a signed refusal or challenge,
except where the checks of a VC-JWT throw, or where a credential that was accepted holds
scopes, a controller or texts that the code after the checks cannot use.
-/

namespace KyaOs.Middleware

open Js Untyped JsonValue Audit Proof Providers Concurrency Concurrency.Async

section Granted

variable {config : GateConfig} {verifyDelegation : JsonValue JsNumber → GateM DelegationCheck}
  {toolName : JsString} {args : PlainObject JsNumber} {sessionId : Option JsString}
  {scopeId : JsString}

theorem isUnexpired_neverThrows {grant : Grant} : NeverThrows Settled (isUnexpired grant) := by
  rw [isUnexpired]
  split
  · exact neverThrows_pure
  · exact neverThrows_bind.mpr ⟨ask_neverThrows fun _ => not_answered, fun _ _ => neverThrows_pure⟩
  · exact neverThrows_pure

theorem authorizeGrant_neverThrows {grant : Grant} :
    NeverThrows Settled (authorizeGrant config verifyDelegation grant scopeId) := by
  rw [authorizeGrant]
  split_ifs
  · refine neverThrows_bind.mpr ⟨isUnexpired_neverThrows, fun unexpired _ => ?_⟩
    split_ifs
    · split
      · exact neverThrows_pure
      · exact neverThrows_tryCatch.mpr fun _ _ => neverThrows_pure
    · exact neverThrows_pure
  · exact neverThrows_pure

theorem firstOfAgent_neverThrows {agentDid : JsString} {grants : List Grant} :
    NeverThrows Settled
      (firstOfAgent config verifyDelegation agentDid sessionId scopeId grants) := by
  induction grants with
  | nil => exact neverThrows_pure
  | cons grant rest ih =>
      rw [firstOfAgent]
      split_ifs
      · exact ih
      · refine neverThrows_bind.mpr ⟨authorizeGrant_neverThrows, fun found _ => ?_⟩
        cases found with
        | some resolved => exact neverThrows_pure
        | none => exact ih

theorem firstOfSession_neverThrows {sessionId : JsString} {grants : List Grant}
    (htyped : ∀ grant ∈ grants, Typed grant) :
    NeverThrows Settled (firstOfSession config verifyDelegation sessionId scopeId grants) := by
  induction grants with
  | nil => exact neverThrows_pure
  | cons grant rest ih =>
      rw [List.forall_mem_cons] at htyped
      have hrest := ih htyped.2
      obtain ⟨did, hdid⟩ := htyped.1.agentDid
      have hneeds : ∃ needed, needsProof config grant.agentDid = .ok needed := by
        rw [needsProof, hdid]
        split_ifs
        · exact ⟨_, rfl⟩
        · exact ⟨_, rfl⟩
      rw [firstOfSession]
      split_ifs
      · exact hrest
      · refine neverThrows_bind.mpr ⟨neverThrows_ofExcept.mpr hneeds, fun needed _ => ?_⟩
        split_ifs
        · exact hrest
        · refine neverThrows_bind.mpr ⟨authorizeGrant_neverThrows, fun found _ => ?_⟩
          cases found with
          | some resolved => exact neverThrows_pure
          | none => exact hrest

theorem resolveAgentGrant_neverThrows : NeverThrows Settled
    (resolveAgentGrant config verifyDelegation toolName args sessionId scopeId) := by
  rw [resolveAgentGrant]
  dsimp only
  split_ifs
  · split
    · split_ifs
      · refine neverThrows_bind.mpr ⟨assertHolderBinding_neverThrows, fun binding _ => ?_⟩
        cases binding with
        | bound =>
            refine neverThrows_bind.mpr ⟨ask_neverThrows fun _ h => ?_,
              fun _ _ => firstOfAgent_neverThrows⟩
            exact not_answered (h.imp fun _ => And.left)
        | unbound reason cause => exact neverThrows_pure
        | notApplicable reason => exact neverThrows_pure
      · exact neverThrows_pure
    · exact neverThrows_pure
  · exact neverThrows_pure

theorem resolveExistingGrant_neverThrows : NeverThrows Settled
    (resolveExistingGrant config verifyDelegation toolName args sessionId scopeId) := by
  unfold resolveExistingGrant
  refine neverThrows_bind.mpr ⟨resolveAgentGrant_neverThrows, fun found _ => ?_⟩
  cases found with
  | some resolved => exact neverThrows_pure
  | none =>
      dsimp only
      split
      · refine neverThrows_bind.mpr ⟨ask_neverThrows fun _ h => ?_, fun grants hgrants => ?_⟩
        · exact not_answered (h.imp fun _ => And.left)
        · obtain ⟨_, hanswer, htyped⟩ := returns_ask.mp hgrants
          cases hanswer
          exact firstOfSession_neverThrows htyped
      · exact neverThrows_pure

/-- A grant that is resolved is a row of the store. -/
theorem resolveAgentGrant_typed {resolved : ResolvedGrant}
    (h : Returns Settled (resolveAgentGrant config verifyDelegation toolName args sessionId scopeId)
      (some resolved)) : Typed resolved.grant := by
  rw [resolveAgentGrant] at h
  dsimp only at h
  split_ifs at h
  · split at h
    · split_ifs at h
      · obtain ⟨binding, -, h⟩ := returns_bind.mp h
        cases binding with
        | bound =>
            obtain ⟨grants, hgrants, log, -, hfound⟩ := returns_bind.mp h
            obtain ⟨_, hanswer, htyped⟩ := returns_ask.mp hgrants
            cases hanswer
            exact htyped _ (runs_firstOfAgent hfound).1
        | unbound reason cause => cases returns_pure.mp h
        | notApplicable reason => cases returns_pure.mp h
      · cases returns_pure.mp h
    · cases returns_pure.mp h
  · cases returns_pure.mp h

theorem resolveExistingGrant_typed {resolved : ResolvedGrant}
    (h : Returns Settled
      (resolveExistingGrant config verifyDelegation toolName args sessionId scopeId)
      (some resolved)) : Typed resolved.grant := by
  unfold resolveExistingGrant at h
  obtain ⟨found, hagent, h⟩ := returns_bind.mp h
  cases found with
  | some found =>
      cases returns_pure.mp h
      exact resolveAgentGrant_typed hagent
  | none =>
      dsimp only at h
      split at h
      · obtain ⟨grants, hgrants, log, -, hfound⟩ := returns_bind.mp h
        obtain ⟨_, hanswer, htyped⟩ := returns_ask.mp hgrants
        cases hanswer
        exact htyped _ (runs_firstOfSession hfound).1
      · cases returns_pure.mp h

theorem buildNeedsAuthorizationChallenge_neverThrows {runtime : Runtime}
    {gate : DelegationGateConfig} :
    NeverThrows Settled (buildNeedsAuthorizationChallenge runtime toolName gate) := by
  rw [buildNeedsAuthorizationChallenge]
  refine neverThrows_bind.mpr ⟨ask_neverThrows fun _ => not_answered, fun tokenBytes _ => ?_⟩
  refine neverThrows_bind.mpr ⟨ask_neverThrows fun _ => not_answered, fun now _ => ?_⟩
  dsimp only
  split_ifs
  · exact neverThrows_outcome_bind.mpr
      ⟨fun _ _ => neverThrows_pure, fun _ _ => neverThrows_pure⟩
  · exact neverThrows_pure

end Granted

/-- The result is what the handler answered, or what the proof layer made of a refusal or a
challenge. -/
def EndsIn (log : List (Exchange Gates)) (result : ToolResult) : Prop :=
  (∃ args sessionId context, ⟨.callHandler args sessionId context, .ok result⟩ ∈ log) ∨
  ∃ refusal toolName args sessionId reason outcome,
    outcome ∈ [js "denied", js "needs_authorization"] ∧
    ⟨.attachOutcomeProof refusal toolName args sessionId reason outcome, .ok result⟩ ∈ log

/-- Every call is answered so. -/
def Ends (p : GateM ToolResult) : Prop := ∀ log result, p.Runs log (.ok result) → EndsIn log result

theorem Ends.bind {α : Type} {p : GateM α} {next : α → GateM ToolResult}
    (h : ∀ a, Ends (next a)) : Ends (p >>= next) := by
  intro log result hruns
  obtain ⟨first, rest, a, rfl, -, hrest⟩ := runs_bind_ok.mp hruns
  obtain ⟨args, sessionId, context, hmem⟩ |
    ⟨refusal, toolName, args, sessionId, reason, outcome, houtcome, hmem⟩ := h a rest result hrest
  · exact .inl ⟨args, sessionId, context, List.mem_append_right _ hmem⟩
  · exact .inr ⟨refusal, toolName, args, sessionId, reason, outcome, houtcome,
      List.mem_append_right _ hmem⟩

/-- The call never throws, and ends in an answer of the handler or of the proof layer. -/
structure Concludes (p : GateM ToolResult) : Prop where
  neverThrows : NeverThrows Settled p
  ends : Ends p

section Gate

variable {config : DelegationConfig} {toolName : JsString} {gate : DelegationGateConfig}
  {args : PlainObject JsNumber} {sessionId : Option JsString} {context : Option CallContext}

theorem innermost_ends {args : PlainObject JsNumber} {sessionId : Option JsString}
    {context : Option CallContext} : Ends (innermost args sessionId context) := by
  intro log result h
  rw [runs_ask.mp h]
  exact .inl ⟨args, sessionId, context, List.mem_singleton_self _⟩

theorem attachOutcomeProof_ends {refusal : ToolResult} {reason outcome : JsString}
    (h : outcome ∈ [js "denied", js "needs_authorization"]) :
    Ends (Async.ask (I := Gates)
      (.attachOutcomeProof refusal toolName args sessionId reason outcome)) := by
  intro log result hruns
  rw [runs_ask.mp hruns]
  exact .inr ⟨refusal, toolName, args, sessionId, reason, outcome, h, List.mem_singleton_self _⟩

theorem refuse_ends {error reason : JsString} :
    Ends (refuse config.toGateConfig toolName args sessionId error reason) :=
  attachOutcomeProof_ends List.mem_cons_self

theorem runDelegated_ends {delegationArg vc : JsonValue JsNumber} {isJwt : Bool}
    {expiresAt : Option JsNumber} :
    Ends (runDelegated config.toGateConfig toolName gate innermost args sessionId delegationArg vc
      isJwt expiresAt) := by
  refine Ends.bind fun result => ?_
  split_ifs
  · exact refuse_ends
  · exact Ends.bind fun _ => Ends.bind fun _ => Ends.bind fun _ => Ends.bind fun _ =>
      Ends.bind fun _ => Ends.bind fun _ => Ends.bind fun _ => innermost_ends

theorem withDelegation_ends {delegationArg : JsonValue JsNumber} :
    Ends (withDelegation config.toGateConfig (verifyDelegation config) toolName gate innermost args
      sessionId delegationArg) := by
  refine Ends.bind fun check => ?_
  cases check with
  | invalid reason vc => exact Ends.bind fun _ => refuse_ends
  | valid vc isJwt expiresAt =>
      refine Ends.bind fun refusal => ?_
      cases refusal with
      | some reason => exact refuse_ends
      | none => exact runDelegated_ends

theorem withoutDelegation_ends :
    Ends (withoutDelegation config.toGateConfig (verifyDelegation config) toolName gate innermost
      args sessionId) := by
  refine Ends.bind fun resolved => ?_
  cases resolved with
  | some resolved => exact Ends.bind fun _ => Ends.bind fun _ => innermost_ends
  | none =>
      refine Ends.bind fun challenge => attachOutcomeProof_ends ?_
      exact List.mem_cons_of_mem _ List.mem_cons_self

theorem innermost_neverThrows (args : PlainObject JsNumber) (sessionId : Option JsString)
    (context : Option CallContext) : NeverThrows Settled (innermost args sessionId context) :=
  ask_neverThrows fun _ => not_answered

variable (haudit : config.audit = false)

include haudit

theorem withoutDelegation_neverThrows :
    NeverThrows Settled (withoutDelegation config.toGateConfig (verifyDelegation config) toolName
      gate innermost args sessionId) := by
  refine neverThrows_bind.mpr ⟨resolveExistingGrant_neverThrows, fun found hfound => ?_⟩
  cases found with
  | none =>
      refine neverThrows_bind.mpr ⟨buildNeedsAuthorizationChallenge_neverThrows, fun _ _ => ?_⟩
      exact ask_neverThrows fun _ => not_answered
  | some resolved =>
      have hdid := responsibleDid_returns.mpr (resolveExistingGrant_typed hfound).userDid
      refine neverThrows_bind.mpr ⟨neverThrows_ofExcept.mpr hdid, fun _ _ => ?_⟩
      refine neverThrows_bind.mpr ⟨recordAudit_neverThrows haudit, fun _ _ => ?_⟩
      exact innermost_neverThrows _ _ _

/-- What a call makes the gate read outside a `try`, and quote: the argument, and of each
credential that can be accepted what the code after the checks uses. -/
def LegibleCall (config : DelegationConfig) (gate : DelegationGateConfig)
    (args : PlainObject JsNumber) : Prop :=
  ∀ delegationArg, argument args (js "_kyaos_delegation") = some delegationArg →
    delegationArg ≠ .null →
    LegibleArgument config.runtime delegationArg ∧
    ∀ vc isJwt, Accepted config delegationArg vc isJwt →
      HolderPasses config.toGateConfig args vc → Usable config.toGateConfig gate vc isJwt

/-- The gate on an accepted delegation. -/
theorem checkedDelegation_neverThrows {delegationArg vc : JsonValue JsNumber} {isJwt : Bool}
    {expiresAt : Option JsNumber} (haccepted : Accepted config delegationArg vc isJwt) :
    NeverThrows Settled (checkHolder config.toGateConfig toolName args vc >>= fun refusal =>
      match refusal with
      | some reason =>
        refuse config.toGateConfig toolName args sessionId (js "holder_binding_failed") reason
      | none => runDelegated config.toGateConfig toolName gate innermost args sessionId
          delegationArg vc isJwt expiresAt) ↔
      (HolderPasses config.toGateConfig args vc → Usable config.toGateConfig gate vc isJwt) := by
  have hform : isJwt = true → ∃ jwt, delegationArg = .string jwt := by
    cases haccepted with
    | jwt => exact fun _ => ⟨_, rfl⟩
    | object => rintro ⟨⟩
  have hruns := @runDelegated_neverThrows config.toGateConfig toolName gate args sessionId
    innermost haudit innermost_neverThrows delegationArg vc isJwt expiresAt haccepted.shaped hform
  rw [neverThrows_bind, and_iff_right (checkHolder_neverThrows haccepted.shaped),
    ← checkHolder_returns_none haccepted.shaped toolName, ← hruns]
  constructor
  · exact fun h => h none
  · intro h refusal hrefusal
    cases refusal with
    | none => exact h hrefusal
    | some reason => exact refuse_neverThrows

theorem withDelegation_neverThrows {delegationArg : JsonValue JsNumber} :
    NeverThrows Settled (withDelegation config.toGateConfig (verifyDelegation config) toolName gate
        innermost args sessionId delegationArg) ↔
      LegibleArgument config.runtime delegationArg ∧
      ∀ vc isJwt, Accepted config delegationArg vc isJwt →
        HolderPasses config.toGateConfig args vc → Usable config.toGateConfig gate vc isJwt := by
  rw [withDelegation, neverThrows_bind, verifyDelegation_neverThrows]
  refine and_congr_right fun hlegible => ?_
  constructor
  · intro h vc isJwt haccepted
    obtain ⟨expiresAt, hreturns⟩ := (verifyDelegation_returns hlegible).mpr haccepted
    exact (checkedDelegation_neverThrows haudit haccepted).mp (h _ hreturns)
  · intro h check hcheck
    cases check with
    | invalid reason vc =>
        refine neverThrows_bind.mpr ⟨?_, fun _ _ => refuse_neverThrows⟩
        exact neverThrows_tryCatch.mpr fun _ _ => neverThrows_pure
    | valid vc isJwt expiresAt =>
        have haccepted := (verifyDelegation_returns hlegible).mp ⟨expiresAt, hcheck⟩
        exact (checkedDelegation_neverThrows haudit haccepted).mpr (h vc isJwt haccepted)

theorem wrapWithDelegation_neverThrows :
    NeverThrows Settled (wrapWithDelegation config.toGateConfig (verifyDelegation config) toolName
        gate innermost args sessionId context) ↔ LegibleCall config gate args := by
  have henters : NeverThrows Settled (Async.ask (I := Gates) .requireProofLayer) :=
    ask_neverThrows fun _ => not_answered
  rw [wrapWithDelegation, neverThrows_bind, and_iff_right henters]
  have hentered : Returns Settled (Async.ask (I := Gates) .requireProofLayer) () :=
    returns_ask.mpr ⟨(), rfl⟩
  rw [LegibleCall]
  cases hpasted : argument args (js "_kyaos_delegation") with
  | none =>
      simp only [reduceCtorEq, false_implies, implies_true, iff_true]
      exact fun _ _ => withoutDelegation_neverThrows haudit
  | some delegationArg =>
      simp only [Option.some.injEq, forall_eq']
      cases delegationArg with
      | null =>
          simp only [ne_eq, not_true, false_implies, iff_true]
          exact fun _ _ => withoutDelegation_neverThrows haudit
      | _ =>
          simp only [ne_eq, reduceCtorEq, not_false_eq_true, forall_const]
          refine Iff.trans ⟨fun h => h () hentered, fun h _ _ => h⟩ ?_
          exact withDelegation_neverThrows haudit

omit haudit in
theorem wrapWithDelegation_ends :
    Ends (wrapWithDelegation config.toGateConfig (verifyDelegation config) toolName gate innermost
      args sessionId context) := by
  refine Ends.bind fun _ => ?_
  split
  · exact withoutDelegation_ends
  · exact withoutDelegation_ends
  · exact withDelegation_ends

end Gate

def silentGates : DelegationConfig where
  runtime := sampleRuntime
  serverDid := js "did:web:s"
  holderBindingMode := .off
  audit := false
  holderBindingVerifier := false
  resolvesChains := false
  hasStatusListResolver := false
  hasRevocationChecker := false
  trustedRootIssuers := none
  maxChainLength := none

def anyScope : DelegationGateConfig := { scopeId := js "read", consentUrl := [] }

def scalarArgs : PlainObject JsNumber where
  members := [(js "_kyaos_delegation", .bool true)]

/-- A JWT whose header and payload are both `null`. -/
def nullJwt : JsString := js "bnVsbA.bnVsbA."

def nullArgs : PlainObject JsNumber where
  members := [(js "_kyaos_delegation", .string nullJwt)]

def holdsNull : Option Untrusted.ParsedVCJWT → Bool
  | some { header := .null, payload := .null } => true
  | _ => false

theorem eq_of_holdsNull {parsed : Option Untrusted.ParsedVCJWT} (h : holdsNull parsed = true) :
    parsed = some { header := .null, payload := .null } := by
  unfold holdsNull at h
  split at h
  · rfl
  · cases h

theorem nullJwt_parses :
    Untrusted.parseVCJWT sampleRuntime nullJwt = some { header := .null, payload := .null } :=
  eq_of_holdsNull (by decide +kernel)

end KyaOs.Middleware
