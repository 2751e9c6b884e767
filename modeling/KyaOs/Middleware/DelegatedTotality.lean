import KyaOs.Middleware.DelegationGate
import KyaOs.Middleware.VerifierTotality

/-!
# Where a delegated call throws

The check of the holder never throws, and the call that follows it throws exactly where the accepted
credential holds scopes, a controller or texts that it cannot use.
-/

namespace KyaOs.Middleware

open Js Untyped JsonValue Audit Proof Providers Concurrency Concurrency.Async

section Holder

variable {config : GateConfig} {toolName : JsString} {args : PlainObject JsNumber}

/-- The call's proof names the subject and this server. -/
def NamesHolder (config : GateConfig) (args : PlainObject JsNumber) (subjectDid : JsString) :
    Prop :=
  ∃ proofArg, argument args (js "_kyaos_proof") = some proofArg ∧
    let proofMeta := (parsedProof config.runtime (some proofArg) (some (.object []))).member?
      (js "meta")
    proofMeta.member? (js "did") = some (.string subjectDid) ∧
    proofMeta.member? (js "audience") = some (.string config.serverDid)

/-- The holder binding lets the credential pass, for some answer of the proof verifier. -/
def HolderPasses (config : GateConfig) (args : PlainObject JsNumber) (vc : JsonValue JsNumber) :
    Prop :=
  config.holderBindingMode = .enforce → config.holderBindingVerifier = true →
    ∀ subjectDid,
      (Untyped.member? (some vc) (js "credentialSubject")).member? (js "id") =
        some (.string subjectDid) →
      (extractPublicKeyFromDidKey subjectDid).isSome = true → NamesHolder config args subjectDid

theorem assertHolderBinding_neverThrows {proof : Untyped} {subjectDid audience : JsString}
    {request : ToolRequest JsNumber} :
    NeverThrows Settled (assertHolderBinding proof subjectDid request audience) := by
  rw [assertHolderBinding]
  split
  · exact neverThrows_pure
  · dsimp only
    split_ifs
    · exact neverThrows_pure
    · exact neverThrows_pure
    · exact neverThrows_pure
    · refine neverThrows_bind.mpr ⟨ask_neverThrows fun _ => not_answered, fun result _ => ?_⟩
      cases result with
      | valid => exact neverThrows_pure
      | invalid errorCode reason details => exact neverThrows_pure

theorem assertHolderBinding_binds {proof : Untyped} {subjectDid audience : JsString}
    {request : ToolRequest JsNumber}
    (hkey : (extractPublicKeyFromDidKey subjectDid).isSome = true) :
    Returns Settled (assertHolderBinding proof subjectDid request audience) .bound ↔
      (proof.member? (js "meta")).member? (js "did") = some (.string subjectDid) ∧
      (proof.member? (js "meta")).member? (js "audience") = some (.string audience) := by
  obtain ⟨key, hkey⟩ := Option.isSome_iff_exists.mp hkey
  rw [assertHolderBinding, hkey]
  constructor
  · intro h
    dsimp only at h
    split_ifs at h with hobject hdid haudience
    · cases returns_pure.mp h
    · cases returns_pure.mp h
    · cases returns_pure.mp h
    · exact ⟨by simpa using hdid, by simpa using haudience⟩
  · rintro ⟨hdid, haudience⟩
    have hobject : Untyped.isObject (proof.member? (js "meta")) = true := by
      cases hmeta : proof.member? (js "meta") with
      | none =>
          rw [hmeta] at hdid
          cases hdid
      | some v =>
          rw [hmeta] at hdid
          cases v with
          | object members => rfl
          | _ => cases hdid
    dsimp only
    rw [hobject, hdid, haudience]
    simp only [Untyped.isString, beq_self_eq_true, Bool.not_true, Bool.false_eq_true, if_false]
    exact returns_bind.mpr ⟨.valid, returns_ask.mpr ⟨_, rfl⟩, returns_pure.mpr rfl⟩

theorem bindHolder_neverThrows {subjectDid : JsString} :
    NeverThrows Settled (bindHolder config toolName args subjectDid) := by
  rw [bindHolder]
  split
  · exact neverThrows_pure
  · refine neverThrows_bind.mpr ⟨assertHolderBinding_neverThrows, fun binding _ => ?_⟩
    cases binding with
    | bound => exact neverThrows_pure
    | unbound reason cause => exact neverThrows_pure
    | notApplicable reason => exact neverThrows_pure

theorem assertHolderBinding_returns {proof : Untyped} {subjectDid audience : JsString}
    {request : ToolRequest JsNumber} :
    ∃ binding, Returns Settled (assertHolderBinding proof subjectDid request audience) binding := by
  rw [assertHolderBinding]
  split
  · exact ⟨_, returns_pure.mpr rfl⟩
  · dsimp only
    split_ifs
    · exact ⟨_, returns_pure.mpr rfl⟩
    · exact ⟨_, returns_pure.mpr rfl⟩
    · exact ⟨_, returns_pure.mpr rfl⟩
    · exact ⟨.bound, returns_bind.mpr ⟨.valid, returns_ask.mpr ⟨_, rfl⟩, returns_pure.mpr rfl⟩⟩

theorem bindHolder_returns_none {subjectDid : JsString}
    (hkey : (extractPublicKeyFromDidKey subjectDid).isSome = true) :
    Returns Settled (bindHolder config toolName args subjectDid) none ↔
      (config.holderBindingMode = .enforce → NamesHolder config args subjectDid) := by
  rw [bindHolder, NamesHolder]
  cases hproof : argument args (js "_kyaos_proof") with
  | none =>
      rw [returns_pure, enforced]
      split_ifs with hmode
      · simp [hmode]
      · simp [hmode]
  | some proofArg =>
      have hbinds := @assertHolderBinding_binds (parsedProof config.runtime (some proofArg)
        (some (.object []))) subjectDid config.serverDid (toHolderBindingRequest toolName args) hkey
      simp only [Option.some.injEq, exists_eq_left', ← hbinds]
      rw [returns_bind]
      by_cases hmode : config.holderBindingMode = .enforce
      · simp only [hmode, forall_const]
        constructor
        · rintro ⟨binding, hbinding, hpasses⟩
          cases binding with
          | bound => exact hbinding
          | unbound reason cause => simp [enforced, hmode] at hpasses
          | notApplicable reason => simp [enforced, hmode] at hpasses
        · exact fun hbound => ⟨.bound, hbound, returns_pure.mpr rfl⟩
      · simp only [hmode, false_implies, iff_true]
        obtain ⟨binding, hbinding⟩ := @assertHolderBinding_returns (parsedProof config.runtime
          (some proofArg) (some (.object []))) subjectDid config.serverDid
          (toHolderBindingRequest toolName args)
        refine ⟨binding, hbinding, ?_⟩
        cases binding with
        | bound => exact returns_pure.mpr rfl
        | unbound reason cause => simp [enforced, hmode]
        | notApplicable reason => simp [enforced, hmode]

/-- Once the subject is known to be a text, the check is that of its key. -/
theorem ofExcept_ok_bind {α β : Type} {x : α} {f : α → GateM β} :
    (Async.ofExcept (.ok x) : GateM α) >>= f = f x :=
  rfl

theorem checkHolder_eq {vc : JsonValue JsNumber} {subjectDid : JsString} (hdid : subjectDid ≠ [])
    (hsubject : (Untyped.member? (some vc) (js "credentialSubject")).member? (js "id") =
      some (.string subjectDid)) :
    checkHolder config toolName args vc =
      if config.holderBindingMode ≠ .off ∧ config.holderBindingVerifier = true ∧
          (extractPublicKeyFromDidKey subjectDid).isSome = true then
        bindHolder config toolName args subjectDid
      else return none := by
  have hread : Untyped.member (some vc) (js "credentialSubject") =
      .ok (Untyped.member? (some vc) (js "credentialSubject")) := by
    cases vc with
    | object members => rfl
    | _ => cases hsubject
  rw [checkHolder]
  by_cases hasks : config.holderBindingMode ≠ .off ∧ config.holderBindingVerifier = true
  · rw [if_pos hasks, hread, ofExcept_ok_bind]
    simp only [hsubject]
    cases happlies : (extractPublicKeyFromDidKey subjectDid).isSome with
    | true => simp [Untyped.truthy, hdid, isHolderBindingApplicable, happlies, hasks]; rfl
    | false => simp [Untyped.truthy, hdid, isHolderBindingApplicable, happlies]; rfl
  · rw [if_neg hasks, if_neg fun h => hasks ⟨h.1, h.2.1⟩]

variable {vc : JsonValue JsNumber} (hshaped : Untrusted.Shaped (some vc))

include hshaped

theorem checkHolder_neverThrows :
    NeverThrows Settled (checkHolder config toolName args vc) := by
  obtain ⟨did, hdid, hsubject⟩ := hshaped.subject
  rw [checkHolder_eq hdid hsubject]
  split_ifs
  · exact bindHolder_neverThrows
  · exact neverThrows_pure

theorem checkHolder_returns_none (toolName : JsString) :
    Returns Settled (checkHolder config toolName args vc) none ↔ HolderPasses config args vc := by
  obtain ⟨did, hdid, hsubject⟩ := hshaped.subject
  have hcondition : HolderPasses config args vc ↔ (config.holderBindingMode = .enforce →
      config.holderBindingVerifier = true → (extractPublicKeyFromDidKey did).isSome = true →
        NamesHolder config args did) := by
    simp only [HolderPasses, hsubject, Option.some.injEq, JsonValue.string.injEq, forall_eq']
  rw [checkHolder_eq hdid hsubject, hcondition]
  split_ifs with hasks
  · rw [bindHolder_returns_none hasks.2.2]
    simp only [hasks.2.1, hasks.2.2, forall_const]
  · refine iff_of_true (returns_pure.mpr rfl) fun hmode hverifier hkey => ?_
    exact absurd ⟨by simp [hmode], hverifier, hkey⟩ hasks

end Holder

section Delegated

variable {config : GateConfig} {toolName : JsString} {gate : DelegationGateConfig}
  {args : PlainObject JsNumber} {sessionId : Option JsString} {handler : ToolHandler}

theorem responsibleDid_returns {controller : Untyped} :
    (∃ did, responsibleDid controller = .ok did) ↔ isOptionalText controller = true := by
  cases controller with
  | none => simp [responsibleDid, isOptionalText]
  | some v => cases v <;> simp [responsibleDid, isOptionalText]

/-- What the code after the checks needs of the credential it goes on with. -/
structure Usable (config : GateConfig) (gate : DelegationGateConfig) (vc : JsonValue JsNumber)
    (isJwt : Bool) : Prop where
  scopes : Untrusted.LegibleScopes config.runtime gate.scopeId (some vc)
  satisfied : ∀ result, Untrusted.scopeSatisfies config.runtime gate.scopeId (some vc) =
      .ok result → result.satisfied = true →
    (isJwt = false → ∃ text, canonicalizeJson config.runtime.numbers vc = .ok text) ∧
    isOptionalText ((Untrusted.delegation? (some vc)).member? (js "controller")) = true

theorem usable_iff {vc : JsonValue JsNumber} {isJwt : Bool} : Usable config gate vc isJwt ↔
    (∃ result, Untrusted.scopeSatisfies config.runtime gate.scopeId (some vc) = .ok result) ∧
    ∀ result, Untrusted.scopeSatisfies config.runtime gate.scopeId (some vc) = .ok result →
      result.satisfied = true →
      (isJwt = false → ∃ text, canonicalizeJson config.runtime.numbers vc = .ok text) ∧
      isOptionalText ((Untrusted.delegation? (some vc)).member? (js "controller")) = true := by
  rw [Untrusted.scopeSatisfies_returns]
  exact ⟨fun h => ⟨h.scopes, h.satisfied⟩, fun h => ⟨h.1, h.2⟩⟩

theorem serializedCredential_returns {delegationArg vc : JsonValue JsNumber} {isJwt : Bool}
    (hform : isJwt = true → ∃ jwt, delegationArg = .string jwt) :
    (∃ bytes, serializedCredential config delegationArg vc isJwt = .ok bytes) ↔
      (isJwt = false → ∃ text, canonicalizeJson config.runtime.numbers vc = .ok text) := by
  cases isJwt with
  | true =>
      obtain ⟨jwt, rfl⟩ := hform rfl
      simp [serializedCredential]
  | false =>
      rw [serializedCredential, Untrusted.bind_returns]
      · simp [Untrusted.pure_returns]
      · rintro _ ⟨⟩

theorem delegationContext_returns {vc : JsonValue JsNumber} (hshaped : Untrusted.Shaped (some vc))
    (scopeId : JsString) (digest : Digest) :
    (∃ context, delegationContext scopeId vc digest = .ok context) ↔
      isOptionalText ((Untrusted.delegation? (some vc)).member? (js "controller")) = true := by
  have hdelegation := Untrusted.isNullish_of_isObject hshaped.delegation
  rw [Untrusted.delegation?] at hdelegation ⊢
  have hsubject := Untrusted.isNullish_of_member hdelegation
  have hvc := Untrusted.isNullish_of_member hsubject
  rw [delegationContext, Untrusted.bind_returns_of fun _ => Untrusted.member_eq_ok,
    and_iff_right hvc, Untrusted.bind_returns_of fun _ => Untrusted.member_eq_ok,
    and_iff_right hsubject, Untrusted.bind_returns_of fun _ => Untrusted.member_eq_ok,
    and_iff_right hdelegation, Untrusted.bind_returns, responsibleDid_returns]
  exact and_iff_left fun _ _ => Untrusted.pure_returns

variable (haudit : config.audit = false)

include haudit

theorem recordAudit_neverThrows {event : GateEvent} :
    NeverThrows Settled (recordAudit config event) := by
  rw [recordAudit, haudit]
  exact neverThrows_pure

omit haudit in
theorem bindGrantOnSuccess_neverThrows {grants : GrantConfig} {call : GrantBinding} :
    NeverThrows Settled (bindGrantOnSuccess grants call) :=
  neverThrows_tryCatch.mpr fun _ _ => neverThrows_pure

omit haudit in
theorem refuse_neverThrows {error reason : JsString} :
    NeverThrows Settled (refuse config toolName args sessionId error reason) :=
  ask_neverThrows fun _ => not_answered

variable (hhandler : ∀ args sessionId context, NeverThrows Settled (handler args sessionId context))

include hhandler

/-- After the checks, the call throws exactly where the credential is not usable. -/
theorem runDelegated_neverThrows {delegationArg vc : JsonValue JsNumber} {isJwt : Bool}
    {expiresAt : Option JsNumber} (hshaped : Untrusted.Shaped (some vc))
    (hform : isJwt = true → ∃ jwt, delegationArg = .string jwt) :
    NeverThrows Settled (runDelegated config toolName gate handler args sessionId delegationArg vc
      isJwt expiresAt) ↔ Usable config gate vc isJwt := by
  rw [runDelegated, usable_iff, neverThrows_bind, neverThrows_ofExcept]
  refine and_congr_right fun _ => forall_congr' fun result => ?_
  rw [returns_ofExcept]
  refine forall_congr' fun hresult => ?_
  cases hsatisfied : result.satisfied with
  | false => simpa using refuse_neverThrows
  | true =>
      simp only [Bool.not_true, Bool.false_eq_true, if_false, forall_const]
      rw [neverThrows_bind, neverThrows_ofExcept, serializedCredential_returns hform]
      refine and_congr_right fun hserialized => ?_
      rw [← delegationContext_returns hshaped gate.scopeId []]
      constructor
      · intro h
        obtain ⟨bytes, hbytes⟩ := (serializedCredential_returns hform).mpr hserialized
        have hhashed := (neverThrows_bind.mp (h bytes (returns_ofExcept.mpr hbytes))).2 []
          (returns_ask.mpr ⟨_, rfl⟩)
        exact neverThrows_ofExcept.mp (neverThrows_bind.mp hhashed).1
      · intro hcontext bytes _
        refine neverThrows_bind.mpr ⟨ask_neverThrows fun _ => not_answered, fun digest _ => ?_⟩
        rw [delegationContext_returns hshaped,
          ← delegationContext_returns hshaped gate.scopeId digest] at hcontext
        refine neverThrows_bind.mpr ⟨neverThrows_ofExcept.mpr hcontext, fun context _ => ?_⟩
        refine neverThrows_bind.mpr ⟨recordAudit_neverThrows haudit, fun _ _ => ?_⟩
        refine neverThrows_bind.mpr ⟨recordAudit_neverThrows haudit, fun _ _ => ?_⟩
        refine neverThrows_bind.mpr ⟨bindGrantOnSuccess_neverThrows, fun _ _ => ?_⟩
        refine neverThrows_bind.mpr ⟨neverThrows_ofExcept.mpr ?_, fun _ _ => hhandler _ _ _⟩
        obtain ⟨hscopes, -⟩ := Untrusted.scopeSatisfies_returns.mp ⟨result, hresult⟩
        exact ⟨_, (Untrusted.getDelegationScopes_eq_ok hshaped.delegation).mpr ⟨hscopes, rfl⟩⟩

end Delegated

end KyaOs.Middleware
