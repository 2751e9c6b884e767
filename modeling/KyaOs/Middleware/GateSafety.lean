import KyaOs.Middleware.PolicySafety
import KyaOs.Middleware.GrantReuse

/-!
# Nothing reaches the handler unauthorised

Whatever the caller sends and whatever the store, the resolvers, the verifiers, the audit
and the policy engine answer or throw, a handler behind both gates is called only after the
pasted delegation was verified for the scope and, under `enforce`, its holder's key over
the call, or a grant was resolved; and after the policy engine allowed the call or enough
approvers signed what the handler gets. Of the subjects with a `did:key`, those and only
those whose key cannot be read from it go without a proof.
-/

namespace KyaOs.Middleware

open Js Untyped JsonValue Audit Proof Concurrency Concurrency.Async

variable {config : DelegationConfig} {opts : PolicyGateOptions} {toolName : JsString}
  {gate : DelegationGateConfig} {args handlerArgs : PlainObject JsNumber}
  {sessionId : Option JsString} {log : List (Exchange Gates)}

/-- The handler behind both gates. -/
def gated (config : DelegationConfig) (opts : PolicyGateOptions) (toolName : JsString)
    (gate : DelegationGateConfig) : ToolHandler :=
  wrapWithDelegation config.toGateConfig (verifyDelegation config) toolName gate
    (withPolicyGate config.toGateConfig opts toolName innermost)

/-- A proof of the subject's key over the call was verified. -/
def HolderProved (config : DelegationConfig) (toolName : JsString) (args : PlainObject JsNumber)
    (subjectDid : JsString) (subjectKeyBytes : Bytes) (log : List (Exchange Gates)) : Prop :=
  ∃ proof : Untyped,
    (proof.member? (js "meta")).member? (js "did") = some (.string subjectDid) ∧
    (proof.member? (js "meta")).member? (js "audience") = some (.string config.serverDid) ∧
    ⟨.verifyProof proof (subjectKey subjectDid subjectKeyBytes)
      (toHolderBindingRequest toolName args), .ok .valid⟩ ∈ log

/-- What lets a call through the delegation gate. -/
inductive Authorized (config : DelegationConfig) (toolName : JsString)
    (gate : DelegationGateConfig) (args : PlainObject JsNumber) (sessionId : Option JsString)
    (log : List (Exchange Gates)) : Prop
  | pasted (delegationArg vc : JsonValue JsNumber) (isJwt : Bool) (expiresAt : Option JsNumber)
      (inside : List (Exchange Gates))
      (hpasted : argument args (js "_kyaos_delegation") = some delegationArg)
      (hinside : inside <:+: log)
      (hverified : (verifyDelegation config delegationArg).Runs inside
        (.ok (.valid vc isJwt expiresAt)))
      (hscope : ∃ result,
        Untrusted.scopeSatisfies config.runtime gate.scopeId (some vc) = .ok result ∧
        result.satisfied = true)
      (hholder : config.holderBindingMode = .enforce → config.holderBindingVerifier = true →
        ∀ subjectDid subjectKeyBytes,
          (Untyped.member? (some vc) (js "credentialSubject")).member? (js "id") =
            some (.string subjectDid) →
          extractPublicKeyFromDidKey subjectDid = some subjectKeyBytes →
          HolderProved config toolName args subjectDid subjectKeyBytes log)
  | granted (resolved : ResolvedGrant) (inside : List (Exchange Gates))
      (hnone : (argument args (js "_kyaos_delegation")).isNullish = true)
      (hinside : inside <:+: log)
      (hresolved : (resolveExistingGrant config.toGateConfig (verifyDelegation config) toolName
        args sessionId gate.scopeId).Runs inside (.ok (some resolved)))

/-- The credential that a pasted delegation carries. -/
def presentedCredential (runtime : Runtime) : JsonValue JsNumber → Untyped
  | .string jwt => do
    let parsed ← Untrusted.parseVCJWT runtime jwt
    let vc ← Untyped.member? (some parsed.payload) (js "vc")
    return withProofMarker jwt vc
  | vc => some vc

/-- The subject of the delegation that the call pastes. -/
def pastedSubject (runtime : Runtime) (args : PlainObject JsNumber) : Untyped := do
  let delegationArg ← argument args (js "_kyaos_delegation")
  ((presentedCredential runtime delegationArg).member? (js "credentialSubject")).member? (js "id")

/-- Under `enforce`, a subject with a `did:key` has proved a key over the call. -/
def SubjectProved (config : DelegationConfig) (toolName : JsString) (args : PlainObject JsNumber)
    (log : List (Exchange Gates)) : Prop :=
  config.holderBindingMode = .enforce → ∀ subjectDid,
    pastedSubject config.runtime args = some (.string subjectDid) →
    startsWith subjectDid (js "did:key:") = true →
    ∃ subjectKeyBytes, HolderProved config toolName args subjectDid subjectKeyBytes log

/-- Under `enforce`, the call pastes a delegation to a `did:key` that encodes no Ed25519
key. -/
def IsUnreadableSubject (config : DelegationConfig) (args : PlainObject JsNumber) : Prop :=
  config.holderBindingMode = .enforce ∧ ∃ subjectDid,
    pastedSubject config.runtime args = some (.string subjectDid) ∧ IsUnreadableDidKey subjectDid

section Asks

variable {sid sid' : Option JsString} {context context' : Option CallContext}
  {handler : ToolHandler}

theorem HolderProved.mono {subjectDid : JsString} {subjectKeyBytes : Bytes}
    {log' : List (Exchange Gates)}
    (h : HolderProved config toolName args subjectDid subjectKeyBytes log) (hlog : log ⊆ log') :
    HolderProved config toolName args subjectDid subjectKeyBytes log' := by
  obtain ⟨proof, hdid, haudience, hverified⟩ := h
  exact ⟨proof, hdid, haudience, hlog hverified⟩

/-- A binding holds when the proof verifier accepted the proof against the subject's key. -/
theorem assertHolderBinding_bound {proof : Untyped} {subjectDid audience : JsString}
    {request : ToolRequest JsNumber} {subjectKeyBytes : Bytes}
    (hkey : extractPublicKeyFromDidKey subjectDid = some subjectKeyBytes)
    (h : (assertHolderBinding proof subjectDid request audience).Runs log (.ok .bound)) :
    (proof.member? (js "meta")).member? (js "did") = some (.string subjectDid) ∧
      (proof.member? (js "meta")).member? (js "audience") = some (.string audience) ∧
      ⟨.verifyProof proof (subjectKey subjectDid subjectKeyBytes) request, .ok .valid⟩ ∈ log := by
  rw [assertHolderBinding, hkey] at h
  dsimp only at h
  split_ifs at h with hobject hdid haudience
  · cases (runs_pure.mp h).2
  · cases (runs_pure.mp h).2
  · cases (runs_pure.mp h).2
  · obtain ⟨asked, rest, verification, rfl, hasked, hrest⟩ := runs_bind_ok.mp h
    cases verification with
    | valid =>
        rw [runs_ask.mp hasked]
        exact ⟨by simpa using hdid, by simpa using haudience, by simp⟩
    | invalid errorCode details message => cases (runs_pure.mp hrest).2

/-- Under `enforce`, a subject whose key its DID encodes has proved it. -/
theorem checkHolder_passes {vc : JsonValue JsNumber} {subjectDid : JsString}
    {subjectKeyBytes : Bytes}
    (h : (checkHolder config.toGateConfig toolName args vc).Runs log (.ok none))
    (henforce : config.holderBindingMode = .enforce)
    (hverifier : config.holderBindingVerifier = true)
    (hsubject : (Untyped.member? (some vc) (js "credentialSubject")).member? (js "id") =
      some (.string subjectDid))
    (hkey : extractPublicKeyFromDidKey subjectDid = some subjectKeyBytes) :
    HolderProved config toolName args subjectDid subjectKeyBytes log := by
  have hdid : subjectDid ≠ [] := by
    rintro rfl
    cases hkey
  have hbind : ∀ {log : List (Exchange Gates)},
      (bindHolder config.toGateConfig toolName args subjectDid).Runs log (.ok none) →
        HolderProved config toolName args subjectDid subjectKeyBytes log := by
    intro log h
    rw [bindHolder] at h
    split at h
    · simp [runs_pure, enforced, henforce] at h
    · obtain ⟨bound, rest, result, rfl, hbound, hrest⟩ := runs_bind_ok.mp h
      cases result with
      | bound =>
          obtain ⟨hproof, haudience, hverified⟩ := assertHolderBinding_bound hkey hbound
          exact ⟨_, hproof, haudience, List.mem_append_left _ hverified⟩
      | unbound reason cause => simp [runs_pure, enforced, henforce] at hrest
      | notApplicable reason => simp [runs_pure, enforced, henforce] at hrest
  rw [checkHolder, if_pos ⟨by simp [henforce], hverifier⟩] at h
  obtain ⟨first, rest, subject, rfl, hread, hrest⟩ := runs_bind_ok.mp h
  obtain ⟨rfl, hsame⟩ := runs_ofExcept.mp hread
  have hmember : subject = Untyped.member? (some vc) (js "credentialSubject") := by
    cases vc <;> simp_all [Untyped.member]
  rw [hmember, hsubject] at hrest
  simp only [Untyped.truthy, hdid, ne_eq, not_false_eq_true, decide_true, Bool.not_true,
    Bool.false_eq_true, if_false] at hrest
  obtain ⟨first, rest, applicable, rfl, happlicable, hrest⟩ := runs_bind_ok.mp hrest
  obtain ⟨rfl, hanswer⟩ := runs_ofExcept.mp happlicable
  have happlies : applicable = true := by
    simpa [isHolderBindingApplicable, hkey] using hanswer
  subst happlies
  exact hbind hrest

/-- A verified delegation runs the handler once it satisfies the scope. -/
theorem runDelegated_asks {delegationArg vc : JsonValue JsNumber} {isJwt : Bool}
    {expiresAt : Option JsNumber}
    (h : (runDelegated config.toGateConfig toolName gate handler args sid' delegationArg vc isJwt
      expiresAt).Asks log (.callHandler handlerArgs sid context)) :
    (∃ result, Untrusted.scopeSatisfies config.runtime gate.scopeId (some vc) = .ok result ∧
      result.satisfied = true) ∧
    ∃ first rest callContext, log = first ++ rest ∧
      (handler (withoutControlArgs args) sid' callContext).Asks rest
        (.callHandler handlerArgs sid context) := by
  obtain ⟨first, rest, result, rfl, hscope, hrest⟩ := asks_after only_ofExcept h
  obtain ⟨rfl, hresult⟩ := runs_ofExcept.mp hscope
  split_ifs at hrest with hsatisfied
  · exact absurd hrest (not_asks refuse_plain.spares)
  refine ⟨⟨result, hresult.symm, by simpa using hsatisfied⟩, ?_⟩
  obtain ⟨serialized, rest, bytes, rfl, -, hrest⟩ := asks_after only_ofExcept hrest
  obtain ⟨hashed, rest, digest, rfl, -, hrest⟩ := asks_after (ask_spares (by simp [IsOther])) hrest
  obtain ⟨made, rest, callContext, rfl, -, hrest⟩ := asks_after only_ofExcept hrest
  obtain ⟨verified, rest, done, rfl, -, hrest⟩ := asks_after recordAudit_plain.spares hrest
  obtain ⟨approved, rest, done, rfl, -, hrest⟩ := asks_after recordAudit_plain.spares hrest
  obtain ⟨kept, rest, done, rfl, -, hrest⟩ := asks_after bindGrantOnSuccess_plain.spares hrest
  obtain ⟨listed, rest, scopes, rfl, -, hrest⟩ := asks_after only_ofExcept hrest
  exact ⟨[] ++ (serialized ++ (hashed ++ (made ++ (verified ++ (approved ++ (kept ++ listed)))))),
    rest, _, by simp, hrest⟩

theorem withDelegation_asks {delegationArg : JsonValue JsNumber}
    (hpasted : argument args (js "_kyaos_delegation") = some delegationArg)
    (h : (withDelegation config.toGateConfig (verifyDelegation config) toolName gate handler args
      sessionId delegationArg).Asks log (.callHandler handlerArgs sid context)) :
    Authorized config toolName gate args sessionId log ∧
    ∃ first rest callContext, log = first ++ rest ∧
      (handler (withoutControlArgs args) sessionId callContext).Asks rest
        (.callHandler handlerArgs sid context) := by
  obtain ⟨inside, rest, check, rfl, hverified, hrest⟩ :=
    asks_after (verifyDelegation_plain config delegationArg).spares h
  cases check with
  | invalid reason vc =>
      refine absurd hrest (not_asks (Only.bind (Only.tryCatch recordAudit_plain.spares fun _ => ?_)
        fun _ => refuse_plain.spares))
      exact only_pure
  | valid vc isJwt expiresAt =>
      obtain ⟨held, rest, refusal, rfl, hheld, hrest⟩ := asks_after checkHolder_spares hrest
      cases refusal with
      | some reason => exact absurd hrest (not_asks refuse_plain.spares)
      | none =>
          obtain ⟨hscope, first, rest, callContext, rfl, hhandler⟩ := runDelegated_asks hrest
          refine ⟨.pasted delegationArg vc isJwt expiresAt inside hpasted
            (List.infix_append' [] _ _) hverified hscope ?_, inside ++ (held ++ first), rest,
            callContext, by simp, hhandler⟩
          intro henforce hverifier subjectDid subjectKeyBytes hsubject hkey
          refine (checkHolder_passes hheld henforce hverifier hsubject hkey).mono ?_
          intro exchange hmem
          simp only [List.mem_append]
          tauto

theorem withoutDelegation_asks
    (hnone : (argument args (js "_kyaos_delegation")).isNullish = true)
    (h : (withoutDelegation config.toGateConfig (verifyDelegation config) toolName gate handler args
      sessionId).Asks log (.callHandler handlerArgs sid context)) :
    Authorized config toolName gate args sessionId log ∧
    ∃ first rest callContext, log = first ++ rest ∧
      (handler (withoutControlArgs args) sessionId callContext).Asks rest
        (.callHandler handlerArgs sid context) := by
  obtain ⟨inside, rest, resolved, rfl, hresolved, hrest⟩ :=
    asks_after (resolveExistingGrant_spares fun arg => (verifyDelegation_plain config arg).spares) h
  cases resolved with
  | none =>
      refine absurd hrest (not_asks ?_)
      exact buildNeedsAuthorizationChallenge_plain.spares.bind fun _ =>
        ask_spares (by simp [IsOther])
  | some resolved =>
      obtain ⟨made, rest, responsible, rfl, -, hrest⟩ := asks_after only_ofExcept hrest
      obtain ⟨recorded, rest, done, rfl, -, hrest⟩ := asks_after recordAudit_plain.spares hrest
      exact ⟨.granted resolved inside hnone (List.infix_append' [] _ _) hresolved,
        inside ++ (made ++ recorded), rest, _, by simp, hrest⟩

theorem Authorized.mono {log' : List (Exchange Gates)}
    (h : Authorized config toolName gate args sessionId log) (hlog : log <:+: log') :
    Authorized config toolName gate args sessionId log' := by
  cases h with
  | pasted delegationArg vc isJwt expiresAt inside hpasted hinside hverified hscope hholder =>
      refine .pasted delegationArg vc isJwt expiresAt inside hpasted (hinside.trans hlog) hverified
        hscope ?_
      intro henforce hverifier subjectDid subjectKeyBytes hsubject hkey
      exact (hholder henforce hverifier subjectDid subjectKeyBytes hsubject hkey).mono hlog.subset
  | granted resolved inside hnone hinside hresolved =>
      exact .granted resolved inside hnone (hinside.trans hlog) hresolved

theorem verifyPresented_valid {vc vc' : JsonValue JsNumber} {isJwt isJwt' : Bool}
    {jwtExpiresAt expiresAt : Option JsNumber}
    (h : (verifyPresented config vc isJwt jwtExpiresAt).Runs log
      (.ok (.valid vc' isJwt' expiresAt))) : vc' = vc := by
  obtain ⟨first, rest, chain, rfl, -, h⟩ := runs_bind_ok.mp h
  split_ifs at h
  · cases (runs_pure.mp h).2
    rfl
  · cases (runs_pure.mp h).2

/-- What is verified is the credential that was pasted. -/
theorem verifyDelegation_valid {delegationArg vc : JsonValue JsNumber} {isJwt : Bool}
    {expiresAt : Option JsNumber}
    (h : (verifyDelegation config delegationArg).Runs log (.ok (.valid vc isJwt expiresAt))) :
    presentedCredential config.runtime delegationArg = some vc := by
  cases delegationArg with
  | string jwt =>
      have h : (verifyJwt config jwt).Runs log (.ok (.valid vc isJwt expiresAt)) := h
      unfold verifyJwt at h
      split at h
      · cases (runs_pure.mp h).2
      rename_i parsed hparsed
      obtain ⟨first, rest, credential, rfl, hread, h⟩ := runs_bind_ok.mp h
      obtain ⟨rfl, hmember⟩ := runs_ofExcept.mp hread
      have hvc : credential = Untyped.member? (some parsed.payload) (js "vc") := by
        generalize parsed.payload = payload at hmember ⊢
        cases payload <;> simp_all [Untyped.member]
      cases credential with
      | none => cases (runs_pure.mp h).2
      | some credential =>
          dsimp only at h
          split_ifs at h
          · obtain ⟨first, rest, envelope, rfl, -, h⟩ := runs_bind_ok.mp h
            split_ifs at h
            · simp [presentedCredential, hparsed, ← hvc, verifyPresented_valid h]
            · cases (runs_pure.mp h).2
          · cases (runs_pure.mp h).2
  | _ => exact congrArg some (verifyPresented_valid h).symm

theorem checkHolder_unproving {vc : JsonValue JsNumber} {subjectDid : JsString}
    (hsubject : (Untyped.member? (some vc) (js "credentialSubject")).member? (js "id") =
      some (.string subjectDid))
    (hkey : extractPublicKeyFromDidKey subjectDid = none) :
    (checkHolder config.toGateConfig toolName args vc).Only IsUnproving := by
  unfold checkHolder
  split_ifs
  · refine only_ofExcept.bind_runs fun read subject hread => ?_
    have hmember : subject = Untyped.member? (some vc) (js "credentialSubject") := by
      have hread := (runs_ofExcept.mp hread).2
      cases vc <;> simp_all [Untyped.member]
    rw [hmember, hsubject]
    dsimp only
    split_ifs
    · exact only_pure
    · refine only_ofExcept.bind_runs fun asked applicable hasked => ?_
      have happlies : applicable = false := by
        simpa [isHolderBindingApplicable, hkey] using (runs_ofExcept.mp hasked).2
      rw [happlies]
      exact only_pure
  · exact only_pure

section Unproving

variable (hhandler : ∀ args sessionId context, (handler args sessionId context).Only IsUnproving)

include hhandler in
theorem runDelegated_unproving {delegationArg vc : JsonValue JsNumber} {isJwt : Bool}
    {expiresAt : Option JsNumber} : (runDelegated config.toGateConfig toolName gate handler args
      sid' delegationArg vc isJwt expiresAt).Only IsUnproving := by
  refine only_ofExcept.bind fun result => ?_
  split_ifs
  · exact refuse_plain.unproving
  refine only_ofExcept.bind fun bytes => Only.bind (ask_unproving trivial) fun digest => ?_
  refine only_ofExcept.bind fun callContext => recordAudit_plain.unproving.bind fun _ => ?_
  refine recordAudit_plain.unproving.bind fun _ => ?_
  refine bindGrantOnSuccess_plain.unproving.bind fun _ => only_ofExcept.bind fun scopes => ?_
  exact hhandler _ _ _

include hhandler in
/-- A pasted delegation whose subject's key cannot be read has no proof checked. -/
theorem withDelegation_unproving {delegationArg : JsonValue JsNumber} {subjectDid : JsString}
    (hsubject : ((presentedCredential config.runtime delegationArg).member?
      (js "credentialSubject")).member? (js "id") = some (.string subjectDid))
    (hkey : extractPublicKeyFromDidKey subjectDid = none) :
    (withDelegation config.toGateConfig (verifyDelegation config) toolName gate handler args
      sessionId delegationArg).Only IsUnproving := by
  refine (verifyDelegation_plain config delegationArg).unproving.bind_runs ?_
  intro inside check hruns
  cases check with
  | invalid reason vc =>
      exact (Only.tryCatch recordAudit_plain.unproving fun _ => only_pure).bind fun _ =>
        refuse_plain.unproving
  | valid vc isJwt expiresAt =>
      rw [verifyDelegation_valid hruns] at hsubject
      refine (checkHolder_unproving hsubject hkey).bind fun refusal => ?_
      cases refusal with
      | some reason => exact refuse_plain.unproving
      | none => exact runDelegated_unproving hhandler

end Unproving

theorem pastedSubject_none
    (h : (argument args (js "_kyaos_delegation")).isNullish = true) :
    pastedSubject config.runtime args = none := by
  unfold pastedSubject
  cases hpasted : argument args (js "_kyaos_delegation") with
  | none => rfl
  | some delegationArg =>
      rw [hpasted] at h
      cases delegationArg with
      | null => rfl
      | _ => cases h

theorem pastedSubject_some {delegationArg : JsonValue JsNumber}
    (h : argument args (js "_kyaos_delegation") = some delegationArg) :
    pastedSubject config.runtime args =
      ((presentedCredential config.runtime delegationArg).member?
        (js "credentialSubject")).member? (js "id") := by
  rw [pastedSubject, h]
  rfl

theorem gated_unproving (h : IsUnreadableSubject config args) :
    (gated config opts toolName gate args sessionId context').Only IsUnproving := by
  obtain ⟨-, subjectDid, hsubject, -, hkey⟩ := h
  refine Only.bind (ask_unproving trivial) fun _ => ?_
  have hnone : (argument args (js "_kyaos_delegation")).isNullish ≠ true := by
    intro hnone
    rw [pastedSubject_none hnone] at hsubject
    cases hsubject
  split
  · rename_i hpasted
    exact absurd (by rw [hpasted]; rfl) hnone
  · rename_i hpasted
    exact absurd (by rw [hpasted]; rfl) hnone
  · rename_i hpasted
    rw [pastedSubject_some hpasted] at hsubject
    have hinnermost : ∀ args sessionId context,
        (innermost args sessionId context).Only IsUnproving :=
      fun args sessionId context => only_ask (by simp [IsUnproving])
    exact withDelegation_unproving (fun _ _ _ => withPolicyGate_unproving hinnermost) hsubject hkey

/-- An unreadable subject has proved nothing when the handler is called. -/
theorem not_subjectProved (h : IsUnreadableSubject config args)
    (hasks : (gated config opts toolName gate args sessionId context').Asks log
      (.callHandler handlerArgs sid context)) :
    ¬ SubjectProved config toolName args log := by
  intro hproved
  obtain ⟨hmode, subjectDid, hsubject, hunreadable⟩ := id h
  obtain ⟨subjectKeyBytes, proof, -, -, hverified⟩ :=
    hproved hmode subjectDid hsubject hunreadable.1
  exact (gated_unproving h).earlier hasks _ hverified _ _ _ rfl

/-- A subject that can be read has proved its key when the delegation gate let the call
through. -/
theorem Authorized.subjectProved (h : Authorized config toolName gate args sessionId log)
    (hverifier : config.holderBindingMode ≠ .off → config.holderBindingVerifier = true)
    (hreadable : ¬ IsUnreadableSubject config args) :
    SubjectProved config toolName args log := by
  intro hmode subjectDid hsubject hstart
  cases h with
  | granted resolved inside hnone hinside hresolved =>
      rw [pastedSubject_none hnone] at hsubject
      cases hsubject
  | pasted delegationArg vc isJwt expiresAt inside hpasted hinside hverified hscope hholder =>
      obtain ⟨subjectKeyBytes, hkey⟩ :
          ∃ subjectKeyBytes, extractPublicKeyFromDidKey subjectDid = some subjectKeyBytes := by
        refine Option.ne_none_iff_exists'.mp fun hnone => hreadable ?_
        exact ⟨hmode, subjectDid, hsubject, hstart, hnone⟩
      rw [pastedSubject_some hpasted, verifyDelegation_valid hverified] at hsubject
      have hbound : config.holderBindingVerifier = true := hverifier (by simp [hmode])
      exact ⟨subjectKeyBytes, hholder hmode hbound subjectDid subjectKeyBytes hsubject hkey⟩

end Asks

def sampleGates : DelegationConfig where
  runtime := sampleRuntime
  serverDid := js "did:web:s"
  holderBindingMode := .enforce
  audit := false
  holderBindingVerifier := true
  resolvesChains := false
  hasStatusListResolver := false
  hasRevocationChecker := false
  trustedRootIssuers := none
  maxChainLength := none

def sampleScope : DelegationGateConfig := { scopeId := js "read", consentUrl := [] }

def sampleDelegation (subjectDid : JsString) : Json :=
  .object [
    (js "@context", .array [.string (js "https://www.w3.org/2018/credentials/v1")]),
    (js "type", .array [.string (js "VerifiableCredential"), .string (js "DelegationCredential")]),
    (js "issuer", .string (js "i")),
    (js "issuanceDate", .string (js "t")),
    (js "credentialSubject", .object [
      (js "id", .string subjectDid),
      (js "delegation", .object [
        (js "id", .string (js "d1")),
        (js "issuerDid", .string (js "i")),
        (js "subjectDid", .string (js "s")),
        (js "status", .string (js "active")),
        (js "scopes", .array [.string (js "read")]),
        (js "constraints", .object [])])])]

/-- The segment of a JWT that holds a value, whose text is ASCII. -/
def segment (value : Json) : JsString :=
  base64urlEncodeFromBytes ((Json.stringify value).map (·.toUInt8))

def sampleJwt (subjectDid : JsString) : JsString :=
  segment (.object []) ++ js "." ++
    segment (.object [(js "iss", .string (js "i")), (js "vc", sampleDelegation subjectDid)]) ++
    js "."

/-- The delegation to a P-256 `did:key`, without a holder's proof. -/
def unprovedArgs : PlainObject JsNumber where
  members := [(js "_kyaos_delegation", .string (sampleJwt sampleAgent))]

/-- The delegation to an Ed25519 `did:key`, with its holder's proof. -/
def provedArgs : PlainObject JsNumber where
  members := [(js "_kyaos_delegation", .string (sampleJwt sampleHolder)),
    (js "_kyaos_proof", holderProof)]

/-- Ports that accept what they are asked, and a policy engine that allows. -/
def accepting : (request : GateRequest) → Except Error request.Answer
  | .now => .ok 0
  | .hash _ => .ok []
  | .resolveDid _ =>
    .ok (some [{ id := js "k", publicKeyJwk := some (.object [(js "x", .string (js "AAAA"))]) }])
  | .importKey _ => .ok false
  | .compactVerify .. => .ok ()
  | .verifyProof .. => .ok .valid
  | .requireProofLayer => .ok ()
  | .bindGrant _ => .ok ()
  | .classify .. => .ok { reversibility := [], blastRadius := [], severity := [] }
  | .evaluatePolicy _ => .ok .allow
  | _ => .error .nonError

def isHandlerCall : GateRequest → Bool
  | .callHandler .. => true
  | _ => false

def isProofCheck : GateRequest → Bool
  | .verifyProof .. => true
  | _ => false

def sampleCall (args : PlainObject JsNumber) : GateM ToolResult :=
  gated sampleGates {} (js "t") sampleScope args none none

/-- The handler is called when the ports accept; whether a proof was checked before. -/
def handedWith (args : PlainObject JsNumber) : Option Bool :=
  (upTo accepting isHandlerCall () (sampleCall args)).bind fun found =>
    if isHandlerCall found.2 then some (found.1.any fun exchange => isProofCheck exchange.request)
    else none

theorem asks_of_handedWith {args : PlainObject JsNumber} {proved : Bool}
    (h : handedWith args = some proved) : ∃ log handlerArgs sid context,
      (sampleCall args).Asks log (.callHandler handlerArgs sid context) ∧
        (log.any fun exchange => isProofCheck exchange.request) = proved := by
  obtain ⟨⟨log, request⟩, hcall, hfound⟩ := Option.bind_eq_some_iff.mp h
  cases request with
  | callHandler handlerArgs sid context =>
      exact ⟨log, handlerArgs, sid, context, asks_of_upTo hcall, Option.some.inj hfound⟩
  | _ => cases hfound

end KyaOs.Middleware
