import KyaOs.Middleware.GrantResolution

/-!
# A reused grant is worth what its delegation is worth

Whatever the store, the verifiers and the clock answer, a call that resolves to a grant
verified the delegation the grant retains, for the agent, the user and the scope of the
grant. It also had a proof of the agent's key verified over the call, or is of the grant's
session; under `enforce` the session is enough only where no key can be read from the
agent's DID.
-/

namespace KyaOs.Middleware

open Js Untyped JsonValue Proof Providers Concurrency Concurrency.Async

variable {config : GateConfig} {verifyDelegation : JsonValue JsNumber → GateM DelegationCheck}
  {log : List (Exchange Gates)} {scopeId : JsString} {resolved : ResolvedGrant}

/-- The credential is one for the grant's agent and user, and satisfies the scope. -/
structure Names (runtime : Runtime) (scopeId : JsString) (vc : JsonValue JsNumber)
    (resolved : ResolvedGrant) : Prop where
  subject : (Untyped.member? (some vc) (js "credentialSubject")).member? (js "id") =
    some resolved.grant.agentDid
  controller : (Untrusted.delegation? (some vc)).member? (js "controller") =
    resolved.grant.userDid
  scope : ∃ result, Untrusted.scopeSatisfies runtime scopeId (some vc) = .ok result ∧
    result.satisfied = true
  scopes : Untrusted.getDelegationScopes (some vc) = .ok resolved.delegatedScopes

/-- The grant is good for the scope now, and its delegation was verified in the log. -/
structure Reverified (config : GateConfig)
    (verifyDelegation : JsonValue JsNumber → GateM DelegationCheck) (scopeId : JsString)
    (log : List (Exchange Gates)) (resolved : ResolvedGrant) : Prop where
  active : resolved.grant.status = .active
  lists : .string scopeId ∈ resolved.grant.scopes
  unexpired : ∀ expiresAt, resolved.grant.expiresAt = some expiresAt →
    ∃ (time now : ℚ), expiresAt = .finite time ∧ now < time ∧ ⟨.now, .ok now⟩ ∈ log
  evidence : ∃ retained vc isJwt expiresAt inside, evidence resolved.grant = some retained ∧
    inside <:+: log ∧ (verifyDelegation retained).Runs inside (.ok (.valid vc isJwt expiresAt)) ∧
    Names config.runtime scopeId vc resolved

theorem Reverified.mono {log' : List (Exchange Gates)}
    (h : Reverified config verifyDelegation scopeId log resolved) (hlog : log <:+: log') :
    Reverified config verifyDelegation scopeId log' resolved where
  active := h.active
  lists := h.lists
  unexpired expiresAt hexpires := by
    obtain ⟨time, now, htime, hnow, hmem⟩ := h.unexpired expiresAt hexpires
    exact ⟨time, now, htime, hnow, hlog.subset hmem⟩
  evidence := by
    obtain ⟨retained, vc, isJwt, expiresAt, inside, hretained, hinside, hruns, hnames⟩ := h.evidence
    exact ⟨retained, vc, isJwt, expiresAt, inside, hretained, hinside.trans hlog, hruns, hnames⟩

/-- Values that `===` finds equal are the same value. -/
theorem eq_of_strictEquals? {v w : Untyped} (h : Untrusted.strictEquals? v w = true) : v = w := by
  cases v with
  | none =>
      cases w with
      | none => rfl
      | some w => cases h
  | some v =>
      cases w with
      | none => cases h
      | some w =>
          cases v <;> cases w <;>
            simp_all [Untrusted.strictEquals?, JsonValue.strictEquals, sameValueZero]

theorem names_of_judgeEvidence {grant : Grant} {vc : JsonValue JsNumber}
    (h : judgeEvidence config grant scopeId vc = .ok (some resolved)) :
    resolved.grant = grant ∧ Names config.runtime scopeId vc resolved := by
  have hmember : ∀ {value v : Untyped} {name : JsString}, value.member name = .ok v →
      value.member? name = v := by
    intro value v name hv
    cases value with
    | none => cases hv
    | some value => cases value <;> cases hv <;> rfl
  simp only [judgeEvidence] at h
  obtain ⟨subject, hsubject, h⟩ := bind_eq_ok.mp h
  obtain ⟨subjectId, hid, h⟩ := bind_eq_ok.mp h
  split at h
  · cases h
  rename_i hsame
  obtain ⟨delegation, hdelegation, h⟩ := bind_eq_ok.mp h
  obtain ⟨controller, hcontroller, h⟩ := bind_eq_ok.mp h
  split at h
  · cases h
  rename_i huser
  obtain ⟨result, hscope, h⟩ := bind_eq_ok.mp h
  split at h
  · cases h
  rename_i hsatisfied
  obtain ⟨scopes, hscopes, h⟩ := bind_eq_ok.mp h
  cases h
  rw [Bool.not_eq_true, Bool.not_eq_false'] at hsame huser hsatisfied
  refine ⟨rfl, ?_, ?_, ⟨result, hscope, hsatisfied⟩, hscopes⟩
  · rw [hmember hsubject, hmember hid]
    exact eq_of_strictEquals? hsame
  · rw [Untrusted.delegation?, hmember hsubject, hmember hdelegation, hmember hcontroller]
    exact eq_of_strictEquals? huser

theorem runs_isUnexpired {grant : Grant} (h : (isUnexpired grant).Runs log (.ok true)) :
    ∀ expiresAt, grant.expiresAt = some expiresAt →
      ∃ (time now : ℚ), expiresAt = .finite time ∧ now < time ∧ ⟨.now, .ok now⟩ ∈ log := by
  intro expiresAt hexpires
  rw [isUnexpired, hexpires] at h
  cases expiresAt with
  | finite time =>
      obtain ⟨answer, rest, rfl, hanswer⟩ := runs_ask_bind.mp h
      cases answer with
      | error e => cases (runs_done.mp hanswer).2
      | ok now =>
          have hlater : true = !decide (time ≤ now) := Except.ok.inj (runs_pure.mp hanswer).2
          simp at hlater
          exact ⟨time, now, rfl, hlater, List.mem_cons_self⟩
  | nan => cases (runs_pure.mp h).2
  | infinity negative => cases (runs_pure.mp h).2

theorem runs_authorizeEvidence {grant : Grant} {retained : JsonValue JsNumber}
    (h : (authorizeEvidence config verifyDelegation grant scopeId retained).Runs log
      (.ok (some resolved))) :
    ∃ vc isJwt expiresAt, (verifyDelegation retained).Runs log (.ok (.valid vc isJwt expiresAt)) ∧
      resolved.grant = grant ∧ Names config.runtime scopeId vc resolved := by
  obtain ⟨a, h, hsame⟩ | ⟨first, rest, e, -, -, h⟩ := runs_tryCatch.mp h
  · cases hsame
    obtain ⟨first, rest, check, rfl, hverify, h⟩ := runs_bind_ok.mp h
    cases check with
    | invalid reason vc => cases (runs_pure.mp h).2
    | valid vc isJwt expiresAt =>
        obtain ⟨rfl, hjudged⟩ := runs_ofExcept.mp h
        rw [List.append_nil]
        exact ⟨vc, isJwt, expiresAt, hverify, names_of_judgeEvidence hjudged.symm⟩
  · cases (runs_pure.mp h).2

theorem runs_authorizeGrant {grant : Grant}
    (h : (authorizeGrant config verifyDelegation grant scopeId).Runs log (.ok (some resolved))) :
    resolved.grant = grant ∧ Reverified config verifyDelegation scopeId log resolved := by
  rw [authorizeGrant] at h
  split at h
  · rename_i hgood
    obtain ⟨first, rest, unexpired, rfl, hunexpired, h⟩ := runs_bind_ok.mp h
    cases unexpired with
    | false => cases (runs_pure.mp h).2
    | true =>
        rw [if_pos rfl] at h
        cases hretained : evidence grant with
        | none =>
            rw [hretained] at h
            cases (runs_pure.mp h).2
        | some retained =>
            rw [hretained] at h
            obtain ⟨vc, isJwt, expiresAt, hverify, rfl, hnames⟩ := runs_authorizeEvidence h
            refine ⟨rfl, hgood.1, Grant.lists_iff.mp hgood.2, fun time htime => ?_, ?_⟩
            · obtain ⟨at', now, hat, hnow, hmem⟩ := runs_isUnexpired hunexpired time htime
              exact ⟨at', now, hat, hnow, List.mem_append_left _ hmem⟩
            · exact ⟨retained, vc, isJwt, expiresAt, rest, hretained,
                (List.suffix_append first rest).isInfix, hverify, hnames⟩
  · cases (runs_pure.mp h).2

/-- A proof of the possession of the agent's key, verified over the call. -/
structure Possession (config : GateConfig) (toolName : JsString) (args : PlainObject JsNumber)
    (log : List (Exchange Gates)) (agentDid : JsonValue JsNumber) : Prop where
  proved : ∃ did key, agentDid = .string did ∧ extractPublicKeyFromDidKey did = some key ∧
    let proof := parsedProof config.runtime (argument args (js "_kyaos_proof")) none
    (proof.member? (js "meta")).member? (js "did") = some (.string did) ∧
    (proof.member? (js "meta")).member? (js "audience") = some (.string config.serverDid) ∧
    ⟨.verifyProof proof (subjectKey did key) (toHolderBindingRequest toolName args), .ok .valid⟩ ∈
      log

theorem runs_firstOfAgent {agentDid : JsString} {sessionId : Option JsString} {grants : List Grant}
    (h : (firstOfAgent config verifyDelegation agentDid sessionId scopeId grants).Runs log
      (.ok (some resolved))) :
    resolved.grant ∈ grants ∧ resolved.grant.agentDid = .string agentDid ∧
      (resolved.grant.sessionId = none ∨ resolved.grant.sessionId = sessionId) ∧
      Reverified config verifyDelegation scopeId log resolved := by
  induction grants generalizing log with
  | nil => cases (runs_pure.mp h).2
  | cons grant rest ih =>
      rw [firstOfAgent] at h
      split at h
      · obtain ⟨hmem, hrest⟩ := ih h
        exact ⟨List.mem_cons_of_mem _ hmem, hrest⟩
      · rename_i hmatches
        obtain ⟨first, others, found, rfl, hfirst, h⟩ := runs_bind_ok.mp h
        cases found with
        | some found =>
            obtain ⟨rfl, hfound⟩ := runs_pure.mp h
            cases hfound
            rw [List.append_nil]
            obtain ⟨rfl, hverified⟩ := runs_authorizeGrant hfirst
            simp only [Bool.or_eq_true, Bool.not_eq_true', Bool.and_eq_true, not_or, not_and,
              Bool.not_eq_false, decide_eq_true_eq, ne_eq, not_not, strictEquals_string] at hmatches
            refine ⟨List.mem_cons_self, hmatches.1, ?_, hverified⟩
            cases hsession : resolved.grant.sessionId with
            | none => exact .inl rfl
            | some id => exact .inr (hsession ▸ hmatches.2 (by rw [hsession]; rfl))
        | none =>
            obtain ⟨hmem, hagent, hsession, hverified⟩ := ih h
            exact ⟨List.mem_cons_of_mem _ hmem, hagent, hsession,
              hverified.mono (List.suffix_append first others).isInfix⟩

theorem runs_firstOfSession {sessionId : JsString} {grants : List Grant}
    (h : (firstOfSession config verifyDelegation sessionId scopeId grants).Runs log
      (.ok (some resolved))) :
    resolved.grant ∈ grants ∧ resolved.grant.sessionId = some sessionId ∧
      ¬ (config.holderBindingMode = .enforce ∧
        isHolderBindingApplicable resolved.grant.agentDid = .ok true) ∧
      Reverified config verifyDelegation scopeId log resolved := by
  induction grants generalizing log with
  | nil => cases (runs_pure.mp h).2
  | cons grant rest ih =>
      rw [firstOfSession] at h
      split at h
      · obtain ⟨hmem, hrest⟩ := ih h
        exact ⟨List.mem_cons_of_mem _ hmem, hrest⟩
      · rename_i hsession
        obtain ⟨first, others, needed, rfl, hneeded, hloop⟩ := runs_bind_ok.mp h
        obtain ⟨rfl, hneeds⟩ := runs_ofExcept.mp hneeded
        cases needed with
        | true =>
            obtain ⟨hmem, hrest⟩ := ih hloop
            exact ⟨List.mem_cons_of_mem _ hmem, hrest⟩
        | false =>
            rw [if_neg Bool.false_ne_true] at hloop
            obtain ⟨first, last, found, hlog, hfirst, hfound⟩ := runs_bind_ok.mp hloop
            obtain rfl : others = first ++ last := hlog
            cases found with
            | some found =>
                obtain ⟨rfl, hsame⟩ := runs_pure.mp hfound
                cases hsame
                obtain ⟨rfl, hverified⟩ := runs_authorizeGrant hfirst
                refine ⟨List.mem_cons_self, not_not.mp hsession, ?_, ?_⟩
                · rintro ⟨hmode, happlies⟩
                  rw [needsProof, if_pos hmode, happlies] at hneeds
                  cases hneeds
                · rwa [List.nil_append, List.append_nil]
            | none =>
                obtain ⟨hmem, hid, hmode, hverified⟩ := ih hfound
                exact ⟨List.mem_cons_of_mem _ hmem, hid, hmode,
                  hverified.mono (List.suffix_append first last).isInfix⟩

theorem runs_assertHolderBinding {proof : Untyped} {did : JsString}
    {request : ToolRequest JsNumber} {audience : JsString}
    (h : (assertHolderBinding proof did request audience).Runs log (.ok .bound)) :
    ∃ key, extractPublicKeyFromDidKey did = some key ∧
      (proof.member? (js "meta")).member? (js "did") = some (.string did) ∧
      (proof.member? (js "meta")).member? (js "audience") = some (.string audience) ∧
      log = [⟨.verifyProof proof (subjectKey did key) request, .ok .valid⟩] := by
  simp only [assertHolderBinding] at h
  split at h
  · cases (runs_pure.mp h).2
  · rename_i key hkey
    split at h
    · cases (runs_pure.mp h).2
    split at h
    · cases (runs_pure.mp h).2
    rename_i hdid
    split at h
    · cases (runs_pure.mp h).2
    rename_i haudience
    rw [Bool.not_eq_true, Bool.not_eq_false', isString_iff] at hdid haudience
    obtain ⟨answer, rest, rfl, hanswer⟩ := runs_ask_bind.mp h
    refine ⟨key, hkey, hdid, haudience, ?_⟩
    cases answer with
    | error e => cases (runs_done.mp hanswer).2
    | ok result =>
        cases result with
        | valid =>
            obtain ⟨rfl, -⟩ := runs_pure.mp hanswer
            rfl
        | invalid code reason details => cases (runs_pure.mp hanswer).2

theorem runs_resolveAgentGrant {toolName : JsString} {args : PlainObject JsNumber}
    {sessionId : Option JsString}
    (h : (resolveAgentGrant config verifyDelegation toolName args sessionId scopeId).Runs log
      (.ok (some resolved))) :
    Possession config toolName args log resolved.grant.agentDid ∧
      (resolved.grant.sessionId = none ∨ resolved.grant.sessionId = sessionId) ∧
      Reverified config verifyDelegation scopeId log resolved := by
  simp only [resolveAgentGrant] at h
  split at h
  · split at h
    · rename_i did hdid
      split at h
      · obtain ⟨first, others, binding, rfl, hbinding, hloop⟩ := runs_bind_ok.mp h
        cases binding with
        | bound =>
            obtain ⟨key, hkey, -, haudience, rfl⟩ := runs_assertHolderBinding hbinding
            obtain ⟨answer, rest, rfl, hanswer⟩ := runs_ask_bind.mp hloop
            cases answer with
            | error e => cases (runs_done.mp hanswer).2
            | ok grants =>
                obtain ⟨-, hagent, hsession, hverified⟩ := runs_firstOfAgent hanswer
                refine ⟨⟨did, key, hagent, hkey, hdid, haudience, List.mem_cons_self⟩, hsession, ?_⟩
                exact hverified.mono (List.suffix_append [_, _] rest).isInfix
        | unbound reason cause => cases (runs_pure.mp hloop).2
        | notApplicable reason => cases (runs_pure.mp hloop).2
      · cases (runs_pure.mp h).2
    · cases (runs_pure.mp h).2
  · cases (runs_pure.mp h).2

/-- A grant resolves only by a proof of its agent's key verified over this call, or in the
session it is bound to where the mode does not ask for such a proof; and only with its
delegation verified again. -/
structure Reuse (config : GateConfig)
    (verifyDelegation : JsonValue JsNumber → GateM DelegationCheck) (toolName : JsString)
    (args : PlainObject JsNumber) (sessionId : Option JsString) (scopeId : JsString)
    (log : List (Exchange Gates)) (resolved : ResolvedGrant) : Prop where
  reverified : Reverified config verifyDelegation scopeId log resolved
  held : (Possession config toolName args log resolved.grant.agentDid ∧
      (resolved.grant.sessionId = none ∨ resolved.grant.sessionId = sessionId)) ∨
    ((∃ id, id ≠ [] ∧ sessionId = some id ∧ resolved.grant.sessionId = some id) ∧
      ¬ (config.holderBindingMode = .enforce ∧
        isHolderBindingApplicable resolved.grant.agentDid = .ok true))

theorem reuse_of_resolves {toolName : JsString} {args : PlainObject JsNumber}
    {sessionId : Option JsString}
    (h : (resolveExistingGrant config verifyDelegation toolName args sessionId scopeId).Runs log
      (.ok (some resolved))) :
    Reuse config verifyDelegation toolName args sessionId scopeId log resolved := by
  obtain ⟨first, others, found, rfl, hfirst, hfound⟩ := runs_bind_ok.mp h
  cases found with
  | some found =>
      obtain ⟨rfl, hsame⟩ := runs_pure.mp hfound
      cases hsame
      rw [List.append_nil]
      obtain ⟨hpossession, hsession, hverified⟩ := runs_resolveAgentGrant hfirst
      exact ⟨hverified, .inl ⟨hpossession, hsession⟩⟩
  | none =>
      cases sessionId with
      | none => cases (runs_pure.mp hfound).2
      | some id =>
          cases id with
          | nil => cases (runs_pure.mp hfound).2
          | cons unit units =>
              obtain ⟨answer, rest, rfl, hanswer⟩ := runs_ask_bind.mp hfound
              cases answer with
              | error e => cases (runs_done.mp hanswer).2
              | ok grants =>
                  obtain ⟨-, hid, hmode, hverified⟩ := runs_firstOfSession hanswer
                  refine ⟨hverified.mono ?_,
                    .inr ⟨⟨_, List.cons_ne_nil unit units, rfl, hid⟩, hmode⟩⟩
                  exact ((List.suffix_cons _ rest).trans (List.suffix_append first _)).isInfix

/-- A `did:key` that encodes no Ed25519 key. -/
def IsUnreadableDidKey (did : JsString) : Prop :=
  startsWith did (js "did:key:") = true ∧ extractPublicKeyFromDidKey did = none

/-- The grant is held by a proof of its agent's key over the call, or by the session it is
bound to, where the mode asks no agent with a `did:key` for such a proof. -/
def IsHeld (config : GateConfig) (toolName : JsString) (args : PlainObject JsNumber)
    (sessionId : Option JsString) (log : List (Exchange Gates)) (grant : Grant) : Prop :=
  (Possession config toolName args log grant.agentDid ∧
    (grant.sessionId = none ∨ grant.sessionId = sessionId)) ∨
  ((∃ id, id ≠ [] ∧ sessionId = some id ∧ grant.sessionId = some id) ∧
    ¬ (config.holderBindingMode = .enforce ∧
      ∃ did, grant.agentDid = .string did ∧ startsWith did (js "did:key:") = true))

/-- Under `enforce`, the agent's `did:key` encodes no Ed25519 key. -/
def IsUnreadableAgent (config : GateConfig) (grant : Grant) : Prop :=
  config.holderBindingMode = .enforce ∧
    ∃ did, grant.agentDid = .string did ∧ IsUnreadableDidKey did

theorem Possession.readable {toolName : JsString} {args : PlainObject JsNumber}
    {agentDid : JsonValue JsNumber} (h : Possession config toolName args log agentDid)
    {did : JsString} (hdid : agentDid = .string did) : ¬ IsUnreadableDidKey did := by
  obtain ⟨did', key, hagent, hkey, -⟩ := h.proved
  cases hdid.symm.trans hagent
  rintro ⟨-, hnone⟩
  rw [hkey] at hnone
  cases hnone

/-- Only an agent whose `did:key` cannot be read goes without its proof. -/
theorem Reuse.isHeld_iff {toolName : JsString} {args : PlainObject JsNumber}
    {sessionId : Option JsString}
    (h : Reuse config verifyDelegation toolName args sessionId scopeId log resolved) :
    IsHeld config toolName args sessionId log resolved.grant ↔
      ¬ IsUnreadableAgent config resolved.grant := by
  constructor
  · rintro hheld ⟨hmode, did, hdid, hunreadable⟩
    obtain ⟨hpossession, -⟩ | ⟨-, hfree⟩ := hheld
    · exact hpossession.readable hdid hunreadable
    · exact hfree ⟨hmode, did, hdid, hunreadable.1⟩
  · intro hreadable
    obtain hpossession | ⟨hsession, hfree⟩ := h.held
    · exact .inl hpossession
    · refine .inr ⟨hsession, ?_⟩
      rintro ⟨hmode, did, hdid, hkey⟩
      have happlies : isHolderBindingApplicable resolved.grant.agentDid ≠ .ok true :=
        fun happlies => hfree ⟨hmode, happlies⟩
      refine hreadable ⟨hmode, did, hdid, hkey, ?_⟩
      rw [hdid] at happlies
      simpa [isHolderBindingApplicable] using happlies

/-- A grant resolves only when it is held and its delegation was verified again, and the
session alone holds that of a `did:key` only where no key can be read from it. -/
theorem resolveExistingGrant_reuse {toolName : JsString} {args : PlainObject JsNumber}
    {sessionId : Option JsString}
    (h : (resolveExistingGrant config verifyDelegation toolName args sessionId scopeId).Runs log
      (.ok (some resolved))) :
    Reuse config verifyDelegation toolName args sessionId scopeId log resolved ∧
      (IsHeld config toolName args sessionId log resolved.grant ↔
        ¬ IsUnreadableAgent config resolved.grant) :=
  ⟨reuse_of_resolves h, (reuse_of_resolves h).isHeld_iff⟩

/-- A `did:key` that encodes a P-256 key. -/
def sampleAgent : JsString := js "did:key:zDnaerDaTF5BXEavCrfRZEk316dpbLsfPDZ3WJ5hRTPFU2169"

/-- A `did:key` that encodes an Ed25519 key. -/
def sampleHolder : JsString := js "did:key:z6MkhaXgBZDvotDkL5257faiztiGiC2QtKLGpbnnEGta2doK"

def reuseConfig (mode : HolderBindingMode) : GateConfig where
  runtime := sampleRuntime
  serverDid := js "did:web:s"
  holderBindingMode := mode
  audit := false
  holderBindingVerifier := mode ≠ .off

def sampleVc (agentDid : JsString) : JsonValue JsNumber :=
  .object [(js "credentialSubject", .object [(js "id", .string agentDid),
    (js "delegation", .object [(js "scopes", .array [.string (js "read")]),
      (js "constraints", .object [])])])]

/-- A row of the session "s" that retains the credential. -/
def sampleGrant (agentDid : JsString) : Grant where
  id := js "g"
  agentDid := .string agentDid
  scopes := [.string (js "read")]
  sessionId := some (js "s")
  delegationCredential := some (sampleVc agentDid)
  issuedAt := 0
  status := .active

/-- A verifier that accepts the credential. -/
def sampleVerify (evidence : JsonValue JsNumber) : GateM DelegationCheck :=
  return .valid evidence false none

def sampleResolved (agentDid : JsString) : ResolvedGrant :=
  { grant := sampleGrant agentDid, delegatedScopes := [.string (js "read")] }

theorem runs_authorizeGrant_sample {mode : HolderBindingMode} {agentDid : JsString}
    (hsame : agentDid = sampleAgent ∨ agentDid = sampleHolder) :
    (authorizeGrant (reuseConfig mode) sampleVerify (sampleGrant agentDid) (js "read")).Runs []
      (.ok (some (sampleResolved agentDid))) := by
  obtain rfl | rfl := hsame <;> exact .done _

def holderProof : JsonValue JsNumber :=
  .object [(js "meta",
    .object [(js "did", .string sampleHolder), (js "audience", .string (js "did:web:s"))])]

/-- Arguments with the holder's proof. -/
def heldArgs : PlainObject JsNumber where
  members := [(js "_kyaos_proof", holderProof)]

def heldLog (key : Audit.Bytes) : List (Exchange Gates) :=
  [⟨.verifyProof (some holderProof) (subjectKey sampleHolder key)
      (toHolderBindingRequest (js "tool") heldArgs), .ok .valid⟩,
    ⟨.getByAgent sampleHolder [js "read"], .ok [sampleGrant sampleHolder]⟩]

theorem runs_held : ∃ key,
    (resolveExistingGrant (reuseConfig .enforce) sampleVerify (js "tool") heldArgs
      (some (js "s")) (js "read")).Runs (heldLog key)
      (.ok (some (sampleResolved sampleHolder))) := by
  obtain ⟨key, hkey⟩ : ∃ key, extractPublicKeyFromDidKey sampleHolder = some key :=
    Option.isSome_iff_exists.mp (by decide +kernel)
  have hbound : (assertHolderBinding (some holderProof) sampleHolder
      (toHolderBindingRequest (js "tool") heldArgs) (js "did:web:s")).Runs
      ((heldLog key).take 1) (.ok .bound) := by
    rw [assertHolderBinding, hkey]
    exact runs_ask_bind.mpr ⟨.ok .valid, [], rfl, .done _⟩
  have hfirst : (firstOfAgent (reuseConfig .enforce) sampleVerify sampleHolder (some (js "s"))
      (js "read") [sampleGrant sampleHolder]).Runs []
      (.ok (some (sampleResolved sampleHolder))) :=
    runs_bind_ok.mpr ⟨[], [], _, rfl, runs_authorizeGrant_sample (.inr rfl), .done _⟩
  have hagent : (resolveAgentGrant (reuseConfig .enforce) sampleVerify (js "tool") heldArgs
      (some (js "s")) (js "read")).Runs (heldLog key)
      (.ok (some (sampleResolved sampleHolder))) := by
    have hverifier : (reuseConfig .enforce).holderBindingVerifier = true := by decide
    rw [resolveAgentGrant, if_pos hverifier]
    show (ite ((extractPublicKeyFromDidKey sampleHolder).isSome = true) _ _ : GateM _).Runs _ _
    rw [hkey, Option.isSome_some, if_pos rfl]
    refine runs_bind_ok.mpr ⟨_, _, .bound, rfl, hbound, ?_⟩
    exact runs_ask_bind.mpr ⟨.ok [sampleGrant sampleHolder], [], rfl, hfirst⟩
  exact ⟨key, runs_bind_ok.mpr
    ⟨heldLog key, [], some (sampleResolved sampleHolder), rfl, hagent, .done _⟩⟩

/-- The holder's proof is enough under `enforce`. -/
theorem resolveExistingGrant_reuse_sample : ∃ log,
    Reuse (reuseConfig .enforce) sampleVerify (js "tool") heldArgs (some (js "s")) (js "read") log
      (sampleResolved sampleHolder) ∧
    IsHeld (reuseConfig .enforce) (js "tool") heldArgs (some (js "s")) log
      (sampleGrant sampleHolder) := by
  obtain ⟨key, hruns⟩ := runs_held
  obtain ⟨hreuse, hheld⟩ := resolveExistingGrant_reuse hruns
  refine ⟨heldLog key, hreuse, hheld.mpr ?_⟩
  rintro ⟨-, did, hdid, -, hunreadable⟩
  cases hdid
  exact absurd hunreadable (by decide +kernel)

def unprovedLog : List (Exchange Gates) :=
  [⟨.getBySession (js "s") [js "read"], .ok [sampleGrant sampleAgent]⟩]

theorem runs_unproved :
    (resolveExistingGrant (reuseConfig .enforce) sampleVerify (js "tool") {} (some (js "s"))
      (js "read")).Runs unprovedLog (.ok (some (sampleResolved sampleAgent))) := by
  have hneeds : needsProof (reuseConfig .enforce) (.string sampleAgent) = .ok false := by
    decide +kernel
  refine runs_bind_ok.mpr ⟨[], unprovedLog, none, rfl, .done _, ?_⟩
  refine runs_ask_bind.mpr ⟨.ok [sampleGrant sampleAgent], [], rfl, ?_⟩
  refine runs_bind_ok.mpr ⟨[], [], false, rfl, runs_ofExcept.mpr ⟨rfl, hneeds.symm⟩, ?_⟩
  exact runs_bind_ok.mpr ⟨[], [], _, rfl, runs_authorizeGrant_sample (.inl rfl), .done _⟩

/-- Under `enforce`, with no holder proof, the session is enough for this agent. -/
theorem resolveExistingGrant_unproved :
    (resolveExistingGrant (reuseConfig .enforce) sampleVerify (js "tool") {} (some (js "s"))
      (js "read")).Runs unprovedLog (.ok (some (sampleResolved sampleAgent))) ∧
    argument {} (js "_kyaos_proof") = none ∧
    startsWith sampleAgent (js "did:key:") = true ∧
    ¬ IsHeld (reuseConfig .enforce) (js "tool") {} (some (js "s")) unprovedLog
      (sampleGrant sampleAgent) := by
  refine ⟨runs_unproved, rfl, by decide, ?_⟩
  rintro (⟨hpossession, -⟩ | ⟨-, hfree⟩)
  · exact hpossession.readable rfl ⟨by decide, by decide +kernel⟩
  · exact hfree ⟨rfl, sampleAgent, rfl, by decide⟩

end KyaOs.Middleware
