import KyaOs.Middleware.SentMeta
import KyaOs.Proof.ReplaySafety

/-!
# A proof that is sent covers what is sent

Between the signature and the wire a result is copied, marked and stripped. Whatever is
delivered and whatever fails on the way, a result leaves with the proof signed for it only
as long as the proof's own profile covers nothing that was changed.
-/

namespace KyaOs.Middleware

open Js Untyped JsonValue Audit Proof Concurrency Concurrency.Async

/-- What the profile named by a proof covers of a result: all of it, or its content. -/
def receivedData (prf : Option JsString) (sent : ToolResult) : JsonValue JsNumber :=
  if prf = some responseProofProfileEnvelope then sent
  else (Untyped.member? (some sent) (js "content")).getD (.refused (js "undefined"))

/-- The response hash that a verifier recomputes under a proof's `prf`. -/
def verifierHash (g : ProofGenerator) (prf : Option JsString) (sent : ToolResult) :
    Except Error Digest :=
  hashJson g.numbers g.hash
    (canonicalResponseBody (receivedData prf sent) (prf.getD responseProofProfileBody))

/-- The outcomes whose proofs bind no response. -/
def bodilessOutcomes : List JsString := [js "denied", js "step_up_required"]

/-- A proof binds what is sent, or no response where its outcome has none. -/
def Covers (g : ProofGenerator) (proof : DetachedProof) (sent : ToolResult) : Prop :=
  if proof.proofMeta.outcome.any bodilessOutcomes.contains then proof.proofMeta.responseHash = none
  else ∃ digest, proof.proofMeta.responseHash = some digest ∧
    verifierHash g proof.proofMeta.prf sent = .ok digest

/-- A proof is one that the generator makes, with some nonce at some time. -/
def GeneratedBy (g : ProofGenerator) : Exchange Sessions → Prop
  | ⟨.generateProof _ request response session options, .ok proof⟩ => ∃ nonce nowMs,
    g.generateProof nonce nowMs request response session options = .ok proof
  | _ => True

section Coverage

variable {g : ProofGenerator} {config : SessionConfig} {result : Returned}
  {metadata : Members JsNumber} {proof : DetachedProof} {session : SessionContext}
  {request : ToolRequest JsNumber} {options : ProofOptions} {nonce : Bytes} {nowMs : Nat}

theorem copyMembers_assign_meta (value : JsonValue JsNumber) (members : Members JsNumber)
    (envelope : ObjectCopy JsNumber) :
    envelope.copyMembers (assignMember (js "_meta") value members) =
      envelope.copyMembers members := by
  induction members generalizing envelope with
  | nil => simp [assignMember, ObjectCopy.copyMembers]
  | cons member rest ih =>
      obtain ⟨key, old⟩ := member
      rw [assignMember]
      split_ifs with hkey
      · subst hkey
        rw [ObjectCopy.copyMembers, ObjectCopy.copyMembers]
        simp
      · rw [ObjectCopy.copyMembers, ObjectCopy.copyMembers, ih]

/-- What a profile hashes of a result. -/
def boundBody (config : SessionConfig) (result : ToolResult) : JsonValue JsNumber :=
  canonicalResponseBody (boundData config result) config.responseProofProfile

/-- Another `_meta` changes nothing that either profile hashes. -/
theorem boundBody_withMetadata {members : Members JsNumber}
    (hobject : result.value = .object members) :
    boundBody config (withMetadata result metadata).value = boundBody config result.value := by
  rw [boundBody, boundBody, boundData, boundData]
  split_ifs with hprofile
  · have henvelope : config.responseProofProfile = responseProofProfileEnvelope := by
      simpa [SessionConfig.bindsEnvelope] using hprofile
    rw [henvelope, withMetadata, withMembers, hobject, List.foldl_cons, List.foldl_nil, spreadOf,
      canonicalResponseBody_envelope, canonicalResponseBody_envelope, envelopeCopy, envelopeCopy,
      copyMembers_assign_meta]
  · rw [member?_withMetadata (by decide) (by decide)]

/-- Marked as an error, a result keeps the content that the body profile hashes. -/
theorem boundBody_markAuditDegraded (hprofile : config.bindsEnvelope = false) (reason : JsString)
    (stripSuccessProof : Bool) :
    boundBody config (markAuditDegraded result reason stripSuccessProof).value =
      boundBody config result.value := by
  have hcontent : Untyped.member?
      (some (markAuditDegraded result reason stripSuccessProof).value) (js "content") =
        Untyped.member? (some result.value) (js "content") := by
    have hmeta : js "content" ≠ js "_meta" := by decide
    have hisError : js "content" ≠ js "isError" := by decide
    rw [markAuditDegraded, withMembers]
    simp only [List.foldl_cons, List.foldl_nil, Untyped.member?, lookup_assignMember, if_neg hmeta,
      if_neg hisError]
    exact lookup_spreadOf _ (by decide)
  rw [boundBody, boundBody, boundData, boundData, hprofile, hcontent, if_neg Bool.false_ne_true,
    if_neg Bool.false_ne_true]

/-- A generated proof's hash is over what its own profile names. -/
theorem verifierHash_of_generated {response : ToolResult}
    (h : g.generateProof nonce nowMs request (some { data := boundData config response }) session
      options = .ok proof) (hprofile : options.profile = config.responseProofProfile)
    {sent : ToolResult} (hsent : boundBody config sent = boundBody config response) :
    ∃ digest, proof.proofMeta.responseHash = some digest ∧
      verifierHash g proof.proofMeta.prf sent = .ok digest := by
  have hcovers := generateProof_covers h
  have hprf := generateProof_prf h
  rw [hprofile] at hcovers hprf
  cases hresponse : proof.proofMeta.responseHash with
  | none =>
      rw [hresponse] at hcovers
      cases hcovers
  | some digest =>
      rw [hresponse] at hcovers
      cases hcovers with
      | some hdigest =>
          refine ⟨digest, rfl, ?_⟩
          have hbody : canonicalResponseBody (receivedData proof.proofMeta.prf sent)
              (proof.proofMeta.prf.getD responseProofProfileBody) = boundBody config sent := by
            rw [hprf, boundBody, boundData, receivedData, SessionConfig.bindsEnvelope]
            by_cases henvelope : config.responseProofProfile = responseProofProfileEnvelope
            · simp [henvelope]
            · have hbody : responseProofProfileBody ≠ responseProofProfileEnvelope := by decide
              simp [henvelope, canonicalResponseBody_of_ne hbody,
                canonicalResponseBody_of_ne henvelope]
          rw [verifierHash, hbody, hsent]
          exact hdigest

end Coverage

section Values

variable {name key : String} {value value' : Option JsString}

/-- The optional claims, as they are read from a proof. -/
theorem member?_claims (proofMeta : ProofMeta) :
    let claim := fun name => Untyped.member? (some proofMeta.toValue) (js name)
    claim "responseHash" = proofMeta.responseHash.map .string ∧
      claim "prf" = proofMeta.prf.map .string ∧ claim "scopeId" = proofMeta.scopeId.map .string ∧
      claim "delegationRef" = proofMeta.delegationRef.map .string ∧
      claim "clientDid" = proofMeta.clientDid.map .string ∧
      claim "outcome" = proofMeta.outcome.map .string ∧
      claim "reason" = proofMeta.reason.map .string := by
  refine ⟨?_, ?_, ?_, ?_, ?_, ?_, ?_⟩ <;>
  · simp +decide only [Untyped.member?, ProofMeta.toValue, List.lookup_append,
      lookup_optionalMember, if_true, if_false, Option.or_none]
    rfl

theorem proofMeta_toValue_injective : Function.Injective ProofMeta.toValue := by
  intro a b h
  have hstring : Function.Injective (Option.map JsonValue.string : Option JsString → Untyped) :=
    Option.map_injective fun _ _ h => JsonValue.string.inj h
  obtain ⟨hresponse, hprf, hscope, hdelegation, hclient, houtcome, hreason⟩ := member?_claims a
  obtain ⟨hresponse', hprf', hscope', hdelegation', hclient', houtcome', hreason'⟩ :=
    member?_claims b
  rw [h] at hresponse hprf hscope hdelegation hclient houtcome hreason
  have hmembers := JsonValue.object.inj h
  simp only [List.append_assoc, List.cons_append, List.nil_append, List.cons.injEq, Prod.mk.injEq,
    true_and, JsonValue.string.injEq, JsonValue.number.injEq, JsNumber.ofNat,
    JsNumber.finite.injEq, Nat.cast_inj] at hmembers
  obtain ⟨hdid, hkid, hts, hnonce, haudience, hsession, hrequest, -⟩ := hmembers
  cases a
  cases b
  rw [ProofMeta.mk.injEq]
  exact ⟨hdid, hkid, hts, hnonce, haudience, hsession, hrequest,
    hstring (hresponse.symm.trans hresponse'), hstring (hscope.symm.trans hscope'),
    hstring (hdelegation.symm.trans hdelegation'), hstring (hclient.symm.trans hclient'),
    hstring (houtcome.symm.trans houtcome'), hstring (hreason.symm.trans hreason'),
    hstring (hprf.symm.trans hprf')⟩

theorem toValue_injective : Function.Injective DetachedProof.toValue := by
  intro a b h
  have hmembers := JsonValue.object.inj h
  simp only [List.cons.injEq, Prod.mk.injEq, true_and, and_true, JsonValue.string.injEq] at hmembers
  obtain ⟨hjws, hmeta⟩ := hmembers
  cases a
  cases b
  rw [DetachedProof.mk.injEq]
  exact ⟨hjws, proofMeta_toValue_injective hmeta⟩

theorem clean_optionalMember {member : JsString × JsonValue JsNumber}
    (h : member ∈ optionalMember name value) : member.1 = js name ∧ NoPrivateMeta member.2 := by
  cases value with
  | none => cases h
  | some text =>
      obtain rfl := List.mem_singleton.mp h
      exact ⟨rfl, .string text⟩

theorem clean_proofMeta (proofMeta : ProofMeta) : NoPrivateMeta proofMeta.toValue := by
  refine noPrivateMeta_members_of fun member hmem => ?_
  simp only [List.mem_append, List.mem_cons, List.not_mem_nil, or_false] at hmem
  obtain ((((((hrequired | h) | h) | h) | h) | h) | h) | h := hmem
  · have hnames : ∀ name ∈ [js "did", js "kid", js "ts", js "nonce", js "audience",
        js "sessionId", js "requestHash"], name ≠ js "_meta" := by decide
    obtain rfl | rfl | rfl | rfl | rfl | rfl | rfl := hrequired
    · exact ⟨hnames _ (by simp), .string _⟩
    · exact ⟨hnames _ (by simp), .string _⟩
    · exact ⟨hnames _ (by simp), .number _⟩
    · exact ⟨hnames _ (by simp), .string _⟩
    · exact ⟨hnames _ (by simp), .string _⟩
    · exact ⟨hnames _ (by simp), .string _⟩
    · exact ⟨hnames _ (by simp), .string _⟩
  all_goals
    obtain ⟨hname, hclean⟩ := clean_optionalMember h
    exact ⟨by rw [hname]; decide, hclean⟩

theorem clean_proof (proof : DetachedProof) : NoPrivateMeta proof.toValue := by
  refine noPrivateMeta_members_of fun member hmem => ?_
  obtain rfl | hmeta := List.mem_cons.mp hmem
  · exact ⟨(by decide : js "jws" ≠ js "_meta"), .string _⟩
  · obtain rfl := List.mem_singleton.mp hmeta
    exact ⟨(by decide : js "meta" ≠ js "_meta"), clean_proofMeta proof.proofMeta⟩

end Values

section Runs

variable {g : ProofGenerator} {config : SessionConfig} {sent returned : Returned} {id : JsString}
  {log : List (Exchange Sessions)} {metadata : Members JsNumber} {proof : DetachedProof}

/-- A clean result whose proof, if it carries one, covers it. -/
structure SentProven (g : ProofGenerator) (sent : ToolResult) : Prop where
  clean : NoPrivateMeta sent
  covered : ∀ value, (metaOf sent).member? kyaOsProofMetaKey = some value →
    ∃ proof, value = proof.toValue ∧ Covers g proof sent

theorem SentProven.unproved {sent : ToolResult} (h : NoPrivateMeta sent)
    (hnone : (metaOf sent).member? kyaOsProofMetaKey = none) : SentProven g sent where
  clean := h
  covered value hvalue := by
    rw [hnone] at hvalue
    cases hvalue

theorem clean_withProofMeta (h : CleanMeta metadata) (proof : DetachedProof) :
    CleanMeta (withProofMeta config metadata proof) := by
  have hplaced : CleanMeta (assignMember kyaOsProofMetaKey proof.toValue metadata) :=
    h.assign (by decide) (by decide) (clean_proof proof)
  rw [withProofMeta]
  split_ifs
  · exact hplaced.assign (by decide) (by decide) (clean_proof proof)
  · exact hplaced

theorem lookup_withProofMeta :
    (withProofMeta config metadata proof).lookup kyaOsProofMetaKey = some proof.toValue := by
  have hother : kyaOsProofMetaKey ≠ legacyProofMetaKey := by decide
  rw [withProofMeta]
  split_ifs
  · rw [lookup_assignMember, if_neg hother, lookup_assignMember, if_pos rfl]
  · rw [lookup_assignMember, if_pos rfl]

/-- A copy with a proof that covers it. -/
theorem SentProven.proved (h : NoPrivateMeta sent.value) (hmeta : CleanMeta metadata)
    (hcovers : Covers g proof
      (withMetadata sent (withProofMeta config metadata proof)).value) :
    SentProven g (withMetadata sent (withProofMeta config metadata proof)).value where
  clean := clean_withMetadata h (clean_withProofMeta hmeta proof)
  covered value hvalue := by
    rw [metaOf_withMetadata, Untyped.member?, lookup_withProofMeta] at hvalue
    exact ⟨proof, (Option.some.inj hvalue).symm, hcovers⟩

theorem SentProven.degraded (h : NoPrivateMeta returned.value) (reason : JsString) :
    SentProven g (markAuditDegraded returned reason true).value :=
  .unproved (clean_markAuditDegraded h reason true) (member?_markAuditDegraded_stripped reason)

theorem SentProven.markUnproven (h : NoPrivateMeta sent.value)
    (hmark : markUnproven sent = .ok returned) : SentProven g returned.value :=
  .unproved (clean_markUnproven h hmark) (member?_markUnproven hmark (by decide))

theorem allowedProofFailed_proven {context : Option AuditContext} (h : NoPrivateMeta sent.value)
    (hruns : (allowedProofFailed config sent context).Runs log (.ok returned)) :
    SentProven g returned.value := by
  obtain ⟨_, _, kept, -, hkept, hruns⟩ := runs_bind_ok.mp hruns
  obtain ⟨-, hkept⟩ := runs_ofExcept.mp hkept
  obtain ⟨_, _, delivered, -, -, hruns⟩ := runs_bind_ok.mp hruns
  obtain ⟨-, hreturned⟩ := runs_pure.mp hruns
  cases hreturned
  have hclean := clean_withProofError h (clean_handlerMeta h hkept.symm) unprovenProofError
  have hnone : kept.lookup kyaOsProofMetaKey = none := lookup_handlerMeta hkept.symm (by decide)
  split_ifs
  · exact .unproved hclean (member?_withProofError hnone (by decide))
  · exact .degraded hclean _

/-- An allowed call's proof goes out with what it was signed over, or not at all. -/
theorem proveAllowedCall_proven {members : Members JsNumber}
    (hobject : sent.value = .object members)
    (h : NoPrivateMeta sent.value) {pending : PendingAllowedProof} {session : SessionContext}
    (hlog : ∀ exchange ∈ log, GeneratedBy g exchange)
    (hruns : (proveAllowedCall config id sent pending session).Runs log (.ok returned)) :
    SentProven g returned.value := by
  obtain ⟨_, hbody, hreturned⟩ | ⟨first, rest, e, rfl, -, hfailed⟩ := runs_tryCatch.mp hruns
  · cases hreturned
    obtain ⟨first, rest, proof, rfl, hasked, hsigned⟩ := runs_bind_ok.mp hbody
    obtain rfl := runs_ask.mp hasked
    obtain ⟨nonce, nowMs, hgenerated⟩ :=
      hlog _ (List.mem_append_left _ (List.mem_singleton_self _))
    obtain ⟨_, _, kept, -, hkept, hrecorded⟩ := runs_bind_ok.mp hsigned
    obtain ⟨-, hkept⟩ := runs_ofExcept.mp hkept
    have hmeta := clean_handlerMeta h hkept.symm
    have hoption := generateProof_outcome hgenerated
    have hcovers : Covers g proof (withMetadata sent (withProofMeta config kept proof)).value := by
      rw [Covers, hoption, if_neg (by simp)]
      exact verifierHash_of_generated hgenerated rfl (boundBody_withMetadata hobject)
    have hproved := SentProven.proved h hmeta hcovers
    obtain ⟨_, _, delivered, -, -, hdelivered⟩ := runs_bind_ok.mp hrecorded
    split_ifs at hdelivered
    · obtain ⟨_, _, _, -, -, hlogged⟩ := runs_bind_ok.mp hdelivered
      obtain ⟨-, hreturned⟩ := runs_pure.mp hlogged
      cases hreturned
      exact hproved
    · obtain ⟨-, hreturned⟩ := runs_pure.mp hdelivered
      cases hreturned
      exact .degraded hproved.clean _
  · exact allowedProofFailed_proven h hfailed

/-- An outcome's proof binds the challenge that is sent, or nothing. -/
theorem covers_outcome {pending : PendingOutcomeProof} {session : SessionContext} {nonce : Bytes}
    {nowMs : Nat}
    (hgenerated : g.generateProof nonce nowMs (hashedRequest pending.toolName)
      (outcomeResponse config pending.outcome sent.value) session
      { outcome := some pending.outcome.text, reason := some (sanitizeForMessage pending.reason)
        profile := config.responseProofProfile
        precomputedRequestHash := some pending.requestHash } = .ok proof)
    {final : ToolResult} (hfinal : boundBody config final = boundBody config sent.value) :
    Covers g proof final := by
  rw [Covers, generateProof_outcome hgenerated, Option.any_some]
  by_cases houtcome : pending.outcome = .needsAuthorization
  · rw [houtcome, if_neg (by decide)]
    rw [outcomeResponse, if_pos houtcome] at hgenerated
    exact verifierHash_of_generated hgenerated rfl hfinal
  · rw [outcomeResponse, if_neg houtcome] at hgenerated
    have hbodiless : bodilessOutcomes.contains pending.outcome.text = true := by
      revert houtcome
      cases pending.outcome <;> decide
    rw [if_pos hbodiless]
    have hcovers := generateProof_covers hgenerated
    cases hresponse : proof.proofMeta.responseHash with
    | none => rfl
    | some digest =>
        rw [hresponse] at hcovers
        cases hcovers

theorem proveAuthorizationOutcome_proven {members : Members JsNumber}
    (hobject : sent.value = .object members) (h : NoPrivateMeta sent.value)
    {pending : PendingOutcomeProof} {session : SessionContext}
    (hlog : ∀ exchange ∈ log, GeneratedBy g exchange)
    (hruns : (proveAuthorizationOutcome config id sent pending session).Runs log (.ok returned)) :
    SentProven g returned.value := by
  obtain ⟨_, hbody, hreturned⟩ | ⟨first, rest, e, rfl, -, hfailed⟩ := runs_tryCatch.mp hruns
  · cases hreturned
    obtain ⟨first, rest, proof, rfl, hasked, hrecorded⟩ := runs_bind_ok.mp hbody
    obtain rfl := runs_ask.mp hasked
    obtain ⟨nonce, nowMs, hgenerated⟩ :=
      hlog _ (List.mem_append_left _ (List.mem_singleton_self _))
    have hplaced := @boundBody_withMetadata config sent
      (withProofMeta config (metaMembers sent) proof) members hobject
    have hproved := SentProven.proved h h.cleanMeta (covers_outcome hgenerated hplaced)
    rw [recordOutcome] at hrecorded
    split_ifs at hrecorded
    · obtain ⟨_, _, delivered, -, -, hdelivered⟩ := runs_bind_ok.mp hrecorded
      obtain ⟨-, hreturned⟩ := runs_pure.mp hdelivered
      cases hreturned
      split_ifs
      · exact hproved
      · cases hprofile : config.bindsEnvelope with
        | true => exact .degraded hproved.clean _
        | false =>
            -- The body profile hashes the content alone, which the mark leaves as it is.
            refine ⟨clean_markAuditDegraded hproved.clean _ _, ?_⟩
            intro value hvalue
            have hother : kyaOsProofMetaKey ≠ auditMetaKey := by decide
            rw [metaOf_markAuditDegraded, Untyped.member?, lookup_assignMember, if_neg hother,
              degradedMeta, if_neg Bool.false_ne_true, metaMembers, metaOf_withMetadata,
              spreadOf, lookup_withProofMeta] at hvalue
            exact ⟨proof, (Option.some.inj hvalue).symm, covers_outcome hgenerated
              ((boundBody_markAuditDegraded hprofile _ _).trans hplaced)⟩
    · obtain ⟨-, hreturned⟩ := runs_pure.mp hrecorded
      cases hreturned
      exact hproved
  · obtain ⟨_, _, _, -, -, hmarked⟩ := runs_bind_ok.mp hfailed
    obtain ⟨-, hmark⟩ := runs_ofExcept.mp hmarked
    exact .markUnproven h hmark.symm

theorem unprovenAtSend_proven {pending : PendingProof} {verificationCode : JsString}
    (h : NoPrivateMeta sent.value)
    (hruns : (unprovenAtSend config sent pending verificationCode).Runs log (.ok returned)) :
    SentProven g returned.value := by
  obtain ⟨_, _, unproven, -, hmarked, hruns⟩ := runs_bind_ok.mp hruns
  obtain ⟨-, hmark⟩ := runs_ofExcept.mp hmarked
  have hproven : SentProven g unproven.value := .markUnproven h hmark.symm
  cases pending with
  | outcome pending =>
      dsimp only at hruns
      split_ifs at hruns
      · obtain ⟨_, _, _, -, -, hruns⟩ := runs_bind_ok.mp hruns
        obtain ⟨-, hreturned⟩ := runs_pure.mp hruns
        cases hreturned
        exact hproven
      · obtain ⟨-, hreturned⟩ := runs_pure.mp hruns
        cases hreturned
        exact hproven
  | allowed pending =>
      obtain ⟨_, _, _, -, -, hruns⟩ := runs_bind_ok.mp hruns
      obtain ⟨-, hreturned⟩ := runs_pure.mp hruns
      cases hreturned
      exact hproven

theorem sendExpired_proven {named : JsonValue JsNumber} (h : NoPrivateMeta sent.value)
    (hruns : (sendExpired config named sent).Runs log (.ok returned)) :
    SentProven g returned.value := by
  obtain ⟨_, _, _, -, -, hruns⟩ := runs_bind_ok.mp hruns
  obtain ⟨_, _, _, -, -, hruns⟩ := runs_bind_ok.mp hruns
  exact .markUnproven h (runs_ofExcept.mp hruns).2.symm

theorem redeem_proven {members : Members JsNumber} (hobject : sent.value = .object members)
    (h : NoPrivateMeta sent.value) {pending : PendingProof} {answering : Option JsString}
    (hlog : ∀ exchange ∈ log, GeneratedBy g exchange)
    (hruns : (redeem config id sent pending answering).Runs log (.ok returned)) :
    SentProven g returned.value := by
  rw [redeem] at hruns
  split_ifs at hruns
  · obtain ⟨_, _, _, -, -, hruns⟩ := runs_bind_ok.mp hruns
    exact .markUnproven h (runs_ofExcept.mp hruns).2.symm
  · obtain ⟨first, rest, session, rfl, -, hproves⟩ := runs_bind_ok.mp hruns
    have hrest : ∀ exchange ∈ rest, GeneratedBy g exchange :=
      fun exchange hmem => hlog exchange (List.mem_append_right _ hmem)
    cases session with
    | none => exact unprovenAtSend_proven h hproves
    | some session =>
        cases pending with
        | allowed pending => exact proveAllowedCall_proven hobject h hrest hproves
        | outcome pending => exact proveAuthorizationOutcome_proven hobject h hrest hproves

theorem sendNaming_proven {members : Members JsNumber} (hobject : sent.value = .object members)
    (h : NoPrivateMeta sent.value) {named : JsonValue JsNumber} {answering : Option JsString}
    (hlog : ∀ exchange ∈ log, GeneratedBy g exchange)
    (hruns : (sendNaming config named sent answering).Runs log (.ok returned)) :
    SentProven g returned.value := by
  cases named with
  | string id =>
      obtain ⟨first, rest, taken, rfl, -, hnext⟩ := runs_bind_ok.mp hruns
      have hrest : ∀ exchange ∈ rest, GeneratedBy g exchange :=
        fun exchange hmem => hlog exchange (List.mem_append_right _ hmem)
      cases taken with
      | some pending => exact redeem_proven hobject h hrest hnext
      | none => exact sendExpired_proven h hnext
  | _ => exact sendExpired_proven h hruns

/-- Where the stamp leaks nothing is signed. -/
theorem sendLeaked_proven {named : JsonValue JsNumber} (h : NoPrivateMeta sent.value)
    (hruns : (sendLeaked config (some named) sent).Runs log (.ok returned)) :
    SentProven g returned.value := by
  obtain ⟨_, _, taken, -, -, hnext⟩ := runs_bind_ok.mp hruns
  cases taken with
  | some own => exact unprovenAtSend_proven h hnext
  | none => exact .markUnproven h (runs_ofExcept.mp hnext).2.symm

/-- A result that names no proof is sent as it was scrubbed. -/
theorem sendScrubbed_unnamed {found : Scrubbed} {answering : Option JsString}
    (hruns : (sendScrubbed config none found answering).Runs log (.ok returned)) :
    log = [] ∧ returned = ⟨found.value, false⟩ := by
  rw [sendScrubbed] at hruns
  split_ifs at hruns
  · obtain ⟨hlog, hreturned⟩ := runs_pure.mp hruns
    exact ⟨hlog, Except.ok.inj hreturned⟩
  · obtain ⟨hlog, hreturned⟩ := runs_pure.mp hruns
    exact ⟨hlog, Except.ok.inj hreturned⟩

theorem scrubPrivateMeta_object {numbers : Doubles JsNumber} {members : Members JsNumber}
    {stamp : Option JsString} {keepEmptyMeta : Bool} {found : Scrubbed}
    (h : scrubPrivateMeta numbers (.object members) stamp keepEmptyMeta = .ok found) :
    ∃ members', found.value = .object members' := by
  obtain ⟨shallow, hshallow, h⟩ := bind_eq_ok.mp h
  cases shallow with
  | none =>
      cases h
      exact ⟨_, rfl⟩
  | some found' =>
      cases h
      rw [scrubShallow] at hshallow
      split_ifs at hshallow
      · obtain ⟨value, hvalue, hfound⟩ := bind_eq_ok.mp hshallow
        cases hfound
        obtain ⟨members', _, hobject, -, -⟩ := mem_shallowOf hvalue
        exact ⟨members', hobject⟩
      · cases hshallow

/-- Whatever is delivered or fails, what is sent holds no private member, and a proof minted
for it on the way covers it as it is sent. -/
theorem sendResult_covers {result value : ToolResult} {answering : Option JsString}
    (hgenerated : ∀ exchange ∈ log, GeneratedBy g exchange)
    (hruns : (sendResult config result answering).Runs log (.ok value)) :
    NoPrivateMeta value ∧ ∀ id request response session options proof,
      ⟨.generateProof id request response session options, .ok proof⟩ ∈ log →
      (metaOf value).member? kyaOsProofMetaKey = some proof.toValue → Covers g proof value := by
  obtain ⟨_, afterScrub, found, rfl, hscrub, hclosed⟩ := runs_bind_ok.mp hruns
  obtain ⟨rfl, hscrubbed⟩ := runs_ofExcept.mp hscrub
  obtain ⟨closing, rest, _, rfl, hclosing, hsending⟩ := runs_bind_ok.mp hclosed
  obtain rfl := runs_ask.mp hclosing
  obtain ⟨sending, last, returned, rfl, hsent, hvalue⟩ := runs_bind_ok.mp hsending
  obtain ⟨rfl, hvalue⟩ := runs_pure.mp hvalue
  cases hvalue
  have hclean := scrubPrivateMeta_clean hscrubbed.symm
  cases hid : ownPending config result with
  | none =>
      rw [hid] at hsent
      obtain ⟨rfl, rfl⟩ := sendScrubbed_unnamed hsent
      refine ⟨hclean, ?_⟩
      intro id request response session options proof hmem
      simp at hmem
  | some named =>
      rw [hid] at hsent
      have hproven : SentProven g returned.value := by
        have hobject : ∃ members, found.value = .object members := by
          cases result with
          | object members => exact scrubPrivateMeta_object hscrubbed.symm
          | _ => simp [ownPending, hasOwnStamp, metaOf, Untyped.member?, isString] at hid
        obtain ⟨members, hobject⟩ := hobject
        have hlog : ∀ exchange ∈ sending, GeneratedBy g exchange :=
          fun exchange hmem => hgenerated exchange (by simp [hmem])
        rw [sendScrubbed] at hsent
        split_ifs at hsent
        · exact sendLeaked_proven hclean hsent
        · exact sendNaming_proven hobject hclean hlog hsent
      refine ⟨hproven.clean, ?_⟩
      intro id request response session options proof _ hcarried
      obtain ⟨proof', hsame, hcovers⟩ := hproven.covered _ hcarried
      obtain rfl := toValue_injective hsame
      exact hcovers

end Runs

section Sample

def sentConfig : SessionConfig where
  numbers := sampleNumbers
  lifecycleStamp := js "stamp"
  audit := false
  emitLegacyProofKey := true
  responseProofProfile := responseProofProfileEnvelope

def sentGenerator : ProofGenerator where
  identity := { did := js "did:web:server", kid := js "did:web:server#key" }
  numbers := sampleNumbers
  hash _ := .ok (js "digest")
  compactSign _ _ := .ok (js "header..signature")

def sentSession : SessionContext := { sessionId := js "session", audience := js "did:web:server" }

def sentPending : PendingAllowedProof where
  toolName := js "read"
  requestHash := js "digest"
  sessionId := js "session"
  scopeId := some (js "scope")
  context := none
  call := 0

def sentOptions : ProofOptions :=
  { scopeId := sentPending.scopeId, profile := responseProofProfileEnvelope
    precomputedRequestHash := some (js "digest") }

/-- A result that names the pending proof `p`. -/
def namingResult : ToolResult :=
  .object [(js "content", .array []), (js "_meta", .object
    [(lifecycleStampMetaKey, .string (js "stamp")), (pendingProofMetaKey, .string (js "p"))])]

def scrubbedResult : ToolResult :=
  .object [(js "content", .array []), (js "_meta", .object [])]

def sentProof : DetachedProof where
  jws := js "header..signature"
  proofMeta := sentGenerator.claims [] 1000 ⟨js "digest", some (js "digest")⟩ sentSession
    sentOptions

theorem hashJson_sent {value : JsonValue JsNumber} (h : isCanonical sampleNumbers value = true) :
    hashJson sentGenerator.numbers sentGenerator.hash value = .ok (js "digest") := by
  obtain ⟨hwellFormed, hsupported⟩ := canonical_of_isCanonical value h
  obtain ⟨text, htext⟩ :=
    (canonicalizeJson_eq_ok sampleNumbers_prints hwellFormed).mpr hsupported
  exact hashJson_eq_ok.mpr ⟨text, htext, rfl⟩

theorem generateProof_sent : sentGenerator.generateProof [] 1000 (hashedRequest (js "read"))
    (some { data := boundData sentConfig scrubbedResult }) sentSession sentOptions =
      .ok sentProof := by
  refine generateProof_eq_ok.mpr ⟨⟨js "digest", some (js "digest")⟩, ?_, rfl, ?_⟩
  · exact computeCanonicalHashes_eq_ok.mpr ⟨hashJson_sent (by decide +kernel),
      .some (hashJson_sent (by decide +kernel))⟩
  · have hcanonical : isCanonical sampleNumbers (buildProofJwsPayload sentProof.proofMeta) =
        true := by decide +kernel
    obtain ⟨hwellFormed, hsupported⟩ := canonical_of_isCanonical _ hcanonical
    obtain ⟨text, htext⟩ :=
      (canonicalizeJson_eq_ok sampleNumbers_prints hwellFormed).mpr hsupported
    exact bind_eq_ok.mpr ⟨text, htext, rfl⟩

/-- The exchange that mints the proof. -/
def sentMinting : Exchange Sessions :=
  ⟨.generateProof (js "p") (hashedRequest (js "read"))
    (some { data := boundData sentConfig scrubbedResult }) sentSession sentOptions, .ok sentProof⟩

def sentLog : List (Exchange Sessions) :=
  [⟨.closeFoundProofs [js "p"] [] (some (.string (js "p"))), .ok ()⟩,
    ⟨.takePendingProof (js "p"), .ok (some (.allowed sentPending))⟩,
    ⟨.getSession (js "session"), .ok (some sentSession)⟩,
    sentMinting,
    ⟨.logAuditRecord sentSession (js "digest") (some (js "digest")) (some (js "scope")), .ok ()⟩]

def sentResult : ToolResult :=
  (withMetadata ⟨scrubbedResult, false⟩ (withProofMeta sentConfig [] sentProof)).value

theorem scrub_naming : scrubPrivateMeta sentConfig.numbers namingResult (some (js "stamp")) true =
    .ok { value := scrubbedResult, leaked := [], ids := [js "p"] } := by
  rfl

/-- The conversation in which the proof `p` is minted over a scrubbed result. -/
def provedLog (scrubbed : ToolResult) : List (Exchange Sessions) :=
  [⟨.closeFoundProofs [js "p"] [] (some (.string (js "p"))), .ok ()⟩,
    ⟨.takePendingProof (js "p"), .ok (some (.allowed sentPending))⟩,
    ⟨.getSession (js "session"), .ok (some sentSession)⟩,
    ⟨.generateProof (js "p") (hashedRequest (js "read"))
      (some { data := boundData sentConfig scrubbed }) sentSession sentOptions, .ok sentProof⟩,
    ⟨.logAuditRecord sentSession (js "digest") (some (js "digest")) (some (js "scope")), .ok ()⟩]

theorem sendResult_proves {result scrubbed : ToolResult}
    (hnamed : ownPending sentConfig result = some (.string (js "p")))
    (hscrub : scrubPrivateMeta sentConfig.numbers result (some (js "stamp")) true =
      .ok { value := scrubbed, leaked := [], ids := [js "p"] })
    (hkept : handlerMeta ⟨scrubbed, false⟩ = .ok []) :
    (sendResult sentConfig result (some (js "read"))).Runs (provedLog scrubbed)
      (.ok (withMetadata ⟨scrubbed, false⟩ (withProofMeta sentConfig [] sentProof)).value) := by
  rw [sendResult, hnamed]
  refine runs_bind_ok.mpr ⟨[], provedLog scrubbed, _, rfl,
    runs_ofExcept.mpr ⟨rfl, hscrub.symm⟩, ?_⟩
  refine runs_ask_bind.mpr ⟨.ok (), _, rfl, ?_⟩
  refine runs_bind_ok.mpr ⟨_, [], ⟨_, false⟩, (List.append_nil _).symm, ?_,
    runs_pure.mpr ⟨rfl, rfl⟩⟩
  refine runs_ask_bind.mpr ⟨.ok (some (.allowed sentPending)), _, rfl, ?_⟩
  refine runs_bind_ok.mpr ⟨[_], _, some sentSession, rfl,
    runs_tryCatch.mpr (.inl ⟨_, runs_ask.mpr rfl, rfl⟩), ?_⟩
  refine runs_tryCatch.mpr (.inl ⟨_, ?_, rfl⟩)
  refine runs_ask_bind.mpr ⟨.ok sentProof, _, rfl, ?_⟩
  refine runs_bind_ok.mpr ⟨[], _, [], rfl, runs_ofExcept.mpr ⟨rfl, hkept.symm⟩, ?_⟩
  refine runs_bind_ok.mpr ⟨[], _, true, rfl, runs_pure.mpr ⟨rfl, rfl⟩, ?_⟩
  refine runs_bind_ok.mpr ⟨[_], [], (), rfl, runs_tryCatch.mpr (.inl ⟨_, runs_ask.mpr rfl, rfl⟩),
    runs_pure.mpr ⟨rfl, rfl⟩⟩

theorem sendResult_sent :
    (sendResult sentConfig namingResult (some (js "read"))).Runs sentLog (.ok sentResult) :=
  sendResult_proves rfl scrub_naming rfl

theorem sendResult_covers_sample :
    NoPrivateMeta sentResult ∧ Covers sentGenerator sentProof sentResult := by
  have hgenerated : ∀ exchange ∈ sentLog, GeneratedBy sentGenerator exchange := by
    intro exchange hmem
    obtain rfl | rfl | rfl | rfl | rfl : exchange = _ ∨ exchange = _ ∨ exchange = _ ∨
        exchange = _ ∨ exchange = _ := by simpa [sentLog] using hmem
    · trivial
    · trivial
    · trivial
    · exact ⟨[], 1000, generateProof_sent⟩
    · trivial
  obtain ⟨hclean, hcovers⟩ := sendResult_covers hgenerated sendResult_sent
  have hcarried : (metaOf sentResult).member? kyaOsProofMetaKey = some sentProof.toValue := by
    rw [sentResult, metaOf_withMetadata, Untyped.member?, lookup_withProofMeta]
  have hminted : sentMinting ∈ sentLog := by simp [sentLog]
  exact ⟨hclean, hcovers _ _ _ _ _ _ hminted hcarried⟩

end Sample

end KyaOs.Middleware
