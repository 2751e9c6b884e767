import KyaOs.Delegation.ChainTotality
import KyaOs.Delegation.VcVerifier

/-!
# Where the checks of a VC-JWT throw

The checks quote the status of a credential that is not active, and look up a cached
result by the id of one that passed. Nothing else in the envelope or the credential makes
them throw, whatever the clock reads and the resolver and the signature checks answer.
-/

namespace KyaOs.Untrusted

open Js Untyped JsonValue Concurrency Concurrency.Async Middleware

variable {runtime : Runtime}

/-- Whether the basic checks get as far as the status. -/
def reachesStatus (runtime : Runtime) (now : ℚ) (vc : Untyped) : Bool :=
  (validateDelegationCredential vc).isNone && !isDelegationCredentialExpired runtime now vc &&
    !isDelegationCredentialNotYetValid now vc

/-- A status that the checks quote has a text. -/
def LegibleStatus (runtime : Runtime) (now : ℚ) (vc : Untyped) : Prop :=
  let status := (delegation? vc).member? (js "status")
  reachesStatus runtime now vc = true → status.isString (js "active") = false →
    status.printable = true

theorem validateBasicProperties_returns {now : ℚ} {vc : Untyped} {requireEmbeddedProof : Bool} :
    (∃ reason, validateBasicProperties runtime now vc requireEmbeddedProof = .ok reason) ↔
      LegibleStatus runtime now vc := by
  simp only [validateBasicProperties, LegibleStatus, reachesStatus]
  cases hschema : validateDelegationCredential vc with
  | some message => simp [pure, Except.pure]
  | none =>
      cases hexpired : isDelegationCredentialExpired runtime now vc with
      | true => simp [pure, Except.pure]
      | false =>
          cases hearly : isDelegationCredentialNotYetValid now vc with
          | true => simp [pure, Except.pure]
          | false =>
              cases hactive : isString ((delegation? vc).member? (js "status")) (js "active") with
              | true =>
                  simp only [Bool.not_true, Bool.false_eq_true, if_false]
                  split_ifs <;> simp [pure, Except.pure]
              | false =>
                  cases hstatus : (delegation? vc).member? (js "status") with
                  | none => simp [pure, Except.pure, Untyped.printable]
                  | some status =>
                      simp [bind_returns, text_returns, pure_returns, -bind_pure_comp]

theorem validateBasicProperties_schema {now : ℚ} {vc : Untyped} {requireEmbeddedProof : Bool}
    (h : validateBasicProperties runtime now vc requireEmbeddedProof = .ok none) :
    validateDelegationCredential vc = none := by
  cases hschema : validateDelegationCredential vc with
  | none => rfl
  | some message =>
      rw [validateBasicProperties, hschema] at h
      cases h

/-- What the schema makes sure of, as far as the gate reads it. -/
structure Shaped (vc : Untyped) : Prop where
  subject : ∃ did, did ≠ [] ∧
    (vc.member? (js "credentialSubject")).member? (js "id") = some (.string did)
  delegation : (delegation? vc).isObject = true
  constraints : ((delegation? vc).member? (js "constraints")).truthy = true

theorem isNonEmptyString_iff {value : Untyped} :
    isNonEmptyString value = true ↔ ∃ text, text ≠ [] ∧ value = some (.string text) := by
  cases value with
  | none => simp [isNonEmptyString]
  | some v => cases v <;> simp [isNonEmptyString]

theorem shaped_of_schema {vc : Untyped} (h : validateDelegationCredential vc = none) :
    Shaped vc := by
  simp only [validateDelegationCredential, firstFailure_eq_none, List.forall_mem_cons] at h
  obtain ⟨-, -, -, -, -, -, -, -, hsubject, hdelegation, hfields, -⟩ := h
  rw [Bool.and_eq_true] at hfields
  exact ⟨isNonEmptyString_iff.mp hsubject, hdelegation, hfields.2⟩

theorem Shaped.isObject {vc : JsonValue JsNumber} (h : Shaped (some vc)) :
    ∃ members, vc = .object members := by
  obtain ⟨did, -, hdid⟩ := h.subject
  cases vc with
  | object members => exact ⟨members, rfl⟩
  | _ => cases hdid

theorem Shaped.truthy {vc : JsonValue JsNumber} (h : Shaped (some vc)) :
    Untyped.truthy (some vc) = true := by
  obtain ⟨members, rfl⟩ := h.isObject
  rfl

/-- What the checks quote of the credential in a payload. -/
def LegiblePayload (runtime : Runtime) (now : ℚ) (payload : JsonValue JsNumber) : Prop :=
  let vc := Untyped.member? (some payload) (js "vc")
  LegibleStatus runtime now vc ∧
  (validateBasicProperties runtime now vc false = .ok none →
    strictEquals? ((credentialIssuerDid vc).map .string)
      (Untyped.member? (some payload) (js "iss")) = true →
    Untyped.printable (vc.member? (js "id")) = true)

/-- What the checks of a VC-JWT quote, whenever they are made. -/
def LegibleJwt (runtime : Runtime) (jwt : JsString) : Prop :=
  ∀ header payload, parseVCJWT runtime jwt = some ⟨.object header, .object payload⟩ →
    (kid? (.object header)).isSome = true →
    ∀ now, validateJwtTimeBounds (.object payload) now = none →
      LegiblePayload runtime now (.object payload)

section Envelope

variable {now : ℚ} {payload : JsonValue JsNumber} {kid : Option JsString}

theorem checkJwtCredential_returns :
    (∃ result, checkJwtCredential runtime now payload kid = .ok result) ↔
      LegibleStatus runtime now (Untyped.member? (some payload) (js "vc")) := by
  rw [← validateBasicProperties_returns, checkJwtCredential, bind_returns]
  refine and_iff_left fun reason _ => ?_
  cases reason with
  | some reason => exact pure_returns
  | none =>
      split_ifs
      · exact pure_returns
      · exact pure_returns

theorem checkJwtCredential_eq_ok {prepared : PreparedVcJwt} :
    checkJwtCredential runtime now payload kid = .ok (.ok prepared) ↔
      validateBasicProperties runtime now (Untyped.member? (some payload) (js "vc")) false =
        .ok none ∧
      strictEquals? ((credentialIssuerDid (Untyped.member? (some payload) (js "vc"))).map .string)
        (Untyped.member? (some payload) (js "iss")) = true ∧
      prepared = { vc := Untyped.member? (some payload) (js "vc")
                   issuerDid := Untyped.member? (some payload) (js "iss"), kid } := by
  rw [checkJwtCredential]
  cases hbasic : validateBasicProperties runtime now (Untyped.member? (some payload) (js "vc"))
      false with
  | error error => simp [bind, Except.bind]
  | ok reason =>
      cases reason with
      | some reason => simp [bind, Except.bind, pure, Except.pure]
      | none =>
          cases strictEquals? ((credentialIssuerDid (Untyped.member? (some payload)
            (js "vc"))).map .string) (Untyped.member? (some payload) (js "iss")) with
          | true => simp [bind, Except.bind, pure, Except.pure, eq_comm]
          | false => simp [bind, Except.bind, pure, Except.pure]

theorem cacheKeyForJwt_returns {jwt : JsString} {vc : Untyped} :
    (∃ key, cacheKeyForJwt runtime jwt vc = .ok key) ↔
      Untyped.printable (vc.member? (js "id")) = true := by
  rw [cacheKeyForJwt, bind_returns, and_iff_left fun _ _ => pure_returns, toText_returns]
  cases hid : vc.member? (js "id") with
  | none => simp [Untyped.orElse, Untyped.printable, JsonValue.printable]
  | some id => cases id <;> simp [Untyped.orElse, Untyped.printable, JsonValue.printable]

/-- The signer of a credential is a text, or unknown. -/
theorem printable_of_issuer {vc issuerDid : Untyped}
    (h : strictEquals? ((credentialIssuerDid vc).map .string) issuerDid = true) :
    issuerDid.printable = true := by
  cases hissuer : credentialIssuerDid vc with
  | none =>
      cases issuerDid with
      | none => rfl
      | some v => simp [hissuer, strictEquals?] at h
  | some did =>
      cases issuerDid with
      | none => rfl
      | some v =>
          simp only [hissuer, Option.map_some, strictEquals?, strictEquals_string] at h
          rw [h]
          rfl

variable {answered : Exchange Gates → Prop}

theorem deniedQuoting_neverThrows {before after : JsString} {value : Untyped}
    (h : value.printable = true) :
    NeverThrows answered (deniedQuoting runtime before value after) := by
  rw [deniedQuoting, neverThrows_ofExcept]
  obtain ⟨text, htext⟩ := (@text_returns runtime _).mpr h
  exact ⟨_, bind_eq_ok.mpr ⟨text, htext, rfl⟩⟩

theorem verifyEnvelopeByDocument_neverThrows {jwt : JsString} {didDoc : List VerificationMethod} :
    NeverThrows answered (verifyEnvelopeByDocument jwt kid didDoc) := by
  unfold verifyEnvelopeByDocument
  cases selectVerificationMethod didDoc kid with
  | none => exact neverThrows_pure
  | some method =>
      cases hkey : method.publicKeyJwk.truthy with
      | false =>
          simp only [hkey]
          exact neverThrows_pure
      | true =>
          simp only [hkey]
          exact neverThrows_tryCatch.mpr fun _ _ => neverThrows_pure

theorem verifyVcJwtSignature_neverThrows {jwt : JsString} {issuerDid : Untyped}
    (h : issuerDid.printable = true) :
    NeverThrows answered (verifyVcJwtSignature runtime jwt issuerDid kid) := by
  rw [verifyVcJwtSignature, neverThrows_outcome_bind]
  refine ⟨fun didDoc _ => ?_, fun error _ => deniedQuoting_neverThrows h⟩
  cases didDoc with
  | none => exact deniedQuoting_neverThrows h
  | some didDoc => exact verifyEnvelopeByDocument_neverThrows

theorem prepareVcJwtCredential_returns {jwt : JsString} :
    (∃ result, prepareVcJwtCredential runtime now jwt = .ok result) ↔
      ∀ header payload, parseVCJWT runtime jwt = some ⟨.object header, .object payload⟩ →
        (kid? (.object header)).isSome = true →
        validateJwtTimeBounds (.object payload) now = none →
        LegibleStatus runtime now (Untyped.member? (some (.object payload)) (js "vc")) := by
  rw [prepareVcJwtCredential]
  split
  · rename_i header payload hparsed
    rw [hparsed]
    cases hkid : kid? (.object header) with
    | none => simp_all [pure_returns]
    | some kid =>
        cases htime : validateJwtTimeBounds (.object payload) now with
        | some reason => simp_all [pure_returns]
        | none =>
            simp only [checkJwtCredential_returns]
            constructor
            · rintro h header' payload' hsame - -
              cases hsame
              exact h
            · intro h
              exact h header payload rfl (by rw [hkid]; rfl) htime
  · rename_i hnot
    refine iff_of_true ⟨_, rfl⟩ ?_
    intro header payload hparsed
    exact absurd hparsed (hnot header payload)

theorem prepareVcJwtCredential_eq_ok {jwt : JsString} {prepared : PreparedVcJwt} :
    prepareVcJwtCredential runtime now jwt = .ok (.ok prepared) ↔
      ∃ header payload kid, parseVCJWT runtime jwt = some ⟨.object header, .object payload⟩ ∧
        kid? (.object header) = some kid ∧ validateJwtTimeBounds (.object payload) now = none ∧
        checkJwtCredential runtime now (.object payload) kid = .ok (.ok prepared) := by
  rw [prepareVcJwtCredential]
  split
  · rename_i header payload hparsed
    rw [hparsed]
    cases hkid : kid? (.object header) with
    | none => simp_all [pure, Except.pure]
    | some kid =>
        cases htime : validateJwtTimeBounds (.object payload) now with
        | some reason => simp_all [pure, Except.pure]
        | none => simp_all
  · rename_i hnot
    refine iff_of_false (by rintro ⟨⟩) ?_
    rintro ⟨header, payload, kid, hparsed, -⟩
    exact hnot header payload hparsed

/-- What follows the reading of the clock. -/
theorem verifyJwtAt_neverThrows (now : ℚ) {jwt : JsString} :
    NeverThrows answered
        (Async.ofExcept (prepareVcJwtCredential runtime now jwt) >>= fun result =>
          match result with
          | .error reason => pure (denied reason)
          | .ok prepared => do
            let _ ← Async.ofExcept (cacheKeyForJwt runtime jwt prepared.vc)
            let signature ← verifyVcJwtSignature runtime jwt prepared.issuerDid prepared.kid
            pure (combineVerificationResult signature { valid := true }) : GateM Verification) ↔
      ∀ header payload, parseVCJWT runtime jwt = some ⟨.object header, .object payload⟩ →
        (kid? (.object header)).isSome = true →
        validateJwtTimeBounds (.object payload) now = none →
          LegiblePayload runtime now (.object payload) := by
  rw [neverThrows_bind, neverThrows_ofExcept, prepareVcJwtCredential_returns]
  simp only [returns_ofExcept, LegiblePayload]
  constructor
  · rintro ⟨hstatus, hprepared⟩ header payload hparsed hkid htime
    refine ⟨hstatus header payload hparsed hkid htime, fun hbasic hissuer => ?_⟩
    obtain ⟨kid, hkid⟩ := Option.isSome_iff_exists.mp hkid
    have hkey := hprepared (.ok _) (prepareVcJwtCredential_eq_ok.mpr ⟨header, payload, kid,
      hparsed, hkid, htime, checkJwtCredential_eq_ok.mpr ⟨hbasic, hissuer, rfl⟩⟩)
    exact cacheKeyForJwt_returns.mp (neverThrows_ofExcept.mp (neverThrows_bind.mp hkey).1)
  · intro h
    refine ⟨fun header payload hparsed hkid htime => (h header payload hparsed hkid htime).1, ?_⟩
    intro result hresult
    cases result with
    | error reason => exact neverThrows_pure
    | ok prepared =>
        obtain ⟨header, payload, kid, hparsed, hkid, htime, hchecked⟩ :=
          prepareVcJwtCredential_eq_ok.mp hresult
        obtain ⟨hbasic, hissuer, rfl⟩ := checkJwtCredential_eq_ok.mp hchecked
        have hid := (h header payload hparsed (by rw [hkid]; rfl) htime).2 hbasic hissuer
        refine neverThrows_bind.mpr
          ⟨neverThrows_ofExcept.mpr (cacheKeyForJwt_returns.mpr hid), fun _ _ => ?_⟩
        refine neverThrows_bind.mpr ⟨?_, fun _ _ => neverThrows_pure⟩
        exact verifyVcJwtSignature_neverThrows (printable_of_issuer hissuer)

/-- The checks of an envelope never throw exactly when they can quote what they get to. -/
theorem verifyDelegationJwt_neverThrows
    (hclock : ∀ answer, answered ⟨.now, answer⟩ ↔ ∃ now, answer = .ok now) {jwt : JsString} :
    NeverThrows answered (verifyDelegationJwt runtime jwt) ↔ LegibleJwt runtime jwt := by
  rw [verifyDelegationJwt, neverThrows_bind]
  constructor
  · rintro ⟨-, h⟩ header payload hparsed hkid now htime
    have hreads := h now (returns_ask.mpr ((hclock _).mpr ⟨now, rfl⟩))
    exact (verifyJwtAt_neverThrows now).mp hreads header payload hparsed hkid htime
  · intro h
    refine ⟨fun error herror => ?_, fun now _ => (verifyJwtAt_neverThrows now).mpr ?_⟩
    · obtain ⟨now, hanswer⟩ := (hclock _).mp (throws_ask.mp herror)
      cases hanswer
    · exact fun header payload hparsed hkid htime => h header payload hparsed hkid now htime

end Envelope

end KyaOs.Untrusted
