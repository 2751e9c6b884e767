import KyaOs.Delegation.LegibleJwt
import KyaOs.Delegation.LegibleScopes
import KyaOs.Middleware.DelegationVerify

/-!
# Where the delegation verifier throws

With ports that do not throw, the resolvers and the checks of keys, signatures and statuses aside,
the verifier throws only for what a VC-JWT makes it read and quote, and what it accepts has the
shape of a delegation.
-/

namespace KyaOs.Middleware

open Js Untyped JsonValue Audit Proof Providers Concurrency Concurrency.Async

/-- The value is a text, or there is none. -/
def isOptionalText : Untyped → Bool
  | none | some .null | some (.string _) => true
  | _ => false

/-- A row of a store, whose members have the types that the store declares. -/
structure Typed (grant : Grant) : Prop where
  agentDid : ∃ did, grant.agentDid = .string did
  userDid : isOptionalText grant.userDid = true

/-- The resolvers and the checks of keys, signatures and statuses answer anything, as do the
ports whose errors are caught or that are not asked; the others answer. -/
def AnswersWell : (request : GateRequest) → Except Error request.Answer → Prop
  | .resolveDid _, _ | .verifyEd25519 .., _ | .importKey _, _ | .compactVerify .., _
  | .checkStatus _, _ | .resolveDelegationChain _, _ | .isRevoked _, _ | .bindGrant _, _
  | .recordAudit _, _ | .formatChallenge _, _ => True
  | .getByAgent .., answer | .getBySession .., answer =>
    ∃ grants : List Grant, answer = .ok grants ∧ ∀ grant ∈ grants, Typed grant
  | _, answer => ∃ value, answer = .ok value

def Settled (exchange : Exchange Gates) : Prop := AnswersWell exchange.request exchange.answer

theorem settled_clock (answer : Except Error ℚ) :
    Settled ⟨.now, answer⟩ ↔ ∃ now, answer = .ok now := Iff.rfl

/-- A port that answers does not throw. -/
theorem ask_neverThrows {request : GateRequest}
    (h : ∀ error, ¬ Settled ⟨request, .error error⟩) :
    NeverThrows Settled (Async.ask (I := Gates) request) :=
  fun error herror => h error (throws_ask.mp herror)

theorem not_answered {α : Type} {error : Error} :
    ¬ ∃ value : α, (.error error : Except Error α) = .ok value := by
  rintro ⟨value, hvalue⟩
  cases hvalue

section Verifier

variable {config : DelegationConfig}

/-- What the verifier of a pasted delegation reads outside a `try`, and quotes. -/
def LegibleArgument (runtime : Runtime) (delegationArg : JsonValue JsNumber) : Prop :=
  ∀ jwt, delegationArg = .string jwt → ∀ parsed, Untrusted.parseVCJWT runtime jwt = some parsed →
    Untyped.isNullish (some parsed.payload) = false ∧
    (Untyped.truthy (Untyped.member? (some parsed.payload) (js "vc")) = true →
      Untrusted.LegibleJwt runtime jwt)

theorem verifyPresented_neverThrows {vc : JsonValue JsNumber} {isJwt : Bool}
    {expiresAt : Option JsNumber} :
    NeverThrows Settled (verifyPresented config vc isJwt expiresAt) := by
  refine neverThrows_bind.mpr
    ⟨neverThrows_tryCatch.mpr fun _ _ => neverThrows_pure, fun chain _ => ?_⟩
  split_ifs
  · exact neverThrows_pure
  · exact neverThrows_pure

theorem verifyParsed_neverThrows {jwt : JsString} {payload vc : JsonValue JsNumber} :
    NeverThrows Settled (verifyParsed config jwt payload vc) ↔
      Untrusted.LegibleJwt config.runtime jwt := by
  rw [verifyParsed, neverThrows_bind, Untrusted.verifyDelegationJwt_neverThrows settled_clock]
  refine and_iff_left fun envelope _ => ?_
  split_ifs
  · exact verifyPresented_neverThrows
  · exact neverThrows_pure

theorem verifyJwt_neverThrows {jwt : JsString} :
    NeverThrows Settled (verifyJwt config jwt) ↔ ∀ parsed,
      Untrusted.parseVCJWT config.runtime jwt = some parsed →
        Untyped.isNullish (some parsed.payload) = false ∧
        (Untyped.truthy (Untyped.member? (some parsed.payload) (js "vc")) = true →
          Untrusted.LegibleJwt config.runtime jwt) := by
  rw [verifyJwt]
  cases hparsed : Untrusted.parseVCJWT config.runtime jwt with
  | none => simp
  | some parsed =>
      simp only [Option.some.injEq, forall_eq']
      rw [neverThrows_bind, neverThrows_ofExcept, member_returns]
      refine and_congr_right fun hpayload => ?_
      simp only [returns_ofExcept, Untrusted.member_eq_ok, hpayload, true_and, forall_eq']
      cases hvc : Untyped.member? (some parsed.payload) (js "vc") with
      | none => simp [Untyped.truthy]
      | some vc =>
          dsimp only
          split_ifs with htruthy
          · simp only [htruthy, forall_const, verifyParsed_neverThrows]
          · simp [htruthy]

/-- The verifier never throws exactly for the legible arguments. -/
theorem verifyDelegation_neverThrows {delegationArg : JsonValue JsNumber} :
    NeverThrows Settled (verifyDelegation config delegationArg) ↔
      LegibleArgument config.runtime delegationArg := by
  rw [LegibleArgument]
  cases delegationArg with
  | string jwt => simpa [verifyDelegation] using verifyJwt_neverThrows
  | _ => simpa [verifyDelegation] using verifyPresented_neverThrows

/-- The chain walk accepts the credential, for some answers of the ports. -/
def Walks (config : DelegationConfig) (vc : JsonValue JsNumber) (skipSignature : Bool) : Prop :=
  ∃ chain, Returns Settled (Untrusted.validateDelegationChain config.runtime config.chainDeps
    (presented vc) skipSignature) chain ∧ chain.valid = true

/-- The pasted delegations that can be accepted, with the credential they come to. -/
inductive Accepted (config : DelegationConfig) :
    JsonValue JsNumber → JsonValue JsNumber → Bool → Prop
  | jwt {jwt : JsString} {header payload : Members JsNumber} {kid : Option JsString} {now : ℚ}
      {vc : JsonValue JsNumber}
      (hparsed : Untrusted.parseVCJWT config.runtime jwt = some ⟨.object header, .object payload⟩)
      (hkid : Untrusted.kid? (.object header) = some kid)
      (htime : Untrusted.validateJwtTimeBounds (.object payload) now = none)
      (hvc : Untyped.member? (some (.object payload)) (js "vc") = some vc)
      (hbasic : Untrusted.validateBasicProperties config.runtime now (some vc) false = .ok none)
      (hissuer : Untrusted.strictEquals? ((Untrusted.credentialIssuerDid (some vc)).map .string)
        (Untyped.member? (some (.object payload)) (js "iss")) = true)
      (hwalks : Walks config (withProofMarker jwt vc) true) :
      Accepted config (.string jwt) (withProofMarker jwt vc) true
  | object {vc : JsonValue JsNumber} (hobject : ∀ jwt, vc ≠ .string jwt)
      (hwalks : Walks config vc false) : Accepted config vc vc false

theorem verifyPresented_returns {vc vc' : JsonValue JsNumber} {isJwt isJwt' : Bool}
    {jwtExpiresAt : Option JsNumber} :
    (∃ expiresAt, Returns Settled (verifyPresented config vc isJwt jwtExpiresAt)
      (.valid vc' isJwt' expiresAt)) ↔ vc' = vc ∧ isJwt' = isJwt ∧ Walks config vc isJwt := by
  constructor
  · rintro ⟨expiresAt, h⟩
    obtain ⟨chain, hchain, h⟩ := returns_bind.mp h
    split_ifs at h with hvalid
    · cases returns_pure.mp h
      refine ⟨rfl, rfl, chain, ?_, hvalid⟩
      obtain hwalked | ⟨error, -, hcaught⟩ := returns_tryCatch.mp hchain
      · exact hwalked
      · rw [← returns_pure.mp hcaught] at hvalid
        cases hvalid
    · cases returns_pure.mp h
  · rintro ⟨rfl, rfl, chain, hwalked, hvalid⟩
    refine ⟨combinedExpiry jwtExpiresAt chain.expiresAt, returns_bind.mpr ⟨chain, ?_, ?_⟩⟩
    · exact returns_tryCatch.mpr (.inl hwalked)
    · rw [if_pos hvalid]
      exact returns_pure.mpr rfl

theorem verifyEnvelopeByDocument_returns {jwt : JsString} {kid : Option JsString}
    {didDoc : List VerificationMethod} {method : VerificationMethod}
    (hselect : Untrusted.selectVerificationMethod didDoc kid = some method)
    (hkey : method.publicKeyJwk.truthy = true) :
    Returns Settled (Untrusted.verifyEnvelopeByDocument jwt kid didDoc) { valid := true } := by
  unfold Untrusted.verifyEnvelopeByDocument
  simp only [hselect, hkey]
  refine returns_tryCatch.mpr (.inl (returns_bind.mpr ⟨false, returns_ask.mpr trivial, ?_⟩))
  exact returns_bind.mpr ⟨(), returns_ask.mpr trivial, returns_pure.mpr rfl⟩

/-- Some resolver and some signature check accept the envelope. -/
theorem verifyVcJwtSignature_returns {jwt : JsString} {issuerDid : Untyped}
    {kid : Option JsString} : Returns Settled
      (Untrusted.verifyVcJwtSignature config.runtime jwt issuerDid kid) { valid := true } := by
  let method : VerificationMethod := { id := kid.getD [], publicKeyJwk := some (.object []) }
  have hselect : Untrusted.selectVerificationMethod [method] kid = some method := by
    cases kid with
    | none => rfl
    | some kid =>
        cases kid with
        | nil => rfl
        | cons unit units => simp [Untrusted.selectVerificationMethod, method]
  have hresolved : Returns Settled (Async.ask (I := Gates) (.resolveDid issuerDid))
      (some [method]) := returns_ask.mpr trivial
  refine returns_bind.mpr ⟨.ok (some [method]), returns_outcome_ok.mpr hresolved, ?_⟩
  exact verifyEnvelopeByDocument_returns hselect rfl

theorem verifyDelegationJwt_returns {jwt : JsString}
    (hlegible : Untrusted.LegibleJwt config.runtime jwt) :
    (∃ verification, Returns Settled (Untrusted.verifyDelegationJwt config.runtime jwt)
      verification ∧ verification.valid = true) ↔
    ∃ now prepared, Untrusted.prepareVcJwtCredential config.runtime now jwt =
      .ok (.ok prepared) := by
  constructor
  · rintro ⟨verification, h, hvalid⟩
    obtain ⟨now, -, h⟩ := returns_bind.mp h
    obtain ⟨result, hprepared, h⟩ := returns_bind.mp h
    cases result with
    | error reason =>
        cases returns_pure.mp h
        cases hvalid
    | ok prepared => exact ⟨now, prepared, returns_ofExcept.mp hprepared⟩
  · rintro ⟨now, prepared, hprepared⟩
    obtain ⟨header, payload, kid, hparsed, hkid, htime, hchecked⟩ :=
      Untrusted.prepareVcJwtCredential_eq_ok.mp hprepared
    obtain ⟨hbasic, hissuer, hsame⟩ := Untrusted.checkJwtCredential_eq_ok.mp hchecked
    have hid := (hlegible header payload hparsed (by rw [hkid]; rfl) now htime).2 hbasic hissuer
    obtain ⟨key, hkey⟩ := (@Untrusted.cacheKeyForJwt_returns config.runtime jwt _).mpr hid
    refine ⟨Untrusted.combineVerificationResult { valid := true } { valid := true }, ?_, rfl⟩
    refine returns_bind.mpr ⟨now, returns_ask.mpr ⟨now, rfl⟩, ?_⟩
    refine returns_bind.mpr ⟨.ok prepared, returns_ofExcept.mpr hprepared, ?_⟩
    refine returns_bind.mpr ⟨key, returns_ofExcept.mpr (by rw [hsame]; exact hkey), ?_⟩
    exact returns_bind.mpr ⟨_, verifyVcJwtSignature_returns, returns_pure.mpr rfl⟩

theorem verifyJwt_accepts {jwt : JsString} {vc : JsonValue JsNumber} {isJwt : Bool}
    (hlegible : LegibleArgument config.runtime (.string jwt))
    (h : ∃ expiresAt, Returns Settled (verifyJwt config jwt) (.valid vc isJwt expiresAt)) :
    Accepted config (.string jwt) vc isJwt := by
  obtain ⟨expiresAt, h⟩ := h
  rw [verifyJwt] at h
  cases hparsed : Untrusted.parseVCJWT config.runtime jwt with
  | none =>
      rw [hparsed] at h
      cases returns_pure.mp h
  | some parsed =>
      rw [hparsed] at h
      obtain ⟨read, hread, h⟩ := returns_bind.mp h
      obtain ⟨-, rfl⟩ := Untrusted.member_eq_ok.mp (returns_ofExcept.mp hread)
      cases hvc : Untyped.member? (some parsed.payload) (js "vc") with
      | none =>
          rw [hvc] at h
          cases returns_pure.mp h
      | some presented =>
          rw [hvc] at h
          dsimp only at h
          split_ifs at h with htruthy
          · have hjwt := (hlegible jwt rfl parsed hparsed).2 (by rw [hvc]; exact htruthy)
            obtain ⟨envelope, henvelope, h⟩ := returns_bind.mp h
            split_ifs at h with hvalid
            · obtain ⟨now, prepared, hprepared⟩ :=
                (verifyDelegationJwt_returns hjwt).mp ⟨envelope, henvelope, hvalid⟩
              obtain ⟨header, payload, kid, hsame, hkid, htime, hchecked⟩ :=
                Untrusted.prepareVcJwtCredential_eq_ok.mp hprepared
              obtain ⟨hbasic, hissuer, -⟩ := Untrusted.checkJwtCredential_eq_ok.mp hchecked
              rw [hparsed] at hsame
              cases hsame
              rw [hvc] at hbasic hissuer
              obtain ⟨rfl, rfl, hwalks⟩ := verifyPresented_returns.mp ⟨expiresAt, h⟩
              exact .jwt hparsed hkid htime hvc hbasic hissuer hwalks
            · cases returns_pure.mp h
          · cases returns_pure.mp h

theorem verifyJwt_returns {jwt : JsString} {header payload : Members JsNumber}
    {kid : Option JsString} {now : ℚ} {vc : JsonValue JsNumber}
    (hlegible : LegibleArgument config.runtime (.string jwt))
    (hparsed : Untrusted.parseVCJWT config.runtime jwt = some ⟨.object header, .object payload⟩)
    (hkid : Untrusted.kid? (.object header) = some kid)
    (htime : Untrusted.validateJwtTimeBounds (.object payload) now = none)
    (hvc : Untyped.member? (some (.object payload)) (js "vc") = some vc)
    (hbasic : Untrusted.validateBasicProperties config.runtime now (some vc) false = .ok none)
    (hissuer : Untrusted.strictEquals? ((Untrusted.credentialIssuerDid (some vc)).map .string)
      (Untyped.member? (some (.object payload)) (js "iss")) = true)
    (hwalks : Walks config (withProofMarker jwt vc) true) :
    ∃ expiresAt, Returns Settled (verifyJwt config jwt)
      (.valid (withProofMarker jwt vc) true expiresAt) := by
  have htruthy : Untyped.truthy (some vc) = true :=
    (Untrusted.shaped_of_schema (Untrusted.validateBasicProperties_schema hbasic)).truthy
  have hjwt := (hlegible jwt rfl _ hparsed).2 (by rw [hvc]; exact htruthy)
  have hchecked := (@Untrusted.checkJwtCredential_eq_ok config.runtime now (.object payload)
    kid _).mpr
    ⟨by rw [hvc]; exact hbasic, by rw [hvc]; exact hissuer, rfl⟩
  obtain ⟨envelope, henvelope, hvalid⟩ := (verifyDelegationJwt_returns hjwt).mpr ⟨now, _,
    Untrusted.prepareVcJwtCredential_eq_ok.mpr
      ⟨header, payload, kid, hparsed, hkid, htime, hchecked⟩⟩
  obtain ⟨expiresAt, hpresented⟩ := (@verifyPresented_returns config _ _ _ _
    (jwtExpiresAt (.object payload))).mpr ⟨rfl, rfl, hwalks⟩
  refine ⟨expiresAt, ?_⟩
  rw [verifyJwt, hparsed]
  refine returns_bind.mpr ⟨some vc, returns_ofExcept.mpr (by rw [← hvc]; rfl), ?_⟩
  dsimp only
  rw [if_pos htruthy]
  refine returns_bind.mpr ⟨envelope, henvelope, ?_⟩
  rw [if_pos hvalid]
  exact hpresented

theorem verifyDelegation_returns {delegationArg vc : JsonValue JsNumber} {isJwt : Bool}
    (hlegible : LegibleArgument config.runtime delegationArg) :
    (∃ expiresAt, Returns Settled (verifyDelegation config delegationArg)
      (.valid vc isJwt expiresAt)) ↔ Accepted config delegationArg vc isJwt := by
  constructor
  · rintro ⟨expiresAt, h⟩
    cases delegationArg with
    | string jwt => exact verifyJwt_accepts hlegible ⟨expiresAt, h⟩
    | _ =>
        obtain ⟨rfl, rfl, hwalks⟩ := verifyPresented_returns.mp ⟨expiresAt, h⟩
        exact .object (by rintro _ ⟨⟩) hwalks
  · intro h
    cases h with
    | jwt hparsed hkid htime hvc hbasic hissuer hwalks =>
        exact verifyJwt_returns hlegible hparsed hkid htime hvc hbasic hissuer hwalks
    | object hobject hwalks =>
        have hreturns := (@verifyPresented_returns config _ _ _ _ none).mpr ⟨rfl, rfl, hwalks⟩
        cases delegationArg with
        | string jwt => exact absurd rfl (hobject jwt)
        | _ => exact hreturns

/-- An accepted credential has the shape of the schema. -/
theorem Walks.shaped {vc : JsonValue JsNumber} {skipSignature : Bool}
    (h : Walks config vc skipSignature) : Untrusted.Shaped (some vc) := by
  obtain ⟨chain, hchain, hvalid⟩ := h
  obtain ⟨verification, hanswer, hverified⟩ :=
    Untrusted.validateDelegationChain_verified hchain hvalid
  obtain ⟨now, -, hchecked⟩ := returns_bind.mp hanswer
  obtain ⟨reason, hbasic, hrest⟩ := returns_bind.mp hchecked
  cases reason with
  | some reason =>
      cases returns_pure.mp hrest
      cases hverified
  | none =>
      exact Untrusted.shaped_of_schema
        (Untrusted.validateBasicProperties_schema (returns_ofExcept.mp hbasic))

theorem Accepted.shaped {delegationArg vc : JsonValue JsNumber} {isJwt : Bool}
    (h : Accepted config delegationArg vc isJwt) : Untrusted.Shaped (some vc) := by
  cases h with
  | jwt _ _ _ _ _ _ hwalks => exact hwalks.shaped
  | object _ hwalks => exact hwalks.shaped

end Verifier

end KyaOs.Middleware
