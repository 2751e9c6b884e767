import KyaOs.Delegation.LegibleJwt
import KyaOs.Delegation.SignatureKeys

/-!
# Caching changes no verdict

Whatever the calls of a verifier do to its cache, an entry is of a wire form whose signature
is valid. So a call that is served one would have come to the same without it, as long as
the resolver and the signature function do not tell apart what canonical texts do not.
-/

namespace KyaOs.CachingVerifier

open Js Untyped Untrusted JsonValue Concurrency Middleware

section Reading

variable {numbers : Doubles JsNumber} {vc vc' : Untyped}

/-- Values that canonical texts do not tell apart. -/
abbrev Alike (numbers : Doubles JsNumber) : Untyped → Untyped → Prop := Option.Rel (Same numbers)

theorem member?_eq_child (value : Untyped) (name : JsString) :
    value.member? name = value.bind (·.child (.key name)) := by
  cases value with
  | none => rfl
  | some v => cases v <;> rfl

theorem Alike.member? (h : Alike numbers vc vc') (name : JsString) :
    Alike numbers (vc.member? name) (vc'.member? name) := by
  rw [member?_eq_child, member?_eq_child]
  cases h with
  | none => exact .none
  | some hsame => exact hsame.child (.key name)

theorem Alike.string {text : JsString} (h : Alike numbers (some (.string text)) vc') :
    vc' = some (.string text) := by
  cases h with
  | some hsame =>
      have hnode := hsame []
      cases hnode with
      | some hnode =>
          cases hnode
          rfl

theorem Alike.member {value : Untyped} (h : Alike numbers vc vc') {name : JsString}
    (hread : vc.member name = .ok value) :
    ∃ value', vc'.member name = .ok value' ∧ Alike numbers value value' := by
  have hmember := h.member? name
  cases h with
  | none => cases hread
  | @some v v' hsame =>
      have hnode := hsame []
      cases hnode with
      | some hnode =>
          cases hnode with
          | null => cases hread
          | _ =>
              cases hread
              exact ⟨_, rfl, hmember⟩

theorem Alike.issuerOf {issuerDid : Untyped} (h : Alike numbers vc vc')
    (hread : issuerOf vc = .ok issuerDid) :
    ∃ issuerDid', Untrusted.issuerOf vc' = .ok issuerDid' ∧ Alike numbers issuerDid issuerDid' := by
  obtain ⟨issuer, hissuer, hread⟩ := bind_eq_ok.mp hread
  obtain ⟨issuer', hissuer', hsame⟩ := h.member hissuer
  by_cases hstring : ∃ did, issuer = some (.string did)
  · obtain ⟨did, rfl⟩ := hstring
    cases hread
    rw [hsame.string] at hissuer'
    exact ⟨_, bind_eq_ok.mpr ⟨_, hissuer', rfl⟩, .some (same_string.mpr rfl)⟩
  · have hread' : issuer.member (js "id") = .ok issuerDid := by
      split at hread
      · exact absurd ⟨_, rfl⟩ hstring
      · exact hread
    obtain ⟨issuerDid', hid, hsame'⟩ := hsame.member hread'
    refine ⟨issuerDid', bind_eq_ok.mpr ⟨issuer', hissuer', ?_⟩, hsame'⟩
    split
    · cases hid
      cases hsame with
      | some hnodes =>
          have hnode := hnodes []
          cases hnode with
          | some hnode =>
              cases hnode
              exact absurd ⟨_, rfl⟩ hstring
    · exact hid

/-- A member that is a string is the same string. -/
theorem Alike.member?_string {name text : JsString} (h : Alike numbers vc vc')
    (hmember : vc.member? name = some (.string text)) : vc'.member? name = some (.string text) :=
  (hmember ▸ h.member? name).string

theorem truthy_of_member? {value : Untyped} {name : JsString} {v : JsonValue JsNumber}
    (h : value.member? name = some v) : value.truthy = true := by
  cases value with
  | none => cases h
  | some w =>
      cases w with
      | object members => rfl
      | _ => cases h

end Reading

section Signatures

variable {config : VerifierConfig} {resolve : DIDResolver}

/-- The resolver and the signature function answer alike to what canonical texts do not tell
apart. -/
structure ReadsValues (config : VerifierConfig) : Prop where
  resolver : ∀ resolve, config.didResolver = some resolve → ∀ did did',
    Alike config.runtime.numbers did did' → resolve did = resolve did'
  signature : ∀ verify, config.signatureVerifier = some verify → ∀ vc vc' publicKeyJwk result,
    Alike config.runtime.numbers vc vc' → verify vc publicKeyJwk = .ok result →
    ∃ result', verify vc' publicKeyJwk = .ok result' ∧ result'.valid = result.valid

/-- What a credential with a valid signature has passed. -/
structure Verified (config : VerifierConfig) (vc : Untyped) : Prop where
  checked : ∃ resolve verify issuerDid didDoc proofType methodId method result,
    config.didResolver = some resolve ∧ config.signatureVerifier = some verify ∧
    issuerOf vc = .ok issuerDid ∧ resolve issuerDid = .ok (some didDoc) ∧
    (vc.member? (js "proof")).member? (js "type") = some (.string proofType) ∧
    isSupportedCredentialProofType (some (.string proofType)) = true ∧
    (vc.member? (js "proof")).member? (js "verificationMethod") = some (.string methodId) ∧
    methodId ≠ [] ∧
    didDoc.find? (fun method => Untyped.isString (some (.string methodId)) method.id) =
      some method ∧
    method.publicKeyJwk.truthy = true ∧ verify vc method.publicKeyJwk = .ok result ∧
    result.valid = true

theorem quoting_not_valid {before after : JsString} {value : Untyped} {result : Verification}
    (h : config.quoting before value after = .ok result) : result.valid ≠ true := by
  obtain ⟨text, -, h⟩ := bind_eq_ok.mp h
  cases h
  exact Bool.false_ne_true

theorem denied_not_valid (reason : JsString) : (denied reason).valid ≠ true := Bool.false_ne_true

theorem checkSignature_of_valid {vc : Untyped}
    (h : (config.verifySignature config.didResolver vc).valid = true) :
    ∃ result, config.checkSignature config.didResolver vc = .ok result ∧ result.valid = true := by
  rw [VerifierConfig.verifySignature] at h
  split at h
  · rename_i result hresult
    exact ⟨result, hresult, h⟩
  · exact absurd h (denied_not_valid _)

/-- What a document with a valid signature's key has. -/
theorem checkProof_of_valid {verify : Untyped → Untyped → Except Error Verification}
    {vc : Untyped} {didDoc : List VerificationMethod} {result : Verification}
    (h : config.checkProof verify vc didDoc = .ok result) (hvalid : result.valid = true) :
    (vc.member? (js "proof")).truthy = true ∧ ∃ methodId method,
      (vc.member? (js "proof")).member? (js "verificationMethod") = some (.string methodId) ∧
      methodId ≠ [] ∧
      didDoc.find? (fun method => Untyped.isString (some (.string methodId)) method.id) =
        some method ∧
      method.publicKeyJwk.truthy = true ∧ verify vc method.publicKeyJwk = .ok result := by
  rw [VerifierConfig.checkProof] at h
  split_ifs at h with hproof hid
  · cases h
    exact absurd hvalid (denied_not_valid _)
  · cases h
    exact absurd hvalid (denied_not_valid _)
  · rw [Bool.not_eq_true', Bool.not_eq_false] at hproof hid
    split at h
    · exact absurd hvalid (quoting_not_valid h)
    · rename_i method hmethod
      split_ifs at h with hkey
      · cases h
        exact absurd hvalid (denied_not_valid _)
      · have hfound := List.find?_some hmethod
        have hstring := isString_iff.mp hfound
        rw [hstring] at hid hmethod
        refine ⟨hproof, method.id, method, hstring, by simpa [Untyped.truthy] using hid, hmethod,
          ?_, h⟩
        simpa using hkey

theorem verified_of_valid {vc : Untyped}
    (h : (config.verifySignature config.didResolver vc).valid = true) : Verified config vc := by
  obtain ⟨result, h, hvalid⟩ := checkSignature_of_valid h
  obtain ⟨issuerDid, hissuer, h⟩ := bind_eq_ok.mp h
  split at h
  · rename_i resolve verify hresolver hverifier
    dsimp only at h
    split_ifs at h with htype
    · exact absurd hvalid (quoting_not_valid h)
    · obtain ⟨document, hdocument, h⟩ := bind_eq_ok.mp h
      split at h
      · exact absurd hvalid (quoting_not_valid h)
      · rename_i didDoc
        obtain ⟨hproof, methodId, method, hmethodId, hne, hmethod, hkey, hresult⟩ :=
          checkProof_of_valid h hvalid
        have hsupported : isSupportedCredentialProofType
            ((vc.member? (js "proof")).member? (js "type")) = true := by
          simpa [hproof] using htype
        obtain ⟨proofType, hproofType⟩ : ∃ proofType,
            (vc.member? (js "proof")).member? (js "type") = some (.string proofType) := by
          cases Bool.or_eq_true_iff.mp hsupported with
          | inl hed => exact ⟨_, isString_iff.mp hed⟩
          | inr hdata => exact ⟨_, isString_iff.mp hdata⟩
        exact ⟨resolve, verify, issuerDid, didDoc, proofType, methodId, method, result, hresolver,
          hverifier, hissuer, hdocument, hproofType, hproofType ▸ hsupported, hmethodId, hne,
          hmethod, hkey, hresult, hvalid⟩
  · cases h
    exact absurd hvalid (denied_not_valid _)

theorem Verified.valid {vc : Untyped} (h : Verified config vc) :
    (config.verifySignature config.didResolver vc).valid = true := by
  obtain ⟨resolve, verify, issuerDid, didDoc, proofType, methodId, method, result, hresolver,
    hverifier, hissuer, hdocument, htype, hsupported, hmethodId, hne, hmethod, hkey, hresult,
    hvalid⟩ := h.checked
  have hproof := truthy_of_member? htype
  have hid : Untyped.truthy (some (.string methodId)) = true := by
    simpa [Untyped.truthy] using hne
  have hcheck : config.checkProof verify vc didDoc = .ok result := by
    rw [VerifierConfig.checkProof]
    simp [hproof, hmethodId, hid, hmethod, hkey, hresult]
  have hchecked : config.checkSignature config.didResolver vc = .ok result := by
    rw [VerifierConfig.checkSignature, hresolver, hverifier]
    refine bind_eq_ok.mpr ⟨issuerDid, hissuer, ?_⟩
    simp only [hproof, htype, hsupported, Bool.not_true, Bool.and_false, Bool.false_eq_true,
      if_false]
    exact bind_eq_ok.mpr ⟨some didDoc, hdocument, hcheck⟩
  rw [VerifierConfig.verifySignature, hchecked]
  exact hvalid

theorem Verified.of_alike (hreads : ReadsValues config) {vc vc' : Untyped}
    (h : Verified config vc) (halike : Alike config.runtime.numbers vc vc') :
    Verified config vc' := by
  obtain ⟨resolve, verify, issuerDid, didDoc, proofType, methodId, method, result, hresolver,
    hverifier, hissuer, hdocument, htype, hsupported, hmethodId, hne, hmethod, hkey, hresult,
    hvalid⟩ := h.checked
  obtain ⟨issuerDid', hissuer', hdid⟩ := halike.issuerOf hissuer
  have hproof := halike.member? (js "proof")
  obtain ⟨result', hresult', hsame⟩ :=
    hreads.signature verify hverifier vc vc' method.publicKeyJwk result halike hresult
  exact ⟨resolve, verify, issuerDid', didDoc, proofType, methodId, method, result', hresolver,
    hverifier, hissuer', hreads.resolver resolve hresolver _ _ hdid ▸ hdocument,
    hproof.member?_string htype, hsupported, hproof.member?_string hmethodId, hne, hmethod, hkey,
    hresult', hsame.trans hvalid⟩

end Signatures

section Forms

variable {config : VerifierConfig}

/-- What the verifier's signature check of a form comes to. -/
def VerifierConfig.Checks (config : VerifierConfig) : Form → Verification → Prop
  | .credential vc, result => config.verifySignature config.didResolver vc.value = result
  | .token jwt, result => ∃ now prepared,
    prepareVcJwtCredential config.runtime now jwt = .ok (.ok prepared) ∧
      config.verifyVcJwtSignature config.didResolver jwt prepared = .ok result

/-- A token is read the same at any time. -/
theorem prepared_unique {runtime : Runtime} {now now' : ℚ} {jwt : JsString}
    {prepared prepared' : PreparedVcJwt}
    (h : prepareVcJwtCredential runtime now jwt = .ok (.ok prepared))
    (h' : prepareVcJwtCredential runtime now' jwt = .ok (.ok prepared')) :
    prepared = prepared' := by
  obtain ⟨header, payload, kid, hparsed, hkid, -, hchecked⟩ := prepareVcJwtCredential_eq_ok.mp h
  obtain ⟨header', payload', kid', hparsed', hkid', -, hchecked'⟩ :=
    prepareVcJwtCredential_eq_ok.mp h'
  rw [hparsed'] at hparsed
  cases hparsed
  rw [hkid'] at hkid
  cases hkid
  obtain ⟨-, -, rfl⟩ := checkJwtCredential_eq_ok.mp hchecked
  obtain ⟨-, -, rfl⟩ := checkJwtCredential_eq_ok.mp hchecked'
  rfl

/-- The key a token is looked up by is the key of its form. -/
theorem formKey_token {now : ℚ} {jwt key : JsString} {prepared : PreparedVcJwt}
    (h : prepareVcJwtCredential config.runtime now jwt = .ok (.ok prepared))
    (hkey : Untrusted.cacheKeyForJwt config.runtime jwt prepared.vc = .ok key) :
    config.formKey (.token jwt) = some key := by
  obtain ⟨header, payload, kid, hparsed, -, -, hchecked⟩ := prepareVcJwtCredential_eq_ok.mp h
  obtain ⟨-, -, rfl⟩ := checkJwtCredential_eq_ok.mp hchecked
  exact Option.bind_eq_some_iff.mpr ⟨_, hparsed, toOption_eq_some.mpr hkey⟩

/-- A valid signature of one form is a valid signature of the same form. -/
theorem checks_of_sameForm (hreads : ReadsValues config) {form form' : Form}
    {result : Verification} (hsame : SameForm config.runtime.numbers form form')
    (h : config.Checks form result) (hvalid : result.valid = true) :
    ∃ result', config.Checks form' result' ∧ result'.valid = true := by
  cases form with
  | credential vc =>
      cases form' with
      | credential vc' =>
          have hverified : Verified config vc.value := verified_of_valid (h.symm ▸ hvalid)
          exact ⟨_, rfl, (hverified.of_alike hreads hsame).valid⟩
      | token jwt' => exact hsame.elim
  | token jwt =>
      cases form' with
      | credential vc' => exact hsame.elim
      | token jwt' =>
          cases hsame
          exact ⟨result, h, hvalid⟩

end Forms

end KyaOs.CachingVerifier
