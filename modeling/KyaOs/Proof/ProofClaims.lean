import KyaOs.Audit.Digests
import KyaOs.Proof.Generator

/-!
# What a proof claims

`validateDetachedProof` reads back the proofs that are valid as values. The payload that the
JWS signs tells the metas of one key apart: every claim but `kid` is in it, and an optional
claim that is empty is the same as none.
-/

namespace KyaOs.Proof

open Js JsonValue Audit

/-- What `validateDetachedProof` asks of a meta. -/
structure ProofMeta.Valid (proofMeta : ProofMeta) : Prop where
  did : proofMeta.did ≠ []
  kid : proofMeta.kid ≠ []
  nonce : proofMeta.nonce ≠ []
  audience : proofMeta.audience ≠ []
  sessionId : proofMeta.sessionId ≠ []
  ts : 0 < proofMeta.ts
  requestHash : (digestPattern proofMeta.requestHash).isSome
  responseHash : ∀ digest ∈ proofMeta.responseHash, (digestPattern digest).isSome
  outcome : ∀ outcome ∈ proofMeta.outcome, outcome ∈ outcomes
  prf : ∀ prf ∈ proofMeta.prf, prf = responseProofProfileEnvelope

/-- The members of a meta as a value. -/
def ProofMeta.members (proofMeta : ProofMeta) : Members JsNumber :=
  (membersOf proofMeta.toValue).getD []

section Validation

variable {members : Members JsNumber} {field : String}

theorem nonEmptyText_eq_ok {value : JsString} : nonEmptyText members field = .ok value ↔
    members.lookup (js field) = some (.string value) ∧ value ≠ [] := by
  grind [nonEmptyText]

theorem optionalText_eq_ok {value : Option JsString} : optionalText members field = .ok value ↔
    members.lookup (js field) = value.map .string := by
  cases value <;> grind [optionalText]

theorem validateTs_eq_ok {ts : Nat} : validateTs members = .ok ts ↔
    members.lookup (js "ts") = some (.number (.ofNat ts)) ∧ 0 < ts := by
  unfold validateTs
  constructor
  · intro h
    split at h
    · rename_i x hx
      split at h
      · rename_i n hn
        obtain rfl := Except.ok.inj h
        exact ⟨by rw [hx, JsNumber.eq_ofNat_of_toInt? hn], n.succ_pos⟩
      · cases h
    · cases h
  · rintro ⟨hts, hpos⟩
    obtain ⟨n, rfl⟩ := Nat.exists_eq_add_one.mpr hpos
    rw [hts]
    simp only [JsNumber.toInt?_ofNat]

theorem hashText_eq_some {value : Option (JsonValue JsNumber)} {digest : Digest} :
    hashText value = some digest ↔
      value = some (.string digest) ∧ (digestPattern digest).isSome := by
  rcases value with _ | value
  · simp [hashText]
  · cases value <;> grind [hashText]

theorem validateRequestHash_eq_ok {digest : Digest} : validateRequestHash members = .ok digest ↔
    members.lookup (js "requestHash") = some (.string digest) ∧ (digestPattern digest).isSome := by
  rw [← hashText_eq_some]
  grind [validateRequestHash]

theorem validateResponseHash_eq_ok {value : Option Digest} :
    validateResponseHash members = .ok value ↔
      members.lookup (js "responseHash") = value.map .string ∧
        ∀ digest ∈ value, (digestPattern digest).isSome := by
  unfold validateResponseHash
  cases hlookup : members.lookup (js "responseHash") with
  | none => cases value <;> grind
  | some found => cases value <;> grind [hashText_eq_some]

theorem validateOutcome_eq_ok {value : Option JsString} : validateOutcome members = .ok value ↔
    members.lookup (js "outcome") = value.map .string ∧ ∀ outcome ∈ value, outcome ∈ outcomes := by
  cases value <;> grind [validateOutcome]

theorem validatePrf_eq_ok {value : Option JsString} : validatePrf members = .ok value ↔
    members.lookup (js "prf") = value.map .string ∧
      ∀ prf ∈ value, prf = responseProofProfileEnvelope := by
  simp only [Option.mem_def]
  cases value <;> grind [validatePrf]

/-- What is accepted is valid. -/
theorem valid_of_validateMeta {proofMeta : ProofMeta} (h : validateMeta members = .ok proofMeta) :
    proofMeta.Valid := by
  simp only [validateMeta, bind_eq_ok] at h
  obtain ⟨did, hdid, kid, hkid, nonce, hnonce, audience, haudience, sessionId, hsession, ts, hts,
    requestHash, hrequest, responseHash, hresponse, _, -, _, -, _, -, _, -, outcome, houtcome,
    prf, hprf, hmeta⟩ := h
  obtain rfl := Except.ok.inj hmeta
  exact {
    did := (nonEmptyText_eq_ok.mp hdid).2
    kid := (nonEmptyText_eq_ok.mp hkid).2
    nonce := (nonEmptyText_eq_ok.mp hnonce).2
    audience := (nonEmptyText_eq_ok.mp haudience).2
    sessionId := (nonEmptyText_eq_ok.mp hsession).2
    ts := (validateTs_eq_ok.mp hts).2
    requestHash := (validateRequestHash_eq_ok.mp hrequest).2
    responseHash := (validateResponseHash_eq_ok.mp hresponse).2
    outcome := (validateOutcome_eq_ok.mp houtcome).2
    prf := (validatePrf_eq_ok.mp hprf).2 }

theorem valid_of_validateDetachedProof {value : JsonValue JsNumber} {proof : DetachedProof}
    (h : validateDetachedProof value = .ok proof) : proof.proofMeta.Valid := by
  rw [validateDetachedProof] at h
  split at h
  · cases h
  · split at h
    · split at h
      · cases h
      · obtain ⟨proofMeta, hmeta, hproof⟩ := bind_eq_ok.mp h
        obtain rfl := Except.ok.inj hproof
        exact valid_of_validateMeta hmeta
    · cases h

theorem lookup_members (proofMeta : ProofMeta) :
    let claim := fun name => proofMeta.members.lookup (js name)
    claim "did" = some (.string proofMeta.did) ∧ claim "kid" = some (.string proofMeta.kid) ∧
      claim "ts" = some (.number (.ofNat proofMeta.ts)) ∧
      claim "nonce" = some (.string proofMeta.nonce) ∧
      claim "audience" = some (.string proofMeta.audience) ∧
      claim "sessionId" = some (.string proofMeta.sessionId) ∧
      claim "requestHash" = some (.string proofMeta.requestHash) ∧
      claim "responseHash" = proofMeta.responseHash.map .string ∧
      claim "prf" = proofMeta.prf.map .string ∧ claim "scopeId" = proofMeta.scopeId.map .string ∧
      claim "delegationRef" = proofMeta.delegationRef.map .string ∧
      claim "clientDid" = proofMeta.clientDid.map .string ∧
      claim "outcome" = proofMeta.outcome.map .string ∧
      claim "reason" = proofMeta.reason.map .string := by
  refine ⟨rfl, rfl, rfl, rfl, rfl, rfl, rfl, ?_, ?_, ?_, ?_, ?_, ?_, ?_⟩ <;>
  · simp +decide only [ProofMeta.members, membersOf, ProofMeta.toValue, Option.getD_some,
      List.lookup_append, lookup_optionalMember, if_true, if_false, Option.or_none]
    rfl

theorem validateMeta_members {proofMeta : ProofMeta} (h : proofMeta.Valid) :
    validateMeta proofMeta.members = .ok proofMeta := by
  obtain ⟨hdid, hkid, hts, hnonce, haudience, hsession, hrequest, hresponse, hprf, hscope,
    hdelegation, hclient, houtcome, hreason⟩ := lookup_members proofMeta
  rw [validateMeta, nonEmptyText_eq_ok.mpr ⟨hdid, h.did⟩, nonEmptyText_eq_ok.mpr ⟨hkid, h.kid⟩,
    nonEmptyText_eq_ok.mpr ⟨hnonce, h.nonce⟩, nonEmptyText_eq_ok.mpr ⟨haudience, h.audience⟩,
    nonEmptyText_eq_ok.mpr ⟨hsession, h.sessionId⟩, validateTs_eq_ok.mpr ⟨hts, h.ts⟩,
    validateRequestHash_eq_ok.mpr ⟨hrequest, h.requestHash⟩,
    validateResponseHash_eq_ok.mpr ⟨hresponse, h.responseHash⟩, optionalText_eq_ok.mpr hscope,
    optionalText_eq_ok.mpr hdelegation, optionalText_eq_ok.mpr hclient,
    optionalText_eq_ok.mpr hreason, validateOutcome_eq_ok.mpr ⟨houtcome, h.outcome⟩,
    validatePrf_eq_ok.mpr ⟨hprf, h.prf⟩]
  rfl

/-- A proof with a valid meta is read back. -/
theorem validateDetachedProof_toValue {proof : DetachedProof} (hjws : proof.jws ≠ [])
    (hvalid : proof.proofMeta.Valid) : validateDetachedProof proof.toValue = .ok proof := by
  obtain ⟨jws, proofMeta⟩ := proof
  obtain ⟨unit, rest, rfl⟩ := List.exists_cons_of_ne_nil hjws
  have hproofMeta : validateMeta proofMeta.members = .ok proofMeta := validateMeta_members hvalid
  change (do return DetachedProof.mk (unit :: rest) (← validateMeta proofMeta.members)) = _
  rw [hproofMeta]
  rfl

end Validation

/-- The meta without the optional claims that are empty. -/
def ProofMeta.withoutEmpty (proofMeta : ProofMeta) : ProofMeta :=
  { proofMeta with
    scopeId := proofMeta.scopeId.filter (· ≠ [])
    delegationRef := proofMeta.delegationRef.filter (· ≠ [])
    clientDid := proofMeta.clientDid.filter (· ≠ [])
    reason := proofMeta.reason.filter (· ≠ []) }

section Payload

variable {name : String} {value : Option JsString} {numbers : Doubles JsNumber}
  {a b proofMeta : ProofMeta}

theorem textMember_eq : textMember name value = optionalMember name (value.filter (· ≠ [])) :=
  rfl

theorem hashMember_eq :
    (value.map fun digest => (js name, JsonValue.string (D := JsNumber) digest)).toList =
      optionalMember name value :=
  rfl

/-- The members of a payload. -/
def ProofMeta.payload (proofMeta : ProofMeta) : Members JsNumber :=
  (membersOf (buildProofJwsPayload proofMeta)).getD []

theorem lookup_payload (proofMeta : ProofMeta) :
    let claim := fun name => proofMeta.payload.lookup (js name)
    claim "aud" = some (.string proofMeta.audience) ∧ claim "sub" = some (.string proofMeta.did) ∧
      claim "requestHash" = some (.string proofMeta.requestHash) ∧
      claim "responseHash" = proofMeta.responseHash.map .string ∧
      claim "ts" = some (.number (.ofNat proofMeta.ts)) ∧
      claim "nonce" = some (.string proofMeta.nonce) ∧
      claim "sessionId" = some (.string proofMeta.sessionId) ∧
      claim "scopeId" = (proofMeta.scopeId.filter (· ≠ [])).map .string ∧
      claim "delegationRef" = (proofMeta.delegationRef.filter (· ≠ [])).map .string ∧
      claim "clientDid" = (proofMeta.clientDid.filter (· ≠ [])).map .string ∧
      claim "outcome" = (proofMeta.outcome.filter (· ≠ [])).map .string ∧
      claim "reason" = (proofMeta.reason.filter (· ≠ [])).map .string ∧
      claim "prf" = (proofMeta.prf.filter (· ≠ [])).map .string := by
  have hresponse : proofMeta.payload.lookup (js "responseHash") =
      proofMeta.responseHash.map .string := by
    simp +decide only [ProofMeta.payload, membersOf, buildProofJwsPayload, Option.getD_some,
      hashMember_eq, textMember_eq, List.lookup_append, lookup_optionalMember, if_true, if_false,
      Option.or_none]
    exact Option.or_none
  refine ⟨rfl, rfl, rfl, hresponse, ?_, ?_, ?_, ?_, ?_, ?_, ?_, ?_, ?_⟩ <;>
  · simp +decide only [ProofMeta.payload, membersOf, buildProofJwsPayload, Option.getD_some,
      hashMember_eq, textMember_eq, List.lookup_append, lookup_optionalMember, if_true, if_false,
      Option.or_none]
    rfl

theorem keys_optionalMember : ((optionalMember name value).map Prod.fst).Sublist [js name] := by
  cases value with
  | none => exact List.nil_sublist _
  | some text => exact List.Sublist.refl _

theorem wellFormed_optionalMember : ∀ member ∈ optionalMember name value, member.2.WellFormed := by
  cases value with
  | none => nofun
  | some text => exact List.forall_mem_singleton.mpr (.string text)

theorem wellFormed_payload (proofMeta : ProofMeta) :
    (buildProofJwsPayload proofMeta).WellFormed := by
  have hnames : (["aud", "sub", "iss", "requestHash", "responseHash", "ts", "nonce", "sessionId",
      "scopeId", "delegationRef", "clientDid", "outcome", "reason", "prf"].map js).Nodup := by
    decide +kernel
  simp only [buildProofJwsPayload, hashMember_eq, textMember_eq]
  refine .object (hnames.sublist ?_) ?_
  · simp only [List.map_append]
    exact .append (.append (.append (.append (.append (.append (.append (.append (.refl _)
      keys_optionalMember) (.refl _)) keys_optionalMember) keys_optionalMember)
      keys_optionalMember) keys_optionalMember) keys_optionalMember) keys_optionalMember
  · simp only [List.forall_mem_append, List.forall_mem_cons]
    exact ⟨⟨⟨⟨⟨⟨⟨⟨⟨.string _, .string _, .string _, .string _, nofun⟩,
      wellFormed_optionalMember⟩, .number _, .string _, .string _, nofun⟩,
      wellFormed_optionalMember⟩, wellFormed_optionalMember⟩, wellFormed_optionalMember⟩,
      wellFormed_optionalMember⟩, wellFormed_optionalMember⟩, wellFormed_optionalMember⟩

/-- `===` tells the numbers of seconds apart. -/
def TellsApart (numbers : Doubles JsNumber) : Prop :=
  ∀ m n : Nat, numbers.strictEquals (.ofNat m) (.ofNat n) = true → m = n

theorem eq_of_same_texts {x y : Option JsString}
    (h : Option.Rel (Same numbers) (x.map .string) (y.map .string)) : x = y := by
  cases x <;> cases y <;> simp_all

theorem eq_of_same_seconds (htells : TellsApart numbers) {m n : Nat}
    (h : Same numbers (.number (.ofNat m)) (.number (.ofNat n))) : m = n := by
  have hnode := h []
  simp only [get?, Option.rel_some_some] at hnode
  cases hnode with
  | number hequal => exact htells m n hequal

theorem filter_of_valid {texts : List JsString} (hempty : [] ∉ texts)
    (h : ∀ text ∈ value, text ∈ texts) : value.filter (· ≠ []) = value := by
  cases value with
  | none => rfl
  | some text =>
      refine Option.filter_some_pos (decide_eq_true ?_)
      rintro rfl
      exact hempty (h [] rfl)

theorem ProofMeta.Valid.filter_outcome (h : proofMeta.Valid) :
    proofMeta.outcome.filter (· ≠ []) = proofMeta.outcome :=
  filter_of_valid (by decide) h.outcome

theorem ProofMeta.Valid.filter_prf (h : proofMeta.Valid) :
    proofMeta.prf.filter (· ≠ []) = proofMeta.prf := by
  have hempty : [] ∉ [responseProofProfileEnvelope] := by decide
  refine filter_of_valid hempty ?_
  intro prf hprf
  exact List.mem_singleton.mpr (h.prf prf hprf)

/-- Every claim is covered by the signature. -/
theorem withoutEmpty_eq_of_payload (hprints : numbers.Prints) (htells : TellsApart numbers)
    (ha : a.Valid) (hb : b.Valid) (hkid : a.kid = b.kid) {text : JsString}
    (htext : canonicalizeJson numbers (buildProofJwsPayload a) = .ok text)
    (htext' : canonicalizeJson numbers (buildProofJwsPayload b) = .ok text) :
    a.withoutEmpty = b.withoutEmpty := by
  have hsame : Same numbers (.object a.payload) (.object b.payload) :=
    ((canonicalizeJson_canonical hprints).1 _ _ (wellFormed_payload a) (wellFormed_payload b) _ _
      htext htext').mp rfl
  have hclaim : ∀ {name : String} {x y : Option (JsonValue JsNumber)},
      a.payload.lookup (js name) = x → b.payload.lookup (js name) = y →
        Option.Rel (Same numbers) x y := by
    rintro name _ _ rfl rfl
    exact same_object_iff.mp hsame (js name)
  have hrequired : ∀ {name : String} {s t : JsString},
      a.payload.lookup (js name) = some (.string s) →
        b.payload.lookup (js name) = some (.string t) → s = t :=
    fun hs ht => same_string.mp (Option.rel_some_some.mp (hclaim hs ht))
  have hoptional : ∀ {name : String} {x y : Option JsString},
      a.payload.lookup (js name) = x.map .string → b.payload.lookup (js name) = y.map .string →
        x = y :=
    fun hx hy => eq_of_same_texts (hclaim hx hy)
  obtain ⟨haud, hsub, hrequest, hresponse, hts, hnonce, hsession, hscope, hdelegation, hclient,
    houtcome, hreason, hprf⟩ := lookup_payload a
  obtain ⟨haud', hsub', hrequest', hresponse', hts', hnonce', hsession', hscope', hdelegation',
    hclient', houtcome', hreason', hprf'⟩ := lookup_payload b
  have hseconds := eq_of_same_seconds htells (Option.rel_some_some.mp (hclaim hts hts'))
  -- an outcome or a profile that is valid is not empty
  have houtcomes := hoptional houtcome houtcome'
  rw [ha.filter_outcome, hb.filter_outcome] at houtcomes
  have hprofiles := hoptional hprf hprf'
  rw [ha.filter_prf, hb.filter_prf] at hprofiles
  rw [ProofMeta.withoutEmpty, ProofMeta.withoutEmpty, ProofMeta.mk.injEq]
  exact ⟨hrequired hsub hsub', hkid, hseconds, hrequired hnonce hnonce', hrequired haud haud',
    hrequired hsession hsession', hrequired hrequest hrequest', hoptional hresponse hresponse',
    hoptional hscope hscope', hoptional hdelegation hdelegation', hoptional hclient hclient',
    houtcomes, hoptional hreason hreason', hprofiles⟩

end Payload

end KyaOs.Proof
