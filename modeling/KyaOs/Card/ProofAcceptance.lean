import KyaOs.Card.ProofVerification
import KyaOs.Concurrency.Gate
import KyaOs.Proof.ReplaySafety

/-!
# Acceptance of card proofs

An accepted proof has passed every check, and its claims are remembered for longer than
any verifier with the same skew accepts them. So no other call accepts the same claims,
and a call that leaves a mark on the cache is accepted.
-/

namespace KyaOs.Card

open Js Concurrency Expiry Providers Proof Audit

@[simp] theorem reason_eq_nil {text : String} {fails : Prop} [Decidable fails] :
    reason text fails = [] ↔ ¬ fails := by
  unfold reason
  split <;> simp [*]

namespace CardProofMeta

/-- The key of the claims' record in the cache. -/
def nonceKey (claims : CardProofMeta) : JsString := claims.did ++ 0 :: claims.nonce

/-- The end of the last second in which the claims can be accepted, in milliseconds. -/
def horizon (claims : CardProofMeta) (skew : ℚ) : ℚ := (claims.expires + skew + 1) * 1000

end CardProofMeta

/-- The skew of every call, in seconds. -/
def HasSkew (skewSec : Option JsNumber) (skew : ℚ) : Prop :=
  skewSec.getD defaultSkewSec = .finite skew

section Checks

variable {skewSec : Option JsNumber} {claims : CardProofMeta} {now skew : ℚ}

/-- What `checkWindow` accepts: a short lifetime, and a second within it, up to the skew. -/
theorem window_of_checkWindow (hskew : HasSkew skewSec skew)
    (h : checkWindow skewSec claims now = []) :
    (claims.created < claims.expires ∧ claims.expires ≤ claims.created + maxTtlSec) ∧
      (claims.created : ℚ) - skew ≤ ⌊now / 1000⌋ ∧ (⌊now / 1000⌋ : ℚ) ≤ claims.expires + skew := by
  simp only [checkWindow, List.append_eq_nil_iff, reason_eq_nil] at h
  obtain ⟨⟨⟨horder, hshort⟩, hcreated⟩, hexpires⟩ := h
  rw [show skewSec.getD defaultSkewSec = .finite skew from hskew] at hcreated hexpires
  simp only [plus, minus, JsNumber.ltInt, JsNumber.gtInt, decide_eq_true_eq, not_lt,
    Int.cast_natCast] at hcreated hexpires
  refine ⟨⟨by omega, by omega⟩, by linarith, by linarith⟩

/-- Within the window the horizon is not reached. -/
theorem lt_horizon (h : (⌊now / 1000⌋ : ℚ) ≤ claims.expires + skew) :
    now < claims.horizon skew := by
  have hfloor := Int.lt_floor_add_one (now / 1000)
  rw [CardProofMeta.horizon]
  linarith

end Checks

section Acceptance

variable {K : Type} (crypto : CardCrypto K) (skewSec : Option JsNumber) (call : CardCall)
  (claims : CardProofMeta) (key : ProofPublicJwk)

/-- The key's thumbprint is that of a key the DID publishes, or the resolver is trusted. -/
def BoundToDid : Prop :=
  if call.deps.hasDidKeys then
    ∃ didKeys, call.seams.resolveDidKeys claims.did (.ok didKeys) ∧
      ∃ published ∈ didKeys, ∃ jkt, thumbprint crypto key = .ok jkt ∧
        thumbprint crypto published = .ok jkt
  else call.deps.trustResolveKeyAuthority = true

/-- What a proof has passed whose nonce is consumed. -/
structure Checked : Prop where
  parsed : cardProofMetaSchema call.proof = some claims
  kidDid : claims.kid.takeWhile (· ≠ 0x23) = claims.did
  resolved : call.seams.resolveKey claims.kid (.ok key)
  boundToDid : BoundToDid crypto call claims key
  matchesAlg : keyMatchesAlg key claims.alg = true
  audience : claims.audience = call.deps.expectedAudience
  requestHash : computeRequestHash crypto call.req = .ok claims.requestHash
  window : checkWindow skewSec claims call.deps.now = []
  signature : verifyDetachedJws crypto claims key = true

variable {crypto skewSec call claims key}

theorem boundToDid_of_membershipReasons {didKeys : List ProofPublicJwk}
    (hdidKeys : call.deps.hasDidKeys = true)
    (hresolved : call.seams.resolveDidKeys claims.did (.ok didKeys))
    (h : membershipReasons crypto key didKeys = []) : BoundToDid crypto call claims key := by
  rw [BoundToDid, if_pos hdidKeys]
  refine ⟨didKeys, hresolved, ?_⟩
  unfold membershipReasons isPublished at h
  cases hkey : thumbprint crypto key with
  | error thrown => simp [hkey, bind, Except.bind] at h
  | ok jkt =>
      cases hpublished : didKeys.mapM (thumbprint crypto) with
      | error thrown => simp [hkey, hpublished, bind, Except.bind] at h
      | ok published =>
          simp only [hkey, hpublished, bind, Except.bind, pure, Except.pure, reason_eq_nil,
            decide_eq_false_iff_not, not_not] at h
          obtain ⟨didKey, hmem, hjkt⟩ := exists_of_mapM_eq_ok hpublished h
          exact ⟨didKey, hmem, jkt, rfl, hjkt⟩

end Acceptance

section Code

variable {K : Type} (crypto : CardCrypto K) (skewSec : Option JsNumber) (call : CardCall)

/-- The consumption of the claims' nonce, before their horizon and to last until then. -/
def Consumes (claims : CardProofMeta) (request : CardRequest) : Prop :=
  ∃ skew minTtlSec, HasSkew skewSec skew ∧
    request = .consume claims.nonce claims.did minTtlSec ∧
    call.deps.now < claims.horizon skew ∧
    claims.horizon skew ≤ call.deps.now + minTtlSec * 1000

/-- The replay test decides a call. -/
def cardGate : Gate cardSetting where
  isGate
    | .consume .. => True
    | _ => False
  opens
    | .consume .., answer => answer = .ok true
    | _, _ => False
  permits
    | .resolveKey kid, answer => call.seams.resolveKey kid answer
    | .resolveDidKeys did, answer => call.seams.resolveDidKeys did answer
    | .settled, _ => True
    | .consume .., _ => True
  asks request := ∃ claims, cardProofMetaSchema call.proof = some claims ∧
    Consumes skewSec call claims request

def cardEnds : Ends cardSetting ProofVerifyResult where
  admitted _ result := ∃ claims key, Checked crypto skewSec call claims key ∧
    (checkCnfFusion crypto claims key call.deps).reasons = [] ∧
    result = .ok (conclude claims [] (checkCnfFusion crypto claims key call.deps))
  refused result := ∀ verdict, result = .ok verdict → verdict.ok = false

/-- The ends of the replay test itself. -/
def consumptionEnds : Ends cardSetting (List JsString) where
  admitted _ result := result = .ok []
  refused result := ∃ reasons, result = .ok reasons ∧ reasons ≠ []

variable {crypto skewSec call} {claims : CardProofMeta}

theorem gated_consumeNonce (hparsed : cardProofMetaSchema call.proof = some claims)
    (hwindow : checkWindow skewSec claims call.deps.now = []) :
    (consumeNonce skewSec claims call.deps).Gated (cardGate skewSec call) consumptionEnds := by
  unfold consumeNonce
  split
  · cases hretention : nonceRetentionSeconds (.ofNat 1)
        (plus (skewSec.getD defaultSkewSec) claims.expires) call.deps.now with
    | error thrown => exact ⟨_, rfl, List.cons_ne_nil _ _⟩
    | ok minTtlSec =>
        obtain ⟨bound, hbound, -, hlasts⟩ := nonceRetentionSeconds_eq_ok hretention
        cases hskew : skewSec.getD defaultSkewSec with
        | infinity negative => simp [hskew, plus] at hbound
        | nan => simp [hskew, plus] at hbound
        | finite skew =>
            rw [hskew, plus, JsNumber.finite.injEq] at hbound
            have hhorizon : claims.horizon skew ≤ call.deps.now + minTtlSec * 1000 := by
              rw [CardProofMeta.horizon, add_comm (claims.expires : ℚ) skew, hbound]
              exact hlasts
            have hlive := lt_horizon (window_of_checkWindow hskew hwindow).2.2
            refine ⟨fun _ => ⟨⟨claims, hparsed, skew, minTtlSec, hskew, rfl, hlive, hhorizon⟩, ?_⟩,
              fun hgate => absurd trivial hgate⟩
            intro answer
            refine ⟨?_, ?_⟩
            · intro hopens
              obtain rfl : answer = .ok true := hopens
              rfl
            · intro hshut
              rcases answer with thrown | _ | _
              · exact ⟨_, rfl, List.cons_ne_nil _ _⟩
              · exact ⟨_, rfl, List.cons_ne_nil _ _⟩
              · exact absurd rfl hshut
  · exact ⟨_, rfl, List.cons_ne_nil _ _⟩

theorem refused_conclude {reasons : List JsString} (fusion : CnfFusion) (h : reasons ≠ []) :
    (cardEnds crypto skewSec call).refused (.ok (conclude claims reasons fusion)) := by
  rintro verdict ⟨⟩
  rw [conclude, if_neg h]

/-- With a reason the call is refused; without one, the replay test decides. -/
theorem gated_claimNonce {reasons : List JsString} {fusion : CnfFusion}
    (hchecked : reasons = [] → ∃ key, Checked crypto skewSec call claims key ∧
      fusion = checkCnfFusion crypto claims key call.deps ∧ fusion.reasons = []) :
    (claimNonce skewSec claims call.deps reasons fusion).Gated (cardGate skewSec call)
      (cardEnds crypto skewSec call) := by
  by_cases hnone : reasons = []
  · obtain ⟨key, hkey, rfl, hfused⟩ := hchecked hnone
    rw [claimNonce, if_pos hnone]
    refine Async.Gated.andThen (gated_consumeNonce hkey.parsed hkey.window) ?_ ?_
    · rintro request result - rfl
      exact ⟨claims, key, hkey, hfused, rfl⟩
    · rintro result ⟨replayed, rfl, hreplayed⟩
      exact refused_conclude _ hreplayed
  · rw [claimNonce, if_neg hnone]
    exact refused_conclude fusion hnone

theorem decided_resolveKey (kid : JsString) : (resolveKey kid).Decided (cardGate skewSec call)
    fun result => result = .ok (none, [js "key_unresolvable"]) ∨
      ∃ key, result = .ok (some key, []) ∧ call.seams.resolveKey kid (.ok key) := by
  refine ⟨id, ?_⟩
  intro answer hanswer
  cases answer with
  | error thrown => exact .inl rfl
  | ok key => exact .inr ⟨key, rfl, hanswer⟩

theorem decided_settled : (reply .settled).Decided (cardGate skewSec call) fun _ => True :=
  ⟨id, fun _ _ => trivial⟩

theorem decided_resolveDidKeys (did : JsString) :
    (resolveDidKeys did).Decided (cardGate skewSec call) fun result => result = .ok none ∨
      ∃ didKeys, result = .ok (some didKeys) ∧ call.seams.resolveDidKeys did (.ok didKeys) := by
  refine ⟨id, ?_⟩
  intro answer hanswer
  cases answer with
  | error thrown => exact .inl rfl
  | ok didKeys => exact .inr ⟨didKeys, rfl, hanswer⟩

/-- No reason is found only where the key is bound to the DID. -/
theorem decided_assertDidMembership (key : ProofPublicJwk) :
    (assertDidMembership crypto key claims.did call.deps).Decided (cardGate skewSec call)
      fun result => ∀ reasons, result = .ok reasons → reasons = [] →
        BoundToDid crypto call claims key := by
  unfold assertDidMembership
  by_cases hdidKeys : call.deps.hasDidKeys = true
  · rw [if_pos hdidKeys]
    refine (decided_resolveDidKeys claims.did).bind ?_ (fun _ _ => nofun)
    rintro resolved (hnone | ⟨didKeys, hsome, hpublished⟩)
    · obtain rfl := Except.ok.inj hnone
      rintro reasons ⟨⟩ hempty
      cases hempty
    · obtain rfl := Except.ok.inj hsome
      refine decided_settled.bind ?_ (fun _ _ => nofun)
      rintro - - reasons ⟨⟩ hempty
      exact boundToDid_of_membershipReasons hdidKeys hpublished hempty
  · rw [if_neg hdidKeys]
    rintro reasons ⟨⟩ hempty
    rw [BoundToDid, if_neg hdidKeys]
    simpa using hempty

theorem gated_verifyClaims (hparsed : cardProofMetaSchema call.proof = some claims) :
    (verifyClaims crypto skewSec claims call.req call.deps).Gated (cardGate skewSec call)
      (cardEnds crypto skewSec call) := by
  refine Async.Gated.bind (decided_resolveKey claims.kid) ?_ (fun _ _ => nofun)
  intro resolved hresolved
  cases hhash : computeRequestHash crypto call.req with
  | error thrown => nofun
  | ok computedHash =>
      cases hresolved with
      | inl hnone =>
          obtain rfl := Except.ok.inj hnone
          refine Async.Gated.check rfl (gated_claimNonce ?_)
          intro hempty
          simp at hempty
      | inr hsome =>
          obtain ⟨key, hkey, hseam⟩ := hsome
          obtain rfl := Except.ok.inj hkey
          refine Async.Gated.check rfl ?_
          refine Async.Gated.bind (decided_assertDidMembership key) ?_ (fun _ _ => nofun)
          intro unbound hunbound
          refine Async.Gated.bind decided_settled ?_ (fun _ _ => nofun)
          intro _ _
          refine gated_claimNonce ?_
          intro hempty
          simp only [boundReasons, algReasons, signatureReasons, List.append_eq_nil_iff,
            reason_eq_nil, not_not, not_and, Bool.not_eq_false] at hempty
          obtain ⟨⟨⟨⟨hforeign, -⟩, hbound⟩, ⟨⟨⟨halg, haudience⟩, hrequest⟩, hwindow⟩,
            hsignature⟩, hfusion⟩ := hempty
          refine ⟨key, ?_, rfl, hfusion⟩
          exact {
            parsed := hparsed
            kidDid := hforeign
            resolved := hseam
            boundToDid := hunbound unbound rfl hbound
            matchesAlg := halg
            audience := haudience
            requestHash := hhash.trans (congrArg Except.ok hrequest.symm)
            window := hwindow
            signature := hsignature halg }

theorem gated_verifyCardProof :
    (verifyCardProof crypto skewSec call.proof call.req call.deps).Gated (cardGate skewSec call)
      (cardEnds crypto skewSec call) := by
  cases hparsed : cardProofMetaSchema call.proof with
  | none =>
      rw [verifyCardProof, hparsed]
      rintro verdict ⟨⟩
      rfl
  | some claims =>
      rw [verifyCardProof, hparsed]
      exact gated_verifyClaims hparsed

end Code

/-- The covered claims of a well-formed proof. -/
def CardCall.coveredClaims? (call : CardCall) : Option (JsonValue JsNumber) :=
  (cardProofMetaSchema call.proof).map coveredClaims

/-- The same claims have the same record in the cache, and the same horizon. -/
theorem eq_of_coveredClaims_eq {claims claims' : CardProofMeta}
    (h : coveredClaims claims = coveredClaims claims') :
    claims.nonceKey = claims'.nonceKey ∧ claims.expires = claims'.expires := by
  simp only [coveredClaims, JsonValue.object.injEq, List.cons_append, List.cons.injEq,
    Prod.mk.injEq, true_and, JsonValue.string.injEq, JsonValue.number.injEq, JsNumber.ofNat,
    JsNumber.finite.injEq, Nat.cast_inj] at h
  obtain ⟨-, -, hdid, -, -, hnonce, -, hexpires, -⟩ := h
  exact ⟨by rw [CardProofMeta.nonceKey, CardProofMeta.nonceKey, hdid, hnonce], hexpires⟩

/-- The claims of every admitted call are remembered up to their horizon, and none were
admitted twice. -/
structure Retained (skewSec : Option JsNumber) {ι : Type} (calls : ι → CardCall)
    (world : CardWorld) (admitted : List ι) : Prop where
  remembers : ∀ c ∈ admitted, ∃ claims, cardProofMetaSchema (calls c).proof = some claims ∧
    ∀ skew, HasSkew skewSec skew →
      world.nonceCache.seen.Remembers world.now claims.nonceKey (claims.horizon skew)
  once : ∀ c ∈ admitted, ∀ c' ∈ admitted,
    (calls c).coveredClaims? = (calls c').coveredClaims? → c = c'

section Runs

variable {K : Type} {crypto : CardCrypto K} {skewSec : Option JsNumber} {ttlSec : JsNumber}
  {ι : Type} {calls : ι → CardCall} {world world' : CardWorld} {admitted : List ι} {c : ι}

/-- An admitted call's claims were not admitted before. -/
theorem Retained.unseen (h : Retained skewSec calls world admitted) {claims : CardProofMeta}
    (hparsed : cardProofMetaSchema (calls c).proof = some claims) {now skew : ℚ}
    (hskew : HasSkew skewSec skew) (hnow : world.now ≤ now) (hlive : now < claims.horizon skew)
    (hvacant : world.nonceCache.seen.Vacant now claims.nonceKey) {earlier : ι}
    (hearlier : earlier ∈ admitted) :
    (calls earlier).coveredClaims? ≠ (calls c).coveredClaims? := by
  intro hsame
  obtain ⟨found, hfound, hremembers⟩ := h.remembers earlier hearlier
  simp only [CardCall.coveredClaims?, hfound, hparsed, Option.map_some, Option.some.injEq] at hsame
  obtain ⟨hkey, hexpires⟩ := eq_of_coveredClaims_eq hsame
  have hhorizon : found.horizon skew = claims.horizon skew := by
    rw [CardProofMeta.horizon, CardProofMeta.horizon, hexpires]
  have hkept := hremembers skew hskew
  rw [hkey, hhorizon] at hkept
  exact (hkept.later hnow).not_vacant hlive hvacant

/-- An admission, at an instant no earlier than those before it. -/
theorem Retained.concat (h : Retained skewSec calls world admitted) {claims : CardProofMeta}
    (hparsed : cardProofMetaSchema (calls c).proof = some claims) {now skew minTtlSec : ℚ}
    (hskew : HasSkew skewSec skew) (hnow : world.now ≤ now) (hlive : now < claims.horizon skew)
    (hlasts : claims.horizon skew ≤ now + minTtlSec * 1000)
    (hconsumed : (world.nonceCache.consume ttlSec now claims.nonce claims.did minTtlSec).1 =
      .ok true)
    (hcache : world'.nonceCache =
      (world.nonceCache.consume ttlSec now claims.nonce claims.did minTtlSec).2)
    (hclock : world'.now = now) : Retained skewSec calls world' (admitted ++ [c]) := by
  obtain ⟨hvacant, ttl, httl, hinserted⟩ := InMemoryNonceCache.consume_eq_true hconsumed
  rw [hinserted] at hcache
  have hunseen : ∀ earlier ∈ admitted, (calls earlier).coveredClaims? ≠ (calls c).coveredClaims? :=
    fun _ => h.unseen hparsed hskew hnow hlive hvacant
  refine ⟨?_, ?_⟩
  · intro other hother
    rw [hcache, hclock]
    cases List.mem_append.mp hother with
    | inl hold =>
        obtain ⟨found, hfound, hremembers⟩ := h.remembers other hold
        refine ⟨found, hfound, ?_⟩
        intro skew' hskew'
        exact InMemoryNonceCache.remembers_insert
          (((hremembers skew' hskew').later hnow).write hvacant)
    | inr hsame =>
        obtain rfl := List.mem_singleton.mp hsame
        refine ⟨claims, hparsed, ?_⟩
        intro skew' hskew'
        obtain rfl := JsNumber.finite.inj (hskew.symm.trans hskew')
        exact InMemoryNonceCache.remembers_insert (.written (by linarith))
  · intro left hleft right hright hsame
    simp only [List.mem_append, List.mem_singleton] at hleft hright
    obtain hleft | rfl := hleft
    · obtain hright | rfl := hright
      · exact h.once left hleft right hright hsame
      · exact absurd hsame (hunseen left hleft)
    · obtain hright | rfl := hright
      · exact absurd hsame.symm (hunseen right hright)
      · rfl

/-- What is no admission leaves the cache, and only moves the clock on. -/
theorem serves_unchanged {request : CardRequest} {answer : Except Error request.Answer}
    (h : (cardProgram crypto skewSec ttlSec calls).serves c request world answer world')
    (hshut : (cardGate skewSec (calls c)).isGate request →
      ¬ (cardGate skewSec (calls c)).opens request answer) :
    world'.nonceCache = world.nonceCache ∧ world.now ≤ world'.now := by
  cases request with
  | resolveKey kid => exact h.2 ▸ ⟨rfl, le_rfl⟩
  | resolveDidKeys did => exact h.2 ▸ ⟨rfl, le_rfl⟩
  | settled => exact h.2 ▸ ⟨rfl, le_rfl⟩
  | consume nonce did minTtlSec =>
      obtain ⟨hnow, hconsumed, hclock⟩ := h
      obtain ⟨rfl, hcache⟩ := Prod.mk.inj hconsumed
      exact ⟨hcache.trans (InMemoryNonceCache.consume_unchanged (hshut trivial)),
        hclock ▸ hnow⟩

theorem cardGuards : Concurrency.Guards (cardProgram crypto skewSec ttlSec calls)
    (fun c => cardGate skewSec (calls c)) (fun c => cardEnds crypto skewSec (calls c))
    (Retained skewSec calls) where
  code c := gated_verifyCardProof
  permits c request world answer world' hserves := by
    cases request with
    | resolveKey kid => exact hserves.1
    | resolveDidKeys did => exact hserves.1
    | settled => trivial
    | consume nonce did minTtlSec => trivial
  passes := by
    rintro c _ world answer world' admitted hkept - hserves -
      ⟨claims, hparsed, skew, minTtlSec, hskew, rfl, hlive, hlasts⟩ rfl
    obtain ⟨hnow, hconsumed, hclock⟩ := hserves
    obtain ⟨hanswer, hcache⟩ := Prod.mk.inj hconsumed
    exact hkept.concat hparsed hskew hnow hlive hlasts hanswer.symm hcache hclock
  serves := by
    intro c request world answer world' admitted hkept hserves hshut
    obtain ⟨hcache, hnow⟩ := serves_unchanged hserves hshut
    refine ⟨?_, hkept.once⟩
    intro other hother
    obtain ⟨claims, hparsed, hremembers⟩ := hkept.remembers other hother
    refine ⟨claims, hparsed, ?_⟩
    intro skew hskew
    rw [hcache]
    exact (hremembers skew hskew).later hnow
  environment _ _ _ _ hstep := hstep.elim

end Runs

section Sound

variable {K : Type} (crypto : CardCrypto K) (Signed : K → JsString → Prop)
  (skewSec : Option JsNumber)

/-- What an `ok` verdict on a proof says. `Signed pub payload` says that `pub`'s holder
signed the payload. -/
structure Accepted (call : CardCall) (verdict : ProofVerifyResult) (claims : CardProofMeta)
    (key : ProofPublicJwk) : Prop where
  parsed : cardProofMetaSchema call.proof = some claims
  kidDid : claims.kid.takeWhile (· ≠ 0x23) = claims.did
  resolved : call.seams.resolveKey claims.kid (.ok key)
  boundToDid : BoundToDid crypto call claims key
  matchesAlg : keyMatchesAlg key claims.alg = true
  audience : claims.audience = call.deps.expectedAudience
  requestHash : computeRequestHash crypto call.req = .ok claims.requestHash
  lifetime : claims.created < claims.expires ∧ claims.expires ≤ claims.created + maxTtlSec
  /-- The clock is read to the second. -/
  window : ∃ skew, HasSkew skewSec skew ∧
    (claims.created : ℚ) - skew ≤ ⌊call.deps.now / 1000⌋ ∧
    (⌊call.deps.now / 1000⌋ : ℚ) ≤ claims.expires + skew
  signed : ∃ pub payload, crypto.importJWK (toJwk key) claims.alg = .ok pub ∧
    canonicalPayloadBytes crypto claims = .ok payload ∧
    Signed pub (base64urlEncodeFromBytes payload)
  level : verdict.level = some .L3 → ∃ jkt, call.deps.tokenCnfJkt = some jkt ∧
    claims.cnf = some jkt ∧ thumbprint crypto key = .ok jkt

variable {crypto Signed skewSec} {call : CardCall} {claims : CardProofMeta}
  {key : ProofPublicJwk}

theorem signed_of_verifyDetachedJws
    (hsigned : ∀ jws pub alg, crypto.flattenedVerify jws pub alg = .ok () → Signed pub jws.payload)
    (h : verifyDetachedJws crypto claims key = true) :
    ∃ pub payload, crypto.importJWK (toJwk key) claims.alg = .ok pub ∧
      canonicalPayloadBytes crypto claims = .ok payload ∧
      Signed pub (base64urlEncodeFromBytes payload) := by
  unfold verifyDetachedJws at h
  split at h
  · cases h
  · rename_i encodedHeader signature _
    simp only [Bool.and_eq_true, decide_eq_true_eq, toOption_eq_some] at h
    obtain ⟨pub, hpub, hunder⟩ := bind_eq_ok.mp h.2
    obtain ⟨small, -, hunder⟩ := bind_eq_ok.mp hunder
    cases small with
    | true => cases hunder
    | false =>
        obtain ⟨payload, hpayload, hunder⟩ := bind_eq_ok.mp hunder
        obtain ⟨verified, hverified, -⟩ := bind_eq_ok.mp hunder
        exact ⟨pub, payload, hpub, hpayload, hsigned _ pub claims.alg hverified⟩

theorem fused_of_level (h : (checkCnfFusion crypto claims key call.deps).level = .L3) :
    ∃ jkt, call.deps.tokenCnfJkt = some jkt ∧ claims.cnf = some jkt ∧
      thumbprint crypto key = .ok jkt := by
  unfold checkCnfFusion at h
  split at h
  · cases h
  · rename_i keyJkt hkey
    split at h
    · cases h
    · cases h
    · rename_i token jkt htoken hcnf
      split at h
      · cases h
      · rename_i hsame
        obtain rfl : jkt = token := not_not.mp hsame
        by_cases hfused : jkt = keyJkt
        · exact ⟨jkt, htoken, hcnf, hfused ▸ hkey⟩
        · simp [hfused] at h

theorem Checked.accepted (h : Checked crypto skewSec call claims key)
    (hsigned : ∀ jws pub alg, crypto.flattenedVerify jws pub alg = .ok () → Signed pub jws.payload)
    {skew : ℚ} (hskew : HasSkew skewSec skew) : Accepted crypto Signed skewSec call
      (conclude claims [] (checkCnfFusion crypto claims key call.deps)) claims key :=
  have hwindow := window_of_checkWindow hskew h.window
  { h with
    lifetime := hwindow.1
    window := ⟨skew, hskew, hwindow.2⟩
    signed := signed_of_verifyDetachedJws hsigned h.signature
    level := fun hlevel => fused_of_level (Option.some.inj hlevel) }

variable {ttlSec : JsNumber} {ι : Type} {calls : ι → CardCall}

/-- A call returns `ok`. -/
def ReturnsOk (config : Config cardSetting ι ProofVerifyResult) (c : ι) : Prop :=
  ∃ born verdict, config.calls c = some ⟨born, .finished (.ok verdict)⟩ ∧ verdict.ok = true

end Sound

def sampleKey : ProofPublicJwk where
  kty := js "OKP"
  crv := js "Ed25519"
  x := js "A6EHv_POEL4dcN0Y50vAmWfk1jCbpQ1fHdyGZBJVMbg"

/-- `{"alg":"EdDSA","kid":"did:web:a#k"}`, encoded. -/
def sampleHeader : JsString := js "eyJhbGciOiJFZERTQSIsImtpZCI6ImRpZDp3ZWI6YSNrIn0"

def sampleSignature : JsString :=
  js "SIOwdSwYhjAlUR9ebOwOG1VaZpwKo1ktLG1GksQKVZ7ozT8_thi8fOOPjXvSUj4cLEGMhYq4LOtMRzEi4Z80DA"

def sampleRequestHash : JsString := js "sha-256=:LrFuMcAYKlvfKAC0vv+yrPUJveEWBL0Ie7MTcC7N3Mk=:"

def sampleClaims : CardProofMeta where
  prf := js "org.kya-os/proof.v1"
  alg := .EdDSA
  did := js "did:web:a"
  kid := js "did:web:a#k"
  audience := js "did:web:b"
  nonce := js "n"
  created := 1
  expires := 61
  requestHash := sampleRequestHash
  jws := sampleHeader ++ js ".." ++ sampleSignature

def sampleProof : JsonValue JsNumber :=
  .object [(js "prf", .string sampleClaims.prf), (js "alg", .string (js "EdDSA")),
    (js "did", .string sampleClaims.did), (js "kid", .string sampleClaims.kid),
    (js "audience", .string sampleClaims.audience), (js "nonce", .string sampleClaims.nonce),
    (js "created", .number (.ofNat 1)), (js "expires", .number (.ofNat 61)),
    (js "requestHash", .string sampleClaims.requestHash), (js "jws", .string sampleClaims.jws)]

/-- The canonical text of the sample's covered claims. -/
def sampleClaimsText : JsString :=
  js "\x7b\"alg\":\"EdDSA\",\"audience\":\"did:web:b\",\"created\":1,\"did\":\"did:web:a\"," ++
    js "\"expires\":61,\"kid\":\"did:web:a#k\",\"nonce\":\"n\",\"prf\":\"org.kya-os/proof.v1\"," ++
    js "\"requestHash\":\"" ++ sampleRequestHash ++ js "\"\x7d"

/-- The canonical text of the sample's request. -/
def sampleRequestText : JsString := js "\x7b\"method\":\"ping\"\x7d"

/-- The SHA-256 digest of that text. -/
def sampleRequestDigest : Bytes :=
  [46, 177, 110, 49, 192, 24, 42, 91, 223, 40, 0, 180, 190, 255, 178, 172, 245, 9, 189, 225, 22,
    4, 189, 8, 123, 179, 19, 112, 46, 205, 220, 201]

def samplePayload : JsString := base64urlEncodeFromBytes (encodeUtf8 sampleClaimsText)

/-- The libraries, on what the sample asks of them. -/
def sampleCrypto : CardCrypto JoseJwk where
  canonicalize
    | .object members =>
      if (members.lookup (js "prf")).isSome then .ok sampleClaimsText else .ok sampleRequestText
    | _ => .error .nonError
  sha256 _ := .ok sampleRequestDigest
  calculateJwkThumbprint _ := .ok (js "1IG2tMH7J2wbJZnOf8LJzQitKf7LMvoAElsuDMVM54Y")
  importJWK jwk _ := .ok jwk
  isSmallOrderEd25519CryptoKey _ := .ok false
  flattenedVerify jws pub _ :=
    if jws.encodedHeader = sampleHeader ∧ jws.payload = samplePayload ∧
        jws.signature = sampleSignature ∧ pub = toJwk sampleKey then .ok ()
    else .error (.error (js "signature verification failed"))
  base64urlDecodeToString _ := .ok (js "\x7b\"alg\":\"EdDSA\",\"kid\":\"did:web:a#k\"\x7d")
  numbers := sampleNumbers

/-- The sample's key has signed its claims, and nothing else. -/
def SampleSigned (pub : JoseJwk) (payload : JsString) : Prop :=
  pub = toJwk sampleKey ∧ payload = samplePayload

theorem sampleCrypto_signed (jws : FlattenedJws) (pub : JoseJwk) (alg : ProofAlg)
    (h : sampleCrypto.flattenedVerify jws pub alg = .ok ()) : SampleSigned pub jws.payload := by
  by_cases hsigned : jws.encodedHeader = sampleHeader ∧ jws.payload = samplePayload ∧
      jws.signature = sampleSignature ∧ pub = toJwk sampleKey
  · exact ⟨hsigned.2.2.2, hsigned.2.1⟩
  · simp [sampleCrypto, hsigned] at h

/-- The same proof, twice. -/
def sampleCalls : Bool → CardCall := fun _ =>
  { proof := sampleProof
    req := { method := js "ping", params := none }
    deps := { expectedAudience := js "did:web:b", now := 1000 }
    seams := {
      resolveKey := fun _ answer => answer = .ok sampleKey
      resolveDidKeys := fun _ answer => answer = .ok [sampleKey] } }

def sampleWorld : CardWorld where
  nonceCache := { seen := fun _ => none }
  now := 1000

def sampleConsumption : CardRequest :=
  .consume sampleClaims.nonce sampleClaims.did 66

/-- What a call with the sample's proof returns as the cache admits its nonce. -/
def sampleVerdict (admitted : Bool) : ProofVerifyResult :=
  conclude sampleClaims (reason "nonce_replayed" (admitted = false))
    (checkCnfFusion sampleCrypto sampleClaims sampleKey (sampleCalls true).deps)

def CardWorld.afterSample (world : CardWorld) : CardWorld :=
  ⟨(world.nonceCache.consume (.ofNat 71) 1000 sampleClaims.nonce sampleClaims.did 66).2, 1000⟩

/-- The sample's nonce is admitted, and refused while it is remembered. -/
theorem sampleConsumptions :
    (sampleWorld.nonceCache.consume (.ofNat 71) 1000 sampleClaims.nonce sampleClaims.did 66).1 =
        .ok true ∧
      (sampleWorld.afterSample.nonceCache.consume (.ofNat 71) 1000 sampleClaims.nonce
        sampleClaims.did 66).1 = .ok false := by
  decide +kernel

/-- Either call finds nothing wrong and comes to its consumption, which decides it. -/
theorem sampleCall_pauses (c admitted : Bool) (resumed : CardWorld) :
    Async.Leads.Pauses ((cardProgram sampleCrypto none (.ofNat 71) sampleCalls).serves c)
      (verifyCardProof sampleCrypto none sampleProof (sampleCalls c).req (sampleCalls c).deps)
      sampleWorld sampleWorld sampleConsumption (.ok admitted) resumed resumed
      (.finished (.ok (sampleVerdict admitted))) := by
  have hparsed : cardProofMetaSchema sampleProof = some sampleClaims := by decide +kernel
  have hhash : computeRequestHash sampleCrypto (sampleCalls true).req = .ok sampleRequestHash := by
    decide +kernel
  have hmember : membershipReasons sampleCrypto sampleKey [sampleKey] = [] := by decide +kernel
  have hsignature : signatureReasons sampleCrypto sampleClaims sampleKey = [] := by decide +kernel
  have hbound : boundReasons none sampleClaims sampleRequestHash (sampleCalls true).deps
      (algReasons sampleClaims sampleKey) [] = [] := by decide +kernel
  have hfusion : (checkCnfFusion sampleCrypto sampleClaims sampleKey
      (sampleCalls true).deps).reasons = [] := by decide +kernel
  have hretention : nonceRetentionSeconds (.ofNat 1)
      (plus (Option.getD none defaultSkewSec) sampleClaims.expires) 1000 = .ok 66 := by
    decide +kernel
  have hsame : sampleCalls c = sampleCalls true := rfl
  rw [verifyCardProof, hparsed, hsame]
  refine .after (.tryCatch_ok (.ask_bind ⟨rfl, rfl⟩ .done)) (.check hhash ?_)
  refine .after (.bind (.tryCatch_ok (.ask_bind ⟨rfl, rfl⟩ .done)) (.ask_bind ⟨rfl, rfl⟩ .done)) ?_
  refine .after (.ask ⟨rfl, rfl⟩) ?_
  rw [hmember, hsignature, hbound]
  simp only [hfusion]
  rw [claimNonce, if_pos (by decide +kernel)]
  exact .bind (.tryCatch_ok (.check hretention (.bind .ask .done))) .done

end KyaOs.Card
