import KyaOs.Concurrency.Gate
import KyaOs.Concurrency.Solo
import KyaOs.Proof.Verifier

/-!
# Replays of a proof

An admitted nonce is remembered to the end of the proof's retention, so a proof that is
consumed in time is admitted once. The timestamp is tested earlier in the call than the
nonce is consumed, and the clock may pass the end of the retention in between: the tests
of two calls then both hold, and each consumption finds no record of the other.
-/

namespace KyaOs.Proof

open Js Concurrency Providers Expiry Audit

/-- The end of a proof's retention, in milliseconds, under the skew now set. -/
def ProofWorld.retentionEnd (world : ProofWorld) (timestamp : Nat) : ℚ :=
  (timestamp + max world.timestampSkewSeconds maxClockSkewSeconds + 1) * 1000

/-- The nonce is consumed last, for the proof's own meta. -/
def proofGate (call : ProofCall) : Gate proofSetting where
  isGate
    | .consumeNonce .. => True
    | _ => False
  opens
    | .consumeNonce .., answer => answer = .ok true
    | _, _ => False
  permits _ _ := True
  asks request := ∃ proofMeta, call.proofMeta? = some proofMeta ∧
    request = .consumeNonce proofMeta.nonce proofMeta.did proofMeta.ts

def proofEnds : Ends proofSetting ProofVerificationResult where
  admitted _ result := result = .ok .valid
  refused result := result ≠ .ok .valid

section Code

variable {config : ProofVerifierConfig} {call : ProofCall}

/-- Code before the gate, whatever it comes to. -/
abbrev Checks {α : Type} (call : ProofCall) (check : ProofM α) : Prop :=
  check.Decided (proofGate call) fun _ => True

theorem checks_ofExcept {α : Type} (result : Except Error α) :
    Checks call (Async.ofExcept result : ProofM α) :=
  trivial

theorem checks_settled : Checks call (await .settled) :=
  ⟨id, fun _ _ => trivial⟩

theorem checks_validateTimestamp (timestamp : Nat) :
    Checks call (validateTimestamp config timestamp) := by
  intro world
  exact checks_settled.bind (fun _ _ => trivial) fun _ _ => trivial

theorem checks_verifySignature (jws : JsString) (publicKeyJwk : Ed25519JWK) (payload : Bytes)
    (expectedKid : JsString) :
    Checks call (verifySignature jws publicKeyJwk payload expectedKid) := by
  refine ⟨id, ?_⟩
  intro answer _
  rcases answer with _ | _ | _ <;> trivial

theorem checks_validateContentBinding (proofMeta : ProofMeta)
    (expected : Option ExpectedContent) :
    Checks call (validateContentBinding config proofMeta expected) := by
  cases expected with
  | none => trivial
  | some expected =>
      refine checks_settled.bind ?_ fun _ _ => trivial
      intro _ _
      exact (checks_ofExcept _).bind (fun _ _ => trivial) fun _ _ => trivial

theorem gated_ifValid {check next : ProofM ProofVerificationResult} (hcheck : Checks call check)
    (hnext : next.Gated (proofGate call) proofEnds) :
    (ifValid check next).Gated (proofGate call) proofEnds := by
  refine Async.Gated.bind hcheck ?_ nofun
  intro result _
  by_cases hvalid : result = .valid
  · simpa only [hvalid, if_true] using hnext
  · simp only [hvalid, if_false]
    intro hsame
    exact hvalid (Except.ok.inj hsame)

/-- The nonce decides the call. -/
theorem gated_consumeNonce {proofMeta : ProofMeta} (h : call.proofMeta? = some proofMeta) :
    (consumeNonce proofMeta.nonce proofMeta.did proofMeta.ts).Gated (proofGate call)
      proofEnds := by
  refine ⟨fun _ => ⟨⟨proofMeta, h, rfl⟩, ?_⟩, fun hgate => absurd trivial hgate⟩
  intro answer
  refine ⟨?_, ?_⟩
  · intro hopens
    obtain rfl : answer = .ok true := hopens
    rfl
  · intro hshut
    rcases answer with thrown | _ | _
    · nofun
    · nofun
    · exact absurd rfl hshut

theorem gated_runVerificationPipeline {proof : DetachedProof} (publicKeyJwk : Ed25519JWK)
    (payload : Bytes) (expected : Option ExpectedContent) (options : ProofVerificationOptions)
    (h : call.proofMeta? = some proof.proofMeta) :
    (runVerificationPipeline config proof publicKeyJwk payload expected options).Gated
      (proofGate call) proofEnds := by
  apply gated_ifValid (checks_ofExcept (.ok _))
  apply gated_ifValid (checks_validateTimestamp _)
  apply gated_ifValid (checks_verifySignature _ _ _ _)
  apply gated_ifValid (checks_validateContentBinding _ _)
  exact gated_consumeNonce h

theorem gated_withValidatedProof
    {next : DetachedProof → Bytes → ProofM ProofVerificationResult}
    (hnext : ∀ proof payload, call.proofMeta? = some proof.proofMeta →
      (next proof payload).Gated (proofGate call) proofEnds) :
    (withValidatedProof config call.proof next).Gated (proofGate call) proofEnds := by
  have hvalidated : (verifyValidated config next (validateDetachedProof call.proof)).Gated
      (proofGate call) proofEnds := by
    cases hproof : validateDetachedProof call.proof with
    | error message =>
        intro hvalid
        cases hvalid
    | ok proof =>
        have hmeta : call.proofMeta? = some proof.proofMeta := by
          simp [ProofCall.proofMeta?, hproof, Except.toOption]
        refine Async.Gated.bind (checks_ofExcept _) (fun payload _ => hnext proof payload hmeta) ?_
        intro thrown _ hvalid
        cases hvalid
  have hbody : (do
      await .settled
      verifyValidated config next (validateDetachedProof call.proof)).Gated
        (proofGate call) proofEnds := by
    refine Async.Gated.bind checks_settled (fun _ _ => hvalidated) ?_
    intro thrown _ hvalid
    cases hvalid
  refine hbody.andThen ?_ ?_
  · rintro _ result - rfl
    rfl
  · intro result hrefused
    cases result with
    | ok result => exact hrefused
    | error thrown =>
        intro hvalid
        cases hvalid

theorem gated_code (call : ProofCall) : (call.code config).Gated (proofGate call) proofEnds := by
  cases call with
  | verifyProof proof publicKeyJwk expected options =>
      apply gated_withValidatedProof
      intro proof payload hmeta
      exact gated_runVerificationPipeline publicKeyJwk payload expected options hmeta
  | verifyProofDetached proof canonicalPayload publicKeyJwk =>
      apply gated_withValidatedProof
      intro proof payload hmeta
      split
      · nofun
      · exact gated_runVerificationPipeline publicKeyJwk payload none {} hmeta

end Code

section World

variable {config : ProofVerifierConfig} {world : ProofWorld} {nonce agentDid : JsString}
  {timestamp : Nat}

/-- Setting the skew never extends a retention. -/
theorem retentionEnd_setTimestampSkew (world : ProofWorld) (skewSeconds : JsNumber)
    (timestamp : Nat) :
    (world.setTimestampSkew skewSeconds).retentionEnd timestamp ≤
      world.retentionEnd timestamp := by
  cases skewSeconds with
  | finite skew =>
      have hclamped : max minClockSkewSeconds (min maxClockSkewSeconds (⌊skew⌋ : ℚ)) ≤
          maxClockSkewSeconds :=
        max_le (by norm_num [minClockSkewSeconds, maxClockSkewSeconds]) (min_le_left _ _)
      have hmax := le_max_right world.timestampSkewSeconds maxClockSkewSeconds
      simp only [ProofWorld.setTimestampSkew, ProofWorld.retentionEnd, max_eq_right hclamped]
      linarith
  | infinity negative => exact le_rfl
  | nan => exact le_rfl

/-- A proof whose timestamp test holds is within its retention. -/
theorem lt_retentionEnd
    (h : isWithinSkew world.now (timestamp * 1000) world.timestampSkewSeconds = true) :
    world.now < world.retentionEnd timestamp := by
  have habs : |world.now - timestamp * 1000| ≤ world.timestampSkewSeconds * 1000 := by
    simpa [isWithinSkew] using h
  have hmax := le_max_left world.timestampSkewSeconds maxClockSkewSeconds
  have hright := (abs_le.mp habs).2
  rw [ProofWorld.retentionEnd]
  linarith

/-- Only an admission changes anything. -/
theorem consumeNonce_unchanged
    (h : (world.consumeNonce config nonce agentDid timestamp).1 ≠ .ok true) :
    (world.consumeNonce config nonce agentDid timestamp).2 = world := by
  unfold ProofWorld.consumeNonce at h ⊢
  split
  · rfl
  · rename_i ttl httl
    rw [httl] at h
    exact congrArg (fun nonceCache => { world with nonceCache })
      (MemoryNonceCacheProvider.consume_unchanged h)

/-- What an admission does: the nonce was vacant, and is remembered to the end of the
proof's retention; no promise of the cache is broken. -/
theorem consumeNonce_admits
    (h : (world.consumeNonce config nonce agentDid timestamp).1 = .ok true) :
    ∃ nonceCache : MemoryNonceCacheProvider,
      (world.consumeNonce config nonce agentDid timestamp).2 = { world with nonceCache } ∧
        world.nonceCache.nonces.Vacant world.now (some agentDid, nonce) ∧
        nonceCache.nonces.Remembers world.now (some agentDid, nonce)
          (world.retentionEnd timestamp) ∧
        ∀ key bound, world.nonceCache.nonces.Remembers world.now key bound →
          nonceCache.nonces.Remembers world.now key bound := by
  unfold ProofWorld.consumeNonce at h ⊢
  split
  · rename_i thrown hthrown
    rw [hthrown] at h
    cases h
  · rename_i ttl httl
    rw [httl] at h
    obtain ⟨bound, hbound, -, hlasts⟩ := nonceRetentionSeconds_eq_ok httl
    obtain rfl := JsNumber.finite.inj hbound
    refine ⟨_, rfl, (MemoryNonceCacheProvider.consume_eq_true h).1, ?_, ?_⟩
    · exact MemoryNonceCacheProvider.remembers_admitted h hlasts
    · intro key bound
      exact MemoryNonceCacheProvider.remembers_consume

end World

/-- Every admitted proof is remembered to the end of its retention, and none twice. -/
structure Remembered {ι : Type} (calls : ι → ProofCall) (world : ProofWorld)
    (admitted : List ι) : Prop where
  remembers : ∀ c ∈ admitted, ∃ proofMeta, (calls c).proofMeta? = some proofMeta ∧
    world.nonceCache.nonces.Remembers world.now (some proofMeta.did, proofMeta.nonce)
      (world.retentionEnd proofMeta.ts)
  once : ∀ c ∈ admitted, ∀ c' ∈ admitted,
    (calls c).proofMeta? = (calls c').proofMeta? → c = c'

section Runs

variable (config : ProofVerifierConfig) {ι : Type} (calls : ι → ProofCall)

/-- The retention of a call's proof has not ended. -/
def InTime (call : ProofCall) (world : ProofWorld) : Prop :=
  ∀ proofMeta, call.proofMeta? = some proofMeta → world.now < world.retentionEnd proofMeta.ts

/-- The runs in which no nonce is consumed after the retention of its proof has ended. -/
def inTimeProgram : Program proofSetting ι ProofVerificationResult where
  code := (proofProgram config calls).code
  serves c request world answer world' :=
    (proofProgram config calls).serves c request world answer world' ∧
      ((proofGate (calls c)).isGate request → InTime (calls c) world)
  environment := (proofProgram config calls).environment

variable {config calls} {world world' : ProofWorld} {admitted : List ι} {c : ι}

theorem Remembered.environment (h : Remembered calls world admitted)
    (hstep : ProofEnvironment world world') : Remembered calls world' admitted := by
  refine ⟨?_, h.once⟩
  intro c hc
  obtain ⟨proofMeta, hmeta, hremembers⟩ := h.remembers c hc
  refine ⟨proofMeta, hmeta, ?_⟩
  cases hstep with
  | advance hnow => exact hremembers.later hnow
  | setTimestampSkew skewSeconds =>
      have hbound := retentionEnd_setTimestampSkew world skewSeconds proofMeta.ts
      cases skewSeconds with
      | finite skew => exact hremembers.weaken hbound
      | infinity negative => exact hremembers
      | nan => exact hremembers
  | cleanup => exact hremembers.evict

/-- An admission in time is of a proof that was not admitted before. -/
theorem Remembered.concat (h : Remembered calls world admitted) {proofMeta : ProofMeta}
    (hmeta : (calls c).proofMeta? = some proofMeta)
    (hintime : world.now < world.retentionEnd proofMeta.ts)
    (hconsumed : (world.consumeNonce config proofMeta.nonce proofMeta.did proofMeta.ts).1 =
      .ok true) :
    Remembered calls (world.consumeNonce config proofMeta.nonce proofMeta.did proofMeta.ts).2
      (admitted ++ [c]) := by
  obtain ⟨nonceCache, hworld, hvacant, hnew, hkept⟩ := consumeNonce_admits hconsumed
  have hunseen : ∀ earlier ∈ admitted, (calls earlier).proofMeta? ≠ some proofMeta := by
    intro earlier hearlier hsame
    obtain ⟨found, hfound, hremembers⟩ := h.remembers earlier hearlier
    obtain rfl := Option.some.inj (hfound.symm.trans hsame)
    exact hremembers.not_vacant hintime hvacant
  rw [hworld]
  refine ⟨?_, ?_⟩
  · intro other hother
    cases List.mem_append.mp hother with
    | inl hold =>
        obtain ⟨found, hfound, hremembers⟩ := h.remembers other hold
        exact ⟨found, hfound, hkept _ _ hremembers⟩
    | inr hsame =>
        obtain rfl := List.mem_singleton.mp hsame
        exact ⟨proofMeta, hmeta, hnew⟩
  · intro left hleft right hright hsame
    simp only [List.mem_append, List.mem_singleton] at hleft hright
    obtain hleft | rfl := hleft
    · obtain hright | rfl := hright
      · exact h.once left hleft right hright hsame
      · exact absurd (hsame.trans hmeta) (hunseen left hleft)
    · obtain hright | rfl := hright
      · exact absurd (hsame.symm.trans hmeta) (hunseen right hright)
      · rfl

/-- What is not an admission changes nothing. -/
theorem serveProof_unchanged {call : ProofCall} {request : ProofRequest}
    {answer : Except Error request.Answer}
    (h : serveProof config request world answer world')
    (hshut : (proofGate call).isGate request → ¬ (proofGate call).opens request answer) :
    world' = world := by
  cases request with
  | settled => exact h.2
  | verifyJWS jws publicKeyJwk payload kid => exact h
  | consumeNonce nonce agentDid timestamp =>
      obtain ⟨rfl, rfl⟩ := Prod.mk.inj h
      exact consumeNonce_unchanged (hshut trivial)

theorem guards : Concurrency.Guards (inTimeProgram config calls) (fun c => proofGate (calls c))
    (fun _ => proofEnds) (Remembered calls) where
  code c := gated_code (calls c)
  permits _ _ _ _ _ _ := trivial
  passes := by
    rintro c _ world answer world' admitted hkept - ⟨hserves, hintime⟩ - ⟨proofMeta, hmeta, rfl⟩ rfl
    obtain ⟨hanswer, rfl⟩ := Prod.mk.inj hserves
    exact hkept.concat hmeta (hintime trivial proofMeta hmeta) hanswer.symm
  serves := by
    rintro c request world answer world' admitted hkept ⟨hserves, -⟩ hshut
    rwa [serveProof_unchanged hserves hshut]
  environment _ _ _ hkept hstep := hkept.environment hstep

/-- A call returns `valid`. -/
def Accepts (config : Config proofSetting ι ProofVerificationResult) (c : ι) : Prop :=
  ∃ born, config.calls c = some ⟨born, .finished (.ok .valid)⟩

end Runs

/-- The numbers of a runtime, as far as the sample prints them. -/
def sampleNumbers : Doubles JsNumber where
  isFinite x := x = .ofNat 1
  isInteger x := x = .ofNat 1
  isSafeInteger x := x = .ofNat 1
  strictEquals x y := x = y
  text _ := js "1"
  ofText _ := .ofNat 1

theorem sampleNumbers_prints : sampleNumbers.Prints where
  isText x _ := by
    have hone : Json.isNumberText (js "1") = true := by decide
    exact hone
  injective x y hx hy := by simp_all [sampleNumbers]
  parses x hx := by simp_all [sampleNumbers]

def sampleVerifier : ProofVerifierConfig where
  numbers := sampleNumbers
  hash _ := .ok []

def sampleMeta : ProofMeta where
  did := js "did:web:agent"
  kid := js "did:web:agent#key"
  ts := 1
  nonce := js "nonce"
  audience := js "did:web:server"
  sessionId := js "session"
  requestHash := js "sha256:0000000000000000000000000000000000000000000000000000000000000000"

def sampleProof : JsonValue JsNumber :=
  .object [(js "jws", .string (js "header..signature")),
    (js "meta", .object [(js "did", .string sampleMeta.did), (js "kid", .string sampleMeta.kid),
      (js "ts", .number (.ofNat 1)), (js "nonce", .string sampleMeta.nonce),
      (js "audience", .string sampleMeta.audience),
      (js "sessionId", .string sampleMeta.sessionId),
      (js "requestHash", .string sampleMeta.requestHash)])]

/-- The same proof, twice. -/
def sampleCalls : Bool → ProofCall :=
  fun _ => .verifyProof sampleProof { x := js "key" } none {}

/-- An empty cache, one second into the clock. -/
def sampleWorld : ProofWorld where
  nonceCache := { nonces := fun _ => none, writesSinceSweep := 0, lastSweepAt := 0 }
  now := 1000

/-- The sample proof is well formed, in time and of its signer. -/
theorem sampleProof_checks :
    validateDetachedProof sampleProof = .ok ⟨js "header..signature", sampleMeta⟩ ∧
      isCanonical sampleNumbers (buildProofJwsPayload sampleMeta) = true ∧
      timestampResult sampleVerifier sampleWorld sampleMeta.ts = .valid ∧
      validateSigner sampleMeta {} = .valid := by
  decide +kernel

theorem validateDetachedProof_sample :
    validateDetachedProof sampleProof = .ok ⟨js "header..signature", sampleMeta⟩ :=
  sampleProof_checks.1

theorem proofMeta_sample (c : Bool) : (sampleCalls c).proofMeta? = some sampleMeta := by
  simp [ProofCall.proofMeta?, sampleCalls, ProofCall.proof, validateDetachedProof_sample,
    Except.toOption]

theorem encodeCanonicalPayload_sample :
    ∃ payload, encodeCanonicalPayload sampleVerifier sampleMeta = .ok payload := by
  obtain ⟨hwellFormed, hsupported⟩ := canonical_of_isCanonical _ sampleProof_checks.2.1
  obtain ⟨text, htext⟩ :=
    (canonicalizeJson_eq_ok sampleNumbers_prints hwellFormed).mpr hsupported
  exact ⟨encodeUtf8 text, by simp [encodeCanonicalPayload, sampleVerifier, htext]⟩

def sampleConsumption : ProofRequest :=
  .consumeNonce sampleMeta.nonce sampleMeta.did sampleMeta.ts

/-- What a call with the sample proof returns as the cache admits its nonce. -/
def sampleVerdict : Bool → ProofVerificationResult
  | true => .valid
  | false => .invalid .NONCE_REPLAY_DETECTED (js "Nonce already used (replay attack detected)")
      (.replay sampleMeta.nonce sampleMeta.did)

/-- A service that settles promises and verifies every JWS. -/
def Obliging (serves : Async.Serving proofSetting) : Prop :=
  (∀ world, serves .settled world (.ok ()) world) ∧
    ∀ jws publicKeyJwk payload kid world,
      serves (.verifyJWS jws publicKeyJwk payload kid) world (.ok true) world

section Sample

open Async.Leads

variable {serves : Async.Serving proofSetting} {s resumed : ProofWorld} {admitted : Bool}

theorem pauses_ifValid {check next : ProofM ProofVerificationResult}
    {thread : Thread proofSetting ProofVerificationResult}
    (h : check.Leads serves s s (.finished (.ok .valid)))
    (hnext : Pauses serves next s s sampleConsumption (.ok admitted) resumed resumed thread) :
    Pauses serves (ifValid check next) s s sampleConsumption (.ok admitted) resumed resumed
      thread := by
  refine .after h ?_
  simpa only [if_true] using hnext

/-- Either call comes to its consumption, which decides it. -/
theorem sampleCall_pauses (hserves : Obliging serves) (c admitted : Bool)
    (resumed : ProofWorld) :
    Pauses serves ((sampleCalls c).code sampleVerifier) sampleWorld sampleWorld
      sampleConsumption (.ok admitted) resumed resumed
      (.finished (.ok (sampleVerdict admitted))) := by
  obtain ⟨payload, hpayload⟩ := encodeCanonicalPayload_sample
  obtain ⟨hsettled, hverified⟩ := hserves
  obtain ⟨-, -, htimestamp, hsigner⟩ := sampleProof_checks
  refine Pauses.tryCatch_ok (.after (.ask (hsettled _)) ?_)
  rw [validateDetachedProof_sample]
  refine .check hpayload ?_
  refine pauses_ifValid (hsigner ▸ .done) ?_
  refine pauses_ifValid (.state (.bind (.ask (hsettled _)) (htimestamp ▸ .done))) ?_
  refine pauses_ifValid (.bind (.ask (hverified _ _ _ _ _)) .done) ?_
  refine pauses_ifValid .done ?_
  cases admitted with
  | true => exact .bind .ask .done
  | false => exact .bind .ask .done

end Sample

theorem obliging_inTime (c : Bool) :
    Obliging ((inTimeProgram sampleVerifier sampleCalls).serves c) :=
  ⟨fun _ => ⟨⟨rfl, rfl⟩, nofun⟩, fun _ _ _ _ _ => ⟨rfl, nofun⟩⟩

theorem obliging_proofProgram (c : Bool) :
    Obliging ((proofProgram sampleVerifier sampleCalls).serves c) :=
  ⟨fun _ => ⟨rfl, rfl⟩, fun _ _ _ _ _ => rfl⟩

/-- The world after a consumption of the sample proof. -/
def ProofWorld.afterSample (world : ProofWorld) : ProofWorld :=
  (world.consumeNonce sampleVerifier sampleMeta.nonce sampleMeta.did sampleMeta.ts).2

/-- The end of the retention that the first consumption gave it. -/
def sampleLate : ProofWorld := { sampleWorld.afterSample with now := 602000 }

/-- The sample's nonce is admitted, refused while it is remembered, and admitted later. -/
theorem sampleConsumptions :
    (sampleWorld.consumeNonce sampleVerifier sampleMeta.nonce sampleMeta.did
        sampleMeta.ts).1 = .ok true ∧
      (sampleWorld.afterSample.consumeNonce sampleVerifier sampleMeta.nonce sampleMeta.did
        sampleMeta.ts).1 = .ok false ∧
      (sampleLate.consumeNonce sampleVerifier sampleMeta.nonce sampleMeta.did
        sampleMeta.ts).1 = .ok true := by
  decide +kernel

end KyaOs.Proof
