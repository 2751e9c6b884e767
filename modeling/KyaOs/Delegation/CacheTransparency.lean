import KyaOs.Audit.Digests
import KyaOs.Concurrency.Solo
import KyaOs.Delegation.CacheRuns

/-!
# Caching changes no verdict

A verifier's calls come to the verdicts they come to with a cache that stores nothing. What
is served was checked in the same form, up to the order of members that its key does not
show: a signature function that does is told a verdict it would not have come to.
-/

namespace KyaOs.CachingVerifier

open Js Untyped Untrusted JsonValue Concurrency Middleware

namespace VerifierConfig

/-- The verifier with `cacheTtl: 0`. -/
def uncached (config : VerifierConfig) (maxCacheSize : Option JsNumber) : VerifierConfig :=
  { config with cacheTtl := some (.ofNat 0), maxCacheSize }

/-- The credential that a form holds. -/
def credentialOf (config : VerifierConfig) : Form → Untyped
  | .credential vc => vc.value
  | .token jwt => do
    let parsed ← parseVCJWT config.runtime jwt
    Untyped.member? (some parsed.payload) (js "vc")

end VerifierConfig

/-- What a call came to, but for its reason and whether it was cached. -/
def verdictOf (result : Except Error (Option DelegationVCVerificationResult)) :
    Except Error (Option (Bool × Stage)) :=
  Option.map DelegationVCVerificationResult.verdict <$> result

section Runs

variable {ι : Type} {config : VerifierConfig} {calls : ι → VerifierCall} {answers : ι → Answers}

/-- How calls end. -/
def EndsPlainly (config : VerifierConfig) (calls : ι → VerifierCall) (answers : ι → Answers)
    (c : ι) (result : Except Error (Option DelegationVCVerificationResult)) : Prop :=
  ∃ log plain, (config.plainCode (calls c)).Runs log plain ∧
    (∀ exchange ∈ log, (answers c).Gives exchange) ∧ SameEnd (Option.Rel SameVerdict) result plain

theorem discipline (hprints : config.runtime.numbers.Prints) (hreads : ReadsValues config) :
    Discipline (config.program calls answers) (config.protocol calls answers)
      fun c _ result _ => EndsPlainly config calls answers c result where
  rely_refl _ _ := trivial
  rely_trans _ _ _ _ _ _ := trivial
  serves _ _ _ _ _ h := h
  environment _ _ _ h := h.elim
  fresh_stable _ _ _ _ _ _ := trivial
  code _ _ _ _ w hinv _ :=
    code_endsLike hprints hreads w w.1 w.2 hinv (fun _ _ => trivial) trivial
  post_stable _ _ _ _ _ h _ _ := h

theorem sound {reached : Config VerifierWorld ι (Option DelegationVCVerificationResult)}
    (hprints : config.runtime.numbers.Prints) (hreads : ReadsValues config)
    (h : (config.program calls answers).Reaches (Program.initial {}) reached) :
    reached.state.Holds (config.Written calls) ∧ ∀ c born result,
      reached.calls c = some ⟨born, .finished result⟩ →
      EndsPlainly config calls answers c result := by
  have hinitial : (config.protocol calls answers).inv (({} : TtlCache Verification), ()) :=
    TtlCache.holds_clear
  obtain ⟨_, hinv, -, hcalls⟩ := h.sound (discipline hprints hreads)
    (sound_initial hinitial fun _ => trivial)
  exact ⟨hinv, fun c born result hfinished => hcalls c _ hfinished⟩

theorem verdictOf_eq {result plain : Except Error (Option DelegationVCVerificationResult)}
    (h : SameEnd (Option.Rel SameVerdict) result plain) : verdictOf result = verdictOf plain := by
  cases h with
  | error e => rfl
  | ok hrelated =>
      cases hrelated with
      | none => rfl
      | some hsame => exact congrArg (fun verdict => Except.ok (some verdict)) hsame

/-- The same call on the same answers comes to one verdict. -/
theorem EndsPlainly.unique {c : ι}
    {result result' : Except Error (Option DelegationVCVerificationResult)}
    (h : EndsPlainly config calls answers c result)
    (h' : EndsPlainly config calls answers c result') : verdictOf result = verdictOf result' := by
  obtain ⟨log, plain, hruns, hlog, hends⟩ := h
  obtain ⟨log', plain', hruns', hlog', hends'⟩ := h'
  have hsame : plain = plain' :=
    (plainCode_stateless (calls c)).unique (answers c).gives_unique hruns hlog hruns' hlog'
  rw [verdictOf_eq hends, verdictOf_eq hends', hsame]

theorem member_eq_member? {value read : Untyped} {name : JsString}
    (h : value.member name = .ok read) : read = value.member? name := by
  cases value with
  | none => cases h
  | some v =>
      cases v with
      | null => cases h
      | _ => exact (Except.ok.inj h).symm

/-- A key of a form holds the id of its credential. -/
theorem isKeyOf_formKey {form : Form} {id key : JsString}
    (hid : (config.credentialOf form).member? (js "id") = some (.string id))
    (h : config.formKey form = some key) : isKeyOf id key = true := by
  rw [isKeyOf, Bool.or_eq_true]
  cases form with
  | credential vc =>
      rw [VerifierConfig.credentialOf] at hid
      obtain ⟨value, hvalue, h⟩ := bind_eq_ok.mp (toOption_eq_some.mp h)
      obtain ⟨idText, htext, h⟩ := bind_eq_ok.mp h
      have hread : value = some (.string id) := by
        rw [← hid]
        exact member_eq_member? hvalue
      subst hread
      cases htext
      split at h
      · obtain ⟨text, -, h⟩ := bind_eq_ok.mp h
        cases h
        exact .inl (by simp [startsWith])
      · cases h
  | token jwt =>
      obtain ⟨parsed, hparsed, h⟩ := Option.bind_eq_some_iff.mp h
      rw [VerifierConfig.credentialOf, hparsed] at hid
      obtain ⟨idText, htext, h⟩ := bind_eq_ok.mp (toOption_eq_some.mp h)
      have hread : (Untyped.member? (some parsed.payload) (js "vc")).member? (js "id") =
          some (.string id) := hid
      rw [hread] at htext
      cases htext
      cases h
      exact .inr (by simp [startsWith])

/-- With the cache each call comes to the verdict it comes to without. An entry is what the
check of one form came to, and under no other form's key. A call that skips the signature
never touches the cache, and clearing an id leaves no entry for it. -/
theorem caching_transparent (hprints : config.runtime.numbers.Prints)
    (hreads : ReadsValues config) (calls : ι → VerifierCall) (answers : ι → Answers)
    (maxCacheSize : Option JsNumber) :
    (∀ reached reached', (config.program calls answers).Reaches (Program.initial {}) reached →
      ((config.uncached maxCacheSize).program calls answers).Reaches (Program.initial {}) reached' →
      ∀ c born born' result result', reached.calls c = some ⟨born, .finished result⟩ →
        reached'.calls c = some ⟨born', .finished result'⟩ →
        verdictOf result = verdictOf result') ∧
    (∀ reached, (config.program calls answers).Reaches (Program.initial {}) reached →
      ∀ key entry, (key, entry) ∈ reached.state.entries → entry.value.valid = true ∧
        ∃ c form, (calls c).cachedForm = some form ∧ config.formKey form = some key ∧
          config.Checks form entry.value ∧
          ∀ form', config.formKey form' = some key →
            SameForm config.runtime.numbers form form') ∧
    (∀ c options, (calls c).options? = some options → options.skipSignature = true →
      (config.code (calls c)).Stateless OutsideCache) ∧
    ∀ id cache key entry form,
      (key, entry) ∈ ((config.code (.clearCacheEntry id)).advance cache).1.entries →
      config.formKey form = some key →
      (config.credentialOf form).member? (js "id") ≠ some (.string id) := by
  refine ⟨?_, ?_, ?_, ?_⟩
  · intro reached reached' hreaches hreaches' c born born' result result' hfinished hfinished'
    have hends := (sound hprints hreads hreaches).2 c born result hfinished
    have huncached : ReadsValues (config.uncached maxCacheSize) :=
      ⟨hreads.resolver, hreads.signature⟩
    have hsound := @sound _ (config.uncached maxCacheSize) calls answers reached' hprints huncached
    have hends' := (hsound hreaches').2 c born' result' hfinished'
    exact hends.unique hends'
  · intro reached hreaches key entry hmem
    obtain ⟨hvalid, c, form, hform, hkey, hchecks⟩ :=
      (sound hprints hreads hreaches).1 key entry hmem
    refine ⟨hvalid, c, form, hform, hkey, hchecks, ?_⟩
    intro form' hkey'
    exact VerifierConfig.sameForm_of_formKey hprints hkey hkey'
  · intro c options hoptions hskip
    rw [code_eq_plainCode hoptions (by simp [VerifierConfig.cacheAllowed, hskip])]
    exact plainCode_stateless (calls c)
  · intro id cache key entry form hmem hkey hid
    exact TtlCache.deleteWhere_removes (isKeyOf_formKey hid hkey) entry hmem

end Runs

/-- The numbers of a runtime, as far as the samples print them. -/
def sampleNumbers : Doubles JsNumber where
  isFinite x := x = .ofNat 1
  isInteger x := x = .ofNat 1
  isSafeInteger x := x = .ofNat 1
  strictEquals x y := x = y
  text _ := js "1"
  ofText _ := .ofNat 1

theorem sampleNumbers_prints : sampleNumbers.Prints where
  isText x _ := by
    have hone : Json.isNumberText (js "1") = true := by decide
    exact hone
  injective x y hx hy := by simp_all [sampleNumbers]
  parses x hx := by simp_all [sampleNumbers]

def sampleProof : JsString × JsonValue JsNumber :=
  (js "proof", .object [(js "type", .string (js "DataIntegrityProof")),
    (js "verificationMethod", .string (js "key"))])

def sampleContext : JsString × JsonValue JsNumber :=
  (js "@context", .array [.string (js "https://www.w3.org/2018/credentials/v1")])

def sampleRest : List (JsString × JsonValue JsNumber) :=
  [(js "type", .array [.string (js "VerifiableCredential"),
      .string (js "DelegationCredential")]),
    (js "issuer", .string (js "did:web:issuer")),
    (js "issuanceDate", .string (js "2024-01-01")),
    (js "credentialSubject", .object [
      (js "id", .string (js "did:web:agent")),
      (js "delegation", .object [
        (js "id", .string (js "d1")),
        (js "issuerDid", .string (js "did:web:issuer")),
        (js "subjectDid", .string (js "did:web:agent")),
        (js "status", .string (js "active")),
        (js "constraints", .object [])])])]

/-- The credential with its proof as the first member, or as the second. -/
def sampleValue (proofFirst : Bool) : JsonValue JsNumber :=
  .object (if proofFirst then sampleProof :: sampleContext :: sampleRest
    else sampleContext :: sampleProof :: sampleRest)

theorem sampleValue_canonical (proofFirst : Bool) :
    (sampleValue proofFirst).WellFormed ∧ Supported sampleNumbers (sampleValue proofFirst) := by
  apply Audit.canonical_of_isCanonical
  revert proofFirst
  decide +kernel

theorem sampleValue_same : Same sampleNumbers (sampleValue true) (sampleValue false) := by
  obtain ⟨hwellFormed, hsupported⟩ := sampleValue_canonical true
  have hself : Same sampleNumbers (sampleValue true) (sampleValue true) :=
    (canonicalText_eq_iff sampleNumbers_prints hwellFormed hwellFormed hsupported hsupported).mp rfl
  refine same_object_iff.mpr fun name => ?_
  have hlookup : (sampleContext :: sampleProof :: sampleRest).lookup name =
      (sampleProof :: sampleContext :: sampleRest).lookup name := by
    by_cases hproof : name = js "proof"
    · subst hproof
      rfl
    · have hother : (name == js "proof") = false := beq_false_of_ne hproof
      cases hcontext : name == js "@context" <;>
        simp [sampleContext, sampleProof, List.lookup_cons, hother, hcontext]
  have hname := same_object_iff.mp hself name
  rw [if_pos rfl] at hname
  rw [if_pos rfl, if_neg Bool.false_ne_true, hlookup]
  exact hname

def sampleCredential (proofFirst : Bool) : CredentialValue where
  value := some (sampleValue proofFirst)
  wellFormed _ hv := Option.some.inj hv ▸ (sampleValue_canonical proofFirst).1

def stringRuntime : Runtime := { sampleRuntime with numbers := sampleNumbers }

/-- A verifier whose signature function is given. -/
def sampleConfig (verifies : Untyped → Bool) : VerifierConfig where
  runtime := stringRuntime
  didResolver := some fun _ =>
    .ok (some [{ id := js "key", publicKeyJwk := some (.object [(js "x", .string (js "AAAA"))]) }])
  hasStatusListResolver := false
  signatureVerifier := some fun vc _ => .ok { valid := verifies vc }
  importKey _ := .ok false
  compactVerify _ _ := .ok ()

/-- Verifies a credential whose proof is its first member. -/
def verifiesInOrder (vc : Untyped) : Bool :=
  match vc with
  | some (.object ((name, _) :: _)) => name = js "proof"
  | _ => false

def sampleCalls (proofFirst : Bool) : VerifierCall :=
  .verifyDelegationCredential (sampleCredential proofFirst) {}

def sampleAnswers (_ : Bool) : Answers where
  clock := 0
  status _ := .ok false

section Sample

variable {verifies : Untyped → Bool}

/-- Both orders have one key. -/
theorem sampleKey : ∃ key, ∀ proofFirst,
    (sampleConfig verifies).credentialKey (sampleCredential proofFirst).value = .ok key := by
  have htext : ∀ proofFirst, canonicalizeJson sampleNumbers (sampleValue proofFirst) =
      .ok (canonicalText sampleNumbers (sampleValue true)) := by
    intro proofFirst
    obtain ⟨hwellFormed, hsupported⟩ := sampleValue_canonical proofFirst
    refine (serialize_ok sampleNumbers_prints hwellFormed _ _).mpr ⟨hsupported, ?_⟩
    cases proofFirst with
    | true => rfl
    | false =>
        obtain ⟨hfirst, hfirstSupported⟩ := sampleValue_canonical true
        exact (canonicalText_eq_iff sampleNumbers_prints hfirst hwellFormed hfirstSupported
          hsupported).mpr sampleValue_same
  refine ⟨js "di" ++ 0 :: [] ++ 0 :: canonicalText sampleNumbers (sampleValue true), ?_⟩
  intro proofFirst
  have hid : Untyped.member (some (sampleValue proofFirst)) (js "id") = .ok none := by
    cases proofFirst with
    | true => rfl
    | false => rfl
  exact bind_eq_ok.mpr ⟨none, hid, bind_eq_ok.mpr ⟨[], rfl, bind_eq_ok.mpr
    ⟨_, htext proofFirst, rfl⟩⟩⟩

open Async.Leads

variable {config : VerifierConfig} {serves : Async.Serving VerifierWorld}
  {cache cache' : TtlCache Verification} {key : JsString}

/-- A service on whose clocks no time passes. -/
structure Still (serves : Async.Serving VerifierWorld) : Prop where
  basicClock : ∀ cache, serves .basicClock cache (.ok (0 : ℚ)) cache
  cacheClock : ∀ cache, serves .cacheClock cache (.ok (0 : ℚ)) cache
  signatureAwaits : ∀ cache, serves .signatureAwaits cache (.ok ()) cache

/-- A hit is served, and the cache left as it was. -/
theorem cachedSignature_leads_hit (h : Still serves) {value : Verification}
    (hhit : cache.get 0 key = (some value, cache)) (run : VerifierM Verification) :
    (config.cachedSignature (some key) run).Leads serves cache cache
      (.finished (.ok (value, true))) := by
  have hlookup : (VerifierConfig.lookupSignature key).Leads serves cache cache
      (.finished (.ok (some value))) := by
    refine ask_bind (h.cacheClock cache) (state (update ?_))
    rw [hhit]
    exact .done
  exact .bind hlookup .done

/-- Without a hit the signature is checked, and a valid result stored. -/
theorem cachedSignature_leads_miss (h : Still serves) (checked : Verification) :
    (config.cachedSignature (some key) (awaited (.ok checked))).Leads serves {}
      (if checked.valid then ({} : TtlCache Verification).set config.ttlOptions 0 key checked
        else {})
      (.finished (.ok (checked, false))) := by
  have hlookup : (VerifierConfig.lookupSignature key).Leads serves {} {} (.finished (.ok none)) :=
    ask_bind (h.cacheClock _) (state (update .done))
  have hstore : (config.storeSignature key checked).Leads serves {}
      (if checked.valid then ({} : TtlCache Verification).set config.ttlOptions 0 key checked
        else {}) (.finished (.ok ())) := by
    rw [VerifierConfig.storeSignature]
    split_ifs with hvalid
    · exact ask_bind (h.cacheClock _) (.write .done)
    · exact .done
  exact .bind hlookup (.bind (ask_bind (h.signatureAwaits _) .done) (.bind hstore .done))

theorem sampleBasic (proofFirst : Bool) :
    validateBasicProperties stringRuntime 0 (sampleCredential proofFirst).value true =
      .ok none := by
  revert proofFirst
  decide +kernel

/-- A call of a sample comes to what its signature comes to. -/
theorem sampleCall_leads (h : Still serves) {proofFirst : Bool}
    (hruntime : config.runtime = stringRuntime)
    (hkey : config.credentialKey (sampleCredential proofFirst).value = .ok key)
    {signature : Verification} {cached : Bool}
    (hsignature : (config.cachedSignature (some key)
      (config.runSignature {} (sampleCredential proofFirst).value)).Leads serves cache cache'
        (.finished (.ok (signature, cached)))) :
    (config.code (sampleCalls proofFirst)).Leads serves cache cache'
      (.finished (.ok (some
        (VerifierConfig.combineVerificationResult signature { valid := true } cached)))) := by
  have hkeyed : config.cacheKeyForCredential (sampleCredential proofFirst).value {} = some key := by
    rw [VerifierConfig.cacheKeyForCredential, hkey]
    rfl
  have hstatus : config.statusResult {} (sampleCredential proofFirst).value =
      pure { valid := true } := by
    cases proofFirst with
    | true => rfl
    | false => rfl
  refine .bind (ask_bind (h.basicClock _) (.check (hruntime ▸ sampleBasic proofFirst) ?_)) .done
  rw [hkeyed]
  refine .bind hsignature ?_
  rw [hstatus]
  exact .done

theorem sampleRun (proofFirst : Bool) :
    (sampleConfig verifies).runSignature {} (sampleCredential proofFirst).value =
      awaited (.ok { valid := verifies (sampleCredential proofFirst).value }) := by
  cases proofFirst with
  | true => rfl
  | false => rfl

/-- What was just stored is served. -/
theorem get_stored (key : JsString) (value : Verification) :
    (({} : TtlCache Verification).set (sampleConfig verifies).ttlOptions 0 key value).get 0 key =
      (some value,
        ({} : TtlCache Verification).set (sampleConfig verifies).ttlOptions 0 key value) := by
  have hstored : ({} : TtlCache Verification).set (sampleConfig verifies).ttlOptions 0 key value =
      { entries := [(key, ⟨value, TtlCache.expiry 0 (.ofNat 60000)⟩)]
        insertionOrder := [key] } := by
    have hon : ¬ ((JsNumber.ofNat 60000).le (.ofNat 0) = true ∨
        (JsNumber.ofNat 1000).le (.ofNat 0) = true) := by
      decide +kernel
    exact (if_neg hon).trans rfl
  have hlive : (TtlCache.expiry 0 (.ofNat 60000)).lt (.finite 0) = false := by decide +kernel
  rw [hstored]
  simp [TtlCache.get, hlive]

theorem still_program (config : VerifierConfig) (c : Bool) :
    Still ((config.program sampleCalls sampleAnswers).serves c) :=
  ⟨fun _ => ⟨rfl, rfl⟩, fun _ => ⟨rfl, 0, rfl⟩, fun _ => ⟨rfl, rfl⟩⟩

/-- Where no call has been made. -/
abbrev noCalls : Config VerifierWorld Bool (Option DelegationVCVerificationResult) :=
  Program.initial {}

/-- The second credential is served what the first was found. -/
theorem sample_cached (hfirst : verifies (sampleCredential true).value = true) :
    ∃ reached, ((sampleConfig verifies).program sampleCalls sampleAnswers).Reaches noCalls reached ∧
      ∃ born, reached.calls false = some ⟨born, .finished (.ok (some
        (VerifierConfig.combineVerificationResult { valid := true } { valid := true } true)))⟩ := by
  obtain ⟨key, hkey⟩ := @sampleKey verifies
  have hstill := still_program (sampleConfig verifies)
  have hmiss := @cachedSignature_leads_miss (sampleConfig verifies) _ key (hstill true)
    { valid := verifies (sampleCredential true).value }
  rw [← sampleRun, hfirst, if_pos rfl] at hmiss
  have hcall := sampleCall_leads (hstill true) rfl (hkey true) hmiss
  obtain ⟨first, hreaches, hmoves⟩ :=
    @Async.Leads.reaches_called _ _ _ ((sampleConfig verifies).program sampleCalls sampleAnswers)
      noCalls true _ _ hcall rfl
  have hstored := @get_stored verifies key { valid := true }
  have hhit := @cachedSignature_leads_hit (sampleConfig verifies) _ _ key (hstill false) _ hstored
    ((sampleConfig verifies).runSignature {} (sampleCredential false).value)
  have hagain := sampleCall_leads (hstill false) rfl (hkey false) hhit
  rw [← hmoves.state] at hagain
  obtain ⟨reached, hreaches', hmoves'⟩ :=
    @Async.Leads.reaches_called _ _ _ ((sampleConfig verifies).program sampleCalls sampleAnswers)
      first false _ _ hagain (hmoves.others false Bool.false_ne_true)
  exact ⟨reached, hreaches.trans hreaches', _, hmoves'.moved⟩

/-- Without a cache its own signature decides. -/
theorem sample_uncached :
    ∃ reached, (((sampleConfig verifies).uncached none).program sampleCalls sampleAnswers).Reaches
        noCalls reached ∧
      ∃ born cached, reached.calls false = some ⟨born, .finished (.ok (some
        (VerifierConfig.combineVerificationResult
          { valid := verifies (sampleCredential false).value } { valid := true } cached)))⟩ := by
  obtain ⟨key, hkey⟩ := @sampleKey verifies
  have hstill := still_program ((sampleConfig verifies).uncached none)
  have hmiss := @cachedSignature_leads_miss ((sampleConfig verifies).uncached none) _ key
    (hstill false) { valid := verifies (sampleCredential false).value }
  rw [← sampleRun] at hmiss
  have hkey' : ((sampleConfig verifies).uncached none).credentialKey
      (sampleCredential false).value = .ok key := hkey false
  obtain ⟨reached, hreaches, -, hfinished⟩ :=
    @Async.Leads.run _ _ _ (((sampleConfig verifies).uncached none).program sampleCalls
      sampleAnswers) false _ _ _ (sampleCall_leads (hstill false) rfl hkey' hmiss)
  exact ⟨reached, hreaches, _, _, hfinished⟩

end Sample

/-- With a signature function that reads members in order, the cache changes a verdict. -/
theorem caching_changes_verdict : ∃ reached reached',
    ((sampleConfig verifiesInOrder).program sampleCalls sampleAnswers).Reaches noCalls reached ∧
    (((sampleConfig verifiesInOrder).uncached none).program sampleCalls sampleAnswers).Reaches
      noCalls reached' ∧
    ∃ born born' result result', reached.calls false = some ⟨born, .finished result⟩ ∧
      reached'.calls false = some ⟨born', .finished result'⟩ ∧
      verdictOf result = .ok (some (true, .complete)) ∧
      verdictOf result' = .ok (some (false, .signature)) := by
  obtain ⟨reached, hreaches, born, hfinished⟩ := @sample_cached verifiesInOrder (by decide +kernel)
  obtain ⟨reached', hreaches', born', cached, hfinished'⟩ := @sample_uncached verifiesInOrder
  exact ⟨reached, reached', hreaches, hreaches', born, born', _, _, hfinished, hfinished', rfl, rfl⟩

/-- Both calls verify where the signature function accepts either order. -/
theorem caching_transparent_sample : ∃ reached reached',
    ((sampleConfig fun _ => true).program sampleCalls sampleAnswers).Reaches noCalls reached ∧
    (((sampleConfig fun _ => true).uncached none).program sampleCalls sampleAnswers).Reaches
      noCalls reached' ∧
    ∃ born born' result result', reached.calls false = some ⟨born, .finished result⟩ ∧
      reached'.calls false = some ⟨born', .finished result'⟩ ∧
      verdictOf result = verdictOf result' := by
  have hreads : ReadsValues (sampleConfig fun _ => true) := by
    refine ⟨?_, ?_⟩
    · intro resolve hresolve did did' _
      cases hresolve
      rfl
    · intro verify hverify vc vc' publicKeyJwk result _ hresult
      cases hverify
      cases hresult
      exact ⟨_, rfl, rfl⟩
  obtain ⟨reached, hreaches, born, hfinished⟩ := @sample_cached (fun _ => true) rfl
  obtain ⟨reached', hreaches', born', cached, hfinished'⟩ := @sample_uncached fun _ => true
  have htransparent := @caching_transparent _ (sampleConfig fun _ => true) sampleNumbers_prints
    hreads sampleCalls sampleAnswers none
  exact ⟨reached, reached', hreaches, hreaches', born, born', _, _, hfinished, hfinished',
    htransparent.1 reached reached' hreaches hreaches' false born born' _ _ hfinished hfinished'⟩

end KyaOs.CachingVerifier
