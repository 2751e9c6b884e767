import KyaOs.Concurrency.Stateless
import KyaOs.Delegation.SignatureCaching

/-!
# Calls of a caching verifier

In every run each entry of the cache was written for a form of its key, and is what that
form's check came to. So a call ends as it does when it skips the cache, where its end is
that of its own answers alone.
-/

namespace KyaOs.CachingVerifier

open Js Untyped Untrusted JsonValue Concurrency Middleware

/-- What a call reads off the clock, and what the status lists answer it. -/
structure Answers where
  clock : ℚ
  status : Untyped → Except Error Bool

/-- What the cache reads off the clock may be anything. -/
def Answers.Gives (answers : Answers) : Exchange VerifierWorld → Prop
  | ⟨.basicClock, answer⟩ => answer = .ok answers.clock
  | ⟨.cacheClock, answer⟩ => ∃ now, answer = .ok now
  | ⟨.signatureAwaits, answer⟩ => answer = .ok ()
  | ⟨.checkStatus credentialStatus, answer⟩ => answer = answers.status credentialStatus

/-- The flag and the stage of what a call came to. -/
def DelegationVCVerificationResult.verdict (result : DelegationVCVerificationResult) :
    Bool × Stage :=
  (result.valid, result.stage)

/-- Results of one verdict. -/
abbrev SameVerdict (result result' : DelegationVCVerificationResult) : Prop :=
  result.verdict = result'.verdict

/-- The form that a call looks up in the cache. -/
def VerifierCall.cachedForm : VerifierCall → Option Form
  | .verifyDelegationCredential vc options =>
    if VerifierConfig.cacheAllowed options then some (.credential vc) else none
  | .verifyDelegationJwt jwt options =>
    if VerifierConfig.cacheAllowed options then some (.token jwt) else none
  | .clearCache | .clearCacheEntry _ => none

def VerifierCall.options? : VerifierCall → Option VerifyDelegationVCOptions
  | .verifyDelegationCredential _ options | .verifyDelegationJwt _ options => some options
  | .clearCache | .clearCacheEntry _ => none

namespace VerifierConfig

variable {ι : Type} (config : VerifierConfig) (calls : ι → VerifierCall) (answers : ι → Answers)

/-- `verifyDelegationCredential` where the cache is never asked. -/
def plainCredential (vc : Untyped) (options : VerifyDelegationVCOptions) :
    VerifierM DelegationVCVerificationResult := do
  let now ← ask .basicClock
  match ← Async.ofExcept (validateBasicProperties config.runtime now vc true) with
  | some reason => return basicFailure reason
  | none => config.finalizeVerification options vc none (config.runSignature options vc)

/-- `verifyDelegationJwt` where the cache is never asked; its key may still throw. -/
def plainJwt (jwt : JsString) (options : VerifyDelegationVCOptions) :
    VerifierM DelegationVCVerificationResult := do
  let now ← ask .basicClock
  match ← Async.ofExcept (prepareVcJwtCredential config.runtime now jwt) with
  | .error reason => return basicFailure reason
  | .ok prepared =>
    let _ ← Async.ofExcept (config.cacheKeyForJwt jwt prepared.vc options)
    config.finalizeVerification options prepared.vc none
      (config.runTokenSignature options jwt prepared)

def plainCode : VerifierCall → VerifierM (Option DelegationVCVerificationResult)
  | .verifyDelegationCredential vc options => some <$> config.plainCredential vc.value options
  | .verifyDelegationJwt jwt options => some <$> config.plainJwt jwt options
  | .clearCache | .clearCacheEntry _ => return none

/-- The calls of one verifier. -/
def program : Program VerifierWorld ι (Option DelegationVCVerificationResult) where
  code c := config.code (calls c)
  serves c request s answer s' := s' = s ∧ (answers c).Gives ⟨request, answer⟩
  environment _ _ := False

/-- A value under a key is what the check of a form of that key came to, and valid. -/
structure Written (key : JsString) (value : Verification) : Prop where
  valid : value.valid = true
  form : ∃ c form, (calls c).cachedForm = some form ∧ config.formKey form = some key ∧
    config.Checks form value

def protocol : Protocol VerifierWorld ι Unit where
  inv w := w.1.Holds (config.Written calls)
  rely _ _ _ := True
  fresh _ _ := True
  serves c request s answer s' := s' = s ∧ (answers c).Gives ⟨request, answer⟩

end VerifierConfig

section Plain

variable {config : VerifierConfig}

/-- Any request but for the time of the cache. -/
def OutsideCache (request : VerifierRequest) : Prop := request ≠ .cacheClock

theorem outsideCache_basicClock : OutsideCache .basicClock := by
  intro h
  cases h

theorem outsideCache_signatureAwaits : OutsideCache .signatureAwaits := by
  intro h
  cases h

theorem outsideCache_checkStatus (credentialStatus : Untyped) :
    OutsideCache (.checkStatus credentialStatus) := by
  intro h
  cases h

theorem runSignature_stateless (options : VerifyDelegationVCOptions) (vc : Untyped) :
    (config.runSignature options vc).Stateless OutsideCache := by
  rw [VerifierConfig.runSignature]
  split_ifs
  · exact Async.stateless_pure _
  · exact (Async.stateless_ask outsideCache_signatureAwaits).bind fun _ => Async.stateless_pure _

theorem runTokenSignature_stateless (options : VerifyDelegationVCOptions) (jwt : JsString)
    (prepared : PreparedVcJwt) :
    (config.runTokenSignature options jwt prepared).Stateless OutsideCache := by
  rw [VerifierConfig.runTokenSignature]
  split_ifs
  · exact Async.stateless_pure _
  · exact (Async.stateless_ask outsideCache_signatureAwaits).bind fun _ =>
      Async.stateless_ofExcept _

theorem askStatus_stateless (credentialStatus : Untyped) :
    (config.askStatus credentialStatus).Stateless OutsideCache := by
  refine (Async.stateless_ask (outsideCache_checkStatus credentialStatus)).bind ?_
  intro revoked
  split_ifs
  · exact (Async.stateless_ofExcept _).bind fun _ => Async.stateless_pure _
  · exact Async.stateless_pure _

theorem statusResult_stateless (options : VerifyDelegationVCOptions) (vc : Untyped) :
    (config.statusResult options vc).Stateless OutsideCache := by
  rw [VerifierConfig.statusResult]
  split_ifs
  · rw [VerifierConfig.checkCredentialStatus]
    split_ifs
    · exact Async.stateless_pure _
    · exact (askStatus_stateless _).tryCatch fun _ => Async.stateless_pure _
  · exact Async.stateless_pure _

theorem finalizeVerification_stateless {options : VerifyDelegationVCOptions} {vc : Untyped}
    {run : VerifierM Verification} (h : run.Stateless OutsideCache) :
    (config.finalizeVerification options vc none run).Stateless OutsideCache := by
  refine Async.Stateless.bind (h.bind fun _ => Async.stateless_pure _) ?_
  intro signature
  exact (statusResult_stateless options vc).bind fun _ => Async.stateless_pure _

theorem plainCredential_stateless (vc : Untyped) (options : VerifyDelegationVCOptions) :
    (config.plainCredential vc options).Stateless OutsideCache := by
  refine (Async.stateless_ask outsideCache_basicClock).bind ?_
  intro now
  refine (Async.stateless_ofExcept _).bind ?_
  intro failure
  cases failure with
  | some reason => exact Async.stateless_pure _
  | none => exact finalizeVerification_stateless (runSignature_stateless options vc)

theorem plainJwt_stateless (jwt : JsString) (options : VerifyDelegationVCOptions) :
    (config.plainJwt jwt options).Stateless OutsideCache := by
  refine (Async.stateless_ask outsideCache_basicClock).bind ?_
  intro now
  refine (Async.stateless_ofExcept _).bind ?_
  intro result
  cases result with
  | error reason => exact Async.stateless_pure _
  | ok prepared =>
      refine (Async.stateless_ofExcept _).bind fun _ => ?_
      exact finalizeVerification_stateless (runTokenSignature_stateless options jwt prepared)

theorem plainCode_stateless (call : VerifierCall) :
    (config.plainCode call).Stateless OutsideCache := by
  cases call with
  | verifyDelegationCredential vc options =>
      exact (plainCredential_stateless _ _).bind fun _ => Async.stateless_pure _
  | verifyDelegationJwt jwt options =>
      exact (plainJwt_stateless _ _).bind fun _ => Async.stateless_pure _
  | clearCache => exact Async.stateless_pure _
  | clearCacheEntry id => exact Async.stateless_pure _

/-- Calls that may not use the cache never ask it. -/
theorem code_eq_plainCode {call : VerifierCall} {options : VerifyDelegationVCOptions}
    (hcall : call.options? = some options) (h : VerifierConfig.cacheAllowed options = false) :
    config.code call = config.plainCode call := by
  cases call with
  | verifyDelegationCredential vc options' =>
      cases hcall
      rw [VerifierConfig.code, VerifierConfig.verifyDelegationCredential]
      simp only [VerifierConfig.cacheKeyForCredential, h, Bool.false_eq_true, if_false]
      rfl
  | verifyDelegationJwt jwt options' =>
      cases hcall
      rw [VerifierConfig.code, VerifierConfig.plainCode, VerifierConfig.verifyDelegationJwt,
        VerifierConfig.plainJwt]
      simp only [VerifierConfig.cacheKeyForJwt, h, Bool.false_eq_true, if_false]
      rfl
  | clearCache => cases hcall
  | clearCacheEntry id => cases hcall

/-- Outside the cache a call's answers are determined. -/
theorem Answers.gives_unique (answers : Answers) (request : VerifierRequest)
    (answer answer' : Except Error request.Answer) (hrequest : OutsideCache request)
    (h : answers.Gives ⟨request, answer⟩) (h' : answers.Gives ⟨request, answer'⟩) :
    answer = answer' := by
  cases request with
  | cacheClock => exact absurd rfl hrequest
  | _ => exact h.trans h'.symm

end Plain

section Cached

variable {ι : Type} {config : VerifierConfig} {calls : ι → VerifierCall} {answers : ι → Answers}
  {c : ι} {form : Form} {key : JsString}

/-- A request's answer, and the state as it was left. -/
theorem contract_ask (request : VerifierRequest) :
    (config.protocol calls answers).Contract c (fun _ => True) (ask request)
      fun answer _ => (answers c).Gives ⟨request, answer⟩ := by
  refine Protocol.Contract.ask ?_ fun _ _ _ => trivial
  rintro w asked - - hasked - answer s' ⟨rfl, hanswer⟩
  exact ⟨(), hasked, fun _ _ => trivial, fun _ _ _ => hanswer⟩

theorem endsLike_of_stateless {α : Type} {p : VerifierM α} (h : p.Stateless OutsideCache) :
    (config.protocol calls answers).EndsLike c (answers c).Gives Eq p p :=
  .of_stateless h (fun _ _ _ => trivial) fun _ _ _ _ _ hserves => hserves

theorem contract_update {α : Type} {f : TtlCache Verification → TtlCache Verification}
    {next : Unit → VerifierM α} {pre : TtlCache Verification × Unit → Prop}
    {post : Except Error α → TtlCache Verification × Unit → Prop}
    (hkeeps : ∀ cache, cache.Holds (config.Written calls) → pre (cache, ()) →
      (f cache).Holds (config.Written calls))
    (hnext : (config.protocol calls answers).Contract c (fun _ => True) (next ()) post) :
    (config.protocol calls answers).Contract c pre (Async.update f >>= next) post := by
  refine .update (fun _ _ _ _ _ _ _ => trivial) ?_ hnext
  rintro ⟨cache, g⟩ hinv hpre
  exact ⟨(), hkeeps cache hinv hpre, fun _ _ => trivial, trivial⟩

/-- A hit is what was written under the key. -/
theorem lookupSignature_contract (key : JsString) :
    (config.protocol calls answers).Contract c (fun _ => True)
      (VerifierConfig.lookupSignature key) fun hit _ => ∃ found, hit = .ok found ∧
        ∀ value, found = some value → config.Written calls key value := by
  refine Protocol.Contract.bind (contract_ask .cacheClock) ?_ ?_
  · intro now
    refine .state ?_
    intro cache
    have hstored : ∀ w : TtlCache Verification × Unit, (config.protocol calls answers).inv w →
        w.1 = cache ∧ (answers c).Gives ⟨.cacheClock, .ok now⟩ →
          cache.Holds (config.Written calls) := by
      rintro w hinv ⟨rfl, -⟩
      exact hinv
    refine .of_pre hstored ?_
    intro hholds
    refine contract_update ?_ (.pure fun _ _ _ => ⟨_, rfl, ?_⟩)
    · intro _ _ _
      exact hholds.mono (cache.get_subset now key)
    · intro value hhit
      exact hholds.of_get hhit
  · rintro e w - ⟨now, hanswer⟩
    cases hanswer

theorem storeSignature_contract {result : Verification}
    (h : result.valid = true → config.Written calls key result) :
    (config.protocol calls answers).Contract c (fun _ => True) (config.storeSignature key result)
      fun stored _ => stored = .ok () := by
  rw [VerifierConfig.storeSignature]
  split_ifs with hvalid
  · refine Protocol.Contract.bind (contract_ask .cacheClock) ?_ ?_
    · intro now
      refine contract_update ?_ (.pure fun _ _ _ => rfl)
      intro cache hholds _
      exact hholds.set config.ttlOptions now (h hvalid)
    · rintro e w - ⟨now, hanswer⟩
      cases hanswer
  · exact .pure fun _ _ _ => rfl

/-- What a form's check comes to is what the code of the check comes to. -/
structure RunsCheck (config : VerifierConfig) (answers : Answers) (form : Form)
    (run : VerifierM Verification) : Prop where
  stateless : run.Stateless OutsideCache
  checks : ∀ log result, run.Runs log (.ok result) → config.Checks form result
  run_of_checks : ∀ result, config.Checks form result →
    ∃ log, run.Runs log (.ok result) ∧ ∀ exchange ∈ log, answers.Gives exchange

/-- Results of one flag. -/
abbrev SameFlag (signature plain : Verification × Bool) : Prop :=
  signature.1.valid = plain.1.valid

/-- A valid result is written for the form that was checked. -/
theorem checkAndStore_endsLike (hform : (calls c).cachedForm = some form)
    (hkey : config.formKey form = some key) {run : VerifierM Verification}
    (hrun : RunsCheck config (answers c) form run) :
    (config.protocol calls answers).EndsLike c (answers c).Gives SameFlag
      (do
        let result ← run
        config.storeSignature key result
        return (result, false))
      (config.cachedSignature none run) := by
  refine .bind (endsLike_of_stateless hrun.stateless).ran ?_
  rintro result _ ⟨rfl, log, hruns⟩
  have hwritten : result.valid = true → config.Written calls key result :=
    fun hvalid => ⟨hvalid, c, form, hform, hkey, hrun.checks log result hruns⟩
  refine Protocol.Contract.bind (storeSignature_contract hwritten) ?_ ?_
  · intro stored
    exact .pure fun _ _ _ => ⟨[], _, .done _, List.forall_mem_nil _, .ok rfl⟩
  · intro e w _ hstored
    cases hstored

/-- Serving a hit ends as checking again. -/
theorem cachedSignature_endsLike (hprints : config.runtime.numbers.Prints)
    (hreads : ReadsValues config) (hform : (calls c).cachedForm = some form)
    (hkey : config.formKey form = some key) {run : VerifierM Verification}
    (hrun : RunsCheck config (answers c) form run) :
    (config.protocol calls answers).EndsLike c (answers c).Gives SameFlag
      (config.cachedSignature (some key) run) (config.cachedSignature none run) := by
  refine Protocol.Contract.bind (lookupSignature_contract key) ?_ ?_
  · intro hit
    cases hit with
    | some value =>
        refine .of_pre (fun _ _ h => h) ?_
        rintro ⟨found, hfound, hwritten⟩
        obtain ⟨hvalid, _, writer, -, hwriter, hchecks⟩ :=
          hwritten value (Except.ok.inj hfound).symm
        have hsame := VerifierConfig.sameForm_of_formKey hprints hwriter hkey
        obtain ⟨result, hchecks', hvalid'⟩ := checks_of_sameForm hreads hsame hchecks hvalid
        obtain ⟨log, hruns, hlog⟩ := hrun.run_of_checks result hchecks'
        refine .pure fun _ _ _ => ⟨log, .ok (result, false), ?_, hlog,
          .ok (hvalid.trans hvalid'.symm)⟩
        exact Async.runs_bind_ok.mpr ⟨log, [], result, (List.append_nil log).symm, hruns, .done _⟩
    | none => exact (checkAndStore_endsLike hform hkey hrun).mono_pre fun _ _ _ => trivial
  · rintro e w - ⟨found, hfound, -⟩
    cases hfound

/-- The verdict is of the flags of its two checks. -/
theorem finalizeVerification_endsLike {options : VerifyDelegationVCOptions} {vc : Untyped}
    {cacheKey : Option JsString} {run : VerifierM Verification}
    (hsignature : (config.protocol calls answers).EndsLike c (answers c).Gives SameFlag
      (config.cachedSignature cacheKey run) (config.cachedSignature none run)) :
    (config.protocol calls answers).EndsLike c (answers c).Gives SameVerdict
      (config.finalizeVerification options vc cacheKey run)
      (config.finalizeVerification options vc none run) := by
  refine .bind hsignature ?_
  intro signature plain hflag
  refine .bind (endsLike_of_stateless (statusResult_stateless options vc)) ?_
  rintro status _ rfl
  refine .pure ?_
  rw [SameVerdict, DelegationVCVerificationResult.verdict, DelegationVCVerificationResult.verdict,
    VerifierConfig.combineVerificationResult, VerifierConfig.combineVerificationResult]
  rw [show signature.1.valid = plain.1.valid from hflag]

theorem cacheAllowed_iff {options : VerifyDelegationVCOptions} :
    VerifierConfig.cacheAllowed options = true ↔ options.skipCache = false ∧
      options.skipSignature = false ∧ options.didResolver = none ∧
      options.hasStatusListResolver = false := by
  simp [VerifierConfig.cacheAllowed, and_assoc]

/-- The awaits of a check, and what it comes to then. -/
def awaited (checked : Except Error Verification) : VerifierM Verification := do
  ask .signatureAwaits
  Async.ofExcept checked

theorem runsCheck_awaited {checked : Except Error Verification} (answers : Answers)
    (h : ∀ result, checked = .ok result ↔ config.Checks form result) :
    RunsCheck config answers form (awaited checked) := by
  refine ⟨?_, ?_, ?_⟩
  · exact (Async.stateless_ask outsideCache_signatureAwaits).bind fun _ =>
      Async.stateless_ofExcept _
  · intro log result hruns
    obtain ⟨_, _, _, -, -, hchecked⟩ := Async.runs_bind_ok.mp hruns
    exact (h result).mp (Async.runs_ofExcept.mp hchecked).2.symm
  · intro result hchecks
    refine ⟨[⟨.signatureAwaits, .ok ()⟩], ?_, List.forall_mem_singleton.mpr rfl⟩
    exact Async.runs_ask_bind.mpr
      ⟨.ok (), [], rfl, Async.runs_ofExcept.mpr ⟨rfl, ((h result).mpr hchecks).symm⟩⟩

/-- The check of a credential, as a call runs it that may use the cache. -/
theorem runsCheck_credential {options : VerifyDelegationVCOptions}
    (hallowed : VerifierConfig.cacheAllowed options = true) (vc : CredentialValue)
    (answers : Answers) :
    RunsCheck config answers (.credential vc) (config.runSignature options vc.value) := by
  obtain ⟨-, hskip, hresolver, -⟩ := cacheAllowed_iff.mp hallowed
  have hrun : config.runSignature options vc.value =
      awaited (.ok (config.verifySignature config.didResolver vc.value)) := by
    rw [VerifierConfig.runSignature, if_neg (by simp [hskip]), hresolver]
    rfl
  rw [hrun]
  refine runsCheck_awaited answers fun result => ?_
  exact ⟨Except.ok.inj, congrArg Except.ok⟩

/-- The check of a token likewise. -/
theorem runsCheck_token {options : VerifyDelegationVCOptions}
    (hallowed : VerifierConfig.cacheAllowed options = true) {now : ℚ} {jwt : JsString}
    {prepared : PreparedVcJwt}
    (hprepared : prepareVcJwtCredential config.runtime now jwt = .ok (.ok prepared))
    (answers : Answers) :
    RunsCheck config answers (.token jwt) (config.runTokenSignature options jwt prepared) := by
  obtain ⟨-, hskip, hresolver, -⟩ := cacheAllowed_iff.mp hallowed
  have hrun : config.runTokenSignature options jwt prepared =
      awaited (config.verifyVcJwtSignature config.didResolver jwt prepared) := by
    rw [VerifierConfig.runTokenSignature, if_neg (by simp [hskip]), hresolver]
    rfl
  rw [hrun]
  refine runsCheck_awaited answers fun result => ?_
  constructor
  · exact fun hresult => ⟨now, prepared, hprepared, hresult⟩
  · rintro ⟨now', prepared', hprepared', hresult⟩
    rwa [prepared_unique hprepared' hprepared] at hresult

theorem cachedSignature_none_endsLike {run : VerifierM Verification}
    (h : run.Stateless OutsideCache) :
    (config.protocol calls answers).EndsLike c (answers c).Gives SameFlag
      (config.cachedSignature none run) (config.cachedSignature none run) := by
  refine .bind (endsLike_of_stateless h) ?_
  rintro result _ rfl
  exact .pure rfl

/-- A credential's call ends as it does without the cache. -/
theorem verifyDelegationCredential_endsLike (hprints : config.runtime.numbers.Prints)
    (hreads : ReadsValues config) {vc : CredentialValue} {options : VerifyDelegationVCOptions}
    (hcall : calls c = .verifyDelegationCredential vc options) :
    (config.protocol calls answers).EndsLike c (answers c).Gives SameVerdict
      (config.verifyDelegationCredential vc.value options)
      (config.plainCredential vc.value options) := by
  refine .bind (endsLike_of_stateless (Async.stateless_ask outsideCache_basicClock)) ?_
  rintro now _ rfl
  refine .bind (endsLike_of_stateless (Async.stateless_ofExcept _)) ?_
  rintro failure _ rfl
  cases failure with
  | some reason => exact .pure rfl
  | none =>
      apply finalizeVerification_endsLike
      cases hkey : config.cacheKeyForCredential vc.value options with
      | none => exact cachedSignature_none_endsLike (runSignature_stateless options vc.value)
      | some key =>
          rw [VerifierConfig.cacheKeyForCredential] at hkey
          split_ifs at hkey with hallowed
          have hform : (calls c).cachedForm = some (.credential vc) := by
            rw [hcall, VerifierCall.cachedForm, if_pos hallowed]
          exact cachedSignature_endsLike hprints hreads hform hkey
            (runsCheck_credential hallowed vc (answers c))

/-- A token's call ends as it does without the cache. -/
theorem verifyDelegationJwt_endsLike (hprints : config.runtime.numbers.Prints)
    (hreads : ReadsValues config) {jwt : JsString} {options : VerifyDelegationVCOptions}
    (hcall : calls c = .verifyDelegationJwt jwt options) :
    (config.protocol calls answers).EndsLike c (answers c).Gives SameVerdict
      (config.verifyDelegationJwt jwt options) (config.plainJwt jwt options) := by
  refine .bind (endsLike_of_stateless (Async.stateless_ask outsideCache_basicClock)) ?_
  rintro now _ rfl
  refine .bind (.check _) ?_
  rintro result _ ⟨rfl, hprepared⟩
  cases result with
  | error reason => exact .pure rfl
  | ok prepared =>
      refine .bind (.check _) ?_
      rintro cacheKey _ ⟨rfl, hkey⟩
      apply finalizeVerification_endsLike
      cases cacheKey with
      | none =>
          exact cachedSignature_none_endsLike (runTokenSignature_stateless options jwt prepared)
      | some key =>
          rw [VerifierConfig.cacheKeyForJwt] at hkey
          split_ifs at hkey with hallowed
          · cases hread : Untrusted.cacheKeyForJwt config.runtime jwt prepared.vc with
            | error e =>
                rw [hread] at hkey
                cases hkey
            | ok key' =>
                rw [hread] at hkey
                cases hkey
                have hform : (calls c).cachedForm = some (.token jwt) := by
                  rw [hcall, VerifierCall.cachedForm, if_pos hallowed]
                exact cachedSignature_endsLike hprints hreads hform (formKey_token hprepared hread)
                  (runsCheck_token hallowed hprepared (answers c))
          · cases hkey

theorem code_endsLike (hprints : config.runtime.numbers.Prints) (hreads : ReadsValues config) :
    (config.protocol calls answers).EndsLike c (answers c).Gives (Option.Rel SameVerdict)
      (config.code (calls c)) (config.plainCode (calls c)) := by
  cases hcall : calls c with
  | verifyDelegationCredential vc options =>
      exact .bind (verifyDelegationCredential_endsLike hprints hreads hcall) fun _ _ h =>
        .pure (.some h)
  | verifyDelegationJwt jwt options =>
      exact .bind (verifyDelegationJwt_endsLike hprints hreads hcall) fun _ _ h =>
        .pure (.some h)
  | clearCache =>
      refine contract_update ?_ (.pure fun _ _ _ =>
        ⟨[], _, .done _, List.forall_mem_nil _, .ok .none⟩)
      intro _ _ _
      exact TtlCache.holds_clear
  | clearCacheEntry id =>
      refine contract_update ?_ (.pure fun _ _ _ =>
        ⟨[], _, .done _, List.forall_mem_nil _, .ok .none⟩)
      intro cache hholds _
      exact hholds.mono (cache.deleteWhere_subset _)

end Cached

end KyaOs.CachingVerifier
