import KyaOs.Card.DelegationStatus
import KyaOs.Card.ListCoverage

/-!
# Whose list a hop was read from

An accepted chain was read from status lists whose proofs verify, each under the issuer that
the list names. Whether that is the issuer of the hop is not asked.
-/

open Js

namespace KyaOs.Card

open Audit DidDocuments Concurrency Concurrency.Async

/-- What one check is served: the responses to its fetch, the clock, and DID documents. -/
structure Serving where
  fetch : JsString → Except Error SafeFetchResponse
  now : JsNumber
  didResolver : DIDResolver
  wellFormed : ∀ url response body, fetch url = .ok response → response.json = .ok body →
    body.WellFormed

/-- Each check is served on its own. -/
abbrev ListServing : Setting where
  State := Unit
  Error := Error
  Request := BitstringStatusListEntry
  Answer _ := Serving

/-- What the checker is built with once. -/
structure CheckerConfig (K : Type) where
  crypto : ListProofCrypto K
  statusPurpose : Option JsString := none
  codec : GzipCodec
  dateParse : JsString → Option Int

namespace CheckerConfig

variable {K : Type} (config : CheckerConfig K)

def deps (serving : Serving) : RevocationCheckerDeps where
  fetch := serving.fetch
  now := serving.now
  statusPurpose := config.statusPurpose
  verifyStatusList := some (createStatusListProofVerifier config.crypto serving.didResolver)
  codec := config.codec
  dateParse := config.dateParse

/-- `createRevocationChecker` with `createStatusListProofVerifier`. -/
def check (entry : BitstringStatusListEntry) : Async ListServing RevocationStatus := do
  let serving ← Async.ask (I := ListServing) entry
  Async.ofExcept (createRevocationChecker (config.deps serving) entry)

/-- The list that a check fetched. -/
def ReadFrom (exchange : Exchange ListServing) (P : Serving → Json → Prop) : Prop :=
  ∃ serving credential, exchange.answer = .ok serving ∧
    (config.deps serving).fetchStatusList exchange.request.statusListCredential = .ok credential ∧
    P serving credential

/-- The entry was found not to be revoked. -/
def Clears (entry : BitstringStatusListEntry) (exchange : Exchange ListServing) : Prop :=
  ∃ serving status, exchange = ⟨entry, .ok serving⟩ ∧
    createRevocationChecker (config.deps serving) entry = .ok status ∧ status.revoked = false

variable {config} {log : List (Exchange ListServing)}

theorem runs_walkRevocation_ok {entries : List BitstringStatusListEntry} {hop : Nat} {fresh : Bool}
    {result : RevocationChainResult}
    (h : (walkRevocation config.check entries hop fresh).Runs log (.ok result))
    (hok : result.ok = true) : List.Forall₂ config.Clears entries log := by
  induction entries generalizing log hop fresh with
  | nil =>
      obtain ⟨rfl, -⟩ := runs_pure.mp h
      exact .nil
  | cons entry rest ih =>
      obtain ⟨first, later, status, rfl, hchecked, hnext⟩ := runs_bind_ok.mp h
      obtain ⟨asked, decided, serving, rfl, hasked, hstatus⟩ := runs_bind_ok.mp hchecked
      obtain rfl := runs_ask.mp hasked
      obtain ⟨rfl, hanswer⟩ := runs_ofExcept.mp hstatus
      split_ifs at hnext with hrevoked
      · obtain ⟨-, hresult⟩ := runs_pure.mp hnext
        cases hresult
        cases hok
      · exact .cons ⟨serving, status, rfl, hanswer.symm, by simpa using hrevoked⟩ (ih hnext)

/-- A check that clears an entry read a list whose proof verifies. -/
theorem verified_of_clears {entry : BitstringStatusListEntry} {exchange : Exchange ListServing}
    (h : config.Clears entry exchange) :
    ∃ serving credential, exchange = ⟨entry, .ok serving⟩ ∧
      (config.deps serving).fetchStatusList entry.statusListCredential = .ok credential ∧
      credential.WellFormed ∧
      createStatusListProofVerifier config.crypto serving.didResolver credential = .ok true := by
  obtain ⟨serving, status, rfl, hcheck, hclear⟩ := h
  cases hread : readRevocationStatus (config.deps serving) entry with
  | error thrown =>
      rw [createRevocationChecker, hread] at hcheck
      cases hcheck
      cases hclear
  | ok read =>
      obtain ⟨credential, hfetched, hread⟩ := bind_eq_ok.mp hread
      obtain ⟨_, hproof, -⟩ := bind_eq_ok.mp hread
      obtain ⟨verified, hverified, hproof⟩ := bind_eq_ok.mp hproof
      refine ⟨serving, credential, rfl, hfetched, ?_, ?_⟩
      · obtain ⟨response, hresponse, hfetched⟩ := bind_eq_ok.mp hfetched
        split at hfetched
        · cases hfetched
        · obtain ⟨body, hbody, hfetched⟩ := bind_eq_ok.mp hfetched
          split at hfetched
          · cases hfetched
            exact serving.wellFormed _ response credential hresponse hbody
          · cases hfetched
      · cases verified with
        | true => exact hverified
        | false => cases hproof

end CheckerConfig

/-- The hops that are listed, with their issuers. -/
def listedHops (chain : List DelegationHop) : List (JsString × BitstringStatusListEntry) :=
  chain.filterMap fun vc => (statusEntryOf vc).map (issuerDid vc.toDelegationCredential, ·)

theorem map_snd_listedHops (chain : List DelegationHop) :
    (listedHops chain).map Prod.snd = chain.filterMap statusEntryOf := by
  rw [listedHops, List.map_filterMap]
  apply List.filterMap_congr
  intro vc _
  cases statusEntryOf vc <;> rfl

section Chain

variable {K : Type} (config : CheckerConfig K) (signed : K → Unsecured → Prop)
  (chain : List DelegationHop) (log : List (Exchange ListServing))

/-- Each listed hop was read from a list that is signed with a key of the hop's issuer. -/
def HopsSigned : Prop :=
  List.Forall₂ (fun hop exchange => config.ReadFrom exchange fun serving credential =>
    SignedBy config.crypto signed serving.didResolver hop.1 credential) (listedHops chain) log

/-- Each listed hop was served a list that names the hop's issuer as its own. -/
def ServedOwnLists : Prop :=
  List.Forall₂ (fun hop exchange => config.ReadFrom exchange fun _ credential =>
    listIssuer credential = some hop.1) (listedHops chain) log

variable {config signed chain log}

theorem forall₂_iff {α β : Type} {R P Q : α → β → Prop} {l : List α} {l' : List β}
    (h : List.Forall₂ R l l') (hiff : ∀ a b, R a b → (P a b ↔ Q a b)) :
    List.Forall₂ P l l' ↔ List.Forall₂ Q l l' := by
  induction h with
  | nil => exact iff_of_true .nil .nil
  | cons hhead htail ih => rw [List.forall₂_cons, List.forall₂_cons, hiff _ _ hhead, ih]

theorem runs_evaluateDelegationChain_ok {dateParse : JsString → Option Int}
    {numberText : JsNumber → JsString} {ctx : DelegationChainContext}
    {result : DelegationChainEvaluation}
    (h : (evaluateDelegationChain config.check dateParse numberText chain ctx).Runs log
      (.ok result)) (hok : result.ok = true) :
    List.Forall₂ config.Clears (chain.filterMap statusEntryOf) log := by
  unfold evaluateDelegationChain at h
  dsimp only at h
  split_ifs at h with hvalid
  · obtain ⟨first, later, revocation, rfl, hwalk, hresult⟩ := runs_bind_ok.mp h
    obtain ⟨rfl, hresult⟩ := runs_pure.mp hresult
    cases hresult
    rw [List.append_nil]
    exact CheckerConfig.runs_walkRevocation_ok hwalk (Bool.and_eq_true_iff.mp hok).2
  · obtain ⟨-, hresult⟩ := runs_pure.mp h
    cases hresult
    exact absurd hok hvalid

/-- The lists of an accepted chain are signed by the issuers of its hops exactly where they
were served with these as their own issuers. -/
theorem hopsSigned_iff (hsound : Sound config.crypto signed) {dateParse : JsString → Option Int}
    {numberText : JsNumber → JsString} {ctx : DelegationChainContext}
    {result : DelegationChainEvaluation}
    (h : (evaluateDelegationChain config.check dateParse numberText chain ctx).Runs log
      (.ok result)) (hok : result.ok = true) :
    HopsSigned config signed chain log ↔ ServedOwnLists config chain log := by
  have hclears := runs_evaluateDelegationChain_ok h hok
  rw [← map_snd_listedHops, List.forall₂_map_left_iff] at hclears
  refine forall₂_iff hclears fun hop exchange hclear => ?_
  obtain ⟨serving, credential, rfl, hfetched, hwf, hverified⟩ :=
    CheckerConfig.verified_of_clears hclear
  have hread : ∀ P : Serving → Json → Prop,
      config.ReadFrom ⟨hop.2, .ok serving⟩ P ↔ P serving credential := by
    intro P
    refine ⟨?_, fun hP => ⟨serving, credential, rfl, hfetched, hP⟩⟩
    rintro ⟨serving', credential', hserving, hfetched', hP⟩
    cases hserving
    cases hfetched.symm.trans hfetched'
    exact hP
  rw [hread, hread]
  exact signedBy_iff hsound hwf hverified hop.1

end Chain

/-- The text of a well-formed value has no unpaired surrogate. -/
theorem hasLoneSurrogate_stringify {v : Json} (hv : v.WellFormed) :
    hasLoneSurrogate (Json.stringify v) = false := by
  induction hv with
  | null => decide
  | bool value => cases value <;> decide
  | number n =>
      cases n with
      | finite text => exact hasLoneSurrogate_of_all (isScalar_numberText text.2)
      | infinity negative => exact hasLoneSurrogate_of_all (by decide : (js "null").all isScalar)
  | string text => exact hasLoneSurrogate_quote text
  | @array items h ih =>
      rw [Json.stringify, Json.stringifyItems_eq, ← List.singleton_append]
      apply hasLoneSurrogate_append _ (by decide)
      apply hasLoneSurrogate_append (by decide)
      apply hasLoneSurrogate_intercalate (by decide)
      intro text htext
      obtain ⟨item, hitem, rfl⟩ := List.mem_map.mp htext
      exact ih item hitem
  | @object members hkeys h ih =>
      rw [Json.stringify, Json.stringifyMembers_eq, ← List.singleton_append]
      apply hasLoneSurrogate_append _ (by decide)
      apply hasLoneSurrogate_append (by decide)
      apply hasLoneSurrogate_intercalate (by decide)
      intro text htext
      obtain ⟨member, hmember, rfl⟩ := List.mem_map.mp htext
      rw [← List.singleton_append]
      apply hasLoneSurrogate_append (hasLoneSurrogate_quote _)
      apply hasLoneSurrogate_append (by decide)
      exact ih member hmember

/-- A code whose words end themselves. -/
def delimited : Bytes → Bytes
  | [] => [0]
  | byte :: rest => 1 :: byte :: delimited rest

theorem delimited_append {a b : Bytes} {s t : Bytes} (h : delimited a ++ s = delimited b ++ t) :
    a = b ∧ s = t := by
  induction a generalizing b with
  | nil =>
      cases b with
      | nil => exact ⟨rfl, by simpa [delimited] using h⟩
      | cons byte rest => simp [delimited] at h
  | cons byte rest ih =>
      cases b with
      | nil => simp [delimited] at h
      | cons byte' rest' =>
          simp only [delimited, List.cons_append, List.cons.injEq, true_and] at h
          obtain ⟨rfl, htail⟩ := ih h.2
          exact ⟨by rw [h.1], htail⟩

def sampleHashing : ListProofCrypto Unit where
  canonicalize v := .ok (Json.stringify (Json.sortKeys v))
  sha256 bytes := .ok (delimited bytes)
  importKey _ _ _ := .ok ()
  isSmallOrderEd25519CryptoKey _ := .ok false
  verify _ _ _ := .ok false

def strangerProof : List (JsString × Json) := [
  (js "type", .string (js "DataIntegrityProof")),
  (js "cryptosuite", .string (js "eddsa-jcs-2022")),
  (js "proofPurpose", .string (js "assertionMethod")),
  (js "verificationMethod", .string (js "did:web:stranger#key"))]

def strangerDocument : List (JsString × Json) := [
  (js "issuer", .string (js "did:web:stranger")),
  (js "credentialSubject", .object [
    (js "statusPurpose", .string (js "revocation")),
    (js "encodedList", .string zeroByteList.encodedList)])]

/-- What the stranger signs: a list of its own. -/
def strangerCovered : Unsecured := { options := strangerProof, document := strangerDocument }

def proofValueMember : JsString × Json :=
  (js "proofValue", .string (js "z" ++ List.replicate 64 0x31))

def strangerList : List (JsString × Json) :=
  strangerDocument ++ [(js "proof", .object (strangerProof ++ [proofValueMember]))]

/-- The one signature that exists is the stranger's. -/
def sampleListCrypto : ListProofCrypto Unit :=
  { sampleHashing with
    verify := fun _ _ data => .ok (decide (hashData sampleHashing strangerCovered = .ok data)) }

theorem wellFormed_strangerProof : (Json.object strangerProof).WellFormed := by
  refine .object (by decide) ?_
  simp only [strangerProof, List.forall_mem_cons, List.not_mem_nil, false_imp_iff, implies_true,
    and_true]
  exact ⟨.string _, .string _, .string _, .string _⟩

theorem wellFormed_strangerDocument : (Json.object strangerDocument).WellFormed := by
  refine .object (by decide) ?_
  simp only [strangerDocument, List.forall_mem_cons, List.not_mem_nil, false_imp_iff, implies_true,
    and_true]
  refine ⟨.string _, .object (by decide) ?_⟩
  simp only [List.forall_mem_cons, List.not_mem_nil, false_imp_iff, implies_true, and_true]
  exact ⟨.string _, .string _⟩

theorem sound_sampleListCrypto :
    Sound sampleListCrypto fun _ covered => covered = strangerCovered where
  unforgeable key signature data _ hverify :=
    ⟨strangerCovered, rfl, ⟨wellFormed_strangerProof, wellFormed_strangerDocument⟩,
      of_decide_eq_true (Except.ok.inj hverify)⟩
  digests a b a' b' _ _ _ _ ha hb ha' hb' hdata := by
    cases ha
    cases hb
    cases ha'
    cases hb'
    obtain ⟨rfl, hsecond⟩ := delimited_append hdata
    have hend : delimited b ++ [] = delimited b' ++ [] := by rw [hsecond]
    exact ⟨rfl, (delimited_append hend).1⟩
  canonical v w _ _ hv hw htext htext' hbytes := by
    cases htext
    cases htext'
    rw [← Json.sameShown_iff hv hw]
    exact encodeUtf8_injective (hasLoneSurrogate_stringify (Json.wellFormed_sortKeys hv))
      (hasLoneSurrogate_stringify (Json.wellFormed_sortKeys hw)) hbytes

theorem wellFormed_strangerList : (Json.object strangerList).WellFormed := by
  cases wellFormed_strangerDocument with
  | object _ hdocument =>
      refine .object (by decide) fun member hmem => ?_
      obtain hmem | hmem := List.mem_append.mp hmem
      · exact hdocument member hmem
      · obtain rfl := List.mem_singleton.mp hmem
        cases wellFormed_strangerProof with
        | object _ hproof =>
            refine .object (by decide) fun member hmem => ?_
            obtain hmem | hmem := List.mem_append.mp hmem
            · exact hproof member hmem
            · obtain rfl := List.mem_singleton.mp hmem
              exact .string _

/-- The stranger's own document, with the key it signs with. -/
def strangerResolver : DIDResolver := fun did =>
  .ok (if did = js "did:web:stranger" then some
    { verificationMethod := some [{
        id := js "#key"
        publicKeyJwk := some (.object [(js "kty", .string (js "OKP")),
          (js "crv", .string (js "Ed25519")), (js "x", .string (js "AAAA"))]) }] }
  else none)

def strangerServing : Serving where
  fetch _ := .ok { ok := true, status := 200, json := .ok (.object strangerList) }
  now := .ofNat 0
  didResolver := strangerResolver
  wellFormed _ _ _ hresponse hbody := by
    cases hresponse
    cases hbody
    exact wellFormed_strangerList

def sampleCheckerConfig : CheckerConfig Unit where
  crypto := sampleListCrypto
  codec := zeroByteGzip
  dateParse _ := none

/-- The owner's delegation, whose status is listed. -/
def listedRoot : DelegationHop where
  issuer := .did (js "did:web:owner")
  credentialSubject := {
    id := js "urn:cap:1", invoker := some (js "did:web:agent")
    parentCapability := js "https://api.example", invocationTarget := js "https://api.example"
    allowedAction := [js "read"] }
  credentialStatus := some
    { statusListIndex := js "3", statusListCredential := js "https://api.example/status" }

def strangerLog : List (Exchange ListServing) := [⟨
  { statusListIndex := js "3", statusListCredential := js "https://api.example/status" },
  .ok strangerServing⟩]

theorem strangerList_verified :
    createStatusListProofVerifier sampleListCrypto strangerResolver (.object strangerList) =
      .ok true := by
  have hread : readListProof strangerList = some
      { members := strangerProof ++ [proofValueMember]
        proofValue := js "z" ++ List.replicate 64 0x31
        verificationMethod := js "did:web:stranger#key" } := rfl
  have hsignature : base58Decode (List.replicate 64 0x31) maxProofValueBase58 =
      .ok (List.replicate 64 0) := by
    decide +kernel
  have hcovered : unsecured sampleListCrypto strangerList
      { members := strangerProof ++ [proofValueMember]
        proofValue := js "z" ++ List.replicate 64 0x31
        verificationMethod := js "did:web:stranger#key" } = .ok (some strangerCovered) := rfl
  obtain ⟨data, hdata⟩ : ∃ data, hashData sampleHashing strangerCovered = .ok data := ⟨_, rfl⟩
  have hraw : ∀ jwk, ed25519VerifyRaw sampleListCrypto jwk (List.replicate 64 0) data = true := by
    intro jwk
    rw [ed25519VerifyRaw, decide_eq_true_eq, toOption_eq_some]
    refine bind_eq_ok.mpr ⟨(), rfl, bind_eq_ok.mpr ⟨false, rfl, ?_⟩⟩
    exact congrArg Except.ok (decide_eq_true hdata)
  have hverify : verifyEddsaJcs2022 sampleListCrypto strangerResolver strangerList = .ok true := by
    rw [verifyEddsaJcs2022, hread]
    refine (if_pos rfl).trans ?_
    refine bind_eq_ok.mpr ⟨_, hsignature, bind_eq_ok.mpr ⟨_, rfl, bind_eq_ok.mpr
      ⟨_, hcovered, bind_eq_ok.mpr ⟨data, hdata, ?_⟩⟩⟩⟩
    exact congrArg Except.ok (hraw _)
  rw [createStatusListProofVerifier, hverify]
  rfl

theorem strangerList_clears :
    createRevocationChecker (sampleCheckerConfig.deps strangerServing)
      { statusListIndex := js "3", statusListCredential := js "https://api.example/status" } =
        .ok { revoked := false, fresh := true } := by
  have hproof : (sampleCheckerConfig.deps strangerServing).checkListProof (.object strangerList) =
      .ok () := bind_eq_ok.mpr ⟨true, strangerList_verified, rfl⟩
  have hread : readRevocationStatus (sampleCheckerConfig.deps strangerServing)
      { statusListIndex := js "3", statusListCredential := js "https://api.example/status" } =
        .ok { revoked := false, fresh := true } := by
    refine bind_eq_ok.mpr ⟨.object strangerList, rfl, bind_eq_ok.mpr ⟨(), hproof, ?_⟩⟩
    decide +kernel
  rw [createRevocationChecker, hread]
  rfl

theorem listedRoot_runs : ∃ result,
    (evaluateDelegationChain sampleCheckerConfig.check (fun _ => none) (fun _ => []) [listedRoot]
      { now := 0 }).Runs strangerLog (.ok result) ∧ result.ok = true := by
  have hvalid : (validateDelegationChain (fun _ => none) (fun _ => [])
      [listedRoot.toDelegationCredential] { now := 0 }).ok = true := rfl
  have hcheck : (sampleCheckerConfig.check
      { statusListIndex := js "3", statusListCredential := js "https://api.example/status" }).Runs
        strangerLog (.ok { revoked := false, fresh := true }) :=
    runs_bind_ok.mpr ⟨_, [], strangerServing, rfl, runs_ask.mpr rfl,
      runs_ofExcept.mpr ⟨rfl, strangerList_clears.symm⟩⟩
  have hwalk : (evaluateRevocationChain sampleCheckerConfig.check
      [{ statusListIndex := js "3", statusListCredential := js "https://api.example/status" }]).Runs
        strangerLog (.ok { ok := true, fresh := true, reasons := [] }) :=
    runs_bind_ok.mpr ⟨strangerLog, [], _, (List.append_nil _).symm, hcheck, .done _⟩
  unfold evaluateDelegationChain
  dsimp only
  rw [List.map_singleton, if_pos hvalid, hvalid]
  exact ⟨_, runs_bind_ok.mpr ⟨strangerLog, [], _, (List.append_nil _).symm, hwalk, .done _⟩, rfl⟩

/-- A chain is accepted on a list that is not its issuer's. -/
theorem strangerList_accepted : ∃ result,
    (evaluateDelegationChain sampleCheckerConfig.check (fun _ => none) (fun _ => []) [listedRoot]
      { now := 0 }).Runs strangerLog (.ok result) ∧ result.ok = true ∧
      ¬ HopsSigned sampleCheckerConfig (fun _ covered => covered = strangerCovered) [listedRoot]
        strangerLog := by
  obtain ⟨result, hruns, hok⟩ := listedRoot_runs
  refine ⟨result, hruns, hok, fun hsigned => ?_⟩
  obtain ⟨⟨serving, credential, hserving, hfetched, hlist⟩, -⟩ := List.forall₂_cons.mp hsigned
  cases hserving
  obtain rfl : Json.object strangerList = credential := Except.ok.inj hfetched
  obtain hissuer := (signedBy_iff sound_sampleListCrypto wellFormed_strangerList
    strangerList_verified (js "did:web:owner")).mp hlist
  exact absurd (Option.some.inj hissuer) (by decide)

theorem hopsSigned_iff_listedRoot :
    HopsSigned sampleCheckerConfig (fun _ covered => covered = strangerCovered) [listedRoot]
        strangerLog ↔
      ServedOwnLists sampleCheckerConfig [listedRoot] strangerLog := by
  obtain ⟨result, hruns, hok⟩ := listedRoot_runs
  exact hopsSigned_iff sound_sampleListCrypto hruns hok

end KyaOs.Card
