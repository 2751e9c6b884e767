import KyaOs.Concurrency.Actions
import KyaOs.Delegation.CacheTransparency
import KyaOs.Integrations.CheqdStatusList

/-!
# Invalidating the lists of a resolver

One flag and one cache serve all lists, and a fetch in flight stores its list and clears the
flag whatever happened since it was begun. Where no list is stored that was fetched before the
last invalidation, and each list is fetched anew before any is stored, invalidating takes
effect.
-/

namespace KyaOs.Cheqd

open Js Concurrency

namespace CheqdWorld

/-- What a call reads was fetched after every invalidation before the call, and the first fetch
of a list after an invalidation asks for no cached copy. -/
structure TakesEffect (w : CheqdWorld) : Prop where
  fresh : ∀ r ∈ w.reads, r.started ≤ r.fetch.invalidated
  busted : ∀ before fetch after, w.fetches = before ++ fetch :: after → 0 < fetch.invalidated →
    (∀ earlier ∈ before, earlier.url = fetch.url → earlier.invalidated < fetch.invalidated) →
      fetch.noCache = true

/-- No list has been fetched from a URL since the last invalidation. -/
def Unfetched (w : CheqdWorld) (url : JsString) : Prop :=
  0 < w.invalidations ∧ ∀ fetch ∈ w.fetches, fetch.url = url → fetch.invalidated < w.invalidations

/-- The call goes as far as its list. -/
def AsksForList (status : CredentialStatus) : Prop :=
  startsWith status.statusListCredential (js "https://") = true ∧
    ∃ index, parseStatusListIndex status.statusListIndex = .ok index

/-- The list that a call stores was fetched since the last invalidation, and no list has been
stored since then when a call asks for one that was not fetched since. -/
def InTime (w : CheqdWorld) : CheqdAction → Prop
  | .checkStatus _ status _ => AsksForList status → w.Unfetched status.statusListCredential →
      w.invalidations ∉ w.stores
  | .store call _ => ∀ entry fetch body, w.calls call = some (.verified entry fetch body) →
      fetch.invalidated = w.invalidations
  | _ => True

/-- What runs in time keep. -/
structure Inv (w : CheqdWorld) : Prop where
  takesEffect : w.TakesEffect
  /-- Every cached list was fetched since the last invalidation. -/
  cached : w.cache.Holds fun _ list => list.fetch.invalidated = w.invalidations
  flag : 0 < w.invalidations → w.invalidations ∉ w.stores → w.bustNextFetch = true

variable {options : CheqdStatusListResolverOptions} {w w' : CheqdWorld} {action : CheqdAction}
  {call : Nat} {phase : CheqdPhase} {entry : ListEntry} {fetch : ListFetch}

theorem Inv.setPhase (h : w.Inv) : (w.setPhase call phase).Inv :=
  ⟨⟨h.takesEffect.fresh, h.takesEffect.busted⟩, h.cached, h.flag⟩

theorem Inv.invalidateCache (h : w.Inv) : w.invalidateCache.Inv :=
  ⟨⟨h.takesEffect.fresh, h.takesEffect.busted⟩, TtlCache.holds_clear, fun _ _ => rfl⟩

/-- One more list is read, which was fetched after the invalidations before the call. -/
theorem TakesEffect.addRead (h : w.TakesEffect) {r : ListRead}
    (hr : r.started ≤ r.fetch.invalidated)
    (hreads : w'.reads = w.reads ++ [r]) (hfetches : w'.fetches = w.fetches) : w'.TakesEffect where
  fresh r' hr' := by
    rw [hreads] at hr'
    obtain hold | hnew := List.mem_append.mp hr'
    · exact h.fresh r' hold
    · exact List.mem_singleton.mp hnew ▸ hr
  busted := hfetches ▸ h.busted

/-- One more fetch is begun. -/
theorem TakesEffect.addFetch (h : w.TakesEffect)
    (hfirst : (∀ earlier ∈ w.fetches, earlier.url = fetch.url →
      earlier.invalidated < fetch.invalidated) → 0 < fetch.invalidated → fetch.noCache = true)
    (hreads : w'.reads = w.reads) (hfetches : w'.fetches = w.fetches ++ [fetch]) :
    w'.TakesEffect where
  fresh := hreads ▸ h.fresh
  busted before fetch' after hsplit hpos hearlier := by
    rw [hfetches] at hsplit
    obtain rfl | ⟨init, last, rfl⟩ := after.eq_nil_or_concat
    · obtain ⟨rfl, hlast⟩ := List.append_inj' hsplit rfl
      obtain rfl := List.singleton_inj.mp hlast
      exact hfirst hearlier hpos
    · rw [List.concat_eq_append, ← List.cons_append, ← List.append_assoc] at hsplit
      exact h.busted before fetch' init (List.append_inj' hsplit rfl).1 hpos hearlier

theorem Inv.fetchList (h : w.Inv) {now : ℚ}
    (hunstored : w.Unfetched entry.status.statusListCredential → w.invalidations ∉ w.stores) :
    (w.fetchList call entry now).Inv := by
  have hsubset := w.cache.get_subset now entry.status.statusListCredential
  have hhit := fun list => @TtlCache.Holds.of_get _ _ _ entry.status.statusListCredential list now
    h.cached
  rw [CheqdWorld.fetchList]
  cases hget : w.cache.get now entry.status.statusListCredential with
  | mk found cache =>
      rw [hget] at hsubset hhit
      cases found with
      | some list =>
          refine ⟨h.takesEffect.addRead ?_ rfl rfl, h.cached.mono hsubset, h.flag⟩
          exact (hhit list rfl).ge
      | none =>
          refine ⟨h.takesEffect.addFetch ?_ rfl rfl, h.cached.mono hsubset, h.flag⟩
          intro hearlier hpos
          exact h.flag hpos (hunstored ⟨hpos, hearlier⟩)

theorem Inv.checkStatus (h : w.Inv) {status : CredentialStatus} {now : ℚ}
    (hunstored : AsksForList status → w.Unfetched status.statusListCredential →
      w.invalidations ∉ w.stores) : (w.checkStatus call status now).Inv := by
  rw [CheqdWorld.checkStatus]
  split_ifs with hscheme
  · exact h.setPhase
  · split
    · exact h.setPhase
    · rename_i index hindex
      exact h.fetchList (hunstored ⟨by simpa using hscheme, index, hindex⟩)

theorem Inv.storeList (h : w.Inv) {body : JsonValue JsNumber} {now : ℚ}
    (hfetch : fetch.invalidated = w.invalidations) :
    (w.storeList options call entry fetch body now).Inv where
  takesEffect := h.takesEffect.addRead le_rfl rfl rfl
  cached := h.cached.set options.ttlOptions now hfetch
  flag _ hunstored := absurd (List.mem_append_right _ (List.mem_singleton_self _)) hunstored

theorem Inv.act (h : w.Inv) (hact : w.act options action = some w') (hinTime : w.InTime action) :
    w'.Inv := by
  cases action with
  | invalidateCache =>
      cases hact
      exact h.invalidateCache
  | checkStatus call status now =>
      simp only [CheqdWorld.act] at hact
      split at hact
      · cases hact
        exact h.checkStatus hinTime
      · cases hact
  | fetched call response =>
      simp only [CheqdWorld.act] at hact
      split at hact
      · split at hact
        all_goals
          cases hact
          exact h.setPhase
      · cases hact
  | verify call answers =>
      simp only [CheqdWorld.act] at hact
      split at hact
      · split at hact
        all_goals
          cases hact
          exact h.setPhase
      · cases hact
  | store call now =>
      simp only [CheqdWorld.act] at hact
      split at hact
      · rename_i entry fetch body hverified
        cases hact
        exact h.storeList (hinTime entry fetch body hverified)
      · cases hact
  | read call =>
      simp only [CheqdWorld.act] at hact
      split at hact
      · cases hact
        exact h.setPhase
      · cases hact

theorem inv_start : Inv {} where
  takesEffect := ⟨fun _ hr => absurd hr List.not_mem_nil,
    fun before _ _ hsplit => by simp at hsplit⟩
  cached _ _ hmem := absurd hmem List.not_mem_nil
  flag hpos := absurd hpos (by decide)

/-- Every run in time lets each invalidation take effect. -/
theorem invalidation_takesEffect
    (h : Acted (fun w => w.act options) InTime {} w) : w.TakesEffect :=
  (h.invariant inv_start fun _ _ _ hinv hact hinTime => hinv.act hact hinTime).takesEffect

section Sample

def sampleOptions : CheqdStatusListResolverOptions where
  expectedIssuerDid := js "did:cheqd:a"
  codec := { compress := id, decompress := .ok }
  runtime := CachingVerifier.stringRuntime

def sampleListStatus : CredentialStatus where
  type := js "StatusList2021Entry"
  statusPurpose := js "revocation"
  statusListIndex := js "3"
  statusListCredential := js "https://a.b/1"

def sampleListBody : JsonValue JsNumber := .object [
  (js "type", .array [.string (js "StatusList2021Credential")]),
  (js "issuer", .string (js "did:cheqd:a")),
  (js "credentialSubject", .object [
    (js "type", .string (js "StatusList2021")), (js "statusPurpose", .string (js "revocation")),
    (js "encodedList", .string (js "H4sI"))]),
  (js "proof", .object [(js "proofValue", .string (js "AAAA"))])]

/-- One key, under which every signature verifies. -/
def sampleAnswers : SignatureAnswers where
  didDocument := .ok (some { verificationMethod := some [{
    id := js "did:cheqd:a#1", publicKeyJwk := some (.object [(js "x", .string (js "AAAA"))]) }] })
  verify _ _ _ := .ok true

theorem sampleListBody_signed :
    sampleOptions.assertSignature (some sampleListBody) sampleAnswers = .ok () := by
  have hcanonical : Audit.isCanonical CachingVerifier.sampleNumbers (.object
      (CheqdStatusListResolverOptions.unsignedMembers (some sampleListBody))) = true := by
    decide +kernel
  obtain ⟨hwellFormed, hsupported⟩ := Audit.canonical_of_isCanonical _ hcanonical
  obtain ⟨text, htext⟩ :=
    (Audit.canonicalizeJson_eq_ok CachingVerifier.sampleNumbers_prints hwellFormed).mpr hsupported
  have hproof : (Untyped.member? (some sampleListBody) (js "proof")).member? (js "proofValue") =
      some (.string (js "AAAA")) := Untyped.isString_iff.mp (by decide +kernel)
  rw [CheqdStatusListResolverOptions.assertSignature, hproof]
  exact bind_eq_ok.mpr ⟨text, htext, by rfl⟩

def sampleEntry : ListEntry := { status := sampleListStatus, index := 3 }

def sampleFetch : ListFetch where
  call := 0
  url := js "https://a.b/1"
  noCache := false
  invalidated := 0

def sampleResponse : ListResponse where
  ok := true
  status := 200
  json := .ok sampleListBody

theorem checkStatus_sample (w : CheqdWorld) (call : Nat) (now : ℚ) :
    w.checkStatus call sampleListStatus now = w.fetchList call sampleEntry now := by
  have hscheme : startsWith sampleListStatus.statusListCredential (js "https://") = true := by
    decide +kernel
  have hindex : parseStatusListIndex sampleListStatus.statusListIndex = .ok 3 := by decide +kernel
  rw [CheqdWorld.checkStatus, hscheme, hindex]
  rfl

/-- A list is being fetched. -/
def fetchedWorld : CheqdWorld := ({} : CheqdWorld).fetchList 0 sampleEntry 0

/-- The lists are invalidated while its signature is checked. -/
def invalidatedWorld : CheqdWorld :=
  (fetchedWorld.setPhase 0 (.verifying sampleEntry sampleFetch sampleListBody)).invalidateCache

/-- It is stored. -/
def storedWorld : CheqdWorld :=
  (invalidatedWorld.setPhase 0 (.verified sampleEntry sampleFetch sampleListBody)).storeList
    sampleOptions 0 sampleEntry sampleFetch sampleListBody 1

theorem acted_storedWorld : Acted (fun w => w.act sampleOptions) anyAction {} storedWorld := by
  have hstarted : Acted (fun w => w.act sampleOptions) anyAction {} fetchedWorld := by
    refine .act (a := .checkStatus 0 sampleListStatus 0) .start ?_ trivial
    exact congrArg some (checkStatus_sample {} 0 0)
  have hinvalidated : Acted (fun w => w.act sampleOptions) anyAction {} invalidatedWorld :=
    .act (a := .invalidateCache) (.act (a := .fetched 0 (.ok sampleResponse)) hstarted rfl trivial)
      rfl trivial
  have hverified : invalidatedWorld.act sampleOptions (.verify 0 sampleAnswers) =
      some (invalidatedWorld.setPhase 0 (.verified sampleEntry sampleFetch sampleListBody)) := by
    have hcalls : invalidatedWorld.calls 0 =
        some (.verifying sampleEntry sampleFetch sampleListBody) := rfl
    simp only [CheqdWorld.act, hcalls, sampleListBody_signed]
  exact .act (a := .store 0 1) (.act (a := .verify 0 sampleAnswers) hinvalidated hverified trivial)
    rfl trivial

/-- A call after the invalidation reads the list fetched before it. -/
theorem staleList_read :
    ∃ w : CheqdWorld, Acted (fun w => w.act sampleOptions) anyAction {} w ∧ ¬ w.TakesEffect := by
  refine ⟨storedWorld.fetchList 1 sampleEntry 2, ?_, ?_⟩
  · refine .act (a := .checkStatus 1 sampleListStatus 2) acted_storedWorld ?_ trivial
    exact congrArg some (checkStatus_sample storedWorld 1 2)
  · intro h
    have hread : ⟨1, sampleFetch⟩ ∈ (storedWorld.fetchList 1 sampleEntry 2).reads := by
      decide +kernel
    exact absurd (h.fresh _ hread) (by decide)

variable {now : ℚ}

/-- A call of the sample's list, from its fetch to its store. -/
def storedBy (w : CheqdWorld) (call : Nat) (now : ℚ) : CheqdWorld :=
  let fetch : ListFetch :=
    { sampleFetch with call, noCache := w.bustNextFetch, invalidated := w.invalidations }
  (((w.fetchList call sampleEntry now).setPhase call
    (.verifying sampleEntry fetch sampleListBody)).setPhase call
      (.verified sampleEntry fetch sampleListBody)).storeList sampleOptions call sampleEntry fetch
        sampleListBody now

/-- A list that the cache does not hold is fetched. -/
theorem fetchList_missed {entry : ListEntry}
    (h : (w.cache.get now entry.status.statusListCredential).1 = none) :
    w.fetchList call entry now = setPhase { w with
      cache := (w.cache.get now entry.status.statusListCredential).2
      fetches := w.fetches ++ [{ call, url := entry.status.statusListCredential,
                                 noCache := w.bustNextFetch, invalidated := w.invalidations }] }
      call (.fetching entry { call, url := entry.status.statusListCredential,
                              noCache := w.bustNextFetch, invalidated := w.invalidations }) := by
  rw [fetchList]
  split
  · rename_i hget
    rw [hget] at h
    cases h
  · rename_i hget
    rw [hget]

theorem acted_storedBy (h : Acted (fun w => w.act sampleOptions) InTime {} w)
    (hnone : w.calls call = none)
    (hmiss : (w.cache.get now sampleEntry.status.statusListCredential).1 = none)
    (hunstored : w.invalidations ∉ w.stores) :
    Acted (fun w => w.act sampleOptions) InTime {} (w.storedBy call now) := by
  let fetch : ListFetch :=
    { sampleFetch with call, noCache := w.bustNextFetch, invalidated := w.invalidations }
  let asked := w.fetchList call sampleEntry now
  let verifying := asked.setPhase call (.verifying sampleEntry fetch sampleListBody)
  have hasked : asked = setPhase { w with
      cache := (w.cache.get now sampleEntry.status.statusListCredential).2
      fetches := w.fetches ++ [fetch] } call (.fetching sampleEntry fetch) :=
    fetchList_missed hmiss
  have hchecks : w.act sampleOptions (.checkStatus call sampleListStatus now) = some asked := by
    simp only [act, hnone]
    exact congrArg some (checkStatus_sample w call now)
  have hfetches : asked.act sampleOptions (.fetched call (.ok sampleResponse)) =
      some verifying := by
    have hcall : asked.calls call = some (.fetching sampleEntry fetch) := by
      rw [hasked]
      exact Function.update_self ..
    simp only [act, hcall]
    rfl
  have hverifies : verifying.act sampleOptions (.verify call sampleAnswers) =
      some (verifying.setPhase call (.verified sampleEntry fetch sampleListBody)) := by
    have hcall : verifying.calls call = some (.verifying sampleEntry fetch sampleListBody) :=
      Function.update_self ..
    simp only [act, hcall, sampleListBody_signed]
  have hcall : (verifying.setPhase call (.verified sampleEntry fetch sampleListBody)).calls call =
      some (.verified sampleEntry fetch sampleListBody) := Function.update_self ..
  refine .act (a := .store call now) (.act (a := .verify call sampleAnswers)
    (.act (a := .fetched call (.ok sampleResponse))
      (.act (a := .checkStatus call sampleListStatus now) h hchecks fun _ _ => hunstored)
      hfetches trivial) hverifies trivial) ?_ ?_
  · simp only [act, hcall]
    rfl
  · intro entry' fetch' body' hverified
    rw [hcall] at hverified
    cases hverified
    show w.invalidations = asked.invalidations
    rw [hasked]
    rfl

/-- A list is fetched and stored, and again after an invalidation, and read from the cache. -/
def refetchedWorld : CheqdWorld :=
  (({} : CheqdWorld).storedBy 0 0).invalidateCache.storedBy 1 2

theorem acted_refetchedWorld :
    Acted (fun w => w.act sampleOptions) InTime {} refetchedWorld := by
  refine acted_storedBy (.act (a := .invalidateCache)
    (acted_storedBy .start rfl rfl List.not_mem_nil) rfl trivial) ?_ ?_ ?_
  · decide +kernel
  · decide +kernel
  · decide +kernel

/-- A call that is answered from the cache after it reads the list fetched anew. -/
theorem invalidation_takesEffect_sample :
    (refetchedWorld.fetchList 2 sampleEntry 4).TakesEffect ∧
      (refetchedWorld.fetchList 2 sampleEntry 4).fetches.map (·.noCache) = [false, true] ∧
      (refetchedWorld.fetchList 2 sampleEntry 4).reads.map (·.fetch.call) = [0, 1, 1] := by
  refine ⟨@invalidation_takesEffect sampleOptions _ ?_, by decide +kernel, by decide +kernel⟩
  refine .act (a := .checkStatus 2 sampleListStatus 4) acted_refetchedWorld ?_ ?_
  · exact congrArg some (checkStatus_sample refetchedWorld 2 4)
  · intro _ hunfetched
    have hfetched : { sampleFetch with call := 1, noCache := true, invalidated := 1 } ∈
        refetchedWorld.fetches := by decide +kernel
    exact absurd (hunfetched.2 _ hfetched rfl) (by decide +kernel)

end Sample

end CheqdWorld

end KyaOs.Cheqd
