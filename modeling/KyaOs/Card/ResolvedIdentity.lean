import KyaOs.Card.DidWebReaders

/-!
# The identity of a resolved card

The normal form of a did:web DID tells its decoded segments apart, because what is encoded
decodes to itself and holds no colon. A card that was resolved for a DID has that DID's
normal form.
-/

open Js Concurrency

namespace KyaOs.CardResolution

open DidWebResolver

section Sequences

variable {α β : Type} {f : α → Except Error β}

theorem mapM_returns {l : List α} :
    (∃ bs, l.mapM f = .ok bs) ↔ ∀ a ∈ l, ∃ b, f a = .ok b := by
  induction l with
  | nil => exact iff_of_true ⟨[], rfl⟩ nofun
  | cons a rest ih =>
      rw [List.forall_mem_cons, ← ih, List.mapM_cons]
      constructor
      · rintro ⟨bs, h⟩
        obtain ⟨b, hb, h⟩ := bind_eq_ok.mp h
        obtain ⟨bs', hbs, -⟩ := bind_eq_ok.mp h
        exact ⟨⟨b, hb⟩, bs', hbs⟩
      · rintro ⟨⟨b, hb⟩, bs, hbs⟩
        exact ⟨b :: bs, bind_eq_ok.mpr ⟨b, hb, bind_eq_ok.mpr ⟨bs, hbs, rfl⟩⟩⟩

theorem mapM_injective (hf : ∀ a a' b, f a = .ok b → f a' = .ok b → a = a') {l l' : List α}
    {bs : List β} (h : l.mapM f = .ok bs) (h' : l'.mapM f = .ok bs) : l = l' := by
  induction l generalizing l' bs with
  | nil =>
      cases h
      cases l' with
      | nil => rfl
      | cons a' rest' =>
          rw [List.mapM_cons] at h'
          obtain ⟨_, -, h'⟩ := bind_eq_ok.mp h'
          obtain ⟨_, -, h'⟩ := bind_eq_ok.mp h'
          cases h'
  | cons a rest ih =>
      rw [List.mapM_cons] at h
      obtain ⟨b, hb, h⟩ := bind_eq_ok.mp h
      obtain ⟨bs', hbs, h⟩ := bind_eq_ok.mp h
      cases h
      cases l' with
      | nil => cases h'
      | cons a' rest' =>
          rw [List.mapM_cons] at h'
          obtain ⟨b', hb', h'⟩ := bind_eq_ok.mp h'
          obtain ⟨bs'', hbs', h'⟩ := bind_eq_ok.mp h'
          cases h'
          rw [hf a a' b hb hb', ih hbs hbs']

/-- No other error than this is thrown. -/
def ThrowsOnly (error : Error) (x : Except Error α) : Prop :=
  ∀ thrown, x = .error thrown → thrown = error

variable {error : Error}

theorem throwsOnly_ok (a : α) : ThrowsOnly error (.ok a) := by
  rintro _ ⟨⟩

theorem throwsOnly_error : ThrowsOnly error (.error error : Except Error α) :=
  fun _ h => (Except.error.inj h).symm

theorem ThrowsOnly.bind {x : Except Error α} {next : α → Except Error β}
    (h : ThrowsOnly error x) (hnext : ∀ a, ThrowsOnly error (next a)) :
    ThrowsOnly error (x >>= next) := by
  cases x with
  | error thrown =>
      obtain rfl := h thrown rfl
      exact throwsOnly_error
  | ok a => exact hnext a

theorem ThrowsOnly.mapM (hf : ∀ a, ThrowsOnly error (f a)) (l : List α) :
    ThrowsOnly error (l.mapM f) := by
  induction l with
  | nil => exact throwsOnly_ok []
  | cons a rest ih =>
      rw [List.mapM_cons]
      exact (hf a).bind fun b => ih.bind fun bs => throwsOnly_ok (b :: bs)

end Sequences

theorem throwsOnly_decodeFrom (pending : Option Utf8Pending) (text : JsString) :
    ThrowsOnly uriError (decodeFrom pending text) := by
  induction pending, text using decodeFrom.induct with
  | case1 pending hpending =>
      rw [decodeFrom, if_pos hpending]
      exact throwsOnly_error
  | case2 pending hpending =>
      rw [decodeFrom, if_neg hpending]
      exact throwsOnly_ok []
  | case3 pending high low rest hescape =>
      rw [decodeFrom, if_pos rfl]
      simp only [hescape]
      exact throwsOnly_error
  | case4 pending high low rest octet hescape haccepts text read hstep ih =>
      rw [decodeFrom, if_pos rfl]
      simp only [hescape, haccepts, hstep, if_true]
      exact ih.bind fun after => throwsOnly_ok (text ++ after)
  | case5 pending high low rest octet hescape haccepts =>
      rw [decodeFrom, if_pos rfl]
      simp only [hescape, haccepts, Bool.false_eq_true, if_false]
      exact throwsOnly_error
  | case6 pending rest hshort =>
      rw [decodeFrom, if_pos rfl]
      · exact throwsOnly_error
      · exact hshort
  | case7 pending u rest hu hpending =>
      unfold decodeFrom
      rw [if_neg hu, if_pos hpending]
      exact throwsOnly_error
  | case8 pending u rest hu hpending ih =>
      unfold decodeFrom
      rw [if_neg hu, if_neg hpending]
      exact ih.bind fun after => throwsOnly_ok (u :: after)

theorem throwsOnly_encodeURIComponent (text : JsString) :
    ThrowsOnly uriError (encodeURIComponent text) := by
  rw [encodeURIComponent]
  split_ifs
  · exact throwsOnly_error
  · exact throwsOnly_ok _

namespace CardResolver

variable {resolver : CardResolver} {did did' : JsString}

/-- Two did:web DIDs have the same decoded segments, their hosts in lower case. -/
def SameDid (resolver : CardResolver) (did did' : JsString) : Prop :=
  isDidWeb did = true ∧ isDidWeb did' = true ∧
    ∃ segments segments', didWebSegments did = .ok segments ∧
      didWebSegments did' = .ok segments' ∧ resolver.lowered segments = resolver.lowered segments'

/-- The labels decode, and to texts without unpaired surrogates. -/
def Encodable (resolver : CardResolver) (did : JsString) : Prop :=
  ∃ segments, didWebSegments did = .ok segments ∧
    ∀ segment ∈ resolver.lowered segments, hasLoneSurrogate segment = false

theorem normalizeDid_eq_ok (hdid : isDidWeb did = true) {normal : JsString} :
    resolver.normalizeDid did = .ok normal ↔
      ∃ segments encoded, didWebSegments did = .ok segments ∧
        (resolver.lowered segments).mapM encodeURIComponent = .ok encoded ∧
        didWebPrefix ++ (js ":").intercalate encoded = normal := by
  rw [normalizeDid, if_neg (by simpa [isDidWeb] using hdid)]
  constructor
  · intro h
    obtain ⟨segments, hsegments, h⟩ := bind_eq_ok.mp h
    obtain ⟨encoded, hencoded, h⟩ := bind_eq_ok.mp h
    cases h
    exact ⟨segments, encoded, hsegments, hencoded, rfl⟩
  · rintro ⟨segments, encoded, hsegments, hencoded, rfl⟩
    exact bind_eq_ok.mpr ⟨segments, hsegments, bind_eq_ok.mpr ⟨encoded, hencoded, rfl⟩⟩

theorem encodeURIComponent_returns {text : JsString} :
    (∃ encoded, encodeURIComponent text = .ok encoded) ↔ hasLoneSurrogate text = false := by
  simp only [encodeURIComponent_eq_ok, exists_and_left, exists_eq', and_true]

theorem normalizeDid_returns (hdid : isDidWeb did = true) :
    (∃ normal, resolver.normalizeDid did = .ok normal) ↔ resolver.Encodable did := by
  simp only [normalizeDid_eq_ok hdid, Encodable, ← encodeURIComponent_returns, ← mapM_returns]
  constructor
  · rintro ⟨_, segments, encoded, hsegments, hencoded, -⟩
    exact ⟨segments, hsegments, encoded, hencoded⟩
  · rintro ⟨segments, hsegments, encoded, hencoded⟩
    exact ⟨_, segments, encoded, hsegments, hencoded, rfl⟩

/-- Where there is no normal form, a `URIError` says so. -/
theorem normalizeDid_throws (hdid : isDidWeb did = true) (h : ¬ resolver.Encodable did) :
    resolver.normalizeDid did = .error uriError := by
  cases hnormal : resolver.normalizeDid did with
  | ok normal => exact absurd ((normalizeDid_returns hdid).mp ⟨normal, hnormal⟩) h
  | error thrown =>
      have hthrows : ThrowsOnly uriError (resolver.normalizeDid did) := by
        rw [normalizeDid, if_neg (by simpa [isDidWeb] using hdid)]
        refine (ThrowsOnly.mapM (throwsOnly_decodeFrom none) _).bind fun segments => ?_
        exact (ThrowsOnly.mapM throwsOnly_encodeURIComponent _).bind fun encoded => throwsOnly_ok _
      rw [hthrows thrown hnormal]

/-- The encoded segments come apart at the colons. -/
theorem splitOn_encoded {texts encoded : List JsString} (hne : texts ≠ [])
    (h : texts.mapM encodeURIComponent = .ok encoded) :
    ((js ":").intercalate encoded).splitOn 0x3A = encoded := by
  refine List.splitOn_intercalate 0x3A ?_ ?_
  · intro text htext
    obtain ⟨source, -, hsource⟩ := exists_of_mapM_eq_ok h htext
    exact colon_notMem_encode hsource
  · rintro rfl
    obtain ⟨text, htext⟩ := List.exists_mem_of_ne_nil texts hne
    obtain ⟨_, hmem, -⟩ := exists_mem_of_mapM_eq_ok h htext
    cases hmem

theorem encoded_injective {texts texts' encoded encoded' : List JsString} (hne : texts ≠ [])
    (hne' : texts' ≠ []) (h : texts.mapM encodeURIComponent = .ok encoded)
    (h' : texts'.mapM encodeURIComponent = .ok encoded')
    (hjoined : (js ":").intercalate encoded = (js ":").intercalate encoded') : texts = texts' := by
  have hencoded : encoded = encoded' := by
    rw [← splitOn_encoded hne h, hjoined, splitOn_encoded hne' h']
  subst hencoded
  exact mapM_injective (fun _ _ _ => encodeURIComponent_injective) h h'

theorem lowered_ne_nil {segments : List JsString} (h : didWebSegments did = .ok segments) :
    resolver.lowered segments ≠ [] := by
  obtain ⟨host, path, rfl⟩ := segments_ne_nil h
  exact List.cons_ne_nil _ _

/-- Normal forms tell the segments apart. -/
theorem normalizeDid_eq_iff (hdid : isDidWeb did = true) (hdid' : isDidWeb did' = true)
    {normal normal' : JsString} (h : resolver.normalizeDid did = .ok normal)
    (h' : resolver.normalizeDid did' = .ok normal') :
    normal = normal' ↔ resolver.SameDid did did' := by
  obtain ⟨segments, encoded, hsegments, hencoded, rfl⟩ := (normalizeDid_eq_ok hdid).mp h
  obtain ⟨segments', encoded', hsegments', hencoded', rfl⟩ := (normalizeDid_eq_ok hdid').mp h'
  constructor
  · intro hnormal
    exact ⟨hdid, hdid', segments, segments', hsegments, hsegments',
      encoded_injective (lowered_ne_nil hsegments) (lowered_ne_nil hsegments') hencoded hencoded'
        (List.append_cancel_left hnormal)⟩
  · rintro ⟨-, -, other, other', hother, hother', hsame⟩
    obtain rfl := Except.ok.inj (hsegments.symm.trans hother)
    obtain rfl := Except.ok.inj (hsegments'.symm.trans hother')
    rw [hsame] at hencoded
    rw [Except.ok.inj (hencoded.symm.trans hencoded')]

/-- What has the normal form of a did:web DID is one. -/
theorem isDidWeb_of_normal {normal : JsString} (hdid : isDidWeb did = true)
    (h : resolver.normalizeDid did = .ok normal) (h' : resolver.normalizeDid did' = .ok normal) :
    isDidWeb did' = true := by
  obtain ⟨segments, encoded, -, -, rfl⟩ := (normalizeDid_eq_ok hdid).mp h
  by_contra hnot
  have hother : (!startsWith did' didWebPrefix) = true :=
    Bool.not_eq_true' _ ▸ Bool.eq_false_iff.mpr hnot
  rw [normalizeDid, if_pos hother] at h'
  rw [isDidWeb, Except.ok.inj h'] at hnot
  exact hnot (startsWith_append _ _)

/-- The DID a reference names, when a card is resolved for one. -/
def requestedDid : CardRef → Option JsString
  | .string did | .did did => some did
  | .serverMeta serverMeta =>
    let entry := field serverMeta cardMetaKey
    match textField entry cardRefKey with
    | some _ => none
    | none => textField entry (js "id")
  | .agentFacts agentFacts => textField agentFacts (js "id")
  | .cardUrl _ | .a2a _ | .unrecognized => none

theorem fetchCard_same (hdid : isDidWeb did = true) {url : JsString}
    {log : List (Exchange CardFetching)} {card : EntityCard}
    (h : (resolver.fetchCard url (some did)).Runs log (.ok card)) :
    resolver.SameDid card.id did := by
  rw [fetchCard] at h
  obtain ⟨_, _, json, -, -, h⟩ := Async.runs_bind_ok.mp h
  obtain ⟨_, _, parsed, -, -, h⟩ := Async.runs_bind_ok.mp h
  obtain ⟨_, _, own, -, hown, h⟩ := Async.runs_bind_ok.mp h
  obtain ⟨_, _, expected, -, hexpected, h⟩ := Async.runs_bind_ok.mp h
  have hown := (Async.runs_ofExcept.mp hown).2.symm
  have hexpected := (Async.runs_ofExcept.mp hexpected).2.symm
  by_cases hsame : own = expected
  · subst hsame
    simp only [ne_eq, not_true_eq_false, if_false] at h
    obtain ⟨-, hcard⟩ := Async.runs_pure.mp h
    cases hcard
    exact (normalizeDid_eq_iff (isDidWeb_of_normal hdid hexpected hown) hdid hown hexpected).mp rfl
  · simp only [ne_eq, hsame, not_false_eq_true, if_true] at h
    obtain ⟨_, _, _, -, hthrown, -⟩ := Async.runs_bind_ok.mp h
    cases (Async.runs_throw.mp hthrown).2

theorem resolveDidWeb_same (hdid : isDidWeb did = true) {log : List (Exchange CardFetching)}
    {card : EntityCard} (h : (resolver.resolveDidWeb did).Runs log (.ok card)) :
    resolver.SameDid card.id did := by
  rw [resolveDidWeb, if_neg (by simpa [isDidWeb] using hdid)] at h
  obtain ⟨_, _, url, -, -, h⟩ := Async.runs_bind_ok.mp h
  obtain ⟨_, _, didDoc, -, -, h⟩ := Async.runs_bind_ok.mp h
  obtain ⟨_, _, endpoint, -, -, h⟩ := Async.runs_bind_ok.mp h
  exact fetchCard_same hdid h

theorem resolveInlineSummary_same (hdid : isDidWeb did = true) {entry : Untyped}
    (hid : textField entry (js "id") = some did) {log : List (Exchange CardFetching)}
    {card : EntityCard} (h : (resolver.resolveInlineSummary entry).Runs log (.ok card)) :
    resolver.SameDid card.id did := by
  rw [resolveInlineSummary, hid] at h
  simp only [show startsWith did didWebPrefix = true from hdid, if_true] at h
  obtain ⟨_, _, url, -, -, h⟩ := Async.runs_bind_ok.mp h
  exact fetchCard_same hdid h

theorem resolveCard_same {ref : CardRef} (hrequested : requestedDid ref = some did)
    (hdid : isDidWeb did = true) {log : List (Exchange CardFetching)} {card : EntityCard}
    (h : (resolver.resolveCard ref).Runs log (.ok card)) : resolver.SameDid card.id did := by
  cases ref with
  | string text | did text =>
      cases hrequested
      exact resolveDidWeb_same hdid h
  | serverMeta serverMeta =>
      simp only [requestedDid] at hrequested
      split at hrequested
      · cases hrequested
      · rename_i hnoRef
        rw [resolveCard, resolveFromServerMeta] at h
        by_cases hnone : (field serverMeta cardMetaKey).isNone = true
        · rw [if_pos hnone] at h
          cases (Async.runs_throw.mp h).2
        · rw [if_neg hnone, hnoRef] at h
          exact resolveInlineSummary_same hdid hrequested h
  | agentFacts agentFacts =>
      simp only [requestedDid] at hrequested
      obtain ⟨_, _, own, -, hown, h⟩ := Async.runs_bind_ok.mp h
      have hown := (Async.runs_ofExcept.mp hown).2.symm
      rw [didFromAgentFacts, hrequested] at hown
      cases hown
      exact resolveDidWeb_same hdid h
  | cardUrl url | a2a a2a | unrecognized => cases hrequested

/-- A run that resolves a card for a did:web DID rejects or gives a card of that DID. Normal
forms are there for the DIDs that can be encoded, a `URIError` for the others, and they tell them
apart by their segments. -/
theorem resolveCard_bound (resolver : CardResolver) :
    (∀ ref did, requestedDid ref = some did → isDidWeb did = true → ∀ log result,
      (resolver.resolveCard ref).Runs log result →
        (∃ card, result = .ok card ∧ resolver.SameDid card.id did) ∨
          ∃ error, result = .error error) ∧
    (∀ did, isDidWeb did = true →
      ((∃ normal, resolver.normalizeDid did = .ok normal) ↔ resolver.Encodable did) ∧
        (¬ resolver.Encodable did → resolver.normalizeDid did = .error uriError)) ∧
    ∀ did did', isDidWeb did = true → isDidWeb did' = true → ∀ normal normal',
      resolver.normalizeDid did = .ok normal → resolver.normalizeDid did' = .ok normal' →
        (normal = normal' ↔ resolver.SameDid did did') := by
  refine ⟨?_, fun did hdid => ⟨normalizeDid_returns hdid, normalizeDid_throws hdid⟩,
    fun did did' hdid hdid' normal normal' => normalizeDid_eq_iff hdid hdid'⟩
  intro ref did hrequested hdid log result h
  cases result with
  | ok card => exact .inl ⟨card, rfl, resolveCard_same hrequested hdid h⟩
  | error error => exact .inr ⟨error, rfl⟩

/-- A resolver that reads every value as the card of one DID. -/
def sampleResolver : CardResolver where
  toLowerCase text := text.map fun u => if 0x41 ≤ u ∧ u ≤ 0x5A then u + 0x20 else u
  parseCard _ := .ok { id := js "did:web:A.example:b%3a", value := .null }

def sampleDid : JsString := js "did:web:a.example:b%3A"

/-- A summary that names the DID. -/
def sampleEntry : Untyped := some (.object [(js "id", .string sampleDid)])

theorem resolveCard_bound_sample : ∃ log card,
    (sampleResolver.resolveCard (.serverMeta (some (.object [(cardMetaKey,
        .object [(js "id", .string sampleDid)])])))).Runs log (.ok card) ∧
      sampleResolver.SameDid card.id sampleDid := by
  have hid : textField sampleEntry (js "id") = some sampleDid := by decide +kernel
  have hurl : didWebToCardUrl sampleDid = .ok (js "https://a.example/b:/card.json") := by
    decide +kernel
  have hnormal : sampleResolver.normalizeDid (js "did:web:A.example:b%3a") = .ok sampleDid := by
    decide +kernel
  have hexpected : sampleResolver.normalizeDid sampleDid = .ok sampleDid := by decide +kernel
  have hfetched : ∃ log, (fetchJson (js "https://a.example/b:/card.json")).Runs log
      (.ok (some .null)) :=
    ⟨_, Async.runs_ask_bind.mpr ⟨.ok { ok := true, status := js "200" }, _, rfl,
      Async.runs_ask.mpr rfl⟩⟩
  obtain ⟨log, hfetched⟩ := hfetched
  have hsummary : (sampleResolver.resolveInlineSummary sampleEntry).Runs log
      (.ok { id := js "did:web:A.example:b%3a", value := .null }) := by
    rw [resolveInlineSummary, hid]
    simp only [show startsWith sampleDid didWebPrefix = true by decide +kernel, if_true, hurl]
    refine Async.runs_check.mpr (Async.runs_bind_ok.mpr ⟨log, [], _, (List.append_nil _).symm,
      hfetched, ?_⟩)
    refine Async.runs_check.mpr ?_
    simp only [hnormal, hexpected]
    exact Async.runs_check.mpr (Async.runs_check.mpr
      (by simpa using Async.runs_pure.mpr ⟨rfl, rfl⟩))
  obtain ⟨card, hcard, hsame⟩ | ⟨error, herror⟩ := (resolveCard_bound sampleResolver).1
    (.serverMeta (some (.object [(cardMetaKey, .object [(js "id", .string sampleDid)])]))) sampleDid
      (by decide +kernel) (by decide +kernel) log _ hsummary
  · exact ⟨log, card, hcard ▸ hsummary, hsame⟩
  · cases herror

/-- A DID that holds an unpaired surrogate has segments, and no normal form; nor has another
one, with other segments. -/
theorem normalizeDid_unpaired :
    sampleResolver.SameDid (js "did:web:" ++ [0xD800]) (js "did:web:" ++ [0xD800]) ∧
      sampleResolver.normalizeDid (js "did:web:" ++ [0xD800]) = .error uriError ∧
      sampleResolver.normalizeDid (js "did:web:" ++ [0xD801]) = .error uriError ∧
      ¬ sampleResolver.SameDid (js "did:web:" ++ [0xD800]) (js "did:web:" ++ [0xD801]) := by
  have hfirst : didWebSegments (js "did:web:" ++ [0xD800]) = .ok [[0xD800]] := by decide +kernel
  have hsecond : didWebSegments (js "did:web:" ++ [0xD801]) = .ok [[0xD801]] := by decide +kernel
  refine ⟨⟨by decide +kernel, by decide +kernel, _, _, hfirst, hfirst, rfl⟩, by decide +kernel,
    by decide +kernel, ?_⟩
  rintro ⟨-, -, segments, segments', hsegments, hsegments', hsame⟩
  rw [hfirst] at hsegments
  rw [hsecond] at hsegments'
  cases hsegments
  cases hsegments'
  exact absurd hsame (by decide +kernel)

end CardResolver

end KyaOs.CardResolution
