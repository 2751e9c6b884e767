import KyaOs.Card.Cimd
import KyaOs.Card.ResolvedIdentity
import KyaOs.Delegation.DidWebUrl

/-!
# did:web DIDs and their client_ids

A DID comes back from its `client_id` exactly when its labels are what a URL parser leaves of
them, and such DIDs are told apart by their URLs. A DID with other labels shares the URL of one.
-/

open Js Whatwg

namespace KyaOs.Cimd

open DidWebResolver
open CardResolution (bindClientId didWebSegments didWebSegments_eq_ok segments_ne_nil)
open CardResolution.CardResolver (splitOn_encoded)

def lowerUnit (u : UInt16) : UInt16 := if 0x41 ≤ u && u ≤ 0x5A then u + 0x20 else u

def asciiLower (text : JsString) : JsString := text.map lowerUnit

/-- Two DIDs have the same decoded segments, the host in any case. -/
def Denotes (did did' : JsString) : Prop :=
  ∃ host host' path, didWebSegments did = .ok (host :: path) ∧
    didWebSegments did' = .ok (host' :: path) ∧ asciiLower host = asciiLower host'

namespace UrlParser

variable (urls : UrlParser)

/-- The text is a URL without a query or a fragment. -/
def Addressed (clientId : JsString) : Prop :=
  ∃ url, urls.hosts.parseHttps (encodeUtf8 clientId) = some url ∧ url.query = none ∧
    url.fragment = none

/-- What is made of the client_id denotes the DID. -/
def RoundTrips (did clientId : JsString) : Prop :=
  ∃ back, urls.didFromClientId clientId = .ok back ∧ Denotes back did

/-- A binding of the client_id to the DID is accepted only for what denotes `other`. -/
def BindsOnly (did clientId other : JsString) : Prop :=
  ∀ cimd didDoc result, cimd.clientId = clientId →
    urls.verifyCimdBind cimd didDoc (some did) = .ok result → result.ok = true → Denotes did other

/-- Two DIDs come back from their client_ids, which are one URL, or accepted for one another, only
when the DIDs denote the same. -/
structure Bijective (did did' clientId clientId' : JsString) : Prop where
  roundTrip : urls.Addressed clientId → urls.RoundTrips did clientId
  roundTrip' : urls.Addressed clientId' → urls.RoundTrips did' clientId'
  oneUrl : urls.sameUrl clientId clientId' = true → Denotes did did'
  bound : urls.BindsOnly did clientId' did'
  bound' : urls.BindsOnly did' clientId did

/-- A DID comes back from its client_id, which it shares with no other DID. -/
structure OneToOne (did clientId : JsString) : Prop where
  roundTrip : urls.Addressed clientId → urls.RoundTrips did clientId
  oneUrl : ∀ did' clientId', bindClientId did' = .ok clientId' →
    urls.sameUrl clientId clientId' = true → Denotes did did'
  bound : ∀ did' clientId', bindClientId did' = .ok clientId' → urls.BindsOnly did clientId' did'

end UrlParser

/-- A character that a URL's path keeps. -/
def isPathUnit (u : UInt16) : Bool := u < 0x80 && isPathByte u.toUInt8

/-- A segment that a URL's path keeps. -/
def isPathText (segment : JsString) : Bool :=
  segment ≠ [] && segment.all isPathUnit && !isDotSegment (encodeUtf8 segment)

/-- The host is what the URL parser writes for it, but for its case, and the path is one that a
URL keeps. -/
def HttpsForm (hosts : HostParser) (did : JsString) : Prop :=
  ∃ host path name port, didWebSegments did = .ok (host :: path) ∧
    hosts.readHostPort (encodeUtf8 host) = some (name, port) ∧
    asciiLower host = asciiLower (asciiText (name ++ portText port)) ∧
    ∀ segment ∈ path, isPathText segment = true

def clientIdOf (host : JsString) (path : List JsString) : JsString :=
  js "https://" ++ (host ++ if path = [] then [] else 0x2F :: (js "/").intercalate path)

section Binding

variable {did clientId host : JsString} {path : List JsString}

theorem bindClientId_eq_ok : bindClientId did = .ok clientId ↔ isDidWeb did = true ∧
    ∃ host path, didWebSegments did = .ok (host :: path) ∧ host ≠ [] ∧
      clientIdOf host path = clientId := by
  have htext : ∀ (host : JsString) (path : List JsString), js "https://" ++ host ++
      (if path ≠ [] then js "/" ++ (js "/").intercalate path else []) = clientIdOf host path := by
    intro host path
    rw [clientIdOf, List.append_assoc, ite_not]
    rfl
  rw [bindClientId, isDidWeb]
  cases hdid : startsWith did didWebPrefix with
  | false => exact iff_of_false (by rintro ⟨⟩) (by rintro ⟨⟨⟩, -⟩)
  | true =>
      simp only [Bool.not_true, Bool.false_eq_true, if_false, true_and]
      constructor
      · intro h
        obtain ⟨segments, hsegments, h⟩ := bind_eq_ok.mp h
        obtain ⟨host, path, rfl⟩ := segments_ne_nil hsegments
        refine ⟨host, path, hsegments, ?_⟩
        rw [List.headD_cons, List.tail_cons] at h
        by_cases hhost : host = []
        · rw [if_pos hhost] at h
          cases h
        · rw [if_neg hhost] at h
          exact ⟨hhost, (htext host path).symm.trans (Except.ok.inj h)⟩
      · rintro ⟨host, path, hsegments, hhost, rfl⟩
        refine bind_eq_ok.mpr ⟨host :: path, hsegments, ?_⟩
        rw [List.headD_cons, List.tail_cons, if_neg hhost, ← htext]
        rfl

theorem encodeUtf8_clientIdOf : encodeUtf8 (clientIdOf host path) = ascii "https://" ++
    (encodeUtf8 host ++
      if path = [] then []
      else Whatwg.slash :: [Whatwg.slash].intercalate (path.map encodeUtf8)) := by
  have hprotocol : ∀ u ∈ js "https://", u < 0x80 := by
    simpa using List.all_eq_true.mp (by decide : (js "https://").all (· < 0x80) = true)
  rw [clientIdOf, encodeUtf8_append hprotocol]
  split_ifs with hpath
  · rw [List.append_nil, List.append_nil]
    rfl
  · rw [encodeUtf8_append_cons (by decide), encodeUtf8_intercalate]
    rfl

/-- What the kinds of bytes say of single bytes. -/
theorem byteFacts : ∀ b, (isPathByte b = true → (b < 0x80 ∧ pathSet b = false ∧
      isSegmentByte b = true ∧ isC0OrSpace b = false) ∧
      b ≠ Whatwg.slash ∧ b.toUInt16 ≠ 0x2F) ∧
    (isHostByte b = true → (b < 0x80 ∧ b ≠ Whatwg.slash) ∧
      lowerUnit b.toUInt16 = (lowerByte b).toUInt16 ∧ lowerByte b < 0x80 ∧
      isAuthorityByte (lowerByte b) = true) ∧
    (0x41 ≤ b → b ≤ 0x5A → isAuthorityByte b = true) :=
  forall_byte (by decide +kernel)

theorem lt_of_isPathByte : ∀ b, isPathByte b = true → b < 0x80 ∧ pathSet b = false ∧
    isSegmentByte b = true ∧ isC0OrSpace b = false :=
  fun b h => ((byteFacts b).1 h).1

/-- What a path text is in a URL. -/
theorem encodeUtf8_pathText {segment : JsString} (h : isPathText segment = true) :
    (∀ b ∈ encodeUtf8 segment, isPathByte b = true) ∧ encodeUtf8 segment ≠ [] ∧
      isDotSegment (encodeUtf8 segment) = false ∧ asciiText (encodeUtf8 segment) = segment := by
  simp only [isPathText, Bool.and_eq_true, Bool.not_eq_true', decide_eq_true_eq,
    List.all_eq_true, isPathUnit] at h
  obtain ⟨⟨hne, hunits⟩, hdot⟩ := h
  have hascii : ∀ u ∈ segment, u < 0x80 := fun u hu => (hunits u hu).1
  refine ⟨?_, encodeUtf8_ne_nil hne, hdot, asciiText_encodeUtf8 hascii⟩
  rw [encodeUtf8_ascii hascii, List.forall_mem_map]
  exact fun u hu => (hunits u hu).2

/-- The URL of a host and of a path that are kept. -/
theorem parseHttps_clientIdOf (hosts : HostParser) (hne : host ≠ [])
    (hhost : ∀ b ∈ encodeUtf8 host, isAuthorityByte b = true)
    (hpath : ∀ segment ∈ path, isPathText segment = true) :
    hosts.parseHttps (encodeUtf8 (clientIdOf host path)) =
      (hosts.readHostPort (encodeUtf8 host)).map fun read =>
        { host := read.1, port := read.2
          path := if path = [] then [[]] else path.map encodeUtf8 } := by
  have hbytes : ∀ segment ∈ path.map encodeUtf8, ∀ b ∈ segment, isPathByte b = true := by
    rw [List.forall_mem_map]
    exact fun segment hsegment => (encodeUtf8_pathText (hpath segment hsegment)).1
  have hkept : ∀ segment ∈ path.map encodeUtf8, percentEncode pathSet segment = segment :=
    fun segment hsegment => percentEncode_eq_self fun b hb =>
      (lt_of_isPathByte b (hbytes segment hsegment b hb)).2.1
  rw [encodeUtf8_clientIdOf]
  split_ifs with hnil
  · rw [List.append_nil, parseHttps_authority (encodeUtf8_ne_nil hne) hhost]
  · rw [parseHttps_path (encodeUtf8_ne_nil hne) hhost (by simpa using hnil)
      (fun segment hsegment b hb => (lt_of_isPathByte b (hbytes segment hsegment b hb)).2.2.1),
      List.map_congr_left hkept, List.map_id']
    · intro segment hsegment
      rw [hkept segment hsegment]
      obtain ⟨label, hlabel, rfl⟩ := List.mem_map.mp hsegment
      exact (encodeUtf8_pathText (hpath label hlabel)).2.2.1
    · intro b hb
      have hmem := List.mem_of_mem_getLast? hb
      exact forall_segment_bytes (p := fun b => isC0OrSpace b = false) rfl
        (fun segment hsegment b hb => (lt_of_isPathByte b (hbytes segment hsegment b hb)).2.2.2)
        b hmem

/-- A host that is a serialized one but for its case can stand in an authority. -/
theorem isAuthorityByte_of_lower {bytes : Bytes} (hbytes : ∀ b ∈ bytes, isHostByte b = true)
    (h : asciiLower host = asciiLower (asciiText bytes)) :
    ∀ b ∈ encodeUtf8 host, isAuthorityByte b = true := by
  have hlower : ∀ b : UInt8, isHostByte b = true →
      lowerUnit b.toUInt16 = (lowerByte b).toUInt16 ∧ lowerByte b < 0x80 ∧
        isAuthorityByte (lowerByte b) = true := fun b h => ((byteFacts b).2.1 h).2
  have hletter : ∀ b : UInt8, 0x41 ≤ b → b ≤ 0x5A → isAuthorityByte b = true :=
    fun b => (byteFacts b).2.2
  have hunit : ∀ u ∈ host, u < 0x80 ∧ isAuthorityByte u.toUInt8 = true := by
    intro u hu
    have hmem : lowerUnit u ∈ asciiLower (asciiText bytes) := h ▸ List.mem_map_of_mem hu
    obtain ⟨v, hv, hsame⟩ := List.mem_map.mp hmem
    obtain ⟨b, hb, rfl⟩ := List.mem_map.mp hv
    obtain ⟨hlowered, hlt, hauthority⟩ := hlower b (hbytes b hb)
    rw [hlowered, lowerUnit] at hsame
    split_ifs at hsame with hupper
    · -- An upper-case letter may stand in an authority, whatever it is a form of.
      simp only [Bool.and_eq_true, decide_eq_true_eq, UInt16.le_iff_toNat_le,
        UInt16.reduceToNat] at hupper
      have hnat : u.toUInt8.toNat = u.toNat := by
        rw [UInt16.toNat_toUInt8]
        exact Nat.mod_eq_of_lt (by omega)
      refine ⟨UInt16.lt_iff_toNat_lt.mpr (Nat.lt_of_le_of_lt hupper.2 (by decide)),
        hletter _ (UInt8.le_iff_toNat_le.mpr ?_) (UInt8.le_iff_toNat_le.mpr ?_)⟩
      · exact hnat ▸ hupper.1
      · exact hnat ▸ hupper.2
    · rw [← hsame]
      refine ⟨?_, by rwa [UInt8.toUInt8_toUInt16]⟩
      rw [UInt16.lt_iff_toNat_lt, UInt8.toNat_toUInt16]
      exact UInt8.lt_iff_toNat_lt.mp hlt
  rw [encodeUtf8_ascii fun u hu => (hunit u hu).1, List.forall_mem_map]
  exact fun u hu => (hunit u hu).2

end Binding

section Encoding

variable {did : JsString} {texts encoded : List JsString}

theorem mapM_decode (h : texts.mapM encodeURIComponent = .ok encoded) :
    encoded.mapM decodeURIComponent = .ok texts := by
  induction texts generalizing encoded with
  | nil =>
      cases h
      rfl
  | cons text rest ih =>
      rw [List.mapM_cons] at h
      obtain ⟨first, hfirst, h⟩ := bind_eq_ok.mp h
      obtain ⟨others, hothers, h⟩ := bind_eq_ok.mp h
      cases h
      rw [List.mapM_cons]
      exact bind_eq_ok.mpr ⟨text, decodeURIComponent_encode hfirst,
        bind_eq_ok.mpr ⟨rest, ih hothers, rfl⟩⟩

theorem labels_prefix (text : JsString) : labels (didWebPrefix ++ text) = text.splitOn 0x3A := by
  rw [labels, List.drop_left]

/-- Segments that are encoded and joined are a DID's. -/
theorem didWebSegments_encoded (hne : texts ≠ [])
    (h : texts.mapM encodeURIComponent = .ok encoded) :
    didWebSegments (didWebPrefix ++ (js ":").intercalate encoded) = .ok texts := by
  rw [CardResolution.didWebSegments, labels_prefix, splitOn_encoded hne h, mapM_decode h]

theorem encodeURIComponent_ascii {bytes : Bytes} (h : ∀ b ∈ bytes, b < 0x80) :
    ∃ encoded, encodeURIComponent (asciiText bytes) = .ok encoded := by
  apply CardResolution.CardResolver.encodeURIComponent_returns.mpr
  apply hasLoneSurrogate_of_all
  refine List.all_eq_true.mpr fun u hu => isScalar_of_lt ?_
  exact Nat.lt_trans (UInt16.lt_iff_toNat_lt.mp (lt_of_mem_asciiText h u hu)) (by decide)

end Encoding

/-- What `didFromClientId` takes from the path of a URL. -/
def pathTexts (url : Whatwg.Url) : List JsString := (url.path.map asciiText).filter (· ≠ [])

theorem splitOn_pathname {url : Whatwg.Url} (h : ∀ s ∈ url.path, IsPathSegment s) :
    ((asciiText url.pathname).splitOn 0x2F).filter (· ≠ []) = pathTexts url := by
  have hslash : ∀ b, isPathByte b = true → b.toUInt16 ≠ 0x2F :=
    fun b hb => ((byteFacts b).1 hb).2.2
  have hpathname : asciiText url.pathname =
      [0x2F].intercalate ([] :: url.path.map asciiText) := by
    rw [← append_flatMap_cons, List.nil_append, Whatwg.Url.pathname, List.flatMap_map, asciiText,
      List.map_flatMap]
    rfl
  rw [hpathname, List.splitOn_intercalate 0x2F ?_ (List.cons_ne_nil _ _)]
  · rfl
  · refine List.forall_mem_cons.mpr ⟨List.not_mem_nil, List.forall_mem_map.mpr ?_⟩
    intro segment hsegment hmem
    obtain ⟨b, hb, hsame⟩ := List.mem_map.mp hmem
    exact hslash b ((h segment hsegment).1 b hb) hsame

section Parsed

variable {urls : UrlParser} {did clientId did' clientId' : JsString} {url : Whatwg.Url}

theorem parse_of_bind (h : bindClientId did = .ok clientId) :
    urls.parse clientId = (urls.hosts.parseHttps (encodeUtf8 clientId)).map WebUrl.ofHttps := by
  obtain ⟨-, host, path, -, -, rfl⟩ := bindClientId_eq_ok.mp h
  rw [UrlParser.parse, encodeUtf8_clientIdOf, if_pos (afterHttps_isSome _)]

theorem sameUrl_iff (h : bindClientId did = .ok clientId) (h' : bindClientId did' = .ok clientId') :
    urls.sameUrl clientId clientId' = true ↔
      ∃ url url', urls.hosts.parseHttps (encodeUtf8 clientId) = some url ∧
        urls.hosts.parseHttps (encodeUtf8 clientId') = some url' ∧ url.href = url'.href := by
  rw [UrlParser.sameUrl, parse_of_bind h, parse_of_bind h']
  cases urls.hosts.parseHttps (encodeUtf8 clientId) with
  | none => simp
  | some url =>
      cases urls.hosts.parseHttps (encodeUtf8 clientId') with
      | none => simp
      | some url' =>
          have hhref : asciiText url.href = asciiText url'.href ↔ url.href = url'.href :=
            ⟨asciiText_injective, congrArg asciiText⟩
          simpa [WebUrl.ofHttps] using hhref

/-- The DID made of a client_id has the host of its URL, and its segments that are not empty. -/
theorem didFromClientId_eq_ok (h : bindClientId did = .ok clientId)
    (hurl : urls.hosts.parseHttps (encodeUtf8 clientId) = some url) :
    ∃ back, urls.didFromClientId clientId = .ok back ∧
      didWebSegments back = .ok (asciiText url.hostText :: pathTexts url) := by
  have hhost : ∀ b, isHostByte b = true → b < 0x80 := fun b hb => ((byteFacts b).2.1 hb).1.1
  have hsegments := isPathSegment_of_parse hurl
  have hencodable : ∀ text ∈ asciiText url.hostText :: pathTexts url,
      ∃ encoded, encodeURIComponent text = .ok encoded := by
    refine List.forall_mem_cons.mpr ⟨?_, ?_⟩
    · exact encodeURIComponent_ascii fun b hb => hhost b (isHostByte_of_parse hurl b hb)
    · intro text htext
      obtain ⟨segment, hsegment, rfl⟩ := List.mem_map.mp (List.mem_of_mem_filter htext)
      exact encodeURIComponent_ascii fun b hb =>
        (lt_of_isPathByte b ((hsegments segment hsegment).1 b hb)).1
  obtain ⟨encoded, hencoded⟩ := CardResolution.mapM_returns.mpr hencodable
  refine ⟨_, ?_, didWebSegments_encoded (List.cons_ne_nil _ _) hencoded⟩
  rw [List.mapM_cons] at hencoded
  obtain ⟨authority, hauthority, hencoded⟩ := bind_eq_ok.mp hencoded
  obtain ⟨segments, hpath, hencoded⟩ := bind_eq_ok.mp hencoded
  cases hencoded
  rw [UrlParser.didFromClientId, parse_of_bind h, hurl]
  simp only [Option.map_some, WebUrl.ofHttps, ne_eq, not_true_eq_false, if_false]
  refine bind_eq_ok.mpr ⟨authority, hauthority, bind_eq_ok.mpr ⟨segments, ?_, rfl⟩⟩
  exact splitOn_pathname hsegments ▸ hpath

theorem roundTrips_iff_segments (h : bindClientId did = .ok clientId)
    (hurl : urls.hosts.parseHttps (encodeUtf8 clientId) = some url) :
    urls.RoundTrips did clientId ↔ ∃ host, didWebSegments did = .ok (host :: pathTexts url) ∧
      asciiLower host = asciiLower (asciiText url.hostText) := by
  obtain ⟨back, hback, hsegments⟩ := didFromClientId_eq_ok h hurl
  constructor
  · rintro ⟨_, hback', host', host, path, hsegments', hdid, hlower⟩
    cases hback.symm.trans hback'
    cases hsegments.symm.trans hsegments'
    exact ⟨host, hdid, hlower.symm⟩
  · rintro ⟨host, hdid, hlower⟩
    exact ⟨back, hback, _, host, _, hsegments, hdid, hlower.symm⟩

/-- The segments of a URL's path are ones it keeps. -/
theorem isPathText_of_mem {segment : Bytes} (h : IsPathSegment segment)
    (hne : asciiText segment ≠ []) : isPathText (asciiText segment) = true := by
  have hascii : ∀ b ∈ segment, b < 0x80 := fun b hb => (lt_of_isPathByte b (h.1 b hb)).1
  simp only [isPathText, Bool.and_eq_true, Bool.not_eq_true', decide_eq_true_eq]
  rw [encodeUtf8_asciiText hascii]
  refine ⟨⟨hne, List.all_eq_true.mpr fun u hu => ?_⟩, h.2⟩
  have hlt := lt_of_mem_asciiText hascii u hu
  obtain ⟨b, hb, rfl⟩ := List.mem_map.mp hu
  rw [isPathUnit, UInt8.toUInt8_toUInt16, h.1 b hb, decide_eq_true hlt]
  rfl

theorem isPathText_of_mem_pathTexts
    (hurl : urls.hosts.parseHttps (encodeUtf8 clientId) = some url) :
    ∀ segment ∈ pathTexts url, isPathText segment = true := by
  intro text htext
  obtain ⟨hmem, hne⟩ := List.mem_filter.mp htext
  obtain ⟨segment, hsegment, rfl⟩ := List.mem_map.mp hmem
  exact isPathText_of_mem (isPathSegment_of_parse hurl segment hsegment) (of_decide_eq_true hne)

theorem pathTexts_of_kept {path : List JsString} (hurl : url.path = if path = [] then [[]]
      else path.map encodeUtf8) (h : ∀ segment ∈ path, isPathText segment = true) :
    pathTexts url = path := by
  have hkept : ∀ segment ∈ path, (asciiText ∘ encodeUtf8) segment = segment :=
    fun segment hsegment => (encodeUtf8_pathText (h segment hsegment)).2.2.2
  have hne : ∀ segment ∈ path, decide (segment ≠ []) = true := by
    intro segment hsegment
    have htext := h segment hsegment
    simp only [isPathText, Bool.and_eq_true] at htext
    exact htext.1.1
  rw [pathTexts, hurl]
  split_ifs with hnil
  · rw [hnil]
    rfl
  · rw [List.map_map, List.map_congr_left hkept, List.map_id', List.filter_eq_self.mpr hne]

/-- The URL of a DID in HTTPS form has its host and its segments, and nothing else. -/
theorem HttpsForm.parseHttps_eq (hform : HttpsForm urls.hosts did)
    (h : bindClientId did = .ok clientId) :
    ∃ url, urls.hosts.parseHttps (encodeUtf8 clientId) = some url ∧ url.Bare ∧
      urls.RoundTrips did clientId := by
  obtain ⟨host, path, name, port, hsegments, hread, hlower, hpath⟩ := hform
  obtain ⟨-, host', path', hsegments', hhost, hclientId⟩ := bindClientId_eq_ok.mp h
  cases hsegments.symm.trans hsegments'
  have hauthority := isAuthorityByte_of_lower (isHostByte_of_readHostPort hread) hlower
  have hurl := parseHttps_clientIdOf urls.hosts hhost hauthority hpath
  rw [hread, Option.map_some, hclientId] at hurl
  refine ⟨_, hurl, ⟨rfl, rfl, rfl, rfl⟩, (roundTrips_iff_segments h hurl).mpr ?_⟩
  refine ⟨host, ?_, hlower⟩
  rw [pathTexts_of_kept rfl hpath]
  exact hsegments

/-- A DID comes back from its client_id exactly when it has the form of a URL. -/
theorem roundTrips_iff (h : bindClientId did = .ok clientId)
    (haddressed : urls.Addressed clientId) :
    urls.RoundTrips did clientId ↔ HttpsForm urls.hosts did := by
  constructor
  · intro hback
    obtain ⟨url, hurl, -, -⟩ := haddressed
    obtain ⟨host, hsegments, hlower⟩ := (roundTrips_iff_segments h hurl).mp hback
    obtain ⟨-, host', path', hsegments', hhost, hclientId⟩ := bindClientId_eq_ok.mp h
    cases hsegments.symm.trans hsegments'
    have hpath := isPathText_of_mem_pathTexts hurl
    have hauthority := isAuthorityByte_of_lower (isHostByte_of_parse hurl) hlower
    have hparsed := parseHttps_clientIdOf urls.hosts hhost hauthority hpath
    rw [hclientId, hurl] at hparsed
    obtain ⟨⟨name, port⟩, hread, hsame⟩ := Option.map_eq_some_iff.mp hparsed.symm
    refine ⟨host, pathTexts url, name, port, hsegments, hread, ?_, hpath⟩
    rw [hlower, ← hsame]
    rfl
  · intro hform
    obtain ⟨url, -, -, hback⟩ := hform.parseHttps_eq h
    exact hback

/-- URLs with nothing but a host and a path are told apart by these. -/
theorem parts_eq_of_href {url' : Whatwg.Url}
    (h : urls.hosts.parseHttps (encodeUtf8 clientId) = some url)
    (h' : urls.hosts.parseHttps (encodeUtf8 clientId') = some url') (hbare : url.Bare)
    (hbare' : url'.Bare) (hhref : url.href = url'.href) :
    url.hostText = url'.hostText ∧ url.path = url'.path := by
  have hhostByte : ∀ b, isHostByte b = true → b ≠ Whatwg.slash :=
    fun b hb => ((byteFacts b).2.1 hb).1.2
  have hpathByte : ∀ b, isPathByte b = true → b ≠ Whatwg.slash :=
    fun b hb => ((byteFacts b).1 hb).2.1
  have hsplit : ∀ {text url}, urls.hosts.parseHttps text = some url →
      (url.hostText ++ url.pathname).splitOn Whatwg.slash = url.hostText :: url.path := by
    intro text url hurl
    apply Whatwg.Url.splitOn_slash
    · exact fun hmem => hhostByte Whatwg.slash (isHostByte_of_parse hurl Whatwg.slash hmem) rfl
    · intro s hs hmem
      exact hpathByte Whatwg.slash ((isPathSegment_of_parse hurl s hs).1 Whatwg.slash hmem) rfl
  rw [Whatwg.Url.href_of_bare hbare, Whatwg.Url.href_of_bare hbare'] at hhref
  have hlists := (hsplit h).symm.trans
    ((congrArg (List.splitOn Whatwg.slash) (List.append_cancel_left hhref)).trans (hsplit h'))
  exact List.cons.inj hlists

/-- DIDs in HTTPS form whose client_ids are one URL denote the same. -/
theorem denotes_of_sameUrl (h : bindClientId did = .ok clientId)
    (h' : bindClientId did' = .ok clientId') (hform : HttpsForm urls.hosts did)
    (hform' : HttpsForm urls.hosts did') (hsame : urls.sameUrl clientId clientId' = true) :
    Denotes did did' := by
  obtain ⟨url, url', hurl, hurl', hhref⟩ := (sameUrl_iff h h').mp hsame
  obtain ⟨_, hparsed, hbare, hback⟩ := hform.parseHttps_eq h
  obtain ⟨_, hparsed', hbare', hback'⟩ := hform'.parseHttps_eq h'
  cases hurl.symm.trans hparsed
  cases hurl'.symm.trans hparsed'
  obtain ⟨hhost, hpath⟩ := parts_eq_of_href hurl hurl' hbare hbare' hhref
  obtain ⟨host, hsegments, hlower⟩ := (roundTrips_iff_segments h hurl).mp hback
  obtain ⟨host', hsegments', hlower'⟩ := (roundTrips_iff_segments h' hurl').mp hback'
  refine ⟨host, host', pathTexts url, hsegments, ?_, hlower.trans (hhost ▸ hlower'.symm)⟩
  rw [hsegments', pathTexts, pathTexts, hpath]

/-- Nothing is wrong between a DID and a client_id only when they have one URL. -/
theorem sameUrl_of_didReasons {text didOrigin clientOrigin : JsString}
    (h : bindClientId did = .ok clientId)
    (hnone : urls.didReasons did text true (.ok didOrigin) (.ok clientOrigin) = .ok []) :
    urls.sameUrl clientId text = true := by
  by_contra hother
  rw [UrlParser.didReasons] at hnone
  by_cases horigin : didOrigin = clientOrigin
  · simp only [horigin, ne_eq, not_true_eq_false, if_false, if_true] at hnone
    obtain ⟨form, hform, hnone⟩ := bind_eq_ok.mp hnone
    cases h.symm.trans hform
    rw [if_neg hother] at hnone
    cases hnone
  · rw [if_pos horigin] at hnone
    cases hnone

theorem eq_ok_of_missing {origin : Except JsString JsString}
    (h : UrlParser.missing origin = []) : ∃ text, origin = .ok text := by
  cases origin with
  | error reason => cases h
  | ok text => exact ⟨text, rfl⟩

/-- A binding that is accepted is to the URL of the DID's client_id. -/
theorem sameUrl_of_accepted {cimd : CimdBinding} {didDoc : Untyped} {result : CimdBindResult}
    (h : bindClientId did = .ok clientId)
    (haccepted : urls.verifyCimdBind cimd didDoc (some did) = .ok result)
    (hok : result.ok = true) : urls.sameUrl clientId cimd.clientId = true := by
  obtain ⟨bound, hbound, hresult⟩ := bind_eq_ok.mp haccepted
  cases hresult
  simp only [List.isEmpty_iff, List.append_eq_nil_iff] at hok
  obtain ⟨⟨⟨⟨⟨⟨-, hdid⟩, hclient⟩, -⟩, rfl⟩, -⟩, -⟩ := hok
  obtain ⟨didOrigin, hdidOrigin⟩ := eq_ok_of_missing hdid
  obtain ⟨clientOrigin, hclientOrigin⟩ := eq_ok_of_missing hclient
  rw [Option.getD_some] at hdidOrigin hbound
  rw [hdidOrigin, hclientOrigin] at hbound
  exact sameUrl_of_didReasons h hbound

end Parsed

/-- The DID with an escaped tab before its host. -/
def tabbed (did : JsString) : JsString :=
  didWebPrefix ++ (js "%09" ++ did.drop didWebPrefix.length)

section Shared

variable {did clientId host : JsString} {path : List JsString}

theorem decodeURIComponent_tab {label : JsString} (h : decodeURIComponent label = .ok host) :
    decodeURIComponent (js "%09" ++ label) = .ok (0x09 :: host) := by
  have hstep : stepUtf8 none (0x09 : UInt8).toNat = ([0x09], none) := rfl
  show decodeFrom none (escapeOctet 0x09 ++ label) = _
  rw [decodeFrom_escape (by decide), hstep]
  show (fun text => [0x09] ++ text) <$> decodeURIComponent label = _
  rw [h]
  rfl

theorem didWebSegments_tabbed (h : didWebSegments did = .ok (host :: path)) :
    didWebSegments (tabbed did) = .ok ((0x09 :: host) :: path) := by
  have hlabels : labels (tabbed did) = (labels did).modifyHead (js "%09" ++ ·) := by
    have htab : ∀ text : JsString, (js "%09" ++ text).splitOn 0x3A =
        (text.splitOn 0x3A).modifyHead (js "%09" ++ ·) := by
      intro text
      obtain ⟨first, rest, hsplit⟩ := List.exists_cons_of_ne_nil (List.splitOn_ne_nil 0x3A text)
      show (0x25 :: 0x30 :: 0x39 :: text).splitOn 0x3A = _
      rw [List.splitOn_cons_eq_if_modifyHead, List.splitOn_cons_eq_if_modifyHead,
        List.splitOn_cons_eq_if_modifyHead, hsplit]
      rfl
    rw [tabbed, labels_prefix, htab]
    rfl
  obtain ⟨hhost, hpath⟩ := didWebSegments_eq_ok.mp h
  apply didWebSegments_eq_ok.mpr
  obtain ⟨first, rest, hsplit⟩ : ∃ first rest, labels did = first :: rest :=
    List.exists_cons_of_ne_nil (List.splitOn_ne_nil _ _)
  rw [hsplit] at hhost hpath
  rw [hlabels, hsplit]
  exact ⟨decodeURIComponent_tab hhost, hpath⟩

/-- Whatever a DID's client_id, another DID has it as a URL. -/
theorem exists_shared (hosts : HostParser) (h : bindClientId did = .ok clientId) :
    ∃ did' clientId', bindClientId did' = .ok clientId' ∧
      hosts.parseHttps (encodeUtf8 clientId') = hosts.parseHttps (encodeUtf8 clientId) ∧
      ¬ Denotes did did' := by
  obtain ⟨-, host, path, hsegments, hhost, rfl⟩ := bindClientId_eq_ok.mp h
  have htabbed := didWebSegments_tabbed hsegments
  refine ⟨tabbed did, clientIdOf (0x09 :: host) path, bindClientId_eq_ok.mpr ?_, ?_, ?_⟩
  · exact ⟨startsWith_append _ _, _, path, htabbed, List.cons_ne_nil _ _, rfl⟩
  · rw [encodeUtf8_clientIdOf, encodeUtf8_clientIdOf, encodeUtf8_cons (by decide)]
    exact parseHttps_tab
  · rintro ⟨host', host'', path', hsegments', hsegments'', hlower⟩
    cases hsegments.symm.trans hsegments'
    cases htabbed.symm.trans hsegments''
    have hlength := congrArg List.length hlower
    simp only [asciiLower, List.map_cons, List.length_cons, List.length_map] at hlength
    omega

end Shared

section Main

variable {urls : UrlParser} {did did' clientId clientId' : JsString}

/-- DIDs in HTTPS form come back from their client_ids, and are told apart by them. -/
theorem bijective_iff (h : bindClientId did = .ok clientId)
    (h' : bindClientId did' = .ok clientId') (haddressed : urls.Addressed clientId)
    (haddressed' : urls.Addressed clientId') :
    urls.Bijective did did' clientId clientId' ↔
      HttpsForm urls.hosts did ∧ HttpsForm urls.hosts did' := by
  constructor
  · intro hbijective
    exact ⟨(roundTrips_iff h haddressed).mp (hbijective.roundTrip haddressed),
      (roundTrips_iff h' haddressed').mp (hbijective.roundTrip' haddressed')⟩
  · rintro ⟨hform, hform'⟩
    have hone := denotes_of_sameUrl h h' hform hform'
    have hone' := denotes_of_sameUrl h' h hform' hform
    refine ⟨fun _ => (roundTrips_iff h haddressed).mpr hform,
      fun _ => (roundTrips_iff h' haddressed').mpr hform', hone, ?_, ?_⟩
    · rintro cimd didDoc result rfl haccepted hok
      exact hone (sameUrl_of_accepted h haccepted hok)
    · rintro cimd didDoc result rfl haccepted hok
      exact hone' (sameUrl_of_accepted h' haccepted hok)

/-- A client_id that is a URL is the URL of other DIDs as well. -/
theorem oneToOne_iff (h : bindClientId did = .ok clientId) :
    urls.OneToOne did clientId ↔ urls.parse clientId = none := by
  constructor
  · intro hone
    by_contra hsome
    obtain ⟨did', clientId', h', hshared, hother⟩ := exists_shared urls.hosts h
    rw [parse_of_bind h, Option.map_eq_none_iff] at hsome
    obtain ⟨url, hurl⟩ := Option.ne_none_iff_exists'.mp hsome
    apply hother
    apply hone.oneUrl did' clientId' h'
    exact (sameUrl_iff h h').mpr ⟨url, url, hurl, hshared.trans hurl, rfl⟩
  · intro hnone
    have hnever : ∀ text, urls.sameUrl clientId text = false := by
      intro text
      rw [UrlParser.sameUrl, hnone]
    rw [parse_of_bind h, Option.map_eq_none_iff] at hnone
    refine ⟨?_, ?_, ?_⟩
    · rintro ⟨url, hurl, -⟩
      cases hnone.symm.trans hurl
    · intro did' clientId' _ hsame
      cases (hnever clientId').symm.trans hsame
    · intro did' clientId' _ cimd didDoc result _ haccepted hok
      cases (hnever cimd.clientId).symm.trans (sameUrl_of_accepted h haccepted hok)

/-- No DID whose client_id is a URL has it alone. Two whose client_ids are URLs without a query or
a fragment keep apart, and come back, exactly when both are in HTTPS form. -/
theorem clientId_bijective_iff (urls : UrlParser) (h : bindClientId did = .ok clientId) :
    (urls.OneToOne did clientId ↔ urls.parse clientId = none) ∧
    ∀ {did' clientId'}, bindClientId did' = .ok clientId' → urls.Addressed clientId →
      urls.Addressed clientId' → (urls.Bijective did did' clientId clientId' ↔
        HttpsForm urls.hosts did ∧ HttpsForm urls.hosts did') :=
  ⟨oneToOne_iff h, fun h' haddressed haddressed' => bijective_iff h h' haddressed haddressed'⟩

/-- A parser of https URLs. -/
def sampleUrls : UrlParser where
  hosts := sampleHosts
  others _ := none

theorem clientId_bijective_iff_sample :
    ¬ sampleUrls.OneToOne (js "did:web:A.example%3A8443:users:b")
        (js "https://A.example:8443/users/b") ∧
      sampleUrls.Bijective (js "did:web:A.example%3A8443:users:b") (js "did:web:a.example:users:b")
        (js "https://A.example:8443/users/b") (js "https://a.example/users/b") := by
  have hbind : bindClientId (js "did:web:A.example%3A8443:users:b") =
      .ok (js "https://A.example:8443/users/b") := by decide +kernel
  have hbind' : bindClientId (js "did:web:a.example:users:b") =
      .ok (js "https://a.example/users/b") := by decide +kernel
  have hread : sampleHosts.parseHttps (encodeUtf8 (js "https://A.example:8443/users/b")) =
      some
        { host := ascii "a.example"
          port := some 8443
          path := [ascii "users", ascii "b"] } := by
    decide +kernel
  have hread' : sampleHosts.parseHttps (encodeUtf8 (js "https://a.example/users/b")) =
      some { host := ascii "a.example", port := none, path := [ascii "users", ascii "b"] } := by
    decide +kernel
  have hform : HttpsForm sampleHosts (js "did:web:A.example%3A8443:users:b") :=
    ⟨js "A.example:8443", [js "users", js "b"], ascii "a.example", some 8443, by decide +kernel,
      by decide +kernel, by decide +kernel, by decide +kernel⟩
  have hform' : HttpsForm sampleHosts (js "did:web:a.example:users:b") :=
    ⟨js "a.example", [js "users", js "b"], ascii "a.example", none, by decide +kernel,
      by decide +kernel, by decide +kernel, by decide +kernel⟩
  obtain ⟨hone, hpair⟩ := clientId_bijective_iff sampleUrls hbind
  refine ⟨fun h => ?_, ?_⟩
  · have hnone := hone.mp h
    rw [parse_of_bind hbind, Option.map_eq_none_iff] at hnone
    cases hread.symm.trans hnone
  · exact (hpair hbind' ⟨_, hread, rfl, rfl⟩ ⟨_, hread', rfl, rfl⟩).mpr ⟨hform, hform'⟩

/-- An escaped slash and a colon give one client_id. It goes back to one of the two DIDs, and is
accepted for both. -/
theorem clientId_shared :
    bindClientId (js "did:web:a.example:users%2Fb") = .ok (js "https://a.example/users/b") ∧
      bindClientId (js "did:web:a.example:users:b") = .ok (js "https://a.example/users/b") ∧
      sampleUrls.didFromClientId (js "https://a.example/users/b") =
        .ok (js "did:web:a.example:users:b") ∧
      sampleUrls.verifyCimdBind
        { clientId := js "https://a.example/users/b", jwksUri := js "https://a.example/jwks" }
        (some (.object [(js "id", .string (js "did:web:a.example:users%2Fb")),
          (js "alsoKnownAs", .array [.string (js "https://a.example/users/b")])]))
        (some (js "did:web:a.example:users%2Fb")) = .ok { ok := true, reasons := [] } ∧
      ¬ Denotes (js "did:web:a.example:users%2Fb") (js "did:web:a.example:users:b") ∧
      ¬ sampleUrls.Bijective (js "did:web:a.example:users%2Fb") (js "did:web:a.example:users:b")
        (js "https://a.example/users/b") (js "https://a.example/users/b") := by
  have hescaped : didWebSegments (js "did:web:a.example:users%2Fb") =
      .ok [js "a.example", js "users/b"] := by decide +kernel
  have hplain : didWebSegments (js "did:web:a.example:users:b") =
      .ok [js "a.example", js "users", js "b"] := by decide +kernel
  have hother : ¬ Denotes (js "did:web:a.example:users%2Fb") (js "did:web:a.example:users:b") := by
    rintro ⟨host, host', path, hsegments, hsegments', -⟩
    cases hescaped.symm.trans hsegments
    cases hplain.symm.trans hsegments'
  have hone : sampleUrls.sameUrl (js "https://a.example/users/b")
      (js "https://a.example/users/b") = true := by decide +kernel
  exact ⟨by decide +kernel, by decide +kernel, by decide +kernel, by decide +kernel, hother,
    fun h => hother (h.oneUrl hone)⟩

end Main

end KyaOs.Cimd
