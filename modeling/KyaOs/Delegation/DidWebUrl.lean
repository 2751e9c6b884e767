import KyaOs.Card.DidWebReaders
import KyaOs.Utils.Utf8Bytes
import KyaOs.Whatwg.HttpsUrl

/-!
# The URL of a did:web document

What a WHATWG URL parser makes of the URL that a did:web DID resolves to. The labels of a DID
are read once more by the parser, so what follows is about labels it takes literally.
-/

open Js Json Whatwg

namespace KyaOs.DidWebResolver

open CardResolution (didWebSegments documentUrl didWebToUrl_eq_some)

/-- `new URL(text)` for an https text, which it reads as UTF-8. -/
def parseUrl (hosts : HostParser) (text : JsString) : Option Whatwg.Url :=
  hosts.parseHttps (encodeUtf8 text)

/-- A label that a URL parser reads literally: without an escape, a tab, a newline or an
unpaired surrogate. -/
def isLiteral (label : JsString) : Bool :=
  !hasLoneSurrogate label && !hasEscape (encodeUtf8 label) &&
    !(encodeUtf8 label).any isTabOrNewline

/-- The path of a DID's document. -/
def documentPath (path : List JsString) : List JsString :=
  (if path = [] then [js ".well-known"] else path) ++ [js "did.json"]

/-- A label as a segment of a URL's path. -/
def urlSegment (label : JsString) : Bytes := percentEncode pathSet (encodeUtf8 label)

/-- A DID has a URL, and its labels are literal. -/
structure ResolvesTo (did url host : JsString) (path : List JsString) : Prop where
  url : didWebToUrl did = some url
  segments : didWebSegments did = .ok (host :: path)
  literal : ∀ label ∈ path, isLiteral label = true

section Text

variable {host : JsString} {path : List JsString}

theorem intercalate_concat {α : Type} {separator : List α} {parts : List (List α)}
    (hne : parts ≠ []) (last : List α) :
    separator.intercalate (parts ++ [last]) = separator.intercalate parts ++ separator ++ last := by
  induction parts with
  | nil => exact absurd rfl hne
  | cons part rest ih =>
      cases rest with
      | nil => simp
      | cons next others =>
          have hrest := ih (List.cons_ne_nil _ _)
          simp only [List.cons_append, List.intercalate_cons_cons, List.append_assoc] at hrest ⊢
          rw [hrest]

theorem documentUrl_eq : documentUrl host path =
    js "https://" ++ (host ++ 0x2F :: (js "/").intercalate (documentPath path)) := by
  cases path with
  | nil =>
      simp only [documentUrl, documentPath, if_true, List.append_assoc]
      rfl
  | cons label rest =>
      have hne : label :: rest ≠ [] := List.cons_ne_nil _ _
      rw [documentUrl, documentPath, if_neg hne, if_neg hne, intercalate_concat hne]
      simp only [List.append_assoc]
      rfl

theorem encodeUtf8_intercalate {labels : List JsString} :
    encodeUtf8 ((js "/").intercalate labels) =
      [Whatwg.slash].intercalate (labels.map encodeUtf8) := by
  induction labels with
  | nil => rfl
  | cons label rest ih =>
      cases rest with
      | nil => simp
      | cons next others =>
          rw [List.intercalate_cons_cons, List.append_assoc]
          show encodeUtf8 (label ++ 0x2F :: (js "/").intercalate (next :: others)) = _
          rw [encodeUtf8_append_cons (by decide), ih]
          simp only [List.map_cons, List.intercalate_cons_cons, List.append_assoc]
          rfl

theorem encodeUtf8_documentUrl : encodeUtf8 (documentUrl host path) =
    ascii "https://" ++
      (encodeUtf8 host ++
        Whatwg.slash :: [Whatwg.slash].intercalate ((documentPath path).map encodeUtf8)) := by
  have hprotocol : ∀ u ∈ js "https://", u < 0x80 := by
    simpa using List.all_eq_true.mp (by decide : (js "https://").all (· < 0x80) = true)
  rw [documentUrl_eq, encodeUtf8_append hprotocol, encodeUtf8_append_cons (by decide),
    encodeUtf8_intercalate]
  rfl

end Text

section Labels

variable {label host : JsString} {path : List JsString}

theorem encodeUtf8_ne_nil (h : label ≠ []) : encodeUtf8 label ≠ [] := by
  obtain ⟨u, rest, rfl⟩ := List.exists_cons_of_ne_nil h
  have hpoints : ∃ c cs, codePoints (u :: rest) = c :: cs := by
    cases rest with
    | nil => exact ⟨_, _, rfl⟩
    | cons v others =>
        rw [codePoints]
        split_ifs
        · exact ⟨_, _, rfl⟩
        · exact ⟨_, _, rfl⟩
  obtain ⟨c, cs, hpoints⟩ := hpoints
  rw [encodeUtf8_eq, hpoints, List.flatMap_cons]
  exact List.append_ne_nil_of_left_ne_nil String.utf8EncodeChar_ne_nil _

/-- A host has only bytes that can stand in an authority. -/
theorem isAuthorityByte_of_isHost (h : isHost host = true) :
    ∀ b ∈ encodeUtf8 host, isAuthorityByte b = true := by
  have hascii : ∀ b : UInt8, b < 0x80 → endsHost b.toUInt16 = false → isAuthorityByte b = true :=
    forall_byte (by decide +kernel)
  have hlarge : ∀ b : UInt8, ¬ b < 0x80 → isAuthorityByte b = true :=
    forall_byte (by decide +kernel)
  simp only [isHost, Bool.and_eq_true, Bool.not_eq_true', List.any_eq_false] at h
  intro b hb
  by_cases hlt : b < 0x80
  · exact hascii b hlt (Bool.not_eq_true _ ▸ h.1.2 _ (mem_of_mem_encodeUtf8 hb hlt))
  · exact hlarge b hlt

/-- A literal segment has only bytes of one segment of a path. -/
theorem isSegmentByte_of_isSegment (h : isSegment label = true)
    (hliteral : isLiteral label = true) :
    ∀ b ∈ encodeUtf8 label, isSegmentByte b = true := by
  have hascii : ∀ b : UInt8, b < 0x80 → b.toUInt16 ∉ js "/\\?#" → isTabOrNewline b = false →
      isSegmentByte b = true := forall_byte (by decide +kernel)
  have hlarge : ∀ b : UInt8, ¬ b < 0x80 → isSegmentByte b = true :=
    forall_byte (by decide +kernel)
  simp only [isSegment, Bool.and_eq_true, Bool.not_eq_true', List.any_eq_false,
    decide_eq_true_eq] at h
  simp only [isLiteral, Bool.and_eq_true, Bool.not_eq_true', List.any_eq_false] at hliteral
  intro b hb
  by_cases hlt : b < 0x80
  · exact hascii b hlt (h.2 _ (mem_of_mem_encodeUtf8 hb hlt))
      (Bool.not_eq_true _ ▸ hliteral.2 b hb)
  · exact hlarge b hlt

theorem percentDecode_urlSegment (h : isLiteral label = true) :
    percentDecode (urlSegment label) = encodeUtf8 label := by
  simp only [isLiteral, Bool.and_eq_true, Bool.not_eq_true'] at h
  rw [urlSegment, percentDecode_percentEncode (by decide) pathSet_of_isHexDigit,
    percentDecode_eq_self h.1.2]

/-- Literal labels are told apart by their segments. -/
theorem urlSegment_injective {label' : JsString} (h : isLiteral label = true)
    (h' : isLiteral label' = true) (hsame : urlSegment label = urlSegment label') :
    label = label' := by
  have hbytes : encodeUtf8 label = encodeUtf8 label' := by
    rw [← percentDecode_urlSegment h, ← percentDecode_urlSegment h', hsame]
  simp only [isLiteral, Bool.and_eq_true, Bool.not_eq_true'] at h h'
  exact encodeUtf8_injective h.1.1 h'.1.1 hbytes

/-- A literal segment is no dot segment, encoded either. -/
theorem isDotSegment_urlSegment (h : isSegment label = true) (hliteral : isLiteral label = true) :
    isDotSegment (urlSegment label) = false := by
  rw [← Bool.not_eq_true]
  intro hdot
  have hpaired : hasLoneSurrogate label = false := by
    simp only [isLiteral, Bool.and_eq_true, Bool.not_eq_true'] at hliteral
    exact hliteral.1.1
  have hlabel : label = js "." ∨ label = js ".." := by
    refine (percentDecode_dotSegment hdot).imp (fun hone => ?_) fun htwo => ?_
    · rw [percentDecode_urlSegment hliteral] at hone
      exact encodeUtf8_injective hpaired (by decide) hone
    · rw [percentDecode_urlSegment hliteral] at htwo
      exact encodeUtf8_injective hpaired (by decide) htwo
  simp only [isSegment, Bool.and_eq_true, decide_eq_true_eq] at h
  rcases hlabel with rfl | rfl
  · exact h.1.1.2 rfl
  · exact h.1.2 rfl

end Labels

section Resolution

variable {hosts : HostParser} {did url host did' url' host' : JsString}
  {path path' : List JsString}

theorem ResolvesTo.isDidWeb (h : ResolvesTo did url host path) : isDidWeb did = true := by
  rw [← Bool.not_eq_false]
  intro hother
  have hurl := h.url
  rw [didWebToUrl, parseDidWeb, hother] at hurl
  cases hurl

theorem ResolvesTo.labels (h : ResolvesTo did url host path) : isHost host = true ∧
    (∀ label ∈ path, isSegment label = true) ∧ url = documentUrl host path := by
  obtain ⟨_, _, hsegments, hhost, hpath, hurl⟩ := (didWebToUrl_eq_some h.isDidWeb).mp h.url
  cases h.segments.symm.trans hsegments
  exact ⟨hhost, hpath, hurl⟩

/-- The segments of the document's path are literal. -/
theorem ResolvesTo.documentPath (h : ResolvesTo did url host path) :
    ∀ label ∈ documentPath path, isSegment label = true ∧ isLiteral label = true := by
  obtain ⟨-, hpath, -⟩ := h.labels
  have hwellKnown : isSegment (js ".well-known") = true ∧ isLiteral (js ".well-known") = true := by
    decide +kernel
  have hdocument : isSegment (js "did.json") = true ∧ isLiteral (js "did.json") = true := by
    decide +kernel
  rw [DidWebResolver.documentPath, List.forall_mem_append]
  refine ⟨?_, by simpa using hdocument⟩
  split_ifs with hnil
  · simpa using hwellKnown
  · exact fun label hlabel => ⟨hpath label hlabel, h.literal label hlabel⟩

/-- The URL is that of the host, with the labels as its segments. -/
theorem ResolvesTo.parseUrl_eq (h : ResolvesTo did url host path) :
    parseUrl hosts url = (hosts.readHostPort (encodeUtf8 host)).map fun read =>
      { host := read.1
        port := read.2
        path := (DidWebResolver.documentPath path).map urlSegment } := by
  obtain ⟨hhost, -, rfl⟩ := h.labels
  have hne : host ≠ [] := by
    rintro rfl
    exact absurd hhost (by decide)
  rw [parseUrl, encodeUtf8_documentUrl, parseHttps_path (encodeUtf8_ne_nil hne)
    (isAuthorityByte_of_isHost hhost)]
  · simp only [List.map_map]
    rfl
  · simp [DidWebResolver.documentPath]
  · simp only [List.forall_mem_map]
    exact fun label hlabel =>
      isSegmentByte_of_isSegment (h.documentPath label hlabel).1 (h.documentPath label hlabel).2
  · simp only [List.forall_mem_map]
    exact fun label hlabel =>
      isDotSegment_urlSegment (h.documentPath label hlabel).1 (h.documentPath label hlabel).2
  · have hfront : (if path = [] then [js ".well-known"] else path).map encodeUtf8 ≠ [] := by
      split_ifs with hnil
      · simp
      · simpa using hnil
    rw [DidWebResolver.documentPath, List.map_append, List.map_singleton,
      intercalate_concat hfront, List.getLast?_append,
      show (encodeUtf8 (js "did.json")).getLast? = some 0x6E from rfl, Option.some_or]
    intro b hb
    obtain rfl := Option.mem_some_iff.mp hb
    rfl

theorem map_urlSegment_injective {labels labels' : List JsString}
    (h : ∀ label ∈ labels, isLiteral label = true) (h' : ∀ label ∈ labels', isLiteral label = true)
    (hsame : labels.map urlSegment = labels'.map urlSegment) : labels = labels' := by
  induction labels generalizing labels' with
  | nil => exact (List.map_eq_nil_iff.mp hsame.symm).symm
  | cons label rest ih =>
      obtain ⟨label', rest', rfl, hlabel, hrest⟩ := List.map_eq_cons_iff.mp hsame.symm
      obtain ⟨hfirst, hmore⟩ := List.forall_mem_cons.mp h
      obtain ⟨hfirst', hmore'⟩ := List.forall_mem_cons.mp h'
      rw [urlSegment_injective hfirst hfirst' hlabel.symm, ih hmore hmore' hrest.symm]

/-- The labels of a document's path, which for none are those of `.well-known`. -/
theorem documentPath_eq_iff : documentPath path = documentPath path' ↔ path = path' ∨
    (path = [] ∧ path' = [js ".well-known"]) ∨ (path = [js ".well-known"] ∧ path' = []) := by
  have hne : ([] : List JsString) ≠ [js ".well-known"] := by simp
  simp only [documentPath, List.append_left_inj]
  split_ifs with hnil hnil' hnil'
  · simp [hnil, hnil']
  · simp [hnil, eq_comm, hnil']
  · simp [hnil, hnil']
  · simp [hnil, hnil']

/-- A did:web DID whose labels are literal resolves to the URL of its host, when that is one,
with its labels for segments. Two of them share a URL only when their hosts are the same and
their labels are, `.well-known` and no labels aside. -/
theorem didWebToUrl_named (hosts : HostParser) (h : ResolvesTo did url host path) :
    parseUrl hosts url = (hosts.readHostPort (encodeUtf8 host)).map (fun read =>
      { host := read.1, port := read.2, path := (documentPath path).map urlSegment }) ∧
    (∀ label ∈ documentPath path, percentDecode (urlSegment label) = encodeUtf8 label) ∧
    ∀ {did' url' host' path' read}, ResolvesTo did' url' host' path' →
      parseUrl hosts url = some read → parseUrl hosts url' = some read →
      hosts.readHostPort (encodeUtf8 host) = hosts.readHostPort (encodeUtf8 host') ∧
        (path = path' ∨ (path = [] ∧ path' = [js ".well-known"]) ∨
          (path = [js ".well-known"] ∧ path' = [])) := by
  refine ⟨h.parseUrl_eq, fun label hlabel =>
    percentDecode_urlSegment (h.documentPath label hlabel).2,
    ?_⟩
  intro did' url' host' path' read h' hread hread'
  rw [h.parseUrl_eq] at hread
  rw [h'.parseUrl_eq] at hread'
  obtain ⟨⟨name, port⟩, hhost, rfl⟩ := Option.map_eq_some_iff.mp hread
  obtain ⟨⟨name', port'⟩, hhost', hsame⟩ := Option.map_eq_some_iff.mp hread'
  simp only [Whatwg.Url.mk.injEq, true_and, and_true] at hsame
  obtain ⟨rfl, rfl, hpath⟩ := hsame
  refine ⟨hhost.trans hhost'.symm, documentPath_eq_iff.mp ?_⟩
  exact map_urlSegment_injective (fun label hlabel => (h.documentPath label hlabel).2)
    (fun label hlabel => (h'.documentPath label hlabel).2) hpath.symm

/-- A host parser that takes ASCII names in any case. -/
def sampleHosts : HostParser where
  parse text := if text.all isHostByte then some (text.map lowerByte) else none
  plain := by
    intro text host h b hb
    have hlower : ∀ b, Whatwg.isHostByte b = true → Whatwg.isHostByte (lowerByte b) = true :=
      forall_byte (by decide +kernel)
    obtain ⟨hall, hhost⟩ := Option.ite_none_right_eq_some.mp h
    obtain rfl := Option.some.inj hhost
    obtain ⟨b, hmem, rfl⟩ := List.mem_map.mp hb
    exact hlower b (List.all_eq_true.mp hall b hmem)

theorem didWebToUrl_named_sample :
    parseUrl sampleHosts (js "https://A.example:8443/café/did.json") =
      some { host := ascii "a.example", port := some 8443
             path := [ascii "caf%C3%A9", ascii "did.json"] } := by
  have hresolves : ResolvesTo (js "did:web:A.example%3A8443:caf%C3%A9")
      (js "https://A.example:8443/café/did.json") (js "A.example:8443") [js "café"] :=
    ⟨by decide +kernel, by decide +kernel, by decide +kernel⟩
  refine (didWebToUrl_named sampleHosts hresolves).1.trans ?_
  decide +kernel

/-- A DID without a path and one with the label `.well-known` have one URL. -/
theorem wellKnown_shared :
    didWebSegments (js "did:web:a.example") = .ok [js "a.example"] ∧
      didWebSegments (js "did:web:a.example:.well-known") = .ok [js "a.example", js ".well-known"] ∧
      didWebToUrl (js "did:web:a.example") = some (js "https://a.example/.well-known/did.json") ∧
      didWebToUrl (js "did:web:a.example:.well-known") =
        some (js "https://a.example/.well-known/did.json") := by
  refine ⟨?_, ?_, ?_, ?_⟩ <;> decide +kernel

end Resolution

end KyaOs.DidWebResolver
