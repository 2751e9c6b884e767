import KyaOs.Card.Resolve

/-!
# The readers of a did:web DID

The delegation resolver refuses a host or a path segment that decodes to more than one. The
card resolver and the CIMD bind join what they decode, so they read such a DID from another
host or path.
-/

open Js

namespace KyaOs.CardResolution

open DidWebResolver

def bindClientId (did : JsString) : Except Error JsString := do
  if !startsWith did didWebPrefix then
    throw (.error (js "bindClientId: only did:web has an HTTPS client_id form (got \"" ++ did ++
      js "\")"))
  let decoded ← didWebSegments did
  let authority := decoded.headD []
  let segments := decoded.tail
  if authority = [] then
    throw (.error (js "bindClientId: did:web \"" ++ did ++ js "\" has no host authority"))
  let path := if segments ≠ [] then js "/" ++ (js "/").intercalate segments else []
  return js "https://" ++ authority ++ path

/-- The readers take the DID to one URL, or none reads it. -/
structure ReadersAgree (did : JsString) : Prop where
  url : ∀ url, didWebToUrl did = some url → didWebToDidDocUrl did = .ok url
  refused : didWebToUrl did = none →
    (∃ error, didWebToDidDocUrl did = .error error) ∧ ∃ error, bindClientId did = .error error

/-- A label has a malformed escape. -/
def Undecodable (did : JsString) : Prop :=
  ∃ label ∈ labels did, ∃ error, decodeURIComponent label = .error error

/-- The labels decode to a host and to path segments, and to nothing more. -/
def Plain (did : JsString) : Prop :=
  ∃ host path, didWebSegments did = .ok (host :: path) ∧ isHost host = true ∧
    ∀ segment ∈ path, isSegment segment = true

section Decoded

variable {did : JsString}

theorem mapM_throws {α β : Type} {f : α → Except Error β} {l : List α} :
    (∃ error, l.mapM f = .error error) ↔ ∃ a ∈ l, ∃ error, f a = .error error := by
  induction l with
  | nil => exact iff_of_false (by rintro ⟨-, ⟨⟩⟩) (by rintro ⟨-, ⟨⟩, -⟩)
  | cons a rest ih =>
      rw [List.mapM_cons, List.exists_mem_cons_iff, ← ih]
      cases f a with
      | error error => exact iff_of_true ⟨error, rfl⟩ (.inl ⟨error, rfl⟩)
      | ok b =>
          cases rest.mapM f with
          | error error => exact iff_of_true ⟨error, rfl⟩ (.inr ⟨error, rfl⟩)
          | ok bs => exact iff_of_false (by rintro ⟨-, ⟨⟩⟩) (by rintro (⟨-, ⟨⟩⟩ | ⟨-, ⟨⟩⟩))

theorem didWebSegments_throws :
    (∃ error, didWebSegments did = .error error) ↔ Undecodable did := mapM_throws

/-- The first label is the host. -/
theorem didWebSegments_eq_ok {host : JsString} {path : List JsString} :
    didWebSegments did = .ok (host :: path) ↔
      decodeURIComponent ((labels did).headD []) = .ok host ∧
        (labels did).tail.mapM decodeURIComponent = .ok path := by
  rw [didWebSegments]
  cases hlabels : labels did with
  | nil => exact absurd hlabels (List.splitOn_ne_nil _ _)
  | cons first rest =>
      rw [List.mapM_cons]
      constructor
      · intro h
        obtain ⟨host', hhost, h⟩ := bind_eq_ok.mp h
        obtain ⟨path', hpath, h⟩ := bind_eq_ok.mp h
        cases h
        exact ⟨hhost, hpath⟩
      · rintro ⟨hhost, hpath⟩
        exact bind_eq_ok.mpr ⟨host, hhost, bind_eq_ok.mpr ⟨path, hpath, rfl⟩⟩

/-- There is a host among the segments. -/
theorem segments_ne_nil {segments : List JsString} (h : didWebSegments did = .ok segments) :
    ∃ host path, segments = host :: path := by
  cases segments with
  | cons host path => exact ⟨host, path, rfl⟩
  | nil =>
      rw [didWebSegments] at h
      cases hlabels : labels did with
      | nil => exact absurd hlabels (List.splitOn_ne_nil _ _)
      | cons first rest =>
          rw [hlabels, List.mapM_cons] at h
          obtain ⟨_, -, h⟩ := bind_eq_ok.mp h
          obtain ⟨_, -, h⟩ := bind_eq_ok.mp h
          cases h

/-- The URL of a plain host and path. -/
def documentUrl (host : JsString) (path : List JsString) : JsString :=
  js "https://" ++ host ++ (if path = [] then js "/.well-known/did.json"
    else js "/" ++ (js "/").intercalate path ++ js "/did.json")

theorem parseDidWebHost_eq_some {label host : JsString} :
    parseDidWebHost label = some host ↔
      decodeURIComponent label = .ok host ∧ isHost host = true := by
  rw [parseDidWebHost]
  cases decodeURIComponent label with
  | error error => simp
  | ok decoded =>
      simp only [Option.ite_none_right_eq_some, Option.some.injEq, Except.ok.injEq]
      constructor
      · rintro ⟨hhost, rfl⟩
        exact ⟨rfl, hhost⟩
      · rintro ⟨rfl, hhost⟩
        exact ⟨hhost, rfl⟩

theorem didWebToUrl_eq_some (hdid : isDidWeb did = true) {url : JsString} :
    didWebToUrl did = some url ↔ ∃ host path, didWebSegments did = .ok (host :: path) ∧
      isHost host = true ∧ (∀ segment ∈ path, isSegment segment = true) ∧
      url = documentUrl host path := by
  rw [didWebToUrl, DidWebResolver.parseDidWeb]
  split_ifs with hrefused
  · have hempty : did.drop didWebPrefix.length = [] := by simpa [hdid] using hrefused
    refine iff_of_false (by rintro ⟨⟩) ?_
    rintro ⟨host, path, hsegments, hhost, -⟩
    have hlabel : (labels did).headD [] = [] := by rw [labels, hempty]; rfl
    have hdecoded := (didWebSegments_eq_ok.mp hsegments).1
    rw [hlabel] at hdecoded
    cases hdecoded
    exact absurd hhost (by decide)
  · simp only [didWebSegments_eq_ok, Option.bind_eq_bind, Option.bind_eq_some_iff, Option.pure_def,
      Option.some.injEq, parseDidWebHost_eq_some]
    constructor
    · rintro ⟨parsed, ⟨host, ⟨hdecoded, hhost⟩, hparsed⟩, rfl⟩
      cases hpath : (labels did).tail.mapM decodeURIComponent with
      | error error => simp [hpath] at hparsed
      | ok path =>
          simp only [hpath, Option.ite_none_right_eq_some, Option.some.injEq] at hparsed
          obtain ⟨hall, rfl⟩ := hparsed
          exact ⟨host, path, ⟨hdecoded, rfl⟩, hhost, List.all_eq_true.mp hall, rfl⟩
    · rintro ⟨host, path, ⟨hdecoded, hpath⟩, hhost, hall, rfl⟩
      refine ⟨⟨host, path⟩, ⟨host, ⟨hdecoded, hhost⟩, ?_⟩, rfl⟩
      rw [hpath]
      exact if_pos (List.all_eq_true.mpr hall)

theorem intercalate_eq_nil {path : List JsString} (h : ∀ segment ∈ path, isSegment segment = true) :
    (js "/").intercalate path = [] ↔ path = [] := by
  cases path with
  | nil => exact iff_of_true rfl rfl
  | cons first rest =>
      refine iff_of_false ?_ (List.cons_ne_nil _ _)
      have hfirst : first ≠ [] := by
        rintro rfl
        exact absurd (h [] List.mem_cons_self) (by decide)
      cases rest with
      | nil => simpa using hfirst
      | cons second rest =>
          rw [List.intercalate_cons_cons]
          simp [hfirst]

/-- On plain labels the card resolver reads the same URL. -/
theorem didWebToDidDocUrl_plain {host : JsString} {path : List JsString}
    (hsegments : didWebSegments did = .ok (host :: path))
    (h : ∀ segment ∈ path, isSegment segment = true) :
    didWebToDidDocUrl did = .ok (documentUrl host path) := by
  refine bind_eq_ok.mpr ⟨(host, (js "/").intercalate path),
    bind_eq_ok.mpr ⟨host :: path, hsegments, rfl⟩, ?_⟩
  simp only [documentUrl, ne_eq, intercalate_eq_nil h, ite_not, List.append_assoc]
  rfl

theorem didWebToDidDocUrl_throws :
    (∃ error, didWebToDidDocUrl did = .error error) ↔ Undecodable did := by
  rw [← didWebSegments_throws, didWebToDidDocUrl, parseDidWeb]
  cases didWebSegments did with
  | error error => exact iff_of_true ⟨error, rfl⟩ ⟨error, rfl⟩
  | ok segments => exact iff_of_false (by rintro ⟨-, ⟨⟩⟩) (by rintro ⟨-, ⟨⟩⟩)

theorem bindClientId_throws (h : Undecodable did) : ∃ error, bindClientId did = .error error := by
  rw [bindClientId]
  split_ifs
  · exact ⟨_, rfl⟩
  · obtain ⟨error, herror⟩ := didWebSegments_throws.mpr h
    exact ⟨error, by rw [herror]; rfl⟩

end Decoded

/-- The readers agree exactly on the DIDs with a malformed escape and on those whose labels
decode to a host and to path segments. -/
theorem readersAgree_iff (did : JsString) (hdid : isDidWeb did = true) :
    ReadersAgree did ↔ Undecodable did ∨ Plain did := by
  constructor
  · intro h
    cases hurl : didWebToUrl did with
    | none => exact .inl (didWebToDidDocUrl_throws.mp (h.refused hurl).1)
    | some url =>
        obtain ⟨host, path, hsegments, hhost, hall, -⟩ := (didWebToUrl_eq_some hdid).mp hurl
        exact .inr ⟨host, path, hsegments, hhost, hall⟩
  · rintro (hundecodable | ⟨host, path, hsegments, hhost, hall⟩)
    · refine ⟨fun url hurl => ?_, fun _ =>
        ⟨didWebToDidDocUrl_throws.mpr hundecodable, bindClientId_throws hundecodable⟩⟩
      obtain ⟨host, path, hsegments, -⟩ := (didWebToUrl_eq_some hdid).mp hurl
      obtain ⟨error, herror⟩ := didWebSegments_throws.mpr hundecodable
      rw [hsegments] at herror
      cases herror
    · have hurl := (didWebToUrl_eq_some hdid).mpr ⟨host, path, hsegments, hhost, hall, rfl⟩
      refine ⟨fun url h => ?_, fun h => ?_⟩
      · rw [hurl, Option.some.injEq] at h
        rw [didWebToDidDocUrl_plain hsegments hall, h]
      · rw [hurl] at h
        cases h

theorem readersAgree_iff_sample : ReadersAgree (js "did:web:a.example:users:b") :=
  (readersAgree_iff _ (by decide +kernel)).mpr (.inr ⟨js "a.example", [js "users", js "b"],
    by decide +kernel, by decide +kernel, by decide +kernel⟩)

/-- The resolver refuses a host with userinfo, from which the card resolver reads another host,
and a segment with a slash, which the card resolver takes for two. -/
theorem readers_disagree :
    didWebToUrl (js "did:web:a.example%40b.example") = none ∧
      didWebToDidDocUrl (js "did:web:a.example%40b.example") =
        .ok (js "https://a.example@b.example/.well-known/did.json") ∧
      bindClientId (js "did:web:a.example%40b.example") = .ok (js "https://a.example@b.example") ∧
      didWebToUrl (js "did:web:a.example:users%2Fb") = none ∧
      didWebToDidDocUrl (js "did:web:a.example:users%2Fb") =
        .ok (js "https://a.example/users/b/did.json") ∧
      ¬ ReadersAgree (js "did:web:a.example%40b.example") := by
  have hrefused : didWebToUrl (js "did:web:a.example%40b.example") = none := by decide +kernel
  have hread : didWebToDidDocUrl (js "did:web:a.example%40b.example") =
      .ok (js "https://a.example@b.example/.well-known/did.json") := by decide +kernel
  refine ⟨hrefused, hread, by decide +kernel, by decide +kernel, by decide +kernel, fun h => ?_⟩
  obtain ⟨error, herror⟩ := (h.refused hrefused).1
  rw [hread] at herror
  cases herror

end KyaOs.CardResolution
