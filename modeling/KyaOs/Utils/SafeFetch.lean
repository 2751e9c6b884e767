import KyaOs.Concurrency.Conversations
import KyaOs.Utils.IpClassifier
import KyaOs.Utils.Utf8

/-!
# Outbound requests, hop by hop

`createSafeFetch`: the scheme, the screened lookup, the redirect and the size of every
request a fetcher makes. A lookup, a transport and the reading of a body are requests to
the environment, which may answer each as it likes.
-/

namespace KyaOs

open Js Concurrency Concurrency.Async

/-- A parsed URL. -/
structure Url where
  href : JsString
  protocol : JsString
  hostname : JsString
  origin : JsString
  deriving DecidableEq

/-- `new URL(raw, base)`: `none` where it throws. -/
structure UrlParser where
  parse : JsString → Option Url
  resolve : JsString → JsString → Option Url

/-- The text of an https URL is parsed to the same URL. -/
structure UrlParser.Serializes (parser : UrlParser) : Prop where
  parse : ∀ {raw url}, parser.parse raw = some url → url.protocol = js "https:" →
    parser.parse url.href = some url
  resolve : ∀ {raw base url}, parser.resolve raw base = some url →
    url.protocol = js "https:" → parser.parse url.href = some url

structure DnsAddress where
  address : JsString
  family : Nat
  deriving DecidableEq

structure RawResponse where
  status : JsNumber
  /-- `headers.get(name)`. -/
  headers : JsString → Option JsString

/-- Aborts after `timeoutMs`, with a reason. -/
structure AbortSignal where
  timeoutMs : JsNumber
  reason : Error

structure TransportInit where
  signal : AbortSignal
  hostname : JsString
  pinnedAddress : JsString
  family : Nat
  maxBytes : JsNumber

/-- The configured transport, or plain `fetchTransport`. -/
inductive TransportKind where
  | configured
  | plain
  deriving DecidableEq

inductive FetchRequest where
  | lookup (hostname : JsString)
  | transport (kind : TransportKind) (url : JsString) (init : TransportInit)
  /-- `raw.text()`. -/
  | text (raw : RawResponse)

abbrev Fetching : Setting where
  State := Unit
  Error := Error
  Request := FetchRequest
  Answer
    | .lookup _ => List DnsAddress
    | .transport _ _ _ => RawResponse
    | .text _ => JsString

def lookup (hostname : JsString) : Async Fetching (List DnsAddress) :=
  Async.ask (I := Fetching) (.lookup hostname)

def transport (kind : TransportKind) (url : JsString) (init : TransportInit) :
    Async Fetching RawResponse :=
  Async.ask (I := Fetching) (.transport kind url init)

def readText (raw : RawResponse) : Async Fetching JsString :=
  Async.ask (I := Fetching) (.text raw)

/-- What a fetcher returns; `json()` parses the body. -/
structure SafeFetchResponse where
  ok : Bool
  status : JsNumber
  body : JsString

structure SafeFetchOptions where
  allowOrigins : List JsString := []
  firstPartyOrigin : Option JsString := none
  timeoutMs : Option JsNumber := none
  maxBytes : Option JsNumber := none
  maxRedirects : Option Nat := none

def defaultTimeoutMs : JsNumber := .ofNat 5000
def defaultMaxBytes : JsNumber := .ofNat 1048576
def defaultMaxRedirects : Nat := 3
def redirectStatuses : List JsNumber := [301, 302, 303, 307, 308].map .ofNat

/-- The policy of every hop. -/
structure HopConfig where
  timeoutMs : JsNumber
  maxBytes : JsNumber
  trustedOrigins : List JsString

section Code

variable (runtime : Runtime) (parser : UrlParser)

def safeFetchError (message : JsString) : Error := .error (js "safe-fetch: " ++ message)

def assertHttpsUrl (raw : JsString) : Except Error JsString :=
  match parser.parse raw with
  | none => .error (safeFetchError (js "invalid URL \"" ++ raw ++ js "\""))
  | some url =>
    if url.protocol ≠ js "https:" then
      .error (safeFetchError (js "only https is allowed (got \"" ++ url.protocol ++ js "\")"))
    else .ok url.href

/-- The first address that is not public. -/
def refusedAddress (addresses : List DnsAddress) : Option DnsAddress :=
  addresses.find? fun candidate => isBlockedAddress runtime.toNumber candidate.address

/-- The address to connect to, if all of them may be. -/
def pin (hostname : JsString) (addresses : List DnsAddress) : Except Error DnsAddress :=
  match addresses with
  | [] => .error (safeFetchError (js "DNS lookup for \"" ++ hostname ++
      js "\" returned no addresses"))
  | first :: _ =>
    match refusedAddress runtime addresses with
    | some candidate => .error (safeFetchError (js "refusing non-public address " ++
        candidate.address ++ js " for host \"" ++ hostname ++ js "\""))
    | none => .ok first

def resolveAndPin (hostname : JsString) : Async Fetching DnsAddress := do
  let addresses ← lookup hostname
  Async.ofExcept (pin runtime hostname addresses)

def nextRedirectUrl (currentUrl : JsString) (raw : RawResponse) : Except Error JsString :=
  match raw.headers (js "location") with
  | none | some [] => .error (safeFetchError (runtime.numbers.text raw.status ++
      js " redirect without a Location header"))
  | some location =>
    match parser.resolve location currentUrl with
    | none => .error (safeFetchError (js "redirect location is not a valid URL \"" ++
        location ++ js "\""))
    | some target =>
      if target.protocol ≠ js "https:" then
        .error (safeFetchError (js "redirect to non-https target \"" ++ target.protocol ++
          js "\" blocked"))
      else
        match parser.parse currentUrl with
        | none => .error (.typeError (js "Invalid URL"))
        | some current =>
          if target.origin ≠ current.origin then
            .error (safeFetchError (js "cross-origin redirect blocked (" ++ current.origin ++
              js " → " ++ target.origin ++ js ")"))
          else .ok target.href

/-- `Number(raw.headers.get(name))`. -/
def headerNumber (raw : RawResponse) (name : JsString) : JsNumber :=
  match raw.headers name with
  | none => .ofNat 0
  | some value => runtime.toNumber value

/-- `Buffer.byteLength(body, 'utf8')`. -/
def byteLength (body : JsString) : JsNumber := .ofNat (encodeUtf8 body).length

def finalizeBody (raw : RawResponse) (maxBytes : JsNumber) (body : JsString) :
    Except Error SafeFetchResponse :=
  if maxBytes.lt (byteLength body) then
    .error (safeFetchError (js "response body exceeds size cap " ++
      runtime.numbers.text maxBytes))
  else .ok { ok := JsNumber.le (.ofNat 200) raw.status && raw.status.ltInt 300
             status := raw.status
             body }

def finalize (raw : RawResponse) (maxBytes : JsNumber) : Async Fetching SafeFetchResponse :=
  let declared := headerNumber runtime raw (js "content-length")
  if declared.isFinite && maxBytes.lt declared then
    throw (safeFetchError (js "declared content-length " ++ runtime.numbers.text declared ++
      js " exceeds cap " ++ runtime.numbers.text maxBytes))
  else do
    let body ← readText raw
    Async.ofExcept (finalizeBody runtime raw maxBytes body)

/-- The signal `withTimeout` hands to the transport. -/
def timeoutSignal (hostname : JsString) (timeoutMs : JsNumber) : AbortSignal where
  timeoutMs := timeoutMs
  reason := safeFetchError (js "request to " ++ hostname ++ js " timed out after " ++
    runtime.numbers.text timeoutMs ++ js "ms")

/-- One hop: plain to an origin of the caller's own, else to a screened address. -/
def requestOnce (url : JsString) (cfg : HopConfig) : Async Fetching RawResponse :=
  match parser.parse url with
  | none => throw (.typeError (js "Invalid URL"))
  | some parsed =>
    let signal := timeoutSignal runtime parsed.hostname cfg.timeoutMs
    if parsed.origin ∈ cfg.trustedOrigins then
      transport .plain url
        { signal, hostname := parsed.hostname, pinnedAddress := [], family := 4,
          maxBytes := cfg.maxBytes }
    else do
      let pinned ← resolveAndPin runtime parsed.hostname
      transport .configured url
        { signal, hostname := parsed.hostname, pinnedAddress := pinned.address,
          family := pinned.family, maxBytes := cfg.maxBytes }

/-- The hops from one on, with the redirects that may still be followed. -/
def followHops (cfg : HopConfig) (maxRedirects : Nat) :
    Nat → JsString → Async Fetching SafeFetchResponse
  | left, url => do
    let raw ← requestOnce runtime parser url cfg
    if raw.status ∉ redirectStatuses then finalize runtime raw cfg.maxBytes
    else
      match left with
      | 0 => throw (safeFetchError (js "too many redirects (> " ++
          js (Nat.repr maxRedirects) ++ js ")"))
      | left + 1 => do
        let next ← Async.ofExcept (nextRedirectUrl runtime parser url raw)
        followHops cfg maxRedirects left next

/-- The https origin a first-party entry names. -/
def trustedOrigin (entry : JsString) : Except Error JsString :=
  match parser.parse entry with
  | none => .error (safeFetchError (js "invalid first-party origin \"" ++ entry ++ js "\""))
  | some url =>
    if url.protocol ≠ js "https:" then
      .error (safeFetchError (js "first-party origin must be https (got \"" ++ entry ++ js "\")"))
    else .ok url.origin

/-- The entries that are configured; an empty `firstPartyOrigin` is none. -/
def firstPartyEntries (options : SafeFetchOptions) : List JsString :=
  options.allowOrigins ++ (options.firstPartyOrigin.filter (· ≠ [])).toList

def normalizeTrustedOrigins (options : SafeFetchOptions) : Except Error (List JsString) :=
  (firstPartyEntries options).mapM (trustedOrigin parser)

def safeFetch (cfg : HopConfig) (maxRedirects : Nat) (initialUrl : JsString) :
    Async Fetching SafeFetchResponse := do
  let url ← Async.ofExcept (assertHttpsUrl parser initialUrl)
  followHops runtime parser cfg maxRedirects maxRedirects url

def createSafeFetch (options : SafeFetchOptions) :
    Except Error (JsString → Async Fetching SafeFetchResponse) := do
  let trustedOrigins ← normalizeTrustedOrigins parser options
  let cfg : HopConfig :=
    { timeoutMs := options.timeoutMs.getD defaultTimeoutMs
      maxBytes := options.maxBytes.getD defaultMaxBytes
      trustedOrigins }
  return safeFetch runtime parser cfg (options.maxRedirects.getD defaultMaxRedirects)

end Code

section Screening

variable {runtime : Runtime} {parser : UrlParser} {options : SafeFetchOptions}
  {origin url : JsString} {log : List (Exchange Fetching)} {kind : TransportKind}
  {init : TransportInit}

def isTransport (exchange : Exchange Fetching) : Bool :=
  match exchange.request with
  | .transport _ _ _ => true
  | _ => false

/-- The transport requests made so far. -/
def transports (log : List (Exchange Fetching)) : Nat := log.countP isTransport

/-- The caller configured the origin as its own. -/
def FirstParty (parser : UrlParser) (options : SafeFetchOptions) (origin : JsString) : Prop :=
  ∃ entry ∈ firstPartyEntries options, ∃ url, parser.parse entry = some url ∧
    url.protocol = js "https:" ∧ url.origin = origin

/-- An https URL of one origin. -/
def HttpsOf (parser : UrlParser) (origin url : JsString) : Prop :=
  ∃ parsed, parser.parse url = some parsed ∧ parsed.protocol = js "https:" ∧
    parsed.origin = origin

/-- The last answer is a lookup of the host, made for this request, with public addresses
only, and the connection is pinned to one of them. -/
def Pinned (runtime : Runtime) (log : List (Exchange Fetching)) (hostname : JsString)
    (init : TransportInit) : Prop :=
  ∃ before addresses, log = before ++ [⟨.lookup hostname, .ok addresses⟩] ∧
    (∃ a ∈ addresses, init.pinnedAddress = a.address ∧ init.family = a.family) ∧
    ∀ a ∈ addresses, isBlockedAddress runtime.toNumber a.address = false

/-- What a fetcher may ask a transport for, after `log`. -/
structure Screened (runtime : Runtime) (parser : UrlParser) (trusted : JsString → Prop)
    (origin : JsString) (log : List (Exchange Fetching)) (kind : TransportKind)
    (url : JsString) (init : TransportInit) : Prop where
  https : HttpsOf parser origin url
  guarded : (trusted origin ∧ kind = .plain) ∨
    (¬ trusted origin ∧ kind = .configured ∧ ∃ parsed, parser.parse url = some parsed ∧
      Pinned runtime log parsed.hostname init)

theorem Screened.append {trusted : JsString → Prop} {first : List (Exchange Fetching)}
    (h : Screened runtime parser trusted origin log kind url init) :
    Screened runtime parser trusted origin (first ++ log) kind url init := by
  refine ⟨h.https, ?_⟩
  obtain hplain | ⟨huntrusted, hkind, parsed, hparsed, before, addresses, rfl, hpinned⟩ := h.guarded
  · exact .inl hplain
  · exact .inr ⟨huntrusted, hkind, parsed, hparsed, first ++ before, addresses,
      (List.append_assoc _ _ _).symm, hpinned⟩

theorem pin_ok {hostname : JsString} {addresses : List DnsAddress} {pinned : DnsAddress}
    (h : pin runtime hostname addresses = .ok pinned) :
    pinned ∈ addresses ∧ ∀ a ∈ addresses, isBlockedAddress runtime.toNumber a.address = false := by
  cases addresses with
  | nil => cases h
  | cons first rest =>
      simp only [pin] at h
      split at h
      · cases h
      · rename_i hnone
        cases h
        refine ⟨List.mem_cons_self, ?_⟩
        intro a ha
        simpa using List.find?_eq_none.mp hnone a ha

theorem asks_resolveAndPin {hostname : JsString} :
    ¬ (resolveAndPin runtime hostname).Asks log (.transport kind url init) := by
  intro h
  obtain hlookup | ⟨_, _, _, _, _, hrest⟩ := asks_bind.mp h
  · obtain ⟨-, heq⟩ := asks_ask.mp hlookup
    cases heq
  · exact not_asks_done hrest

theorem runs_resolveAndPin {hostname : JsString} {pinned : DnsAddress}
    (h : (resolveAndPin runtime hostname).Runs log (.ok pinned)) :
    ∃ addresses, log = [⟨.lookup hostname, .ok addresses⟩] ∧ pinned ∈ addresses ∧
      ∀ a ∈ addresses, isBlockedAddress runtime.toNumber a.address = false := by
  obtain ⟨first, rest, addresses, rfl, hlookup, hpin⟩ := runs_bind_ok.mp h
  obtain rfl := runs_ask.mp hlookup
  obtain ⟨rfl, hresult⟩ := runs_ofExcept.mp hpin
  exact ⟨addresses, rfl, pin_ok hresult.symm⟩

section Hop

variable {cfg : HopConfig}

theorem asks_requestOnce (hurl : HttpsOf parser origin url) {request : JsString}
    (h : (requestOnce runtime parser url cfg).Asks log (.transport kind request init)) :
    Screened runtime parser (· ∈ cfg.trustedOrigins) origin log kind request init ∧
      transports log = 0 := by
  obtain ⟨parsed, hparsed, hhttps, rfl⟩ := hurl
  simp only [requestOnce, hparsed] at h
  split at h
  · rename_i htrusted
    obtain ⟨rfl, heq⟩ := asks_ask.mp h
    cases heq
    exact ⟨⟨⟨parsed, hparsed, hhttps, rfl⟩, .inl ⟨htrusted, rfl⟩⟩, rfl⟩
  · rename_i huntrusted
    obtain hpin | ⟨first, rest, pinned, rfl, hruns, hask⟩ := asks_bind.mp h
    · exact absurd hpin asks_resolveAndPin
    · obtain ⟨addresses, rfl, hmem, hpublic⟩ := runs_resolveAndPin hruns
      obtain ⟨rfl, heq⟩ := asks_ask.mp hask
      cases heq
      refine ⟨⟨⟨parsed, hparsed, hhttps, rfl⟩, .inr ⟨huntrusted, rfl, parsed, hparsed, ?_⟩⟩, rfl⟩
      exact ⟨[], addresses, rfl, ⟨pinned, hmem, rfl, rfl⟩, hpublic⟩

theorem runs_requestOnce {raw : RawResponse}
    (h : (requestOnce runtime parser url cfg).Runs log (.ok raw)) : transports log = 1 := by
  unfold requestOnce at h
  split at h
  · obtain ⟨-, hresult⟩ := runs_throw.mp h
    cases hresult
  · dsimp only at h
    split at h
    · obtain rfl := runs_ask.mp h
      rfl
    · obtain ⟨first, rest, pinned, rfl, hpin, hask⟩ := runs_bind_ok.mp h
      obtain ⟨addresses, rfl, -⟩ := runs_resolveAndPin hpin
      obtain rfl := runs_ask.mp hask
      rfl

theorem not_asks_finalize {raw : RawResponse} {maxBytes : JsNumber} :
    ¬ (finalize runtime raw maxBytes).Asks log (.transport kind url init) := by
  intro h
  simp only [finalize] at h
  split at h
  · exact not_asks_done h
  · obtain hread | ⟨_, _, _, _, _, hrest⟩ := asks_bind.mp h
    · obtain ⟨-, heq⟩ := asks_ask.mp hread
      cases heq
    · exact not_asks_done hrest

theorem runs_finalize {raw : RawResponse} {maxBytes : JsNumber} {response : SafeFetchResponse}
    (h : (finalize runtime raw maxBytes).Runs log (.ok response)) :
    maxBytes.lt (byteLength response.body) = false := by
  simp only [finalize] at h
  split at h
  · obtain ⟨-, hresult⟩ := runs_throw.mp h
    cases hresult
  · obtain ⟨_, _, body, -, -, hrest⟩ := runs_bind_ok.mp h
    obtain ⟨-, hresult⟩ := runs_ofExcept.mp hrest
    simp only [finalizeBody] at hresult
    split at hresult
    · cases hresult
    · rename_i hsize
      cases hresult
      simpa using hsize

theorem nextRedirectUrl_ok (hserial : parser.Serializes) {raw : RawResponse} {next : JsString}
    (hurl : HttpsOf parser origin url)
    (h : nextRedirectUrl runtime parser url raw = .ok next) : HttpsOf parser origin next := by
  obtain ⟨current, hcurrent, -, rfl⟩ := hurl
  unfold nextRedirectUrl at h
  split at h
  · cases h
  · cases h
  · split at h
    · cases h
    · rename_i target htarget
      split at h
      · cases h
      · rename_i hhttps
        rw [not_not] at hhttps
        simp only [hcurrent] at h
        split at h
        · cases h
        · rename_i hsame
          cases h
          exact ⟨target, hserial.resolve htarget hhttps, hhttps, not_not.mp hsame⟩

/-- Every request of the loop is screened, and no more are made than redirects are left. -/
theorem asks_followHops (hserial : parser.Serializes) {maxRedirects left : Nat}
    (hurl : HttpsOf parser origin url) {request : JsString}
    (h : (followHops runtime parser cfg maxRedirects left url).Asks log
      (.transport kind request init)) :
    Screened runtime parser (· ∈ cfg.trustedOrigins) origin log kind request init ∧
      transports log ≤ left := by
  induction left generalizing url log with
  | zero =>
      unfold followHops at h
      obtain hhop | ⟨first, rest, raw, rfl, -, hrest⟩ := asks_bind.mp h
      · obtain ⟨hscreened, hnone⟩ := asks_requestOnce hurl hhop
        exact ⟨hscreened, by omega⟩
      · split at hrest
        · exact absurd hrest not_asks_finalize
        · exact absurd hrest not_asks_done
  | succ left ih =>
      unfold followHops at h
      obtain hhop | ⟨first, rest, raw, rfl, hruns, hrest⟩ := asks_bind.mp h
      · obtain ⟨hscreened, hnone⟩ := asks_requestOnce hurl hhop
        exact ⟨hscreened, by omega⟩
      · have hone := runs_requestOnce hruns
        split at hrest
        · exact absurd hrest not_asks_finalize
        · cases hnext : nextRedirectUrl runtime parser url raw with
          | error e =>
              rw [hnext] at hrest
              exact absurd hrest not_asks_done
          | ok next =>
              rw [hnext] at hrest
              obtain ⟨hscreened, hcount⟩ := ih (nextRedirectUrl_ok hserial hurl hnext) hrest
              refine ⟨hscreened.append, ?_⟩
              rw [transports, List.countP_append]
              rw [transports] at hone hcount
              omega

theorem runs_followHops {maxRedirects left : Nat} {response : SafeFetchResponse}
    (h : (followHops runtime parser cfg maxRedirects left url).Runs log (.ok response)) :
    cfg.maxBytes.lt (byteLength response.body) = false := by
  induction left generalizing url log with
  | zero =>
      unfold followHops at h
      obtain ⟨_, _, raw, -, -, hrest⟩ := runs_bind_ok.mp h
      split at hrest
      · exact runs_finalize hrest
      · obtain ⟨-, hresult⟩ := runs_throw.mp hrest
        cases hresult
  | succ left ih =>
      unfold followHops at h
      obtain ⟨_, _, raw, -, -, hrest⟩ := runs_bind_ok.mp h
      split at hrest
      · exact runs_finalize hrest
      · obtain ⟨_, _, next, -, -, hnext⟩ := runs_bind_ok.mp hrest
        exact ih hnext

end Hop

theorem trustedOrigin_ok {entry : JsString} (h : trustedOrigin parser entry = .ok origin) :
    HttpsOf parser origin entry := by
  unfold trustedOrigin at h
  split at h
  · cases h
  · rename_i parsed hparsed
    split at h
    · cases h
    · rename_i hhttps
      cases h
      exact ⟨parsed, hparsed, not_not.mp hhttps, rfl⟩

/-- The trusted origins are those of the caller's entries. -/
theorem mem_normalizeTrustedOrigins {trusted : List JsString}
    (h : normalizeTrustedOrigins parser options = .ok trusted) :
    origin ∈ trusted ↔ FirstParty parser options origin := by
  constructor
  · intro hmem
    obtain ⟨entry, hentry, horigin⟩ := exists_of_mapM_eq_ok h hmem
    exact ⟨entry, hentry, trustedOrigin_ok horigin⟩
  · rintro ⟨entry, hentry, parsed, hparsed, -, rfl⟩
    obtain ⟨origin, hmem, horigin⟩ := exists_mem_of_mapM_eq_ok h hentry
    obtain ⟨parsed', hparsed', -, rfl⟩ := trustedOrigin_ok horigin
    rw [hparsed] at hparsed'
    cases hparsed'
    exact hmem

theorem assertHttpsUrl_ok (hserial : parser.Serializes) {raw : JsString}
    (h : assertHttpsUrl parser raw = .ok url) :
    ∃ first, parser.parse raw = some first ∧ HttpsOf parser first.origin url := by
  unfold assertHttpsUrl at h
  split at h
  · cases h
  · rename_i first hfirst
    split at h
    · cases h
    · rename_i hhttps
      cases h
      have hhttps := not_not.mp hhttps
      exact ⟨first, hfirst, first, hserial.parse hfirst hhttps, hhttps, rfl⟩

/-- What holds of everything a fetcher asks for and returns. -/
structure FetchesScreened (runtime : Runtime) (parser : UrlParser) (options : SafeFetchOptions)
    (initialUrl : JsString) (p : Async Fetching SafeFetchResponse) : Prop where
  hops : ∀ {log kind url init}, p.Asks log (.transport kind url init) →
    ∃ first, parser.parse initialUrl = some first ∧
      Screened runtime parser (FirstParty parser options) first.origin log kind url init ∧
      transports log + 1 ≤ options.maxRedirects.getD defaultMaxRedirects + 1
  body : ∀ {log response}, p.Runs log (.ok response) →
    (options.maxBytes.getD defaultMaxBytes).lt (byteLength response.body) = false

/-- Every hop of a fetcher is screened, whatever the resolver and the servers answer. -/
theorem createSafeFetch_screens (hserial : parser.Serializes)
    {fetcher : JsString → Async Fetching SafeFetchResponse}
    (hcreate : createSafeFetch runtime parser options = .ok fetcher) (initialUrl : JsString) :
    FetchesScreened runtime parser options initialUrl (fetcher initialUrl) := by
  obtain ⟨trusted, htrusted, hfetcher⟩ := bind_eq_ok.mp hcreate
  cases hfetcher
  constructor
  · intro log kind url init hasks
    unfold safeFetch at hasks
    cases hstart : assertHttpsUrl parser initialUrl with
    | error e =>
        rw [hstart] at hasks
        exact absurd hasks not_asks_done
    | ok start =>
        rw [hstart] at hasks
        obtain ⟨first, hfirst, hurl⟩ := assertHttpsUrl_ok hserial hstart
        obtain ⟨hscreened, hcount⟩ := asks_followHops hserial hurl hasks
        refine ⟨first, hfirst, ⟨hscreened.https, ?_⟩, by omega⟩
        simpa only [mem_normalizeTrustedOrigins htrusted] using hscreened.guarded
  · intro log response hruns
    obtain ⟨_, _, start, -, -, hrest⟩ := runs_bind_ok.mp hruns
    exact runs_followHops hrest

end Screening

/-- The parser on two URLs of one host. -/
def sampleUrl (path : JsString) : Url where
  href := js "https://a.example" ++ path
  protocol := js "https:"
  hostname := js "a.example"
  origin := js "https://a.example"

def sampleParser : UrlParser where
  parse raw := [sampleUrl (js "/"), sampleUrl (js "/card")].find? (·.href = raw)
  resolve raw _ := [sampleUrl (js "/"), sampleUrl (js "/card")].find? fun url =>
    js "https://a.example" ++ raw = url.href

theorem sampleParser_serializes : sampleParser.Serializes := by
  have hfound : ∀ url ∈ [sampleUrl (js "/"), sampleUrl (js "/card")],
      sampleParser.parse url.href = some url := by decide +kernel
  constructor
  · intro raw url (h : List.find? _ _ = some url) _
    exact hfound url (List.mem_of_find?_eq_some h)
  · intro raw base url (h : List.find? _ _ = some url) _
    exact hfound url (List.mem_of_find?_eq_some h)

/-- The fetcher of the defaults. -/
def sampleFetcher : JsString → Async Fetching SafeFetchResponse :=
  safeFetch sampleRuntime sampleParser
    { timeoutMs := defaultTimeoutMs, maxBytes := defaultMaxBytes, trustedOrigins := [] } 3

theorem createSafeFetch_screens_sample :
    FetchesScreened sampleRuntime sampleParser {} (js "https://a.example/")
      (sampleFetcher (js "https://a.example/")) :=
  createSafeFetch_screens sampleParser_serializes rfl _

end KyaOs
