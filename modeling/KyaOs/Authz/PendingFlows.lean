import KyaOs.Utils.Base64
import KyaOs.Utils.TtlCache
import KyaOs.Utils.Untyped
import Mathlib.Data.Rat.Floor
import Mathlib.Logic.Function.Basic

/-!
# Authorization flows over OIDC

`GenericOidcAdapter` over `MemoryPendingFlowStore`. Each action runs one call from one `await` to
the next; the random bytes, what the clock shows and what the token endpoint answers come with
the action.
-/

namespace KyaOs.Oidc

open Js

structure PendingFlow where
  agentDid : JsString
  scopes : List JsString
  state : JsString
  codeVerifier : JsString
  redirectUri : JsString
  deriving DecidableEq

structure PendingEntry where
  flow : PendingFlow
  expiresAt : JsNumber
  deriving DecidableEq

def PendingEntry.expired (entry : PendingEntry) (now : ℚ) : Bool :=
  entry.expiresAt.le (.finite now)

/-- Writes between sweeps. -/
def sweepEvery : Nat := 1000

def sweepIntervalMs : ℚ := 60000

structure MemoryPendingFlowStore where
  pending : List (JsString × PendingEntry) := []
  writesSinceSweep : Nat := 0
  lastSweepAt : ℚ

namespace MemoryPendingFlowStore

variable (store : MemoryPendingFlowStore) (now : ℚ)

def delete (token : JsString) : MemoryPendingFlowStore :=
  { store with pending := withoutKeys store.pending (· = token) }

def evictExpired : MemoryPendingFlowStore :=
  { store with pending := store.pending.filter fun member => !member.2.expired now }

def put (token : JsString) (flow : PendingFlow) (ttlMs : JsNumber) : MemoryPendingFlowStore :=
  let pending := assignMember token ⟨flow, TtlCache.expiry now ttlMs⟩ store.pending
  if sweepEvery ≤ store.writesSinceSweep + 1 ∨ sweepIntervalMs ≤ now - store.lastSweepAt then
    evictExpired { pending, writesSinceSweep := 0, lastSweepAt := now } now
  else { store with pending, writesSinceSweep := store.writesSinceSweep + 1 }

/-- The flow under a token, which stays. -/
def get (token : JsString) : Option PendingFlow × MemoryPendingFlowStore :=
  match store.pending.lookup token with
  | none => (none, store)
  | some entry => if entry.expired now then (none, store.delete token) else (some entry.flow, store)

/-- The flow under a token, which goes. -/
def consume (token : JsString) : Option PendingFlow × MemoryPendingFlowStore :=
  match store.pending.lookup token with
  | none => (none, store)
  | some entry =>
    (if entry.expired now then none else some entry.flow, store.delete token)

end MemoryPendingFlowStore

structure GenericOidcAdapterConfig where
  authorizationEndpoint : JsString
  tokenEndpoint : JsString
  clientId : JsString
  scopes : List JsString
  resource : Option JsString := none
  clientSecret : Option JsString := none
  resumeTokenTtlMs : Option JsNumber := none

/-- What the adapter takes from its runtime. -/
structure OidcPlatform where
  numbers : Doubles JsNumber
  sha256 : List UInt8 → List UInt8
  /-- `new URL(endpoint)` as a text, with each search parameter set. -/
  urlWithParams : JsString → List (JsString × JsString) → Except Error JsString

structure FlowParams where
  toolName : JsString
  /-- Those of an `oauth` requirement. -/
  requiredScopes : Option (List JsString)
  agentDid : JsString
  redirectUri : JsString
  state : JsString

/-- What is posted to the token endpoint, its search parameters not yet serialized. -/
structure TokenRequest where
  url : JsString
  params : List (JsString × JsString)
  deriving DecidableEq

structure TokenResponse where
  status : Nat
  json : Except Error (JsonValue JsNumber)

/-- `response.ok`. -/
def TokenResponse.ok (response : TokenResponse) : Bool :=
  200 ≤ response.status && response.status ≤ 299

structure OidcCredential where
  agentDid : JsString
  userDid : JsString := []
  scopes : List JsString
  authorizationType : JsString := js "oauth"
  provider : JsString := js "generic-oidc"
  deriving DecidableEq

structure VerifyDelegationResult where
  valid : Bool
  reason : Option JsString := none
  credential : Option OidcCredential := none
  deriving DecidableEq

def invalid (reason : JsString) : VerifyDelegationResult where
  valid := false
  reason := some reason

def randomToken (bytes : List UInt8) : JsString := base64urlEncodeFromBytes bytes

/-- `[...new Set(values)]`. -/
def unique : List JsString → List JsString
  | [] => []
  | value :: rest => value :: (unique rest).filter (· ≠ value)

/-- A text as `URLSearchParams` holds it. -/
def usvString (text : JsString) : JsString := (codePoints text).flatMap units

/-- `(error as Error).message`, in a template. -/
def messageText : Error → JsString
  | .error message | .typeError message | .rangeError message => message
  | .nonError => js "undefined"

/-- Why a body is no successful token response. -/
def tokenResponseProblem (body : JsonValue JsNumber) : Option JsString :=
  match body with
  | .object members =>
    if (members.lookup (js "error")).isSome then some (js "token endpoint returned an OAuth error")
    else
      match members.lookup (js "access_token") with
      | some (.string (_ :: _)) => none
      | _ => some (js "token response has no access_token")
  | _ => some (js "token response is not a JSON object")

def textOf : JsonValue JsNumber → Option JsString
  | .string text => some text
  | _ => none

/-- The scopes that a token response grants. -/
def grantedScopesOf (scope : Untyped) (requested : List JsString) : Option (List JsString) :=
  match scope with
  | none => some requested
  | some (.string text) => some ((text.splitOnP isWhiteSpace).filter (· ≠ []))
  | some (.array items) => items.mapM textOf
  | some _ => none

/-- `verifyAuthorization` from the answer on. -/
def granted (pending : PendingFlow) (answer : Except Error TokenResponse) :
    VerifyDelegationResult :=
  match answer with
  | .error error => invalid (js "token exchange failed: " ++ messageText error)
  | .ok response =>
    if !response.ok then
      invalid (js "token endpoint returned " ++ js (toString response.status))
    else
      match response.json with
      | .error error => invalid (js "token exchange failed: " ++ messageText error)
      | .ok body =>
        match tokenResponseProblem body with
        | some problem => invalid problem
        | none =>
          match grantedScopesOf (Untyped.member? (some body) (js "scope")) pending.scopes with
          | none =>
            invalid (js "token response scope is neither a string nor a list of strings")
          | some scopes =>
            { valid := true, credential := some { agentDid := pending.agentDid, scopes } }

namespace GenericOidcAdapterConfig

variable (config : GenericOidcAdapterConfig) (platform : OidcPlatform)

def ttlMs : JsNumber := config.resumeTokenTtlMs.getD (.ofNat 600000)

def flowScopes (params : FlowParams) : List JsString :=
  unique (config.scopes ++ params.requiredScopes.getD config.scopes)

/-- What `initiateFlow` stores. -/
def pendingFlow (params : FlowParams) (codeVerifier : JsString) : PendingFlow where
  agentDid := params.agentDid
  scopes := config.flowScopes params
  state := params.state
  codeVerifier := codeVerifier
  redirectUri := params.redirectUri

def computeS256Challenge (codeVerifier : JsString) : JsString :=
  base64urlEncodeFromBytes (platform.sha256 (encodeUtf8 codeVerifier))

def buildAuthorizeUrl (flow : PendingFlow) : Except Error JsString :=
  platform.urlWithParams config.authorizationEndpoint
    ([(js "response_type", js "code"), (js "client_id", config.clientId),
      (js "redirect_uri", flow.redirectUri), (js "scope", (js " ").intercalate flow.scopes),
      (js "state", flow.state),
      (js "code_challenge", computeS256Challenge platform flow.codeVerifier),
      (js "code_challenge_method", js "S256")] ++
      (config.resource.map fun resource => (js "resource", resource)).toList)

/-- `Math.floor(ms / 1000)`. -/
def seconds : JsNumber → JsNumber
  | .finite ms => .finite ⌊ms / 1000⌋
  | ms => ms

/-- What `initiateFlow` returns. -/
def needsAuthorizationError (toolName resumeToken : JsString) (flow : PendingFlow) (now : ℚ) :
    Except Error (JsonValue JsNumber) := do
  let authorizationUrl ← config.buildAuthorizeUrl platform flow
  return .object [(js "error", .string (js "needs_authorization")),
    (js "message", .string (js "Authorization required for \"" ++ toolName ++ js "\".")),
    (js "authorizationUrl", .string authorizationUrl),
    (js "resumeToken", .string resumeToken),
    (js "expiresAt", .number (seconds (TtlCache.expiry now config.ttlMs))),
    (js "scopes", .array (flow.scopes.map .string))]

/-- A configured text that is sent unless it is empty. -/
def optionalParam (name : String) : Option JsString → List (JsString × JsString)
  | some (unit :: units) => [(js name, usvString (unit :: units))]
  | _ => []

def tokenRequest (pending : PendingFlow) (code : JsString) : TokenRequest where
  url := config.tokenEndpoint
  params := [(js "grant_type", js "authorization_code"), (js "code", usvString code),
    (js "redirect_uri", usvString pending.redirectUri),
    (js "client_id", usvString config.clientId),
    (js "code_verifier", usvString pending.codeVerifier)] ++
    optionalParam "resource" config.resource ++ optionalParam "client_secret" config.clientSecret

/-- `verifyAuthorization` from the consumed flow to the request. -/
def present (pending : Option PendingFlow) (result : Untyped) :
    Except Error (VerifyDelegationResult ⊕ PendingFlow × TokenRequest) :=
  match pending with
  | none => .ok (.inl (invalid (js "unknown or expired resume token")))
  | some pending =>
    let code := result.member? (js "code")
    if !code.truthy then .ok (.inl (invalid (js "missing authorization code")))
    else if !(result.member? (js "state")).isString pending.state then
      .ok (.inl (invalid (js "state mismatch")))
    else
      match code with
      | none => .ok (.inl (invalid (js "missing authorization code")))
      | some code => do
        return .inr (pending, config.tokenRequest pending (← code.toText platform.numbers))

end GenericOidcAdapterConfig

/-- How far a call has come. -/
inductive OidcPhase where
  /-- It waits for the code challenge. -/
  | challenging (params : FlowParams) (codeVerifier : JsString)
  | stored (params : FlowParams) (flow : PendingFlow) (resumeToken : JsString)
  | initiated (challenge : Except Error (JsonValue JsNumber))
  | consumed (resumeToken : JsString) (pending : Option PendingFlow) (result : Untyped)
  /-- It waits for the token endpoint. -/
  | exchanging (pending : PendingFlow)
  | verified (result : Except Error VerifyDelegationResult)

/-- What happened to resume tokens. -/
inductive OidcEvent where
  | stored (resumeToken : JsString) (entry : PendingEntry)
  | consumed (call : Nat) (resumeToken : JsString) (pending : PendingFlow) (now : ℚ)
  | requested (call : Nat) (resumeToken : JsString) (result : Untyped) (request : TokenRequest)
  | answered (call : Nat) (answer : Except Error TokenResponse)
  | credited (call : Nat) (credential : OidcCredential)

/-- The store and the calls of one adapter; no operation reads the events, latest first. -/
structure OidcWorld where
  store : MemoryPendingFlowStore
  calls : Nat → Option OidcPhase := fun _ => none
  events : List OidcEvent := []

/-- What a call, or whoever holds the store, does next. -/
inductive OidcAction where
  | initiateFlow (call : Nat) (params : FlowParams) (bytes : List UInt8)
  | put (call : Nat) (bytes : List UInt8) (now : ℚ)
  | challenge (call : Nat) (now : ℚ)
  | verifyAuthorization (call : Nat) (flowState : JsString) (result : Untyped) (now : ℚ)
  | present (call : Nat)
  | answer (call : Nat) (answer : Except Error TokenResponse)
  | pendingVerifierFor (resumeToken : JsString) (now : ℚ)
  | cleanup (now : ℚ)

namespace OidcWorld

variable (config : GenericOidcAdapterConfig) (platform : OidcPlatform) (w : OidcWorld)

def setPhase (call : Nat) (phase : OidcPhase) : OidcWorld :=
  { w with calls := Function.update w.calls call (some phase) }

def put (call : Nat) (params : FlowParams) (codeVerifier resumeToken : JsString) (now : ℚ) :
    OidcWorld :=
  let flow := config.pendingFlow params codeVerifier
  setPhase { w with
    store := w.store.put now resumeToken flow config.ttlMs
    events := .stored resumeToken ⟨flow, TtlCache.expiry now config.ttlMs⟩ :: w.events } call
    (.stored params flow resumeToken)

def consume (call : Nat) (flowState : JsString) (result : Untyped) (now : ℚ) : OidcWorld :=
  match w.store.consume now flowState with
  | (none, store) => setPhase { w with store } call (.consumed flowState none result)
  | (some pending, store) =>
    setPhase { w with store, events := .consumed call flowState pending now :: w.events } call
      (.consumed flowState (some pending) result)

def present (call : Nat) (resumeToken : JsString) (pending : Option PendingFlow)
    (result : Untyped) : OidcWorld :=
  match config.present platform pending result with
  | .error error => w.setPhase call (.verified (.error error))
  | .ok (.inl verified) => w.setPhase call (.verified (.ok verified))
  | .ok (.inr (flow, request)) =>
    setPhase { w with events := .requested call resumeToken result request :: w.events } call
      (.exchanging flow)

def answer (call : Nat) (pending : PendingFlow) (answer : Except Error TokenResponse) :
    OidcWorld :=
  let verified := granted pending answer
  let credited := (verified.credential.map (OidcEvent.credited call)).toList
  setPhase { w with events := credited ++ .answered call answer :: w.events } call
    (.verified (.ok verified))

def act : OidcAction → Option OidcWorld
  | .initiateFlow call params bytes =>
    match w.calls call with
    | none => some (w.setPhase call (.challenging params (randomToken bytes)))
    | some _ => none
  | .put call bytes now =>
    match w.calls call with
    | some (.challenging params codeVerifier) =>
      some (w.put config call params codeVerifier (randomToken bytes) now)
    | _ => none
  | .challenge call now =>
    match w.calls call with
    | some (.stored params flow resumeToken) =>
      some (w.setPhase call (.initiated
        (config.needsAuthorizationError platform params.toolName resumeToken flow now)))
    | _ => none
  | .verifyAuthorization call flowState result now =>
    match w.calls call with
    | none => some (w.consume call flowState result now)
    | some _ => none
  | .present call =>
    match w.calls call with
    | some (.consumed resumeToken pending result) =>
      some (w.present config platform call resumeToken pending result)
    | _ => none
  | .answer call answer =>
    match w.calls call with
    | some (.exchanging pending) => some (w.answer call pending answer)
    | _ => none
  | .pendingVerifierFor resumeToken now =>
    some { w with store := (w.store.get now resumeToken).2 }
  | .cleanup now => some { w with store := w.store.evictExpired now }

end OidcWorld

end KyaOs.Oidc
