import KyaOs.Json.Text
import KyaOs.Utils.Untyped
import Mathlib.Logic.Function.Basic

/-!
# The session manager

`SessionManager` over `MemorySessionStore`. Each action runs one call from one `await` to
the next; what the clock, the nonce cache and the random source answer comes with the action.
A session is an object that the store, the calls and the caller share, so it is kept by the
number of the handshake that made it. Client metadata is left out.
-/

namespace KyaOs.Session

open Js

/-- `sessions`, in the order of insertion, and `insertionOrder`. -/
structure MemorySessionStore where
  sessions : List (JsString × Nat) := []
  insertionOrder : List JsString := []

namespace MemorySessionStore

variable (store : MemorySessionStore)

def ids : List JsString := store.sessions.map Prod.fst

def get (sessionId : JsString) : Option Nat := store.sessions.lookup sessionId

def delete (sessionId : JsString) : MemorySessionStore :=
  { store with sessions := store.sessions.filter fun entry => entry.1 ≠ sessionId }

/-- `evictIfNeeded`, over what is left of `insertionOrder`. -/
def evictFrom (maxSessions : JsNumber) (sessions : List (JsString × Nat)) :
    List JsString → MemorySessionStore
  | [] => { sessions, insertionOrder := [] }
  | oldest :: rest =>
    if maxSessions.le (.ofNat sessions.length) then
      evictFrom maxSessions (sessions.filter fun entry => entry.1 ≠ oldest) rest
    else { sessions, insertionOrder := oldest :: rest }

def evictIfNeeded (maxSessions : JsNumber) : MemorySessionStore :=
  evictFrom maxSessions store.sessions store.insertionOrder

def set (maxSessions : JsNumber) (sessionId : JsString) (session : Nat) : MemorySessionStore :=
  if sessionId ∈ store.ids then
    { store with sessions := store.sessions.map fun entry =>
        if entry.1 = sessionId then (sessionId, session) else entry }
  else
    let evicted := store.evictIfNeeded maxSessions
    { sessions := evicted.sessions ++ [(sessionId, session)]
      insertionOrder := evicted.insertionOrder ++ [sessionId] }

def cleanup : MemorySessionStore :=
  { store with insertionOrder := store.insertionOrder.filter (· ∈ store.ids) }

def clear : MemorySessionStore := {}

end MemorySessionStore

structure SessionContext where
  sessionId : JsString
  audience : JsString
  nonce : JsString
  timestamp : JsNumber
  createdAt : Int
  lastActivity : Int
  ttlMinutes : JsNumber
  identityState : JsString := js "anonymous"
  metaPolicy : JsString
  agentDid : Option JsString
  serverDid : Option JsString

structure SessionConfig where
  runtime : Runtime
  timestampSkewSeconds : JsNumber := .ofNat 120
  sessionTtlMinutes : JsNumber := .ofNat 30
  absoluteSessionLifetime : Option JsNumber := none
  serverDid : Option JsString := none
  metaPolicy : JsString := js "strict"
  maxSessions : JsNumber := .ofNat 10000

structure HandshakeRequest where
  nonce : JsString
  audience : JsString
  timestamp : JsNumber
  agentDid : Option JsString

structure HandshakeError where
  code : JsString
  message : JsString
  remediation : Option JsString := none

section Checks

variable (config : SessionConfig)

/-- `idleTimeSeconds > maxIdleSeconds`. -/
def isIdle (session : SessionContext) (now : Int) : Bool :=
  (session.ttlMinutes.scale 60).ltInt (now - session.lastActivity)

/-- `sessionAgeSeconds > maxAgeSeconds`, when a lifetime is configured. -/
def isOutlived (session : SessionContext) (now : Int) : Bool :=
  match config.absoluteSessionLifetime with
  | some lifetime => (lifetime.scale 60).ltInt (now - session.createdAt)
  | none => false

/-- `Math.abs(now - timestamp)`. -/
def timeDiff (now : Int) : JsNumber → JsNumber
  | .finite timestamp => .finite |(now : ℚ) - timestamp|
  | .infinity _ => .infinity false
  | .nan => .nan

/-- What the handshake's own checks answer, the nonce aside. -/
def refuseHandshake (request : HandshakeRequest) (now : Int) : Option HandshakeError :=
  let text := config.runtime.numbers.text
  let diff := timeDiff now request.timestamp
  if config.timestampSkewSeconds.lt diff then
    some { code := js "handshake_failed"
           message := js "Timestamp outside acceptable range (±" ++
             text config.timestampSkewSeconds ++ js "s)"
           remediation := some (js "Check NTP sync on client and server. Current server time: " ++
             text (.finite now) ++ js ", received: " ++ text request.timestamp ++ js ", diff: " ++
             text diff ++ js "s. Adjust timestampSkewSeconds if needed.") }
  else
    match config.serverDid with
    | none => none
    | some serverDid =>
      if serverDid ≠ [] ∧ request.audience ≠ serverDid then
        some { code := js "handshake_failed"
               message := js "Audience mismatch: expected " ++ serverDid ++ js ", got " ++
                 request.audience }
      else none

def replayedNonce : HandshakeError where
  code := js "nonce_replay"
  message := js "Nonce already used (replay attack prevention)"
  remediation := some (js "Generate a new unique nonce for each request")

def handshakeFailed (error : Error) : HandshakeError where
  code := js "handshake_failed"
  message := js "Handshake validation failed: " ++ error.messageOrUnknown

/-- `generateSessionId`, of sixteen random bytes. -/
def generateSessionId (bytes : List UInt8) : JsString :=
  let bytes := (bytes.modify 6 fun b => (b &&& 0x0f) ||| 0x40).modify 8 fun b =>
    (b &&& 0x3f) ||| 0x80
  let hex := bytes.flatMap fun b => [Json.hexDigit (b.toNat / 16), Json.hexDigit (b.toNat % 16)]
  js "kyaos_" ++ (js "-").intercalate
    [hex.take 8, (hex.drop 8).take 4, (hex.drop 12).take 4, (hex.drop 16).take 4,
      (hex.drop 20).take 12]

/-- The session a handshake makes; `now` is when it started. -/
def newSession (request : HandshakeRequest) (now : Int) (sessionId : JsString) :
    SessionContext where
  sessionId
  audience := request.audience
  nonce := request.nonce
  timestamp := request.timestamp
  createdAt := now
  lastActivity := now
  ttlMinutes := config.sessionTtlMinutes
  metaPolicy := config.metaPolicy
  agentDid := request.agentDid
  serverDid := config.serverDid.filter (· ≠ [])

end Checks

/-- Where a call stands. A flag `late` says that the id was a removed one when the call
started; no code reads it. -/
inductive SessionPhase where
  /-- A handshake, once its own checks have passed. -/
  | checked (request : HandshakeRequest) (now : Int)
  /-- Its nonce is admitted. -/
  | admitted (request : HandshakeRequest) (now : Int)
  /-- It has drawn its session's id. -/
  | named (request : HandshakeRequest) (now : Int) (sessionId : JsString)
  | shaken (result : Except HandshakeError Nat)
  /-- A `getSession`, once the store has answered with a session. -/
  | got (sessionId : JsString) (session : Nat) (late : Bool)
  /-- It read the clock at `now` on the session as it was. -/
  | returned (late : Bool) (now : Int) (read : Option SessionContext) (result : Option Nat)
  /-- A sweep over the entries that are left. -/
  | sweeping (now : Int) (entries : List (JsString × Nat))
  | done

structure SessionWorld where
  objects : Nat → Option SessionContext
  store : MemorySessionStore
  clock : Int
  calls : Nat → Option SessionPhase
  /-- The ids the store held once and dropped. No operation reads it. -/
  removed : List JsString

/-- What a call does next, with the answers it gets there. -/
inductive SessionAction where
  | validateHandshake (call : Nat) (request : HandshakeRequest) (now : Int)
  | admitNonce (call : Nat) (consumed : Except Error Bool)
  | randomBytes (call : Nat) (bytes : Except Error (List UInt8))
  | storeSession (call : Nat)
  | getSession (call : Nat) (sessionId : JsString)
  /-- `getSession` goes on with the session it got. -/
  | checkSession (call : Nat) (now : Int)
  | cleanup (call : Nat) (now : Int)
  /-- The sweep goes on to the next expired session, or to its end. -/
  | sweep (call : Nat)
  | clearSessions (call : Nat)

namespace SessionWorld

def empty : SessionWorld where
  objects _ := none
  store := {}
  clock := 0
  calls _ := none
  removed := []

variable (w : SessionWorld)

def setPhase (call : Nat) (phase : SessionPhase) : SessionWorld :=
  { w with calls := Function.update w.calls call (some phase) }

def setObject (number : Nat) (session : SessionContext) : SessionWorld :=
  { w with objects := Function.update w.objects number (some session) }

/-- The store has changed; what it no longer holds is removed. -/
def setStore (store : MemorySessionStore) : SessionWorld :=
  { w with
    store
    removed := w.removed ++ w.store.ids.filter (· ∉ store.ids) }

/-- The first expired session of a sweep, and the entries after it. -/
def nextExpired (config : SessionConfig) (now : Int) :
    List (JsString × Nat) → Option (JsString × List (JsString × Nat))
  | [] => none
  | (sessionId, number) :: rest =>
    if (w.objects number).any fun session => isIdle session now || isOutlived config session now
    then some (sessionId, rest)
    else nextExpired config now rest

/-- `getSession` after the store has answered. -/
def check (config : SessionConfig) (call : Nat) (sessionId : JsString) (number : Nat)
    (late : Bool) (session : SessionContext) (now : Int) : SessionWorld :=
  if isIdle session now || isOutlived config session now then
    (w.setStore (w.store.delete sessionId)).setPhase call (.returned late now (some session) none)
  else
    ((w.setObject number { session with lastActivity := now }).setStore
      (w.store.set config.maxSessions sessionId number)).setPhase call
        (.returned late now (some session) (some number))

/-- One call runs from one `await` to the next; `none` when it cannot. -/
def act (config : SessionConfig) : SessionAction → Option SessionWorld
  | .validateHandshake call request now =>
      if w.clock ≤ now then
        match w.calls call with
        | none =>
            let phase := match refuseHandshake config request now with
              | some refused => .shaken (.error refused)
              | none => .checked request now
            some ({ w with clock := now }.setPhase call phase)
        | some _ => none
      else none
  | .admitNonce call consumed =>
      match w.calls call with
      | some (.checked request now) =>
          some (w.setPhase call (match consumed with
            | .ok true => .admitted request now
            | .ok false => .shaken (.error replayedNonce)
            | .error error => .shaken (.error (handshakeFailed error))))
      | _ => none
  | .randomBytes call bytes =>
      match w.calls call with
      | some (.admitted request now) =>
          some (w.setPhase call (match bytes with
            | .ok bytes => .named request now (generateSessionId bytes)
            | .error error => .shaken (.error (handshakeFailed error))))
      | _ => none
  | .storeSession call =>
      match w.calls call with
      | some (.named request now sessionId) =>
          some (((w.setObject call (newSession config request now sessionId)).setStore
            (w.store.set config.maxSessions sessionId call)).setPhase call (.shaken (.ok call)))
      | _ => none
  | .getSession call sessionId =>
      match w.calls call with
      | none =>
          let late := decide (sessionId ∈ w.removed)
          some (w.setPhase call (match w.store.get sessionId with
            | none => .returned late w.clock none none
            | some number => .got sessionId number late))
      | some _ => none
  | .checkSession call now =>
      if w.clock ≤ now then
        match w.calls call with
        | some (.got sessionId number late) =>
            (w.objects number).map fun session =>
              { w with clock := now }.check config call sessionId number late session now
        | _ => none
      else none
  | .cleanup call now =>
      if w.clock ≤ now then
        match w.calls call with
        | none => some ({ w with clock := now }.setPhase call (.sweeping now w.store.sessions))
        | some _ => none
      else none
  | .sweep call =>
      match w.calls call with
      | some (.sweeping now entries) =>
          match w.nextExpired config now entries with
          | some (sessionId, rest) =>
              some ((w.setStore (w.store.delete sessionId)).setPhase call (.sweeping now rest))
          | none => some ((w.setStore w.store.cleanup).setPhase call .done)
      | _ => none
  | .clearSessions call =>
      match w.calls call with
      | none => some ((w.setStore MemorySessionStore.clear).setPhase call .done)
      | some _ => none

end SessionWorld

end KyaOs.Session
