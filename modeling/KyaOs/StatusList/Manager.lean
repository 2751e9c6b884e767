import KyaOs.Concurrency.PromiseChain
import KyaOs.Delegation.Registration
import KyaOs.StatusList.Bitstring

/-!
# The status list manager

`StatusList2021Manager` over `MemoryStatusListStorage`. Each action runs one
call from one `await` to the next. What the signer, the clock and the storage
answer comes with the action, so any of them may fail at any time.
-/

namespace KyaOs

open Js

structure StatusListCredential (Proof : Type) where
  context : List JsString
  id : JsString
  type : List JsString
  issuer : JsString
  issuanceDate : JsString
  subjectId : Option JsString
  subjectType : JsString
  /-- `credentialSubject.statusPurpose`, `none` when it is not a string. -/
  statusPurpose : Option JsString
  encodedList : JsString
  proof : Option Proof

inductive StatusPurpose where
  | revocation
  | suspension
  deriving DecidableEq

def StatusPurpose.text : StatusPurpose → JsString
  | .revocation => js "revocation"
  | .suspension => js "suspension"

/-- What a manager is constructed with; the storage and the signing function aside. -/
structure StatusListManager (Proof : Type) where
  codec : GzipCodec
  did : JsString
  keyId : JsString
  canonicalizeJSON : StatusListCredential Proof → Except Error JsString
  statusListBaseUrl : Option JsString := none
  defaultListSize : Option JsNumber := none
  /-- The longest typed array the host makes. -/
  arrayLimit : Nat

/-- `signingFunction(canonicalVC, did, keyId)`. -/
abbrev SigningFunction (Proof : Type) := JsString → JsString → JsString → Except Error Proof

inductive StatusOutcome where
  | updated
  | allocated (purpose : StatusPurpose) (index : Nat) (entry : CredentialStatus)

namespace StatusListManager

variable {Proof : Type} (manager : StatusListManager Proof)

/-- `options?.statusListBaseUrl || 'https://status.example.com'`. -/
def baseUrl : JsString :=
  match manager.statusListBaseUrl with
  | some url => if url = [] then js "https://status.example.com" else url
  | none => js "https://status.example.com"

/-- `options?.defaultListSize || 131072`. -/
def listSize : JsNumber :=
  match manager.defaultListSize with
  | some size => if size.truthy then size else .ofNat 131072
  | none => .ofNat 131072

def statusListId (purpose : StatusPurpose) : JsString :=
  manager.baseUrl ++ js "/" ++ purpose.text ++ js "/v1"

/-- The credential `doUpdateStatus` stores in place of `statusList`. -/
def updatedCredential (sign : SigningFunction Proof) (statusList : StatusListCredential Proof)
    (credentialStatus : CredentialStatus) (revoked : Bool) :
    Except Error (StatusListCredential Proof) := do
  let bitstring ← BitstringManager.decode manager.codec statusList.encodedList
  let index ← parseStatusListIndex credentialStatus.statusListIndex
  let bitstring ← bitstring.setBit index revoked
  let encodedList ← bitstring.encode manager.codec
  let updated := { statusList with encodedList := encodedList }
  let canonicalVC ← manager.canonicalizeJSON { updated with proof := none }
  let proof ← sign canonicalVC manager.did manager.keyId
  return { updated with proof := some proof }

/-- The all-zero list a first use creates, and its capacity in entries. -/
def createdCredential (sign : SigningFunction Proof) (purpose : StatusPurpose)
    (issuanceDate : JsString) : Except Error (StatusListCredential Proof × Nat) := do
  let bits ← newBits manager.arrayLimit manager.listSize
  let encodedList ← encodeStatusListPayload manager.codec bits
  let unsigned : StatusListCredential Proof :=
    { context := [js "https://www.w3.org/2018/credentials/v1",
        js "https://w3id.org/vc/status-list/2021/v1"]
      id := manager.statusListId purpose
      type := [js "VerifiableCredential", js "StatusList2021Credential"]
      issuer := manager.did
      issuanceDate
      subjectId := some (manager.statusListId purpose ++ js "#list")
      subjectType := js "StatusList2021"
      statusPurpose := some purpose.text
      encodedList
      proof := none }
  let canonicalVC ← manager.canonicalizeJSON unsigned
  let proof ← sign canonicalVC manager.did manager.keyId
  return ({ unsigned with proof := some proof }, bits.length * 8)

/-- What `allocateStatusEntry` makes of its index once it knows the capacity. -/
def allocatedEntry (purpose : StatusPurpose) (index capacity : Nat) :
    Except Error StatusOutcome :=
  let statusListId := manager.statusListId purpose
  if index ≥ capacity then
    .error (.error (js "Status list " ++ statusListId ++ js " is full: index " ++
      decimalText index ++ js " is outside its " ++ decimalText capacity ++ js " entries"))
  else
    .ok (.allocated purpose index
      { id := some (statusListId ++ js "#" ++ decimalText index)
        type := js "StatusList2021Entry"
        statusPurpose := purpose.text
        statusListIndex := decimalText index
        statusListCredential := statusListId })

end StatusListManager

/-- A read-modify-write that runs inside a list's lock. -/
inductive StatusTask where
  | update (credentialStatus : CredentialStatus) (revoked : Bool)
  | ensure (purpose : StatusPurpose) (index : Nat)

/-- The list a task works on. -/
def StatusTask.list {Proof : Type} (manager : StatusListManager Proof) : StatusTask → JsString
  | .update credentialStatus _ => credentialStatus.statusListCredential
  | .ensure purpose _ => manager.statusListId purpose

/-- Where a call stands. -/
inductive StatusPhase (Proof : Type) where
  /-- `allocateIndex` has answered. -/
  | allocated (purpose : StatusPurpose) (index : Nat)
  /-- In the list's chain of tasks, behind the task that was last in it. -/
  | queued (task : StatusTask) (previous : Option Nat)
  /-- `getStatusList` has answered. -/
  | loaded (task : StatusTask) (statusList : Option (StatusListCredential Proof))
  /-- The credential to store is signed; with it stored the call ends in `outcome`. -/
  | signed (task : StatusTask) (credential : StatusListCredential Proof)
      (outcome : Except Error StatusOutcome)
  /-- The call has ended; `none` when it never got to its task. -/
  | ended (task : Option StatusTask) (outcome : Except Error StatusOutcome)

structure StatusWorld (Proof : Type) where
  statusLists : JsString → Option (StatusListCredential Proof)
  indexCounters : JsString → Nat
  /-- The call whose operation each list's lock holds. -/
  updateLocks : JsString → Option Nat
  calls : Nat → Option (StatusPhase Proof)
  /-- The tasks in the order their calls took the lock. No operation reads it. -/
  locked : List (Nat × StatusTask)
  /-- The `updateStatus` calls whose `setStatusList` succeeded. No operation reads it. -/
  written : List Nat

/-- What a call does next, with the answers it gets there. -/
inductive StatusAction (Proof : Type) where
  | updateStatus (call : Nat) (credentialStatus : CredentialStatus) (revoked : Bool)
  | allocateStatusEntry (call : Nat) (purpose : StatusPurpose) (storage : Except Error Unit)
  | withListLock (call : Nat)
  | getStatusList (call : Nat) (storage : Except Error Unit)
  | signCredential (call : Nat) (sign : SigningFunction Proof) (now : JsString)
  | setStatusList (call : Nat) (storage : Except Error Unit)

namespace StatusWorld

variable {Proof : Type} (manager : StatusListManager Proof) (w : StatusWorld Proof)

def setPhase (call : Nat) (phase : StatusPhase Proof) : StatusWorld Proof :=
  { w with calls := Function.update w.calls call (some phase) }

/-- `previous.then(task)`, with the task's own promise left behind in the lock. -/
def enterLock (call : Nat) (task : StatusTask) : StatusWorld Proof :=
  { w with
    updateLocks := Function.update w.updateLocks (task.list manager) (some call)
    calls := Function.update w.calls call
      (some (.queued task (w.updateLocks (task.list manager))))
    locked := w.locked ++ [(call, task)] }

/-- Whether the operation a task waits for has settled, either way. -/
def hasSettled (previous : Option Nat) : Bool :=
  match previous with
  | none => true
  | some call =>
      match w.calls call with
      | some (.ended (some _) _) => true
      | _ => false

/-- The task between its two storage calls: it ends, or has a credential to store. -/
def proceed (task : StatusTask) (statusList : Option (StatusListCredential Proof))
    (sign : SigningFunction Proof) (now : JsString) : StatusPhase Proof :=
  match task, statusList with
  | .update credentialStatus _, none =>
      .ended (some task) (.error (.error (js "Status list not found: " ++
        credentialStatus.statusListCredential)))
  | .update credentialStatus revoked, some statusList =>
      match manager.updatedCredential sign statusList credentialStatus revoked with
      | .ok credential => .signed task credential (.ok .updated)
      | .error error => .ended (some task) (.error error)
  | .ensure purpose index, some existing =>
      match BitstringManager.decode manager.codec existing.encodedList with
      | .ok decoded => .ended (some task) (manager.allocatedEntry purpose index decoded.size)
      | .error error => .ended (some task) (.error error)
  | .ensure purpose index, none =>
      match manager.createdCredential sign purpose now with
      | .ok (credential, capacity) =>
          .signed task credential (manager.allocatedEntry purpose index capacity)
      | .error error => .ended (some task) (.error error)

def store (call : Nat) (task : StatusTask) (credential : StatusListCredential Proof)
    (outcome : Except Error StatusOutcome) : StatusWorld Proof :=
  { w with
    statusLists := Function.update w.statusLists (task.list manager) (some credential)
    calls := Function.update w.calls call (some (.ended (some task) outcome))
    written := match task with
      | .update _ _ => call :: w.written
      | .ensure _ _ => w.written }

/-- One call runs from one `await` to the next; `none` when it cannot. -/
def act : StatusAction Proof → Option (StatusWorld Proof)
  | .updateStatus call credentialStatus revoked =>
      match w.calls call with
      | none => some (w.enterLock manager call (.update credentialStatus revoked))
      | some _ => none
  | .allocateStatusEntry call purpose storage =>
      match w.calls call, storage with
      | some _, _ => none
      | none, .error error => some (w.setPhase call (.ended none (.error error)))
      | none, .ok _ =>
          let statusListId := manager.statusListId purpose
          let index := w.indexCounters statusListId
          some { w.setPhase call (.allocated purpose index) with
            indexCounters := Function.update w.indexCounters statusListId (index + 1) }
  | .withListLock call =>
      match w.calls call with
      | some (.allocated purpose index) =>
          some (w.enterLock manager call (.ensure purpose index))
      | _ => none
  | .getStatusList call storage =>
      match w.calls call, storage with
      | some (.queued task previous), .error error =>
          if w.hasSettled previous then some (w.setPhase call (.ended (some task) (.error error)))
          else none
      | some (.queued task previous), .ok _ =>
          if w.hasSettled previous then
            some (w.setPhase call (.loaded task (w.statusLists (task.list manager))))
          else none
      | _, _ => none
  | .signCredential call sign now =>
      match w.calls call with
      | some (.loaded task statusList) =>
          some (w.setPhase call (proceed manager task statusList sign now))
      | _ => none
  | .setStatusList call storage =>
      match w.calls call, storage with
      | some (.signed task _ _), .error error =>
          some (w.setPhase call (.ended (some task) (.error error)))
      | some (.signed task credential outcome), .ok _ =>
          some (w.store manager call task credential outcome)
      | _, _ => none

def empty : StatusWorld Proof where
  statusLists _ := none
  indexCounters _ := 0
  updateLocks _ := none
  calls _ := none
  locked := []
  written := []

end StatusWorld

/-- The worlds every interleaving of calls can reach. -/
inductive StatusReachable {Proof : Type} (manager : StatusListManager Proof) :
    StatusWorld Proof → Prop
  | start : StatusReachable manager .empty
  | act {w w' : StatusWorld Proof} {action : StatusAction Proof} :
      StatusReachable manager w → w.act manager action = some w' → StatusReachable manager w'

/-- The status of one entry as the manager reads it, fail-closed. -/
def assertStatusPurpose (listPurpose : Option JsString) (wanted : JsString) :
    Except Error Unit :=
  match listPurpose with
  | none => .error (.error (js "status list has no statusPurpose (expected \"" ++ wanted ++
      js "\") — fail-closed"))
  | some purpose =>
      if purpose ≠ wanted then
        .error (.error (js "status list statusPurpose mismatch: \"" ++ purpose ++ js "\" ≠ \"" ++
          wanted ++ js "\""))
      else .ok ()

/-- `checkStatus`, over the answer of `getStatusList`. -/
def StatusListManager.checkStatus {Proof : Type} (manager : StatusListManager Proof)
    (statusList : Option (StatusListCredential Proof)) (credentialStatus : CredentialStatus) :
    Except Error Bool :=
  match statusList with
  | none => .error (.error (js "Status list not found: " ++
      credentialStatus.statusListCredential ++ js " — cannot determine revocation status"))
  | some statusList => do
      assertStatusPurpose statusList.statusPurpose credentialStatus.statusPurpose
      let bitstring ← BitstringManager.decode manager.codec statusList.encodedList
      let index ← parseStatusListIndex credentialStatus.statusListIndex
      bitstring.getBit index

end KyaOs
