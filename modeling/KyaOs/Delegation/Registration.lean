import KyaOs.Delegation.Credential
import KyaOs.StatusList.Bits

/-!
# Registered delegations

The delegation graph's node, when registering an id again is a repeat and when
a conflict, and the status list entry behind a node.
-/

namespace KyaOs

open Js

/-- A member value as `===` sees it: primitives by value, anything else by identity. -/
inductive MemberValue where
  | text (value : JsString)
  | number (value : JsNumber)
  | bool (value : Bool)
  | object (identity : Nat)
  deriving DecidableEq

/-- `a === b`, an absent or `null` member being `undefined`; `NaN` differs from itself. -/
def strictEquals (a b : Option MemberValue) : Bool :=
  a == b && a != some (.number .nan)

structure CredentialStatus where
  id : Option JsString := none
  type : JsString
  statusPurpose : JsString
  statusListIndex : JsString
  statusListCredential : JsString
  /-- Any further members, each key once. -/
  extra : List (JsString × MemberValue) := []
  deriving DecidableEq

structure DelegationNode where
  id : JsString
  parentId : Option JsString
  children : List JsString
  issuerDid : JsString
  subjectDid : JsString
  credentialStatusId : Option JsString := none
  credentialStatus : Option CredentialStatus := none
  revoked : Option Bool := none
  deriving DecidableEq

/-- Member-wise equality of two status entries, in any member order. -/
def sameStatusEntry (a b : Option CredentialStatus) : Bool :=
  match a, b with
  | none, none => true
  | some left, some right =>
      left.id == right.id && left.type == right.type &&
      left.statusPurpose == right.statusPurpose &&
      left.statusListIndex == right.statusListIndex &&
      left.statusListCredential == right.statusListCredential &&
      (left.extra ++ right.extra).all fun (key, _) =>
        strictEquals (left.extra.lookup key) (right.extra.lookup key)
  | _, _ => false

/-- The first caller-supplied field on which `incoming` differs from the stored
node, `none` when registering it again would change nothing. -/
def registrationConflict (stored incoming : DelegationNode) : Option JsString :=
  if stored.parentId ≠ incoming.parentId then some (js "parentId")
  else if stored.issuerDid ≠ incoming.issuerDid then some (js "issuerDid")
  else if stored.subjectDid ≠ incoming.subjectDid then some (js "subjectDid")
  else if stored.credentialStatusId ≠ incoming.credentialStatusId then
    some (js "credentialStatusId")
  else if ¬ sameStatusEntry stored.credentialStatus incoming.credentialStatus then
    some (js "credentialStatus")
  else none

/-- A unit `.` does not match in a regular expression. -/
def isLineTerminator (u : UInt16) : Bool :=
  u = 0x0A || u = 0x0D || u = 0x2028 || u = 0x2029

/-- The groups of `/^(.+)#(\d+)$/`. Digits hold no `#`, so the last `#` is the one. -/
def statusEntryIdGroups (text : JsString) : Option (JsString × JsString) :=
  let index := (text.reverse.takeWhile isDigit).reverse
  match text.reverse.dropWhile isDigit with
  | hash :: list =>
      if hash = 0x23 ∧ list ≠ [] ∧ index ≠ [] ∧ ¬ list.any isLineTerminator then
        some (list.reverse, index)
      else none
  | [] => none

/-- A legacy `credentialStatusId` read as a revocation status list entry. -/
def parseCredentialStatusId (credentialStatusId : JsString) :
    Except Error (Option CredentialStatus) :=
  match statusEntryIdGroups credentialStatusId with
  | none => .ok none
  | some (statusListCredential, index) => do
      let statusListIndex ← parseStatusListIndex index
      return some
        { id := some credentialStatusId
          type := js "StatusList2021Entry"
          statusPurpose := js "revocation"
          statusListIndex := decimalText statusListIndex
          statusListCredential := statusListCredential }

/-- The node's status list entry: the structured `credentialStatus` when stored,
else the parsed legacy `credentialStatusId`. -/
def nodeStatusEntry (node : DelegationNode) : Except Error (Option CredentialStatus) :=
  match node.credentialStatus with
  | some credentialStatus => .ok (some credentialStatus)
  | none =>
      match node.credentialStatusId with
      | none => .ok none
      | some credentialStatusId =>
          if credentialStatusId = [] then .ok none else parseCredentialStatusId credentialStatusId

end KyaOs
