import KyaOs.Js.Number
import KyaOs.Js.Throws

/-!
# Delegation credentials

The parts of `DelegationCredential` that scope matching and chain enforcement
read, and the verdicts on a delegation. Optional members stay `Option`s,
including the two that only an untrusted credential can lack
(`credentialSubject.delegation` and its `constraints`), so the shape guards and the
property reads that throw keep their branches. Members no modelled function reads
are left out.
-/

namespace KyaOs

open Js

inductive ScopeMatcher where
  | exact
  | plainPrefix
  | pathPrefix
  | regex
  deriving DecidableEq

/-- The wire text of a matcher kind. -/
def ScopeMatcher.text : ScopeMatcher → JsString
  | .exact => js "exact"
  | .plainPrefix => js "prefix"
  | .pathPrefix => js "path-prefix"
  | .regex => js "regex"

structure CrispScope where
  resource : JsString
  matcher : ScopeMatcher
  deriving DecidableEq

/-- `audience?: string | string[]`. -/
inductive Audience where
  | one (did : JsString)
  | many (dids : List JsString)
  deriving DecidableEq

structure DelegationConstraints where
  notAfter : Option JsNumber := none
  scopes : Option (List JsString) := none
  audience : Option Audience := none
  /-- `constraints.crisp?.scopes`. -/
  crispScopes : Option (List CrispScope) := none
  deriving DecidableEq

/-- The object under `credentialSubject.delegation`. -/
structure Delegation where
  id : JsString
  issuerDid : JsString
  subjectDid : JsString
  parentId : Option JsString := none
  scopes : Option (List JsString) := none
  constraints : Option DelegationConstraints := some {}
  deriving DecidableEq

/-- `issuer: string | { id: string }`; `unreadable` is any other untrusted value. -/
inductive Issuer where
  | did (id : JsString)
  | object (id : JsString)
  | unreadable
  deriving DecidableEq

structure DelegationCredential where
  issuer : Issuer
  expirationDate : Option JsString := none
  /-- `credentialSubject?.delegation`. -/
  delegation : Option Delegation
  /-- Whether `credentialStatus` is present. -/
  credentialStatus : Bool := false
  deriving DecidableEq

/-- `{ valid: boolean; reason?: string }`. -/
structure Verification where
  valid : Bool
  reason : Option JsString := none

/-- `{ revoked: boolean; reason?: string; revokedAncestor?: string }`. -/
structure Revocation where
  revoked : Bool
  reason : Option JsString := none
  revokedAncestor : Option JsString := none

/-- A property read on `undefined`. -/
def readOfUndefined {α : Type} : Except Error α :=
  .error (.typeError (js "Cannot read properties of undefined"))

/-- `credential.credentialSubject.delegation.…`: a read without optional chaining. -/
def DelegationCredential.delegation! (credential : DelegationCredential) :
    Except Error Delegation :=
  match credential.delegation with
  | some delegation => .ok delegation
  | none => readOfUndefined

end KyaOs
