import KyaOs.Delegation.UntrustedScopes

/-!
# Checks of a credential without the network

The schema, the times, the status and the subject of a credential of any JSON type.
`now` is what the clock reads, in milliseconds, in one stretch of code without awaits.
-/

namespace KyaOs.Untrusted

open Js Untyped JsonValue

/-- The items of an array, none for any other value. -/
def itemsOf : Untyped → List (JsonValue JsNumber)
  | some (.array items) => items
  | _ => []

def isArray : Untyped → Bool
  | some (.array _) => true
  | _ => false

/-- A truthy string. -/
def isNonEmptyString : Untyped → Bool
  | some (.string text) => text ≠ []
  | _ => false

/-- The message of the first check that fails. -/
def firstFailure (checks : List (Bool × JsString)) : Option JsString :=
  (checks.find? (!·.1)).map Prod.snd

theorem firstFailure_eq_none {checks : List (Bool × JsString)} :
    firstFailure checks = none ↔ ∀ check ∈ checks, check.1 = true := by
  simp [firstFailure, List.find?_eq_none]

/-- The error message of `validateDelegationCredential`, `none` on success. -/
def validateDelegationCredential (vc : Untyped) : Option JsString :=
  let context := itemsOf (vc.member? (js "@context"))
  let type := vc.member? (js "type")
  let issuer := vc.member? (js "issuer")
  let subject := vc.member? (js "credentialSubject")
  let delegation := subject.member? (js "delegation")
  firstFailure [
    (vc.isObject, js "Not an object"),
    (!context.isEmpty, js "Missing or invalid @context"),
    (Untyped.isString context.head? (js "https://www.w3.org/2018/credentials/v1"),
      js "First @context must be W3C VC context"),
    (isArray type, js "Missing type array"),
    ((itemsOf type).any (sameValueZero (.string (js "VerifiableCredential"))) &&
        (itemsOf type).any (sameValueZero (.string (js "DelegationCredential"))),
      js "type must include VerifiableCredential and DelegationCredential"),
    (isNonEmptyString issuer || issuer.isObject, js "Missing or invalid issuer"),
    (isNonEmptyString (vc.member? (js "issuanceDate")), js "Missing issuanceDate"),
    (subject.isObject, js "Missing credentialSubject"),
    (isNonEmptyString (subject.member? (js "id")), js "credentialSubject.id missing"),
    (delegation.isObject, js "credentialSubject.delegation missing"),
    ((delegation.member? (js "id")).truthy && (delegation.member? (js "issuerDid")).truthy &&
        (delegation.member? (js "subjectDid")).truthy &&
        (delegation.member? (js "constraints")).truthy,
      js "delegation fields missing")]

/-- `isEpochSeconds`, with the number. -/
def epochSeconds? : Untyped → Option ℚ
  | some (.number (.finite seconds)) => some seconds
  | _ => none

/-- `Math.floor(Date.now() / 1000)`. -/
def nowSeconds (now : ℚ) : ℚ := (now / 1000).floor

section Code

variable (runtime : Runtime) (now : ℚ)

/-- A bound that cannot be read counts as passed. -/
def isDelegationCredentialExpired (vc : Untyped) : Bool :=
  let expirationDate := vc.member? (js "expirationDate")
  let notAfter := ((delegation? vc).member? (js "constraints")).member? (js "notAfter")
  let pastDate := match expirationDate with
    | none => false
    | some (.string date) =>
      match runtime.dateParse date with
      | .finite expiresAt => expiresAt < now
      | _ => true
    | some _ => true
  let pastBound := match notAfter with
    | none => false
    | some _ => (epochSeconds? notAfter).all fun bound => bound < nowSeconds now
  pastDate || pastBound

def isDelegationCredentialNotYetValid (vc : Untyped) : Bool :=
  let notBefore := ((delegation? vc).member? (js "constraints")).member? (js "notBefore")
  match notBefore with
  | none => false
  | some _ => (epochSeconds? notBefore).all fun bound => nowSeconds now < bound

/-- `Object.keys`. -/
def objectKeys (value : Untyped) : List JsString :=
  match value with
  | some (.object members) => (Json.propertyOrder members).map Prod.fst
  | some (.array items) => (List.range items.length).map fun i => js (toString i)
  | _ => []

/-- The reason why a subject carries more than a delegation. -/
def validateSubjectShape (vc : Untyped) : Option JsString :=
  let extraneous := (objectKeys (vc.member? (js "credentialSubject"))).filter fun key =>
    !([js "id", js "delegation"].contains key)
  if extraneous = [] then none
  else some (js "credentialSubject contains non-delegation field(s): " ++
    (js ", ").intercalate extraneous ++ js ". A DelegationCredential subject MUST carry only " ++
    js "'id' and 'delegation' (KYA-OS §11.6).")

/-- Why a credential fails the basic checks, `none` where it does not. -/
def validateBasicProperties (vc : Untyped) (requireEmbeddedProof : Bool) :
    Except Error (Option JsString) := do
  match validateDelegationCredential vc with
  | some message => return some (js "Schema validation failed: " ++ message)
  | none =>
  if isDelegationCredentialExpired runtime now vc then
    return some (js "Delegation credential expired")
  if isDelegationCredentialNotYetValid now vc then
    return some (js "Delegation credential not yet valid")
  let delegation := delegation? vc
  let status := delegation.member? (js "status")
  if !status.isString (js "active") then
    match status with
    | none => return some (js "Delegation status is missing")
    | some _ => return some (js "Delegation status is " ++ (← status.text runtime))
  if !(delegation.member? (js "issuerDid")).truthy ||
      !(delegation.member? (js "subjectDid")).truthy then
    return some (js "Missing issuer or subject DID")
  if requireEmbeddedProof && !(vc.member? (js "proof")).truthy then
    return some (js "Missing proof")
  return validateSubjectShape vc

end Code

end KyaOs.Untrusted
