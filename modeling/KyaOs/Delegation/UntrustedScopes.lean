import KyaOs.Delegation.ScopeMatcher
import KyaOs.Utils.Untyped

/-!
# Scopes of an untrusted credential

The scope functions of `scope-matcher.ts` and `chain-enforcement.ts` on a credential of
any JSON type, with the reads that throw. Where the credential has the shape its type
promises they are the functions of `ScopeMatcher`.
-/

namespace KyaOs.Untrusted

open Js Untyped JsonValue

/-- `credential.credentialSubject.delegation`. -/
def delegation! (credential : Untyped) : Except Error Untyped := do
  (← credential.member (js "credentialSubject")).member (js "delegation")

/-- `credential?.credentialSubject?.delegation`. -/
def delegation? (credential : Untyped) : Untyped :=
  (credential.member? (js "credentialSubject")).member? (js "delegation")

/-- Union of a credential's delegation scopes and its constraint scopes. -/
def getDelegationScopes (credential : Untyped) : Except Error (List (JsonValue JsNumber)) := do
  let scopes ← iterate ((← (← delegation! credential).member (js "scopes")).orElse (.array []))
  let constraints ← (← delegation! credential).member (js "constraints")
  let constraintScopes ← iterate ((constraints.member? (js "scopes")).orElse (.array []))
  return distinct (scopes ++ constraintScopes)

/-- Flat exact-match scope set. -/
def flatScopes (credential : Untyped) : Except Error (List (JsonValue JsNumber)) := do
  let d := delegation? credential
  let scopes ← iterate ((d.member? (js "scopes")).orElse (.array []))
  let constraintScopes ←
    iterate (((d.member? (js "constraints")).member? (js "scopes")).orElse (.array []))
  return scopes ++ constraintScopes

/-- The opt-in entries under `constraints.crisp.scopes`, if any. -/
def crispScopes (credential : Untyped) : JsonValue JsNumber :=
  ((((delegation? credential).member? (js "constraints")).member? (js "crisp")).member?
    (js "scopes")).orElse (.array [])

/-- The kinds the `switch` of `matchScope` knows. -/
def scopeMatcher? (matcher : JsString) : Option ScopeMatcher :=
  [.exact, .plainPrefix, .pathPrefix, .regex].find? fun kind => kind.text == matcher

/-- An entry with a string resource and matcher. -/
structure ScopeEntry where
  resource : JsString
  matcher : JsString
  deriving DecidableEq

/-- `isCrispScope`, with the entry it accepts. -/
def scopeEntry? (scope : JsonValue JsNumber) : Option ScopeEntry :=
  match Untyped.member? (some scope) (js "resource"),
      Untyped.member? (some scope) (js "matcher") with
  | some (.string resource), some (.string matcher) => some { resource, matcher }
  | _, _ => none

section Matching

variable (runtime : Runtime)

/-- The `regex` case of `matchScope`. -/
def matchRegex (pattern : Untyped) (value : JsString) : Except Error Bool := do
  let length ← (← pattern.length).toNumber runtime
  if length.gtInt maxRegexLen || value.length > maxValueLen then return false
  let text ← pattern.text runtime
  if nestedQuantifier text then return false
  match runtime.regExp (js "^(?:" ++ text ++ js ")$") with
  | some test => return test value
  | none => return false

/-- `matchScope` of a pattern and a matcher of any type. The prefix kinds call a string
method of the pattern. -/
def matchScope (pattern matcher : Untyped) (value : JsString) : Except Error Bool :=
  match matcher with
  | some (.string kind) =>
    match scopeMatcher? kind with
    | none => .ok false
    | some .exact => .ok (pattern.isString value)
    | some .regex => matchRegex runtime pattern value
    | some kind =>
      match pattern with
      | some (.string pattern) => .ok (KyaOs.matchScope runtime.regExp pattern kind value)
      | pattern => do
        let _ ← pattern.member (js "endsWith")
        .error (.typeError (js "pattern.endsWith is not a function"))
  | _ => .ok false

/-- The loop over the opt-in entries. -/
def firstMatch (requiredScopeId : JsString) : List (JsonValue JsNumber) →
    Except Error ScopeSatisfaction
  | [] => .ok ⟨false, false⟩
  | cs :: rest => do
    let resource ← Untyped.member (some cs) (js "resource")
    let matcher ← Untyped.member (some cs) (js "matcher")
    if ← matchScope runtime resource matcher requiredScopeId then
      return ⟨true, !matcher.isString (js "exact")⟩
    firstMatch requiredScopeId rest

/-- Decide whether a required scope id is satisfied by a credential. -/
def scopeSatisfies (requiredScopeId : JsString) (credential : Untyped) :
    Except Error ScopeSatisfaction := do
  let flat ← flatScopes credential
  if flat.any (sameValueZero (.string requiredScopeId)) then return ⟨true, false⟩
  firstMatch runtime requiredScopeId (← iterate (crispScopes credential))

/-- A credential's whole scope authority, its malformed entries included. -/
def scopeAuthority (credential : Untyped) : Except Error (List (JsonValue JsNumber)) := do
  let flat ← flatScopes credential
  let crisp ← iterate (crispScopes credential)
  return flat.map (fun resource =>
    .object [(js "resource", resource), (js "matcher", .string (js "exact"))]) ++ crisp

def baseOf (scope : ScopeEntry) : JsString :=
  if scope.matcher = js "path-prefix" then pathBase scope.resource else prefixBase scope.resource

/-- `${scope.matcher}\u0000${scope.resource}`. -/
def scopeKey (scope : ScopeEntry) : JsString := scope.matcher ++ 0 :: scope.resource

def matcherContains (outer inner : ScopeEntry) : Bool :=
  if outer = inner then true
  else if inner.matcher = js "exact" then
    (scopeMatcher? outer.matcher).any fun kind =>
      KyaOs.matchScope runtime.regExp outer.resource kind inner.resource
  else if [inner, outer].any (fun scope =>
      scope.matcher = js "path-prefix" && hasDotSegment (baseOf scope)) then false
  else
    match (do containment (← scopeMatcher? inner.matcher) (← scopeMatcher? outer.matcher)) with
    | some rule =>
      0 < (baseOf inner).length && 0 < (baseOf outer).length && rule (baseOf inner) (baseOf outer)
    | none => false

/-- `authorityContains(authority)`, of an entry that may be malformed. -/
def authorityContains (authority : List (JsonValue JsNumber)) (scope : JsonValue JsNumber) : Bool :=
  let granted := authority.filterMap scopeEntry?
  match scopeEntry? scope with
  | none => false
  | some scope =>
    (granted.map scopeKey).contains (scopeKey scope) ||
      (granted.filter (·.matcher ≠ js "exact")).any (matcherContains runtime · scope)

/-- `${s?.matcher}:${s?.resource}`. -/
def matcherText (scope : JsonValue JsNumber) : Except Error JsString := do
  let matcher ← (Untyped.member? (some scope) (js "matcher")).text runtime
  let resource ← (Untyped.member? (some scope) (js "resource")).text runtime
  return matcher ++ js ":" ++ resource

/-- `childMatchers.length === 0`, of a value of any type. -/
def hasNoElements (value : JsonValue JsNumber) : Bool :=
  match Untyped.length (some value) with
  | .ok (some (.number x)) => x = .ofNat 0
  | _ => false

/-- `childMatchers.filter(keep)`, which only an array has. -/
def filterArray (value : JsonValue JsNumber) (keep : JsonValue JsNumber → Bool) :
    Except Error (List (JsonValue JsNumber)) :=
  match value with
  | .array items => .ok (items.filter keep)
  | _ => .error (.typeError (js "childMatchers.filter is not a function"))

/-- A child re-delegation may only narrow its parent's authority. -/
def validateScopeAttenuation (parentCredential childCredential : Untyped) :
    Except Error ScopeValidation := do
  let parentId ← (← delegation! parentCredential).member (js "id")
  let childId ← (← delegation! childCredential).member (js "id")
  let parentAuthority ← scopeAuthority parentCredential
  if parentAuthority.length = 0 then return { valid := true }
  let childScopes ← getDelegationScopes childCredential
  let childMatchers := crispScopes childCredential
  if childScopes.length = 0 ∧ hasNoElements childMatchers then
    return { valid := false, reason := some (js "Delegation " ++ (← childId.text runtime) ++
      js " omits scopes required to prove attenuation from parent " ++ (← parentId.text runtime)) }
  let withinParent := authorityContains runtime parentAuthority
  let widenedMatchers ← filterArray childMatchers (!withinParent ·)
  if widenedMatchers.length > 0 then
    return { valid := false, reason := some (js "Delegation " ++ (← childId.text runtime) ++
      js " introduces crisp scope matcher(s) outside parent " ++ (← parentId.text runtime) ++
      js ": " ++ (js ", ").intercalate (← widenedMatchers.mapM (matcherText runtime))) }
  let widenedScopes := childScopes.filter fun scope =>
    !withinParent (.object [(js "resource", scope), (js "matcher", .string (js "exact"))])
  if widenedScopes.length > 0 then
    return { valid := false, reason := some (js "Delegation " ++ (← childId.text runtime) ++
      js " widens scopes beyond parent " ++ (← parentId.text runtime) ++ js ": " ++
      (js ", ").intercalate (← joinTexts runtime.numbers widenedScopes)) }
  return { valid := true }

end Matching

end KyaOs.Untrusted
