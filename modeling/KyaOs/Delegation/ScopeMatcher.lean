import KyaOs.Delegation.Credential
import Mathlib.Data.List.DropRight

/-!
# Scope matching and containment

The runtime matcher of `scope-matcher.ts`, the scope authority of a credential,
and the syntactic rules by which one matcher is proven inside another. The
regular-expression engine is a parameter: `regExp source` is `none` when
`new RegExp(source)` throws, and otherwise the engine's `test`.
-/

namespace KyaOs

open Js

def maxRegexLen : Nat := 256
def maxValueLen : Nat := 256

/-- The code units of `*`, `/`, `\`. -/
def star : UInt16 := 0x2A
def slash : UInt16 := 0x2F
def backslash : UInt16 := 0x5C

/-- `NESTED_QUANTIFIER` anchored at the units that follow a `(`: a body free of
parentheses that holds a quantifier, a `)`, white space, another quantifier. -/
def nestedQuantifierAfterOpen (rest : JsString) : Bool :=
  let isParen := fun u => u == 0x28 || u == 0x29
  let body := rest.takeWhile (!isParen ·)
  match rest.dropWhile (!isParen ·) with
  | 0x29 :: tail =>
    body.any (· ∈ js "+*?\x7b") &&
      match tail.dropWhile isWhiteSpace with
      | u :: _ => u ∈ js "+*\x7b"
      | [] => false
  | _ => false

/-- `NESTED_QUANTIFIER.test(pattern)`. -/
def nestedQuantifier : JsString → Bool
  | [] => false
  | u :: rest => (u == 0x28 && nestedQuantifierAfterOpen rest) || nestedQuantifier rest

/-- A `prefix` pattern's base: one trailing `*` is optional sugar. -/
def prefixBase (pattern : JsString) : JsString :=
  if endsWith pattern [star] then pattern.dropLast else pattern

/-- The `while (base.endsWith('/'))` loop. -/
def dropTrailingSlashes (base : JsString) : JsString := base.rdropWhile (· == slash)

def pathBase (pattern : JsString) : JsString := dropTrailingSlashes (prefixBase pattern)

/-- Whether a path has a `.` or `..` segment, splitting on `/` and `\`. -/
def hasDotSegment (path : JsString) : Bool :=
  (path.splitOnP (fun u => u == slash || u == backslash)).any
    (fun segment => segment == js "." || segment == js "..")

section Matching

variable (regExp : JsString → Option (JsString → Bool))

def matchScope (pattern : JsString) (matcher : ScopeMatcher) (value : JsString) : Bool :=
  match matcher with
  | .exact => pattern == value
  | .plainPrefix =>
    let base := prefixBase pattern
    if base.length = 0 then false else startsWith value base
  | .pathPrefix =>
    let base := pathBase pattern
    if base.length = 0 then false
    else if hasDotSegment base || hasDotSegment value then false
    else value == base || startsWith value (base ++ [slash])
  | .regex =>
    if pattern.length > maxRegexLen || value.length > maxValueLen then false
    else if nestedQuantifier pattern then false
    else match regExp (js "^(?:" ++ pattern ++ js ")$") with
      | some test => test value
      | none => false

/-- Flat exact-match scopes: `delegation.scopes ∪ constraints.scopes`. -/
def flatScopes (credential : DelegationCredential) : List JsString :=
  match credential.delegation with
  | none => []
  | some d => d.scopes.getD [] ++ (d.constraints.bind (·.scopes)).getD []

def crispScopes (credential : DelegationCredential) : List CrispScope :=
  match credential.delegation with
  | none => []
  | some d => (d.constraints.bind (·.crispScopes)).getD []

/-- A credential's whole scope authority in one typed form. -/
def scopeAuthority (credential : DelegationCredential) : List CrispScope :=
  (flatScopes credential).map (fun resource => ⟨resource, .exact⟩) ++ crispScopes credential

/-- The table of sound containment rules, keyed by inner and outer kind. -/
def containment (inner outer : ScopeMatcher) : Option (JsString → JsString → Bool) :=
  match inner, outer with
  | .plainPrefix, .plainPrefix => some fun inner outer => startsWith inner outer
  | .pathPrefix, .pathPrefix => some fun inner outer =>
      inner == outer || startsWith inner (outer ++ [slash])
  | .pathPrefix, .plainPrefix => some fun inner outer => startsWith inner outer
  | .plainPrefix, .pathPrefix => some fun inner outer => startsWith inner (outer ++ [slash])
  | _, _ => none

def baseOf (scope : CrispScope) : JsString :=
  if scope.matcher = .pathPrefix then pathBase scope.resource else prefixBase scope.resource

/-- `${scope.matcher}\u0000${scope.resource}`. -/
def scopeKey (scope : CrispScope) : JsString := scope.matcher.text ++ 0 :: scope.resource

/-- Whether `outer` is proven to grant every value `inner` grants. Typed entries
always pass `isCrispScope`. -/
def matcherContains (outer inner : CrispScope) : Bool :=
  if outer.matcher = inner.matcher ∧ outer.resource = inner.resource then true
  else if inner.matcher = .exact then
    matchScope regExp outer.resource outer.matcher inner.resource
  else if [inner, outer].any (fun scope =>
      scope.matcher = .pathPrefix && hasDotSegment (baseOf scope)) then false
  else match containment inner.matcher outer.matcher with
    | some rule =>
      0 < (baseOf inner).length && 0 < (baseOf outer).length && rule (baseOf inner) (baseOf outer)
    | none => false

/-- Whether some entry of `authority` contains `scope`: an identical entry by
key, else a pattern entry by rule. -/
def authorityContains (authority : List CrispScope) (scope : CrispScope) : Bool :=
  (authority.map scopeKey).contains (scopeKey scope) ||
    (authority.filter (·.matcher ≠ .exact)).any (matcherContains regExp · scope)

structure ScopeSatisfaction where
  satisfied : Bool
  usedNonExactMatcher : Bool
  deriving DecidableEq

/-- Decide whether a required scope id is satisfied by a credential. -/
def scopeSatisfies (requiredScopeId : JsString) (credential : DelegationCredential) :
    ScopeSatisfaction :=
  if (flatScopes credential).contains requiredScopeId then ⟨true, false⟩
  else match (crispScopes credential).find?
      (fun cs => matchScope regExp cs.resource cs.matcher requiredScopeId) with
    | some cs => ⟨true, cs.matcher ≠ .exact⟩
    | none => ⟨false, false⟩

/-- Union of a credential's delegation scopes and its constraint scopes, in
order of first occurrence. -/
def getDelegationScopes (credential : DelegationCredential) : Except Error (List JsString) := do
  let delegation ← credential.delegation!
  return (delegation.scopes.getD [] ++
    (delegation.constraints.bind (·.scopes)).getD []).eraseDups

structure ScopeValidation where
  valid : Bool
  reason : Option JsString := none
  deriving DecidableEq

/-- A child re-delegation may only narrow its parent's authority. -/
def validateScopeAttenuation (parentCredential childCredential : DelegationCredential) :
    Except Error ScopeValidation := do
  let parentId := (← parentCredential.delegation!).id
  let childId := (← childCredential.delegation!).id
  let parentAuthority := scopeAuthority parentCredential
  if parentAuthority.length = 0 then
    return { valid := true }
  let childScopes ← getDelegationScopes childCredential
  let childMatchers := crispScopes childCredential
  if childScopes.length = 0 ∧ childMatchers.length = 0 then
    return { valid := false, reason := some (js "Delegation " ++ childId ++
      js " omits scopes required to prove attenuation from parent " ++ parentId) }
  let withinParent := authorityContains regExp parentAuthority
  let widenedMatchers := childMatchers.filter (!withinParent ·)
  if widenedMatchers.length > 0 then
    return { valid := false, reason := some (js "Delegation " ++ childId ++
      js " introduces crisp scope matcher(s) outside parent " ++ parentId ++ js ": " ++
      (js ", ").intercalate (widenedMatchers.map
        (fun s => s.matcher.text ++ js ":" ++ s.resource))) }
  let widenedScopes := childScopes.filter (fun scope => !withinParent ⟨scope, .exact⟩)
  if widenedScopes.length > 0 then
    return { valid := false, reason := some (js "Delegation " ++ childId ++
      js " widens scopes beyond parent " ++ parentId ++ js ": " ++
      (js ", ").intercalate widenedScopes) }
  return { valid := true }

end Matching

end KyaOs
