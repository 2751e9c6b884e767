import KyaOs.Delegation.ChainEnforcement
import KyaOs.Delegation.UntrustedScopes
import KyaOs.Middleware.Ports

/-!
# The chain walk over untrusted credentials

`validateDelegationChain` on credentials of any JSON type, with every read that can throw
and every text a verdict quotes. A stretch of the code without awaits is a `Check`: it
goes on, rejects the chain with a reason, or throws. Verifier, resolver and revocation
checker are ports.
-/

namespace KyaOs.Untrusted

open Js Untyped JsonValue Concurrency Middleware

/-- A stretch of code without awaits. -/
abbrev Check := Except Stop

/-- A computation inside a check that may throw. -/
def attempt {α : Type} (result : Except Error α) : Check α :=
  match result with
  | .ok a => .ok a
  | .error error => .error (.thrown error)

/-- `return { valid: false, reason }`, with the texts that the reason quotes. -/
def rejectWith {α : Type} (reason : Except Error JsString) : Check α := do
  throw (.rejected (some (← attempt reason)))

/-- `if (p) return { valid: false, reason }`. -/
def rejectIf (p : Bool) (reason : Except Error JsString) : Check Unit :=
  if p then rejectWith reason else .ok ()

/-- What a check comes to for the code around it: a rejection is a value. -/
def settle {α : Type} (check : Check α) : GateM (Except (Option JsString) α) :=
  match check with
  | .ok a => pure (.ok a)
  | .error (.rejected reason) => pure (.error reason)
  | .error (.thrown error) => throw error

/-- The members of a delegation record that the walk reads. -/
structure Record where
  id : Untyped
  issuerDid : Untyped
  subjectDid : Untyped
  parentId : Untyped
  constraints : Untyped

/-- `x === y`, of members that are not one part of one credential. -/
def strictEquals? : Untyped → Untyped → Bool
  | none, none => true
  | some v, some w => JsonValue.strictEquals v w
  | _, _ => false

/-- `x === y`, of the ids of two credentials. -/
def sameId (credential credential' : Presented) (id id' : Untyped) : Bool :=
  strictEquals? id id' || (credential.object = credential'.object && id.isObject && id'.isObject)

def extractDelegationFromVC (runtime : Runtime) (vc : Untyped) : Except Error Record := do
  let delegation := delegation? vc
  if !delegation.isObject then
    throw (.error
      (js "extractDelegationFromVC: credential is missing credentialSubject.delegation"))
  -- `vcId: vc.id || ...`, whose fallback quotes the delegation id
  if !(vc.member? (js "id")).truthy then
    let _ ← (delegation.member? (js "id")).text runtime
  return {
    id := delegation.member? (js "id")
    issuerDid := delegation.member? (js "issuerDid")
    subjectDid := delegation.member? (js "subjectDid")
    parentId := delegation.member? (js "parentId")
    constraints := delegation.member? (js "constraints") }

/-- The credential's own declared issuer. -/
def credentialIssuerDid (credential : Untyped) : Option JsString :=
  match credential.member? (js "issuer") with
  | some (.string did) => some did
  | issuer =>
    match issuer.member? (js "id") with
    | some (.string did) => some did
    | _ => none

/-- `array.includes(serverDid)`, of a truthy value that is no string. -/
def verifyDelegationAudience (delegation : Record) (serverDid : JsString) : Except Error Bool := do
  let audience ← delegation.constraints.member (js "audience")
  if !audience.truthy then return true
  match audience with
  | some (.string did) => return did == serverDid
  | some (.array dids) => return dids.any (sameValueZero (.string serverDid))
  | _ => throw (.typeError (js "audience.includes is not a function"))

structure ChainDeps where
  serverDid : JsString
  verify : Presented → Bool → GateM Verification
  resolveDelegationChain : Option (Presented → GateM (List Presented)) := none
  statusListConfigured : Bool
  isRevoked : Option (Untyped → GateM Revocation) := none
  trustedRootIssuers : Option (List JsString) := none
  maxChainLength : Option JsNumber := none

/-- What the loop carries from one credential to the next. -/
structure WalkState where
  expiresAt : Option ℚ := none
  warnings : List JsString := []
  seenIds : List (Presented × Untyped) := []
  previous : Option (Record × Presented) := none

section Walk

variable (runtime : Runtime) (deps : ChainDeps)

/-- `resolvedChain.findIndex(…)` on the delegation id. -/
def findDelegationIndex (leaf : Presented) (leafId : Untyped) :
    List Presented → Except Error (Option Nat)
  | [] => .ok none
  | credential :: rest => do
    let id ← (← delegation! (some credential.value)).member (js "id")
    if sameId credential leaf id leafId then return some 0
    return (← findDelegationIndex leaf leafId rest).map (· + 1)

/-- The chain to walk, of what the resolver returned. -/
def resolvedChain (leaf : Presented) (leafDelegation : Record) (resolved : List Presented) :
    Check (List Presented) := do
  rejectIf resolved.isEmpty do
    return js "Delegation " ++ (← leafDelegation.id.text runtime) ++ js " references parent " ++
      (← leafDelegation.parentId.text runtime) ++ js " but the resolved chain is empty"
  let leafIndex ← attempt (findDelegationIndex leaf leafDelegation.id resolved)
  rejectIf (leafIndex.any (· ≠ resolved.length - 1)) do
    return js "Resolved delegation chain for " ++ (← leafDelegation.id.text runtime) ++
      js " must end with the leaf credential"
  return (if leafIndex = none then resolved else resolved.dropLast) ++ [leaf]

/-- The chain to walk: the presented leaf behind what the resolver returned. -/
def presentedChain (leaf : Presented) (leafDelegation : Record) :
    GateM (Except (Option JsString) (List Presented)) :=
  if !leafDelegation.parentId.truthy then return .ok [leaf]
  else
    match deps.resolveDelegationChain with
    | none => settle <| rejectWith do
      return js "Delegation " ++ (← leafDelegation.id.text runtime) ++ js " references parent " ++
        (← leafDelegation.parentId.text runtime) ++
        js " but no resolveDelegationChain handler is configured"
    | some resolveDelegationChain => do
      match ← (resolveDelegationChain leaf).outcome with
      | .error error => return .error (some (js "Failed to resolve delegation chain: " ++
          error.messageOrUnknown))
      | .ok resolved => settle (resolvedChain runtime leaf leafDelegation resolved)

/-- The `maxChainLength` check. -/
def checkChainLength (chainLength : Nat) : Check Unit :=
  match deps.maxChainLength with
  | none => .ok ()
  | some maxChainLength =>
    let notPositive := js "maxChainLength must be a positive integer (got " ++
      runtime.numbers.text maxChainLength ++ js ")"
    match maxChainLength.toInt? with
    | none => rejectWith (.ok notPositive)
    | some limit =>
      if limit < 1 then rejectWith (.ok notPositive)
      else rejectIf (limit < chainLength) do
        return js "Delegation chain of " ++ runtime.numbers.text (.ofNat chainLength) ++
          js " credentials exceeds the maximum of " ++ runtime.numbers.text maxChainLength

/-- `seenIds.has(delegation.id)`. -/
def isRepeated (state : WalkState) (credential : Presented) (delegation : Record) : Bool :=
  state.seenIds.any fun seen => sameId credential seen.1 delegation.id seen.2

/-- `credential.credentialStatus && !deps.statusListConfigured`. -/
def isUnresolvable (credential : Presented) : Bool :=
  (Untyped.member? (some credential.value) (js "credentialStatus")).truthy &&
    !deps.statusListConfigured

/-- A round of the loop up to the verifier call. -/
def checkBefore (state : WalkState) (credential : Presented) : Check Record := do
  let delegation ← attempt (extractDelegationFromVC runtime (some credential.value))
  rejectIf (isRepeated state credential delegation) do
    return js "Delegation chain contains a circular reference at " ++ (← delegation.id.text runtime)
  rejectIf (isUnresolvable deps credential) do
    return js "Delegation " ++ (← delegation.id.text runtime) ++
      js " has credentialStatus but no statusListResolver is configured"
  return delegation

/-- `deadlines`, in milliseconds. -/
def deadlines (credential : Presented) (delegation : Record) :
    Except Error (List (Option JsNumber)) := do
  let expirationDate := Untyped.member? (some credential.value) (js "expirationDate")
  let expiration ← if expirationDate.truthy then
      do pure (some (runtime.dateParse (← expirationDate.text runtime)))
    else pure none
  let notAfter ← delegation.constraints.member (js "notAfter")
  let bound ← match notAfter with
    | none => pure none
    | some _ => do pure (some ((← notAfter.toNumber runtime).scale 1000))
  return [expiration, bound]

/-- The audience names the server, and a re-delegation has one. -/
def checkAudience (delegation : Record) : Check Unit := do
  let included ← attempt (verifyDelegationAudience delegation deps.serverDid)
  rejectIf (!included) do
    return js "Delegation " ++ (← delegation.id.text runtime) ++
      js " audience does not include server DID " ++ deps.serverDid
  let audience ← attempt (delegation.constraints.member (js "audience"))
  rejectIf (delegation.parentId.truthy && !audience.truthy) do
    return js "Delegation " ++ (← delegation.id.text runtime) ++
      js " is a re-delegation (parentId: " ++ (← delegation.parentId.text runtime) ++
      js ") but has no audience constraint. " ++
      js "Re-delegations MUST include an audience constraint (KYA-OS §11.6)"

/-- A root whose signer is not among `deps.trustedRootIssuers`. -/
def isUntrustedRoot (credential : Presented) : Bool :=
  deps.trustedRootIssuers.any fun issuers =>
    (credentialIssuerDid (some credential.value)).all fun did => !issuers.contains did

/-- `signerDid === did`. -/
def isSignedBy (credential : Presented) (did : Untyped) : Bool :=
  strictEquals? ((credentialIssuerDid (some credential.value)).map .string) did

/-- `signerDid ?? "an unidentified issuer"`. -/
def signerText (credential : Presented) : JsString :=
  (credentialIssuerDid (some credential.value)).getD (js "an unidentified issuer")

/-- What the first credential of the chain must satisfy; the warnings it earns. -/
def checkRoot (delegation : Record) (credential : Presented) : Check (List JsString) := do
  rejectIf delegation.parentId.truthy do
    return js "Resolved delegation chain is incomplete: root delegation " ++
      (← delegation.id.text runtime) ++ js " still references parent " ++
      (← delegation.parentId.text runtime)
  rejectIf (isUntrustedRoot deps credential) do
    return js "Root delegation " ++ (← delegation.id.text runtime) ++ js " is issued by " ++
      signerText credential ++ js ", which is not a trusted root issuer"
  attempt do
    if isSignedBy credential delegation.issuerDid then return []
    return [js "Root delegation " ++ (← delegation.id.text runtime) ++ js " names issuerDid " ++
      (← delegation.issuerDid.text runtime) ++ js " but is signed by " ++ signerText credential]

/-- The links a credential must have to the one before it in the chain. -/
def checkLink (delegation : Record) (credential : Presented) (previousDelegation : Record)
    (previousCredential : Presented) : Check Unit := do
  rejectIf (!strictEquals? delegation.parentId previousDelegation.id) do
    return js "Delegation " ++ (← delegation.id.text runtime) ++ js " references parent " ++
      (← delegation.parentId.text runtime) ++ js " but expected " ++
      (← previousDelegation.id.text runtime)
  rejectIf (!strictEquals? delegation.issuerDid previousDelegation.subjectDid) do
    return js "Delegation " ++ (← delegation.id.text runtime) ++ js " issued by " ++
      (← delegation.issuerDid.text runtime) ++ js " but parent subject is " ++
      (← previousDelegation.subjectDid.text runtime)
  rejectIf (!isSignedBy credential previousDelegation.subjectDid) do
    return js "Delegation " ++ (← delegation.id.text runtime) ++ js " is signed by " ++
      signerText credential ++ js " but parent subject is " ++
      (← previousDelegation.subjectDid.text runtime)
  let scopeValidation ← attempt (validateScopeAttenuation runtime
    (some previousCredential.value) (some credential.value))
  if scopeValidation.valid then return () else throw (.rejected scopeValidation.reason)

/-- `if (!previousDelegation || !previousCredential)`: the root, or a later credential. -/
def checkPlace (previous : Option (Record × Presented)) (delegation : Record)
    (credential : Presented) : Check (List JsString) :=
  match previous with
  | none => checkRoot runtime deps delegation credential
  | some (previousDelegation, previousCredential) => do
    checkLink runtime delegation credential previousDelegation previousCredential
    return []

/-- A round of the loop from the verifier's answer on. -/
def checkAfter (state : WalkState) (credential : Presented) (delegation : Record)
    (verification : Verification) : Check WalkState := do
  rejectIf (!verification.valid) do
    return js "Delegation " ++ (← delegation.id.text runtime) ++ js " invalid: " ++
      interpolated verification.reason
  let deadlines ← attempt (deadlines runtime credential delegation)
  checkAudience runtime deps delegation
  let warnings ← checkPlace runtime deps state.previous delegation credential
  return { expiresAt := deadlines.foldl earlier state.expiresAt
           warnings := state.warnings ++ warnings
           seenIds := state.seenIds ++ [(credential, delegation.id)]
           previous := some (delegation, credential) }

/-- One round of the loop over the chain. -/
def checkCredential (leaf : Presented) (skipSignature : Bool) (state : WalkState)
    (credential : Presented) : GateM (Except (Option JsString) WalkState) := do
  match ← settle (checkBefore runtime deps state credential) with
  | .error reason => return .error reason
  | .ok delegation =>
    let verification ← deps.verify credential
      (skipSignature && credential.object = leaf.object)
    settle (checkAfter runtime deps state credential delegation verification)

def walkChain (leaf : Presented) (skipSignature : Bool) (state : WalkState) :
    List Presented → GateM (Except (Option JsString) WalkState)
  | [] => return .ok state
  | credential :: rest => do
    match ← checkCredential runtime deps leaf skipSignature state credential with
    | .error reason => return .error reason
    | .ok state => walkChain leaf skipSignature state rest

/-- The verdict on a revoked credential of the chain. -/
def revokedReason (leaf : Presented) (leafDelegation : Record) (credential : Presented)
    (delegationId : Untyped) (revocation : Revocation) : Check Unit := do
  let revokedAncestor := (revocation.revokedAncestor.map JsonValue.string).orElse fun _ =>
    if sameId credential leaf delegationId leafDelegation.id then none else delegationId
  rejectWith do
    if Untyped.truthy revokedAncestor then
      return js "Delegation " ++ (← leafDelegation.id.text runtime) ++
        js " is revoked via ancestor " ++ (← Untyped.text runtime revokedAncestor)
    return js "Delegation " ++ (← leafDelegation.id.text runtime) ++ js " is revoked" ++
      (if truthy revocation.reason then js ": " ++ interpolated revocation.reason else [])

/-- The loop over the graph-backed revocation check. -/
def checkRevocations (leaf : Presented) (leafDelegation : Record)
    (isRevoked : Untyped → GateM Revocation) :
    List Presented → GateM (Except (Option JsString) Unit)
  | [] => return .ok ()
  | credential :: rest => do
    let delegationId ← Async.ofExcept
      (do (← delegation! (some credential.value)).member (js "id"))
    match ← (isRevoked delegationId).outcome with
    | .error error => settle <| rejectWith do
      return js "Revocation check failed for delegation " ++ (← delegationId.text runtime) ++
        js ": " ++ error.messageOrUnknown
    | .ok revocation =>
      if revocation.revoked then
        settle (revokedReason runtime leaf leafDelegation credential delegationId revocation)
      else checkRevocations leaf leafDelegation isRevoked rest

def askRevocations (leaf : Presented) (leafDelegation : Record) (chain : List Presented) :
    GateM (Except (Option JsString) Unit) :=
  match deps.isRevoked with
  | none => return .ok ()
  | some isRevoked => checkRevocations runtime leaf leafDelegation isRevoked chain

/-- The check that the walk ended at the leaf. -/
def checkEnd (leaf : Presented) (leafDelegation : Record) (last : Presented) : Check Unit := do
  let finalDelegation ← attempt (extractDelegationFromVC runtime (some last.value))
  rejectIf (!sameId last leaf finalDelegation.id leafDelegation.id) do
    return js "Resolved delegation chain ended at " ++ (← finalDelegation.id.text runtime) ++
      js " instead of leaf " ++ (← leafDelegation.id.text runtime)

/-- The shape guard on the leaf. -/
def hasLeafShape (leaf : Presented) : Bool :=
  let delegation := delegation? (some leaf.value)
  delegation.isObject && (delegation.member? (js "constraints")).isObject

def chainRejected (reason : Option JsString) : ChainValidationResult := { valid := false, reason }

/-- What follows the walk. -/
def concludeChain (leaf : Presented) (leafDelegation : Record) (chain : List Presented)
    (state : WalkState) : GateM ChainValidationResult := do
  match ← settle (checkEnd runtime leaf leafDelegation (chain.getLast?.getD leaf)) with
  | .error reason => return chainRejected reason
  | .ok () =>
  match ← askRevocations runtime deps leaf leafDelegation chain with
  | .error reason => return chainRejected reason
  | .ok () =>
    return { valid := true
             expiresAt := state.expiresAt
             warnings := if state.warnings.length > 0 then some state.warnings else none }

/-- What follows once the chain is known. -/
def validateChain (leaf : Presented) (leafDelegation : Record) (skipSignature : Bool)
    (chain : List Presented) : GateM ChainValidationResult := do
  match ← settle (checkChainLength runtime deps chain.length) with
  | .error reason => return chainRejected reason
  | .ok () =>
  match ← walkChain runtime deps leaf skipSignature {} chain with
  | .error reason => return chainRejected reason
  | .ok state => concludeChain runtime deps leaf leafDelegation chain state

/-- What follows the shape guard. -/
def validateLeaf (leaf : Presented) (leafDelegation : Record) (skipSignature : Bool) :
    GateM ChainValidationResult := do
  match ← presentedChain runtime deps leaf leafDelegation with
  | .error reason => return chainRejected reason
  | .ok chain => validateChain runtime deps leaf leafDelegation skipSignature chain

def validateDelegationChain (leaf : Presented) (skipSignature : Bool) :
    GateM ChainValidationResult := do
  if hasLeafShape leaf then
    let leafDelegation ← Async.ofExcept (extractDelegationFromVC runtime (some leaf.value))
    validateLeaf runtime deps leaf leafDelegation skipSignature
  else
    return chainRejected (some (js "Malformed delegation credential: " ++
      js "missing credentialSubject.delegation or its constraints"))

end Walk

end KyaOs.Untrusted
