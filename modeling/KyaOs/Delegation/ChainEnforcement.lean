import KyaOs.Delegation.ScopeMatcher
import KyaOs.Effect.Eff

/-!
# Delegation chain enforcement

`validateDelegationChain` with its ports as parameters. Credentials are objects:
`load` reads the object a reference points to, so the presented leaf and a
resolver's copy of it are different references that may load equal credentials.
A port may answer a call differently each time, so the verifier and the
revocation checker are functions of the calls made so far; those calls are the
state of the run.
-/

namespace KyaOs

open Js Effect

/-- The members of `DelegationRecord` that chain enforcement reads. -/
structure DelegationRecord where
  id : JsString
  issuerDid : JsString
  subjectDid : JsString
  parentId : Option JsString
  constraints : Option DelegationConstraints
  deriving DecidableEq

def extractDelegationFromVC (vc : DelegationCredential) : Except Error DelegationRecord :=
  match vc.delegation with
  | none => .error (.error
      (js "extractDelegationFromVC: credential is missing credentialSubject.delegation"))
  | some delegation => .ok
      { id := delegation.id
        issuerDid := delegation.issuerDid
        subjectDid := delegation.subjectDid
        parentId := delegation.parentId
        constraints := delegation.constraints }

/-- `delegation.constraints.…`: a read without optional chaining. -/
def DelegationRecord.constraints! (delegation : DelegationRecord) :
    Except Error DelegationConstraints :=
  match delegation.constraints with
  | some constraints => .ok constraints
  | none => readOfUndefined

/-- The credential's own declared issuer. -/
def credentialIssuerDid (credential : DelegationCredential) : Option JsString :=
  match credential.issuer with
  | .did id => some id
  | .object id => some id
  | .unreadable => none

/-- The truth value of an optional string: the empty string counts as absent. -/
def truthy (s : Option JsString) : Bool := s.getD [] ≠ []

/-- The truth value of `constraints.audience`. -/
def hasAudience : Option Audience → Bool
  | none => false
  | some (.one did) => did ≠ []
  | some (.many _) => true

def verifyDelegationAudience (delegation : DelegationRecord) (serverDid : JsString) :
    Except Error Bool := do
  let constraints ← delegation.constraints!
  if !hasAudience constraints.audience then return true
  match constraints.audience with
  | none => return true
  | some (.one did) => return did == serverDid
  | some (.many dids) => return dids.contains serverDid

/-- The text a template literal gives an optional string. -/
def interpolated (s : Option JsString) : JsString := s.getD (js "undefined")

/-- One call of the per-credential verifier, with its answer. -/
structure VerifierCall (Ref : Type) where
  credential : Ref
  skipSignature : Bool
  valid : Bool
  deriving DecidableEq

/-- One question to the revocation checker, with its answer. -/
structure RevocationCall where
  delegationId : JsString
  revoked : Bool
  deriving DecidableEq

/-- The port calls a validation has made. -/
structure PortCalls (Ref : Type) where
  verifier : List (VerifierCall Ref) := []
  revocation : List RevocationCall := []
  deriving DecidableEq

structure ChainEnforcementDeps (Ref : Type) where
  serverDid : JsString
  verifyDelegationCredential :
    List (VerifierCall Ref) → Ref → Bool → Except Error Verification
  resolveDelegationChain : Option (Ref → Except Error (List Ref)) := none
  statusListConfigured : Bool
  isRevoked : Option (List RevocationCall → JsString → Except Error Revocation) := none
  trustedRootIssuers : Option (List JsString) := none
  maxChainLength : Option JsNumber := none

structure ChainValidationResult where
  valid : Bool
  reason : Option JsString := none
  expiresAt : Option ℚ := none
  warnings : Option (List JsString) := none
  deriving DecidableEq

/-- Why a validation ended early: something threw, or it returned a rejection. -/
inductive Stop where
  | thrown (error : Error)
  | rejected (reason : Option JsString)
  deriving DecidableEq

/-- What the loop over the chain carries from one credential to the next. -/
structure LoopState where
  expiresAt : Option ℚ := none
  warnings : List JsString := []
  seenIds : List JsString := []
  previous : Option (DelegationRecord × DelegationCredential) := none

/-- `expiresAt = Math.min(expiresAt ?? deadline, deadline)` for a finite deadline. -/
def earlier (expiresAt : Option ℚ) : Option JsNumber → Option ℚ
  | some (.finite deadline) => some (min (expiresAt.getD deadline) deadline)
  | _ => expiresAt

section Enforcement

variable {Ref : Type} [DecidableEq Ref] (load : Ref → DelegationCredential)
  (regExp : JsString → Option (JsString → Bool)) (dateParse : JsString → JsNumber)
  (numberText : JsNumber → JsString) (deps : ChainEnforcementDeps Ref)

/-- A call inside the validation that may throw. -/
def orThrow {α : Type} (x : Except Error α) : Eff (PortCalls Ref) Stop α :=
  match x with
  | .ok a => pure a
  | .error e => throw (.thrown e)

def reject {α : Type} (reason : JsString) : Eff (PortCalls Ref) Stop α :=
  throw (.rejected (some reason))

def rejectIf (p : Prop) [Decidable p] (reason : JsString) : Eff (PortCalls Ref) Stop PUnit :=
  stopIf p (.rejected (some reason))

/-- `resolvedChain.findIndex(…)` on the delegation id. -/
def findDelegationIndex (id : JsString) : List Ref → Except Error (Option Nat)
  | [] => return none
  | ref :: rest => do
      let delegation ← (load ref).delegation!
      if delegation.id = id then return some 0
      return (← findDelegationIndex id rest).map (· + 1)

/-- The chain to walk: the presented leaf behind what the resolver returned. -/
def presentedChain (leaf : Ref) (leafDelegation : DelegationRecord) :
    Eff (PortCalls Ref) Stop (List Ref) :=
  if truthy leafDelegation.parentId then
    match deps.resolveDelegationChain with
    | none => reject (js "Delegation " ++ leafDelegation.id ++ js " references parent " ++
        interpolated leafDelegation.parentId ++
        js " but no resolveDelegationChain handler is configured")
    | some resolveDelegationChain =>
      match resolveDelegationChain leaf with
      | .error error => reject (js "Failed to resolve delegation chain: " ++
          error.messageOrUnknown)
      | .ok resolvedChain => do
          rejectIf (resolvedChain.length = 0) (js "Delegation " ++ leafDelegation.id ++
            js " references parent " ++ interpolated leafDelegation.parentId ++
            js " but the resolved chain is empty")
          let leafIndex ← orThrow (findDelegationIndex load leafDelegation.id resolvedChain)
          rejectIf (leafIndex ≠ none ∧ leafIndex ≠ some (resolvedChain.length - 1))
            (js "Resolved delegation chain for " ++ leafDelegation.id ++
              js " must end with the leaf credential")
          return (if leafIndex = none then resolvedChain else resolvedChain.dropLast) ++ [leaf]
  else return [leaf]

/-- The `maxChainLength` check. -/
def checkChainLength (chainLength : Nat) : Eff (PortCalls Ref) Stop PUnit :=
  match deps.maxChainLength with
  | none => pure ⟨⟩
  | some maxChainLength =>
    let notPositive := js "maxChainLength must be a positive integer (got " ++
      numberText maxChainLength ++ js ")"
    match maxChainLength.toInt? with
    | none => reject notPositive
    | some limit => do
        rejectIf (limit < 1) notPositive
        rejectIf (limit < chainLength) (js "Delegation chain of " ++
          numberText (.ofNat chainLength) ++ js " credentials exceeds the maximum of " ++
          numberText maxChainLength)

/-- The awaited verifier call. -/
def verifyCredential (credential : Ref) (skipSignature : Bool) :
    Eff (PortCalls Ref) Stop Verification := do
  let calls : PortCalls Ref ← get
  let verification ← orThrow
    (deps.verifyDelegationCredential calls.verifier credential skipSignature)
  let call := { credential, skipSignature, valid := verification.valid }
  set { calls with verifier := calls.verifier ++ [call] }
  return verification

/-- The links a credential must have to the one before it in the chain. -/
def checkLink (delegation : DelegationRecord) (credential : DelegationCredential)
    (previousDelegation : DelegationRecord) (previousCredential : DelegationCredential) :
    Eff (PortCalls Ref) Stop PUnit := do
  let signerDid := credentialIssuerDid credential
  rejectIf (delegation.parentId ≠ some previousDelegation.id) (js "Delegation " ++
    delegation.id ++ js " references parent " ++ interpolated delegation.parentId ++
    js " but expected " ++ previousDelegation.id)
  rejectIf (delegation.issuerDid ≠ previousDelegation.subjectDid) (js "Delegation " ++
    delegation.id ++ js " issued by " ++ delegation.issuerDid ++ js " but parent subject is " ++
    previousDelegation.subjectDid)
  rejectIf (signerDid ≠ some previousDelegation.subjectDid) (js "Delegation " ++
    delegation.id ++ js " is signed by " ++ signerDid.getD (js "an unidentified issuer") ++
    js " but parent subject is " ++ previousDelegation.subjectDid)
  let scopeValidation ← orThrow (validateScopeAttenuation regExp previousCredential credential)
  stopIf (scopeValidation.valid = false) (.rejected scopeValidation.reason)

/-- What the first credential of the chain must satisfy; the warning it earns. -/
def checkRoot (delegation : DelegationRecord) (credential : DelegationCredential) :
    Eff (PortCalls Ref) Stop (List JsString) := do
  let signerDid := credentialIssuerDid credential
  rejectIf (truthy delegation.parentId) (js "Resolved delegation chain is incomplete: " ++
    js "root delegation " ++ delegation.id ++ js " still references parent " ++
    interpolated delegation.parentId)
  rejectIf (∃ issuers ∈ deps.trustedRootIssuers, ∀ did ∈ signerDid, did ∉ issuers)
    (js "Root delegation " ++ delegation.id ++ js " is issued by " ++
      signerDid.getD (js "an unidentified issuer") ++ js ", which is not a trusted root issuer")
  if signerDid = some delegation.issuerDid then return []
  return [js "Root delegation " ++ delegation.id ++ js " names issuerDid " ++
    delegation.issuerDid ++ js " but is signed by " ++
    signerDid.getD (js "an unidentified issuer")]

/-- `if (!previousDelegation || !previousCredential)`: the root, or a later credential. -/
def checkPlace (previous : Option (DelegationRecord × DelegationCredential))
    (delegation : DelegationRecord) (credential : DelegationCredential) :
    Eff (PortCalls Ref) Stop (List JsString) :=
  match previous with
  | none => checkRoot deps delegation credential
  | some (previousDelegation, previousCredential) => do
      checkLink regExp delegation credential previousDelegation previousCredential
      return []

/-- `deadlines`, in milliseconds. -/
def deadlines (credential : DelegationCredential) (constraints : DelegationConstraints) :
    List (Option JsNumber) :=
  [if truthy credential.expirationDate then credential.expirationDate.map dateParse else none,
    constraints.notAfter.map (JsNumber.scale 1000)]

/-- One round of the loop over the chain. -/
def checkCredential (leaf : Ref) (skipSignature : Bool) (state : LoopState) (ref : Ref) :
    Eff (PortCalls Ref) Stop LoopState := do
  let credential := load ref
  let delegation ← orThrow (extractDelegationFromVC credential)
  rejectIf (delegation.id ∈ state.seenIds)
    (js "Delegation chain contains a circular reference at " ++ delegation.id)
  rejectIf (credential.credentialStatus = true ∧ deps.statusListConfigured = false)
    (js "Delegation " ++ delegation.id ++
      js " has credentialStatus but no statusListResolver is configured")
  let verification ← verifyCredential deps ref (skipSignature && ref = leaf)
  rejectIf (verification.valid = false) (js "Delegation " ++ delegation.id ++ js " invalid: " ++
    interpolated verification.reason)
  let constraints ← orThrow delegation.constraints!
  let audienceVerified ← orThrow (verifyDelegationAudience delegation deps.serverDid)
  rejectIf (audienceVerified = false) (js "Delegation " ++ delegation.id ++
    js " audience does not include server DID " ++ deps.serverDid)
  rejectIf (truthy delegation.parentId = true ∧ hasAudience constraints.audience = false)
    (js "Delegation " ++ delegation.id ++ js " is a re-delegation (parentId: " ++
      interpolated delegation.parentId ++ js ") but has no audience constraint. " ++
      js "Re-delegations MUST include an audience constraint (KYA-OS §11.6)")
  let warnings ← checkPlace regExp deps state.previous delegation credential
  return { expiresAt := (deadlines dateParse credential constraints).foldl earlier state.expiresAt
           warnings := state.warnings ++ warnings
           seenIds := state.seenIds ++ [delegation.id]
           previous := some (delegation, credential) }

/-- One round of the revocation loop. -/
def checkRevocation (leafDelegation : DelegationRecord)
    (isRevoked : List RevocationCall → JsString → Except Error Revocation) (ref : Ref) :
    Eff (PortCalls Ref) Stop PUnit := do
  let delegationId := (← orThrow (load ref).delegation!).id
  let calls : PortCalls Ref ← get
  match isRevoked calls.revocation delegationId with
  | .error error => reject (js "Revocation check failed for delegation " ++ delegationId ++
      js ": " ++ error.messageOrUnknown)
  | .ok revocation => do
      let call := { delegationId, revoked := revocation.revoked }
      set { calls with revocation := calls.revocation ++ [call] }
      let revokedAncestor := revocation.revokedAncestor <|>
        (if delegationId = leafDelegation.id then none else some delegationId)
      rejectIf (revocation.revoked = true)
        (if truthy revokedAncestor then
          js "Delegation " ++ leafDelegation.id ++ js " is revoked via ancestor " ++
            interpolated revokedAncestor
        else js "Delegation " ++ leafDelegation.id ++ js " is revoked" ++
          (if truthy revocation.reason then js ": " ++ interpolated revocation.reason else []))

/-- The validation up to its first rejection or throw. -/
def validateChain (leaf : Ref) (skipSignature : Bool) :
    Eff (PortCalls Ref) Stop ChainValidationResult := do
  let leafCredential := load leaf
  rejectIf ((leafCredential.delegation.bind (·.constraints)).isNone)
    (js "Malformed delegation credential: missing credentialSubject.delegation " ++
      js "or its constraints")
  let leafDelegation ← orThrow (extractDelegationFromVC leafCredential)
  let chain ← presentedChain load deps leaf leafDelegation
  checkChainLength numberText deps chain.length
  let state ← chain.foldlM
    (checkCredential load regExp dateParse deps leaf skipSignature) {}
  let finalDelegation ← orThrow (extractDelegationFromVC (load (chain.getLast?.getD leaf)))
  rejectIf (finalDelegation.id ≠ leafDelegation.id)
    (js "Resolved delegation chain ended at " ++ finalDelegation.id ++
      js " instead of leaf " ++ leafDelegation.id)
  match deps.isRevoked with
  | none => pure ⟨⟩
  | some isRevoked => chain.forM (checkRevocation load leafDelegation isRevoked)
  return { valid := true
           expiresAt := state.expiresAt
           warnings := if state.warnings.length > 0 then some state.warnings else none }

/-- The answer of the validation, and the port calls it made. -/
def validateDelegationChain (leaf : Ref) (skipSignature : Bool) :
    Except Error ChainValidationResult × PortCalls Ref :=
  match exec (validateChain load regExp dateParse numberText deps leaf skipSignature) {} with
  | (.ok result, calls) => (.ok result, calls)
  | (.error (.rejected reason), calls) => (.ok { valid := false, reason := reason }, calls)
  | (.error (.thrown error), calls) => (.error error, calls)

end Enforcement

end KyaOs
