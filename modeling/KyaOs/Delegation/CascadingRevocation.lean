import KyaOs.Delegation.Graph

/-!
# Cascading revocation

`CascadingRevocationManager` over the graph. The status list manager, the clock
and the hooks are ports: code over a state of their own, which may change at
every call and may throw at any.
-/

namespace KyaOs

open Js Effect

/-- What the manager calls outside the graph. -/
structure RevocationPorts (ω : Type) where
  updateStatus : CredentialStatus → Bool → Eff ω Error PUnit
  checkStatus : CredentialStatus → Eff ω Error Bool
  /-- `Date.now()`. -/
  now : ω → Nat

structure RevocationEvent where
  delegationId : JsString
  isRoot : Bool
  parentId : Option JsString := none
  timestamp : Nat
  reason : Option JsString := none

structure CascadingRevocationOptions (ω : Type) where
  reason : Option JsString := none
  onRevoke : Option (RevocationEvent → Eff ω Error PUnit) := none
  maxDepth : Option JsNumber := none
  dryRun : Bool := false

/-- Run a port. -/
def outside {ω α : Type} (x : Eff ω Error α) : GraphM ω α :=
  zoom GraphState.outside (fun s o => { s with outside := o }) x

namespace CascadingRevocationManager

open MemoryDelegationGraphStorage DelegationGraphManager

variable {ω : Type} (ports : RevocationPorts ω)

/-- `options.maxDepth || 100`. -/
def maxDepthOf (maxDepth : Option JsNumber) : JsNumber :=
  match maxDepth with
  | some limit => if limit.truthy then limit else .ofNat 100
  | none => .ofNat 100

def now : GraphM ω Nat := do
  return ports.now (← get).outside

/-- Flip the node's status bit. With no bit to flip, the mark is the only record. -/
def publishRevocation (node : DelegationNode) (marked : Bool)
    (credentialStatus : Option CredentialStatus) : GraphM ω PUnit :=
  match credentialStatus with
  | some credentialStatus => outside (ports.updateStatus credentialStatus true)
  | none => stopIf (¬ marked) (.error (js "Revocation of delegation " ++ node.id ++
      js " was not recorded: it has no status list entry, and the graph storage provider " ++
      js "did not persist DelegationNode.revoked. A DelegationGraphStorageProvider must " ++
      js "store the revoked field to revoke delegations without a status list entry."))

def revokeNode (node : DelegationNode) (isRoot : Bool) (reason : Option JsString)
    (dryRun : Bool) (parentId : Option JsString) : GraphM ω RevocationEvent := do
  let timestamp ← now ports
  let event : RevocationEvent :=
    { delegationId := node.id, isRoot, parentId, timestamp, reason }
  if dryRun then return event
  else do
    -- the mark first: it holds even when publishing the bit fails
    let marked ← setRevoked node.id true
    let credentialStatus ← liftM (nodeStatusEntry node)
    publishRevocation ports node marked credentialStatus
    return event

def runHook (options : CascadingRevocationOptions ω) (event : RevocationEvent) :
    GraphM ω PUnit :=
  match options.onRevoke with
  | some onRevoke => outside (onRevoke event)
  | none => return ⟨⟩

/-- One round of the loop over the descendants. -/
def revokeDescendant (delegationId : JsString) (options : CascadingRevocationOptions ω)
    (events : List RevocationEvent) (descendant : DelegationNode) :
    GraphM ω (List RevocationEvent) := do
  let event ← revokeNode ports descendant false
    (some (js "Cascaded from " ++ delegationId)) options.dryRun (some delegationId)
  runHook options event
  return events ++ [event]

def revokeDelegation (numberText : JsNumber → JsString) (delegationId : JsString)
    (options : CascadingRevocationOptions ω) : GraphM ω (List RevocationEvent) := do
  let maxDepth := maxDepthOf options.maxDepth
  match ← getNode delegationId with
  | none => throw (.error (js "Delegation not found: " ++ delegationId))
  | some targetNode =>
      let depth ← getDepth delegationId
      stopIf (maxDepth.ltInt depth) (.error (js "Delegation depth " ++ js (toString depth) ++
        js " exceeds maximum " ++ numberText maxDepth))
      let rootEvent ← revokeNode ports targetNode true options.reason options.dryRun none
      runHook options rootEvent
      let descendants ← getDescendants delegationId
      descendants.foldlM (revokeDescendant ports delegationId options) [rootEvent]

def clearStatusBit (credentialStatus : Option CredentialStatus) : GraphM ω PUnit :=
  match credentialStatus with
  | some credentialStatus => outside (ports.updateStatus credentialStatus false)
  | none => return ⟨⟩

def restoreDelegation (delegationId : JsString) : GraphM ω RevocationEvent := do
  match ← getNode delegationId with
  | none => throw (.error (js "Delegation not found: " ++ delegationId))
  | some node =>
      let timestamp ← now ports
      let credentialStatus ← liftM (nodeStatusEntry node)
      -- the mark last: if clearing the bit fails, the delegation still reads as revoked
      clearStatusBit ports credentialStatus
      let _ ← setRevoked node.id false
      return { delegationId := node.id, isRoot := true, timestamp, reason := some (js "Restored") }

def isStatusBitSet (node : DelegationNode) : GraphM ω Bool := do
  match ← liftM (nodeStatusEntry node) with
  | some credentialStatus => outside (ports.checkStatus credentialStatus)
  | none => return false

/-- `node.revoked || (await this.isStatusBitSet(node))`. -/
def isNodeRevoked (node : DelegationNode) : GraphM ω Bool :=
  if node.revoked = some true then return true else isStatusBitSet ports node

/-- The loop of `isRevoked`, root first. -/
def firstRevoked : List DelegationNode → GraphM ω (Option DelegationNode)
  | [] => return none
  | node :: chain => do
      if ← isNodeRevoked ports node then return some node
      else firstRevoked chain

def isRevoked (delegationId : JsString) : GraphM ω Revocation := do
  let chain ← getChain delegationId
  match ← firstRevoked ports chain with
  | some node =>
      return { revoked := true
               reason := some (if node.id = delegationId then js "Directly revoked"
                 else js "Ancestor revoked")
               revokedAncestor := if node.id = delegationId then none else some node.id }
  | none => return { revoked := false }

def validateDelegation (delegationId : JsString) : GraphM ω Verification := do
  let revokedCheck ← isRevoked ports delegationId
  if revokedCheck.revoked then
    return { valid := false
             reason := some (match revokedCheck.revokedAncestor.filter (· ≠ []) with
               | some ancestor => js "Ancestor " ++ ancestor ++ js " is revoked"
               | none => js "Delegation is revoked") }
  else do
    let chainValidation ← DelegationGraphManager.validateChain delegationId
    if ¬ chainValidation.valid then return chainValidation
    else return { valid := true }

end CascadingRevocationManager

end KyaOs
