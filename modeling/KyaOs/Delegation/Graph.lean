import KyaOs.Delegation.Registration
import KyaOs.Effect.Eff
import Mathlib.Algebra.Order.BigOperators.Group.List
import Mathlib.Algebra.Order.Group.Nat
import Mathlib.Data.List.AList

/-!
# The delegation graph

`MemoryDelegationGraphStorage` as a map from ids to nodes, and
`DelegationGraphManager` over it. Each call runs to its end before the next one
starts; `GraphInterleaving` has calls that overlap.
-/

namespace KyaOs

open Js Effect

/-- `Map<string, DelegationNode>`. -/
abbrev NodeMap := AList fun _ : JsString => DelegationNode

/-- One change of the graph, for the results to speak about. -/
inductive GraphEvent where
  | registered (id : JsString) (parentId : Option JsString)
  | marked (id : JsString) (revoked : Bool)
  | removed (id : JsString)
  deriving DecidableEq

/-- The stored nodes, next to whatever the calls reach outside the graph. -/
structure GraphState (ω : Type) where
  nodes : NodeMap
  /-- The changes made so far, the latest first. No operation reads it. -/
  history : List GraphEvent
  outside : ω

abbrev GraphM (ω : Type) := Eff (GraphState ω) Error

def GraphState.record {ω : Type} (s : GraphState ω) (event : GraphEvent) : GraphState ω :=
  { s with history := event :: s.history }

/-- `this.nodes.set(node.id, node)`. -/
def GraphState.store {ω : Type} (s : GraphState ω) (node : DelegationNode) : GraphState ω :=
  { s with nodes := s.nodes.insert node.id node }

namespace MemoryDelegationGraphStorage

variable {ω : Type}

def getNode (delegationId : JsString) : GraphM ω (Option DelegationNode) := do
  return (← get).nodes.lookup delegationId

def setNode (node : DelegationNode) : GraphM ω PUnit :=
  modify (·.store node)

def deleteNode (delegationId : JsString) : GraphM ω PUnit :=
  modify fun s => { s with nodes := s.nodes.erase delegationId }

/-- The parent object a registration stores in place of `parent`. -/
def linkChild (parent : DelegationNode) (childId : JsString) : DelegationNode :=
  { parent with
    children := if childId ∈ parent.children then parent.children
      else parent.children ++ [childId] }

def linkToParent (nodes : NodeMap) (node : DelegationNode) : GraphM ω PUnit :=
  match node.parentId with
  | none => return ⟨⟩
  | some parentId =>
      match nodes.lookup parentId with
      | none => throw (.error (js "Parent delegation not found: " ++ parentId))
      | some parent => setNode (linkChild parent node.id)

/-- Parent validation, child insert and parent link in one serialization point. -/
def registerNodeAtomic (node : DelegationNode) : GraphM ω PUnit := do
  stopIf (node.parentId = some node.id)
    (.error (js "Delegation " ++ node.id ++ js " cannot be its own parent"))
  let s : GraphState ω ← get
  match s.nodes.lookup node.id with
  | some existing =>
      match registrationConflict existing node with
      | none => return ⟨⟩
      | some conflict => throw (.error (js "Delegation " ++ node.id ++
          js " is already registered with a different " ++ conflict))
  | none => do
      linkToParent s.nodes node
      setNode node
      modify (·.record (.registered node.id node.parentId))

/-- Ids stored but not visited. -/
def unvisited (nodes : NodeMap) (visited : List JsString) : Nat :=
  (nodes.keys.filter (· ∉ visited)).length

/-- Visiting a stored id for the first time leaves fewer to visit. -/
theorem unvisited_lt {nodes : NodeMap} {visited : List JsString} {id : JsString}
    {node : DelegationNode} (hstored : nodes.lookup id = some node) (hnew : id ∉ visited) :
    unvisited nodes (id :: visited) < unvisited nodes visited := by
  have hfilter : nodes.keys.filter (· ∉ id :: visited) =
      (nodes.keys.filter (· ∉ visited)).filter (· ≠ id) := by
    rw [List.filter_filter]
    congr 1
    funext key
    simp [List.mem_cons, not_or]
  rw [unvisited, unvisited, hfilter]
  refine List.length_filter_lt_length_iff_exists.mpr ⟨id, ?_, by simp⟩
  have hkey : id ∈ nodes.keys := AList.mem_keys.mpr (AList.lookup_isSome.mp (by simp [hstored]))
  simpa using ⟨hkey, hnew⟩

/-- The number of children a search may still have to queue. -/
def unqueued (entries : List (Sigma fun _ : JsString => DelegationNode))
    (visited : List JsString) : Nat :=
  (entries.map fun entry => if entry.1 ∈ visited then 0 else entry.2.children.length).sum

theorem unqueued_le (entries : List (Sigma fun _ : JsString => DelegationNode))
    (visited : List JsString) (id : JsString) :
    unqueued entries (id :: visited) ≤ unqueued entries visited := by
  refine List.sum_le_sum fun entry _ => ?_
  by_cases h : entry.1 ∈ visited
  · simp [h]
  · rw [if_neg h]
    split <;> omega

/-- Visiting a stored id for the first time takes its children off that number. -/
theorem unqueued_add_le {nodes : NodeMap} {visited : List JsString} {id : JsString}
    {node : DelegationNode} (hstored : nodes.lookup id = some node) (hnew : id ∉ visited) :
    unqueued nodes.entries (id :: visited) + node.children.length ≤
      unqueued nodes.entries visited := by
  obtain ⟨before, after, hsplit⟩ := List.append_of_mem (AList.mem_lookup_iff.mp hstored)
  have hbefore := unqueued_le before visited id
  have hafter := unqueued_le after visited id
  simp only [unqueued] at hbefore hafter
  simp only [unqueued, hsplit, List.map_append, List.map_cons, List.sum_append, List.sum_cons,
    List.mem_cons_self, if_true, hnew, if_false]
  omega

/-- The loop of `getChainSync`. -/
def chainFrom (nodes : NodeMap) (visited : List JsString) (currentId : Option JsString)
    (chain : List DelegationNode) : Except Error (List DelegationNode) :=
  match currentId with
  | none => .ok chain
  | some id =>
      if id = [] then .ok chain
      else if _ : id ∈ visited then
        .error (.error (js "Delegation graph has a parent cycle at " ++ id))
      else
        match _ : nodes.lookup id with
        | none => .ok chain
        | some node => chainFrom nodes (id :: visited) node.parentId (node :: chain)
termination_by unvisited nodes visited
decreasing_by exact unvisited_lt ‹_› ‹_›

/-- The chain from the root to a delegation, root first. -/
def getChainSync (nodes : NodeMap) (delegationId : JsString) :
    Except Error (List DelegationNode) :=
  chainFrom nodes [] (some delegationId) []

def getChain (delegationId : JsString) : GraphM ω (List DelegationNode) := do
  let s : GraphState ω ← get
  liftM (getChainSync s.nodes delegationId)

/-- The loop of `getDescendants`. -/
def descendantsFrom (nodes : NodeMap) (visited queue : List JsString)
    (descendants : List DelegationNode) : List DelegationNode :=
  match queue with
  | [] => descendants
  | currentId :: queue =>
      if _ : currentId ∈ visited then descendantsFrom nodes visited queue descendants
      else
        match _ : nodes.lookup currentId with
        | none => descendantsFrom nodes (currentId :: visited) queue descendants
        | some node =>
            let unseen := node.children.filter (· ∉ currentId :: visited)
            descendantsFrom nodes (currentId :: visited) (queue ++ unseen)
              (descendants ++ unseen.filterMap nodes.lookup)
termination_by queue.length + unqueued nodes.entries visited
decreasing_by
  · simp
  · have := unqueued_le nodes.entries visited currentId
    simp only [List.length_cons]
    omega
  · have hfewer : (queue ++ unseen).length + unqueued nodes.entries (currentId :: visited) <
        (currentId :: queue).length + unqueued nodes.entries visited := by
      have := unqueued_add_le ‹nodes.lookup currentId = some node› ‹currentId ∉ visited›
      have : unseen.length ≤ node.children.length := List.length_filter_le _ _
      simp only [List.length_append, List.length_cons]
      omega
    exact hfewer

/-- All descendants, nearest first. -/
def getDescendants (delegationId : JsString) : GraphM ω (List DelegationNode) := do
  return descendantsFrom (← get).nodes [] [delegationId] []

end MemoryDelegationGraphStorage

/-- The parameters of `registerDelegation`. -/
structure DelegationParams where
  id : JsString
  parentId : Option JsString
  issuerDid : JsString
  subjectDid : JsString
  credentialStatusId : Option JsString := none
  credentialStatus : Option CredentialStatus := none

def DelegationParams.node (params : DelegationParams) : DelegationNode :=
  { id := params.id
    parentId := params.parentId
    children := []
    issuerDid := params.issuerDid
    subjectDid := params.subjectDid
    credentialStatusId := params.credentialStatusId
    credentialStatus := params.credentialStatus }

namespace DelegationGraphManager

open MemoryDelegationGraphStorage

variable {ω : Type}

/-- The parent check before anything is read of the delegation itself. -/
def requireParent (parentId : Option JsString) : GraphM ω PUnit :=
  match parentId with
  | none => return ⟨⟩
  | some parentId =>
      if parentId = [] then return ⟨⟩
      else do
        let parent ← getNode parentId
        stopIf (parent.isNone) (.error (js "Parent delegation not found: " ++ parentId))

def registerDelegation (params : DelegationParams) : GraphM ω DelegationNode := do
  let node := params.node
  stopIf (params.parentId = some params.id)
    (.error (js "Delegation " ++ params.id ++ js " cannot be its own parent"))
  requireParent params.parentId
  match ← getNode params.id with
  | some existing =>
      match registrationConflict existing node with
      | none => return existing
      | some conflict => throw (.error (js "Delegation " ++ params.id ++
          js " is already registered with a different " ++ conflict))
  | none =>
      registerNodeAtomic node
      return node

/-- Record or clear the revocation mark of one node, and report whether the
stored node now carries it. -/
def setRevoked (delegationId : JsString) (revoked : Bool) : GraphM ω Bool := do
  match ← getNode delegationId with
  | none => throw (.error (js "Delegation not found: " ++ delegationId))
  | some node =>
      setNode { node with revoked := some revoked }
      modify (·.record (.marked delegationId revoked))
      let stored ← getNode delegationId
      return ((stored.bind (·.revoked)).getD false == revoked)

/-- Depth of a delegation, `-1` for one whose chain is empty. -/
def getDepth (delegationId : JsString) : GraphM ω Int := do
  let chain ← getChain delegationId
  return (chain.length : Int) - 1

/-- The reason of the first link of a chain that does not hold. -/
def linkFault : List DelegationNode → Option JsString
  | parent :: child :: rest =>
      if child.issuerDid ≠ parent.subjectDid then
        some (js "Invalid chain: " ++ child.id ++ js " issued by " ++ child.issuerDid ++
          js " but parent " ++ parent.id ++ js " subject is " ++ parent.subjectDid)
      else if child.parentId ≠ some parent.id then
        some (js "Invalid chain: " ++ child.id ++ js " parentId=" ++
          child.parentId.getD (js "null") ++ js " but actual parent is " ++ parent.id)
      else linkFault (child :: rest)
  | _ => none

def validateChain (delegationId : JsString) : GraphM ω Verification := do
  let chain ← getChain delegationId
  if chain = [] then return { valid := false, reason := some (js "Delegation not found") }
  else
    match linkFault chain with
    | some reason => return { valid := false, reason := some reason }
    | none => return { valid := true }

/-- Take a removed delegation off its parent's children. -/
def unlinkFromParent (node : DelegationNode) (delegationId : JsString) : GraphM ω PUnit :=
  match node.parentId with
  | none => return ⟨⟩
  | some parentId =>
      if parentId = [] then return ⟨⟩
      else do
        match ← getNode parentId with
        | none => return ⟨⟩
        | some parent =>
            setNode { parent with children := parent.children.filter (· ≠ delegationId) }

def removeDelegation (delegationId : JsString) : GraphM ω PUnit := do
  match ← getNode delegationId with
  | none => return ⟨⟩
  | some node =>
      unlinkFromParent node delegationId
      deleteNode delegationId
      modify (·.record (.removed delegationId))

end DelegationGraphManager

end KyaOs
