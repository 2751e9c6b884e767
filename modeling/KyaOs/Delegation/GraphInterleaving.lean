import KyaOs.Delegation.Graph
import Mathlib.Data.List.Induction
import Mathlib.Logic.Function.Basic

/-!
# Overlapping calls on one delegation graph

A call runs from one `await` to the next without a break and other calls run in
between. The storage hands out the stored objects themselves, so a node a call
has read is a reference: the stored node may have been replaced when the call
goes on, and a change made to the object in place shows to everyone who holds
it. `Awaiting` is what a call does next, with what it has read.
-/

namespace KyaOs

open Js MemoryDelegationGraphStorage

/-- What happened to the graph, for the results to speak about. -/
inductive CallEvent where
  | calledMark (id : JsString) (revoked : Bool)
  | returnedMark (id : JsString) (revoked carried : Bool)
  | inserted (id : JsString) (parentId : Option JsString)
  | unlinked (id : JsString)
  | deleted (id : JsString)
  deriving DecidableEq

/-- The objects made so far and the `Map` that stores some of them by id. -/
structure SharedGraph where
  heap : Nat → DelegationNode
  /-- References below `next` are in use. -/
  next : Nat
  nodes : JsString → Option Nat
  /-- The events so far, the latest first. No operation reads it. -/
  history : List CallEvent

namespace SharedGraph

/-- The node stored under an id. -/
def stored (s : SharedGraph) (id : JsString) : Option DelegationNode := (s.nodes id).map s.heap

def record (s : SharedGraph) (event : CallEvent) : SharedGraph :=
  { s with history := event :: s.history }

/-- Store a new object. -/
def setNew (s : SharedGraph) (node : DelegationNode) : SharedGraph :=
  { s with
    heap := Function.update s.heap s.next node
    next := s.next + 1
    nodes := Function.update s.nodes node.id (some s.next) }

/-- Change an object in place and store it. -/
def setInPlace (s : SharedGraph) (ref : Nat) (node : DelegationNode) : SharedGraph :=
  { s with
    heap := Function.update s.heap ref node
    nodes := Function.update s.nodes node.id (some ref) }

def deleteNode (s : SharedGraph) (id : JsString) : SharedGraph :=
  { s with nodes := Function.update s.nodes id none }

/-- Parent validation, child insert and parent link in one serialization point. -/
def registerNodeAtomic (s : SharedGraph) (node : DelegationNode) :
    Except Error Unit × SharedGraph :=
  if node.parentId = some node.id then
    (.error (.error (js "Delegation " ++ node.id ++ js " cannot be its own parent")), s)
  else
    match s.stored node.id with
    | some existing =>
        match registrationConflict existing node with
        | none => (.ok (), s)
        | some conflict => (.error (.error (js "Delegation " ++ node.id ++
            js " is already registered with a different " ++ conflict)), s)
    | none =>
        match node.parentId with
        | none => (.ok (), (s.setNew node).record (.inserted node.id none))
        | some parentId =>
            match s.stored parentId with
            | none => (.error (.error (js "Parent delegation not found: " ++ parentId)), s)
            | some parent =>
                (.ok (), ((s.setNew (linkChild parent node.id)).setNew node).record
                  (.inserted node.id (some parentId)))

end SharedGraph

/-- The parent object a removal stores back. -/
def unlinkChild (parent : DelegationNode) (childId : JsString) : DelegationNode :=
  { parent with children := parent.children.filter (· ≠ childId) }

inductive GraphCall where
  | setRevoked (delegationId : JsString) (revoked : Bool)
  | registerDelegation (params : DelegationParams)
  | removeDelegation (delegationId : JsString)

/-- Where a running call stands: the `await` it goes on from, and what came of it. -/
inductive Awaiting where
  /-- `setRevoked` has read the node. -/
  | nodeToMark (delegationId : JsString) (revoked : Bool) (node : Option Nat)
  /-- `setRevoked` has stored the marked copy. -/
  | markStored (delegationId : JsString) (revoked : Bool)
  /-- `setRevoked` has read the node back. -/
  | markToCompare (delegationId : JsString) (revoked : Bool) (stored : Option Nat)
  /-- `registerDelegation` has read the parent. -/
  | parentToCheck (params : DelegationParams) (parent : Option Nat)
  /-- `registerDelegation` has read the id it registers. -/
  | existingToCheck (params : DelegationParams) (existing : Option Nat)
  /-- `removeDelegation` has read the node. -/
  | nodeToRemove (delegationId : JsString) (node : Option Nat)
  /-- `removeDelegation` has read the node's parent. -/
  | parentToUnlink (delegationId parentId : JsString) (parent : Option Nat)
  /-- `removeDelegation` has stored the parent without the child. -/
  | parentUnlinked (delegationId : JsString)

/-- What became of a call when it ran up to its next `await`. -/
inductive Progress where
  | awaits (next : Awaiting)
  | returnsMark (carried : Bool)
  | returnsNode (node : DelegationNode)
  | returns
  | throws (error : Error)

def Progress.awaiting : Progress → Option Awaiting
  | .awaits next => some next
  | _ => none

open SharedGraph

/-- A call up to its first `await`. -/
def GraphCall.begin (s : SharedGraph) : GraphCall → Progress × SharedGraph
  | .setRevoked delegationId revoked =>
      (.awaits (.nodeToMark delegationId revoked (s.nodes delegationId)),
        s.record (.calledMark delegationId revoked))
  | .registerDelegation params =>
      if params.parentId = some params.id then
        (.throws (.error (js "Delegation " ++ params.id ++ js " cannot be its own parent")), s)
      else
        match params.parentId.filter (· ≠ []) with
        | some parentId => (.awaits (.parentToCheck params (s.nodes parentId)), s)
        | none => (.awaits (.existingToCheck params (s.nodes params.id)), s)
  | .removeDelegation delegationId =>
      (.awaits (.nodeToRemove delegationId (s.nodes delegationId)), s)

def deleteAndReturn (s : SharedGraph) (delegationId : JsString) : Progress × SharedGraph :=
  (.returns, (s.deleteNode delegationId).record (.deleted delegationId))

/-- A call from one `await` to the next. -/
def Awaiting.resume (s : SharedGraph) : Awaiting → Progress × SharedGraph
  | .nodeToMark delegationId _ none =>
      (.throws (.error (js "Delegation not found: " ++ delegationId)), s)
  | .nodeToMark delegationId revoked (some ref) =>
      (.awaits (.markStored delegationId revoked),
        s.setNew { s.heap ref with revoked := some revoked })
  | .markStored delegationId revoked =>
      (.awaits (.markToCompare delegationId revoked (s.nodes delegationId)), s)
  | .markToCompare delegationId revoked stored =>
      let carried := ((stored.map s.heap).bind (·.revoked)).getD false == revoked
      (.returnsMark carried, s.record (.returnedMark delegationId revoked carried))
  | .parentToCheck params none =>
      (.throws (.error (js "Parent delegation not found: " ++ params.parentId.getD [])), s)
  | .parentToCheck params (some _) => (.awaits (.existingToCheck params (s.nodes params.id)), s)
  | .existingToCheck params (some existing) =>
      match registrationConflict (s.heap existing) params.node with
      | none => (.returnsNode (s.heap existing), s)
      | some conflict => (.throws (.error (js "Delegation " ++ params.id ++
          js " is already registered with a different " ++ conflict)), s)
  | .existingToCheck params none =>
      match s.registerNodeAtomic params.node with
      | (.ok _, s') => (.returnsNode params.node, s')
      | (.error error, s') => (.throws error, s')
  | .nodeToRemove _ none => (.returns, s)
  | .nodeToRemove delegationId (some ref) =>
      match (s.heap ref).parentId.filter (· ≠ []) with
      | some parentId => (.awaits (.parentToUnlink delegationId parentId (s.nodes parentId)), s)
      | none => deleteAndReturn s delegationId
  | .parentToUnlink delegationId _ none => deleteAndReturn s delegationId
  | .parentToUnlink delegationId _ (some ref) =>
      (.awaits (.parentUnlinked delegationId),
        (s.setInPlace ref (unlinkChild (s.heap ref) delegationId)).record (.unlinked delegationId))
  | .parentUnlinked delegationId => deleteAndReturn s delegationId

/-- The graph and the calls that are running. -/
structure CallPool where
  graph : SharedGraph
  calls : Nat → Option Awaiting

inductive PoolAction where
  | begin (call : Nat) (graphCall : GraphCall)
  | resume (call : Nat)

/-- One call runs up to its next `await`, or to its end. -/
def CallPool.act (pool : CallPool) : PoolAction → Option CallPool
  | .begin call graphCall =>
      match pool.calls call with
      | some _ => none
      | none =>
          let (progress, graph) := graphCall.begin pool.graph
          some ⟨graph, Function.update pool.calls call progress.awaiting⟩
  | .resume call =>
      match pool.calls call with
      | none => none
      | some awaiting =>
          let (progress, graph) := awaiting.resume pool.graph
          some ⟨graph, Function.update pool.calls call progress.awaiting⟩

def emptyPool : CallPool where
  graph :=
    { heap := fun _ =>
        { id := [], parentId := none, children := [], issuerDid := [], subjectDid := [] }
      next := 0
      nodes := fun _ => none
      history := [] }
  calls := fun _ => none

/-- The pools of the interleavings whose actions are all `allowed` where they happen. -/
inductive Interleaved (allowed : CallPool → PoolAction → Prop) : CallPool → Prop
  | start : Interleaved allowed emptyPool
  | act {pool pool' : CallPool} {action : PoolAction} :
      Interleaved allowed pool → allowed pool action → pool.act action = some pool' →
        Interleaved allowed pool'

/-- The pool a schedule leaves, `none` when an action of it cannot happen. -/
def afterSchedule (schedule : List PoolAction) : Option CallPool :=
  schedule.foldlM (fun pool action => pool.act action) emptyPool

theorem interleaved_afterSchedule {allowed : CallPool → PoolAction → Prop}
    {schedule : List PoolAction} {pool : CallPool} (hrun : afterSchedule schedule = some pool)
    (hallowed : ∀ before action pool, before ++ [action] <+: schedule →
      afterSchedule before = some pool → allowed pool action) : Interleaved allowed pool := by
  induction schedule using List.reverseRecOn generalizing pool with
  | nil =>
      cases hrun
      exact .start
  | append_singleton schedule action ih =>
      rw [afterSchedule, List.foldlM_append] at hrun
      obtain ⟨before, hbefore, hact⟩ := Option.bind_eq_some_iff.mp hrun
      refine .act (ih hbefore fun earlier action' pool' hbegins => ?_)
        (hallowed schedule action before (List.prefix_refl _) hbefore) (by simpa using hact)
      exact hallowed earlier action' pool' (hbegins.trans (List.prefix_append _ _))

end KyaOs
