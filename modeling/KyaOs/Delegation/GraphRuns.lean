import KyaOs.Delegation.CascadingRevocation
import KyaOs.Graph.ParentWalk

/-!
# Runs of the delegation graph

Every call changes the graph by a few kinds of steps. `GraphStep` lists the
steps of all calls but removal, so what each of them keeps survives a call that
stopped half way. `Rooted` is what every reachable graph satisfies as long as
no removal takes a node away from under its children.
-/

namespace KyaOs

open Js Effect ParentWalk MemoryDelegationGraphStorage

variable {ω : Type}

section History

/-- The mark `setRevoked` last recorded on a delegation. -/
def lastMark : List GraphEvent → JsString → Option Bool
  | [], _ => none
  | .marked marked revoked :: history, id =>
      if marked = id then some revoked else lastMark history id
  | _ :: history, id => lastMark history id

/-- The `parentId` a delegation was last registered with. -/
def registeredParent : List GraphEvent → JsString → Option (Option JsString)
  | [], _ => none
  | .registered registered parentId :: history, id =>
      if registered = id then some parentId else registeredParent history id
  | _ :: history, id => registeredParent history id

/-- Whether a delegation was registered and not removed since. -/
def standing : List GraphEvent → JsString → Bool
  | [], _ => false
  | .registered registered _ :: history, id => registered = id || standing history id
  | .removed removed :: history, id => removed ≠ id && standing history id
  | _ :: history, id => standing history id

/-- Registered ancestors of a delegation, the delegation itself included. -/
def RegisteredAncestor (history : List GraphEvent) : JsString → JsString → Prop :=
  Relation.ReflTransGen fun parent child => registeredParent history child = some (some parent)

end History

section Steps

/-- The parent link of a stored node, `none` when the id is not stored. -/
def parentOf (nodes : NodeMap) (id : JsString) : Option (Option JsString) :=
  (nodes.lookup id).map (·.parentId)

theorem isParent_iff {nodes : NodeMap} {parent child : JsString} :
    IsParent nodes.lookup DelegationNode.parentId parent child ↔
      parentOf nodes child = some (some parent) := by
  simp [IsParent, parentOf]

theorem parentOf_eq_none {nodes : NodeMap} {id : JsString} :
    parentOf nodes id = none ↔ nodes.lookup id = none := by
  simp [parentOf]

theorem parentOf_insert (nodes : NodeMap) (node : DelegationNode) (key id : JsString) :
    parentOf (nodes.insert key node) id =
      if id = key then some node.parentId else parentOf nodes id := by
  by_cases h : id = key
  · rw [if_pos h, h, parentOf, AList.lookup_insert, Option.map_some]
  · rw [if_neg h, parentOf, AList.lookup_insert_ne h, parentOf]

theorem parentOf_erase (nodes : NodeMap) (key id : JsString) :
    parentOf (nodes.erase key) id = if id = key then none else parentOf nodes id := by
  by_cases h : id = key
  · rw [if_pos h, h, parentOf, AList.lookup_erase, Option.map_none]
  · rw [if_neg h, parentOf, AList.lookup_erase_ne h, parentOf]

/-- Writing a node over one with the same parent changes no link. -/
theorem parentOf_insert_same {nodes : NodeMap} (node : DelegationNode) {old : DelegationNode}
    (hold : nodes.lookup node.id = some old) (hparent : node.parentId = old.parentId)
    (id : JsString) : parentOf (nodes.insert node.id node) id = parentOf nodes id := by
  rw [parentOf_insert]
  by_cases h : id = node.id
  · rw [if_pos h, h, parentOf, hold, Option.map_some, hparent]
  · rw [if_neg h]

/-- Nodes are stored under their own ids. -/
def Keyed (nodes : NodeMap) : Prop :=
  ∀ id node, nodes.lookup id = some node → node.id = id

theorem Keyed.insert {nodes : NodeMap} (h : Keyed nodes) (node : DelegationNode) :
    Keyed (nodes.insert node.id node) := by
  intro id stored hstored
  by_cases hid : id = node.id
  · subst hid
    rw [AList.lookup_insert] at hstored
    cases hstored
    rfl
  · rw [AList.lookup_insert_ne hid] at hstored
    exact h id stored hstored

theorem Keyed.erase {nodes : NodeMap} (h : Keyed nodes) (key : JsString) :
    Keyed (nodes.erase key) := by
  intro id stored hstored
  by_cases hid : id = key
  · subst hid
    rw [AList.lookup_erase] at hstored
    cases hstored
  · rw [AList.lookup_erase_ne hid] at hstored
    exact h id stored hstored

/-- The steps calls other than removal are made of. -/
inductive GraphStep : GraphState ω → GraphState ω → Prop
  | outside (s : GraphState ω) (o : ω) : GraphStep s { s with outside := o }
  | registerRoot {s : GraphState ω} {node : DelegationNode} :
      node.id ≠ [] → s.nodes.lookup node.id = none → node.parentId = none →
      GraphStep s ((s.store node).record (.registered node.id node.parentId))
  | registerChild {s : GraphState ω} {node parent : DelegationNode} {parentId : JsString} :
      node.id ≠ [] → s.nodes.lookup node.id = none → node.parentId = some parentId →
      s.nodes.lookup parentId = some parent →
      GraphStep s (((s.store (linkChild parent node.id)).store node).record
        (.registered node.id node.parentId))
  | mark {s : GraphState ω} {id : JsString} {node : DelegationNode} (revoked : Bool) :
      s.nodes.lookup id = some node →
      GraphStep s ((s.store { node with revoked := some revoked }).record (.marked id revoked))

open DelegationGraphManager CascadingRevocationManager

section Reads

variable {R : GraphState ω → GraphState ω → Prop}

theorem moves_outside {α : Type} (hR : ∀ s o, R s { s with outside := o }) (x : Eff ω Error α) :
    Moves R (outside x) := by
  intro s
  rw [outside, exec_zoom]
  exact .single (hR s _)

theorem moves_getNode (id : JsString) : Moves R (getNode id) :=
  Moves.get_bind fun _ => .refl

theorem moves_now (ports : RevocationPorts ω) : Moves R (now ports) :=
  Moves.get_bind fun _ => .refl

theorem moves_getChain (id : JsString) : Moves R (getChain id) :=
  Moves.get_bind fun _ => Moves.lift _ _

end Reads

theorem moves_setRevoked (id : JsString) (revoked : Bool) :
    Moves GraphStep (setRevoked id revoked : GraphM ω _) := by
  intro s
  rw [setRevoked, getNode]
  cases hnode : s.nodes.lookup id with
  | none => simp [exec_bind, hnode, Relation.ReflTransGen.refl]
  | some node =>
      simp only [exec_bind, exec_get, exec_pure, hnode, setNode, exec_modify]
      exact .single (.mark revoked hnode)

theorem moves_registerNodeAtomic {node : DelegationNode} (hid : node.id ≠ []) :
    Moves GraphStep (registerNodeAtomic node : GraphM ω _) := by
  refine (Moves.stopIf _ _).bind fun _ => Moves.get_bind fun s => ?_
  cases hexisting : s.nodes.lookup node.id with
  | some existing =>
      dsimp only
      cases registrationConflict existing node <;> exact .refl
  | none =>
      simp only [linkToParent]
      cases hparentId : node.parentId with
      | none =>
          simp only [setNode, exec_bind, exec_pure, exec_modify]
          exact .single (hparentId ▸ .registerRoot hid hexisting hparentId)
      | some parentId =>
          dsimp only
          cases hparent : s.nodes.lookup parentId with
          | none =>
              simp only [exec_bind, exec_throw]
              exact .refl
          | some parent =>
              simp only [setNode, exec_bind, exec_modify]
              exact .single (hparentId ▸ .registerChild hid hexisting hparentId hparent)

theorem moves_requireParent (parentId : Option JsString) :
    Moves GraphStep (requireParent parentId : GraphM ω _) := by
  cases parentId with
  | none => exact Moves.pure _
  | some parentId =>
      rw [requireParent]
      by_cases h : parentId = []
      · rw [if_pos h]
        exact Moves.pure _
      · rw [if_neg h]
        exact (moves_getNode _).bind fun _ => Moves.stopIf _ _

theorem moves_registerDelegation {params : DelegationParams} (hid : params.id ≠ []) :
    Moves GraphStep (registerDelegation params : GraphM ω _) := by
  refine (Moves.stopIf _ _).bind fun _ => (moves_requireParent _).bind fun _ =>
    (moves_getNode _).bind fun existing => ?_
  cases existing with
  | some existing =>
      dsimp only
      cases registrationConflict existing params.node with
      | none => exact Moves.pure _
      | some conflict => exact Moves.throw _
  | none => exact (moves_registerNodeAtomic hid).bind fun _ => Moves.pure _

theorem moves_publishRevocation (ports : RevocationPorts ω) (node : DelegationNode)
    (marked : Bool) (credentialStatus : Option CredentialStatus) :
    Moves GraphStep (publishRevocation ports node marked credentialStatus) := by
  cases credentialStatus with
  | some credentialStatus => exact moves_outside GraphStep.outside _
  | none => exact Moves.stopIf _ _

theorem moves_revokeNode (ports : RevocationPorts ω) (node : DelegationNode) (isRoot : Bool)
    (reason : Option JsString) (dryRun : Bool) (parentId : Option JsString) :
    Moves GraphStep (revokeNode ports node isRoot reason dryRun parentId) := by
  refine (moves_now ports).bind fun timestamp => ?_
  cases dryRun with
  | true => exact Moves.pure _
  | false =>
      exact (moves_setRevoked _ _).bind fun _ => (Moves.lift _).bind fun _ =>
        (moves_publishRevocation _ _ _ _).bind fun _ => Moves.pure _

theorem moves_runHook (options : CascadingRevocationOptions ω) (event : RevocationEvent) :
    Moves GraphStep (runHook options event) := by
  rw [runHook]
  cases options.onRevoke with
  | none => exact Moves.pure _
  | some onRevoke => exact moves_outside GraphStep.outside _

theorem moves_revokeDelegation (ports : RevocationPorts ω) (numberText : JsNumber → JsString)
    (id : JsString) (options : CascadingRevocationOptions ω) :
    Moves GraphStep (revokeDelegation ports numberText id options) := by
  refine (moves_getNode _).bind fun target => ?_
  cases target with
  | none => exact Moves.throw _
  | some target =>
      refine ((moves_getChain _).bind fun _ => Moves.pure _).bind fun _ =>
        (Moves.stopIf _ _).bind fun _ => (moves_revokeNode _ _ _ _ _ _).bind fun _ =>
        (moves_runHook _ _).bind fun _ => (Moves.get_bind fun _ => .refl).bind fun _ =>
        Moves.foldlM (fun events descendant => ?_) _ _
      exact (moves_revokeNode _ _ _ _ _ _).bind fun _ =>
        (moves_runHook _ _).bind fun _ => Moves.pure _

theorem moves_restoreDelegation (ports : RevocationPorts ω) (id : JsString) :
    Moves GraphStep (restoreDelegation ports id) := by
  refine (moves_getNode _).bind fun target => ?_
  cases target with
  | none => exact Moves.throw _
  | some target =>
      refine (moves_now _).bind fun _ => (Moves.lift _).bind fun credentialStatus => ?_
      refine Moves.bind ?_ fun _ => (moves_setRevoked _ _).bind fun _ => Moves.pure _
      cases credentialStatus with
      | none => exact Moves.pure _
      | some credentialStatus => exact moves_outside GraphStep.outside _

end Steps

section Invariant

/-- What every graph satisfies that no removal took a parent from: the stored
links are those of the registrations standing, and lead up to a root. -/
structure Rooted (s : GraphState ω) : Prop where
  keyed : Keyed s.nodes
  named : parentOf s.nodes [] = none
  parent_stored : ∀ id parentId, parentOf s.nodes id = some (some parentId) →
    parentOf s.nodes parentId ≠ none
  acyclic : Acyclic s.nodes.lookup DelegationNode.parentId
  registered : ∀ id, parentOf s.nodes id =
    if standing s.history id then registeredParent s.history id else none

theorem rooted_start (o : ω) : Rooted (⟨∅, [], o⟩ : GraphState ω) where
  keyed := by simp [Keyed]
  named := by simp [parentOf]
  parent_stored := by simp [parentOf]
  acyclic := by
    intro key hcycle
    obtain ⟨child, hlink, _⟩ := Relation.TransGen.head'_iff.mp hcycle
    obtain ⟨node, hnode, _⟩ := hlink
    cases hnode
  registered := by simp [parentOf, standing]

/-- A change that leaves every link and every registration as it was. -/
theorem Rooted.of_same_links {s s' : GraphState ω} (h : Rooted s) (hkeyed : Keyed s'.nodes)
    (hlinks : ∀ id, parentOf s'.nodes id = parentOf s.nodes id)
    (hhistory : ∀ id, registeredParent s'.history id = registeredParent s.history id ∧
      standing s'.history id = standing s.history id) : Rooted s' where
  keyed := hkeyed
  named := (hlinks []).trans h.named
  parent_stored := by
    intro id parentId hparent
    rw [hlinks] at hparent ⊢
    exact h.parent_stored id parentId hparent
  acyclic := h.acyclic.mono fun parent child hlink => by
    rwa [isParent_iff, ← hlinks, ← isParent_iff]
  registered := by
    intro id
    rw [hlinks, (hhistory id).1, (hhistory id).2]
    exact h.registered id

/-- A registration under a parent that is stored, if it names one. -/
theorem Rooted.of_registered {s s' : GraphState ω} (h : Rooted s) {key : JsString}
    {parentId : Option JsString} (hkeyed : Keyed s'.nodes) (hkey : key ≠ [])
    (hnew : parentOf s.nodes key = none)
    (hparent : ∀ id, parentId = some id → parentOf s.nodes id ≠ none)
    (hlinks : ∀ id, parentOf s'.nodes id =
      if id = key then some parentId else parentOf s.nodes id)
    (hhistory : s'.history = .registered key parentId :: s.history) : Rooted s' where
  keyed := hkeyed
  named := by rw [hlinks, if_neg hkey.symm, h.named]
  parent_stored := by
    have hstill : ∀ id, parentOf s.nodes id ≠ none → parentOf s'.nodes id ≠ none := by
      intro id hid
      rw [hlinks]
      split
      · simp
      · exact hid
    intro id above habove
    rw [hlinks] at habove
    split at habove
    · exact hstill above (hparent above (Option.some.inj habove))
    · exact hstill above (h.parent_stored id above habove)
  acyclic := by
    refine h.acyclic.add_leaf key ?_ ?_
    · intro child hlink
      rw [isParent_iff, hlinks] at hlink
      split at hlink
      · exact hparent key (Option.some.inj hlink) hnew
      · exact h.parent_stored child key hlink hnew
    · intro parent child hne hlink
      rwa [isParent_iff, hlinks, if_neg hne, ← isParent_iff] at hlink
  registered := by
    intro id
    rw [hlinks, hhistory]
    by_cases hid : id = key
    · simp [hid, standing, registeredParent]
    · simp [hid, Ne.symm hid, standing, registeredParent, h.registered id]

/-- A removal that leaves no stored node without its parent. -/
theorem Rooted.of_removed {s s' : GraphState ω} (h : Rooted s) {key : JsString}
    (hkeyed : Keyed s'.nodes) (hchildless : ∀ id, parentOf s.nodes id ≠ some (some key))
    (hlinks : ∀ id, parentOf s'.nodes id = if id = key then none else parentOf s.nodes id)
    (hhistory : s'.history = .removed key :: s.history) : Rooted s' where
  keyed := hkeyed
  named := by
    rw [hlinks]
    split
    · rfl
    · exact h.named
  parent_stored := by
    intro id parentId hparent
    rw [hlinks] at hparent ⊢
    split at hparent
    · cases hparent
    · rw [if_neg]
      · exact h.parent_stored id parentId hparent
      · rintro rfl
        exact hchildless id hparent
  acyclic := h.acyclic.mono fun parent child hlink => by
    rw [isParent_iff, hlinks] at hlink
    split at hlink
    · cases hlink
    · rwa [isParent_iff]
  registered := by
    intro id
    rw [hlinks, hhistory]
    by_cases hid : id = key
    · simp [hid, standing]
    · simp [hid, Ne.symm hid, standing, registeredParent, h.registered id]

@[simp] theorem store_nodes (s : GraphState ω) (node : DelegationNode) :
    (s.store node).nodes = s.nodes.insert node.id node := rfl

@[simp] theorem record_nodes (s : GraphState ω) (event : GraphEvent) :
    (s.record event).nodes = s.nodes := rfl

theorem GraphStep.rooted {s s' : GraphState ω} (hstep : GraphStep s s') (h : Rooted s) :
    Rooted s' := by
  cases hstep with
  | outside o => exact h.of_same_links h.keyed (fun _ => rfl) (fun _ => ⟨rfl, rfl⟩)
  | @registerRoot node hid hnew hroot =>
      refine h.of_registered (h.keyed.insert node) hid
        (parentOf_eq_none.mpr hnew) (by simp [hroot]) (fun id => ?_) rfl
      exact parentOf_insert _ _ _ _
  | @registerChild node parent parentId hid hnew hparentId hparent =>
      have hstored : s.nodes.lookup parent.id = some parent := by
        rwa [h.keyed _ _ hparent]
      refine h.of_registered
        ((h.keyed.insert (linkChild parent node.id)).insert node) hid
        (parentOf_eq_none.mpr hnew) ?_ (fun id => ?_) rfl
      · intro id hid'
        cases hparentId.symm.trans hid'
        simp [parentOf, hparent]
      · rw [record_nodes, store_nodes, parentOf_insert]
        congr 1
        exact parentOf_insert_same (linkChild parent node.id) hstored rfl id
  | @mark id node revoked hnode =>
      have hstored : s.nodes.lookup node.id = some node := by
        rwa [h.keyed _ _ hnode]
      refine h.of_same_links (h.keyed.insert { node with revoked := some revoked })
        (fun id => ?_) (fun _ => ⟨rfl, rfl⟩)
      exact parentOf_insert_same { node with revoked := some revoked } hstored rfl id

end Invariant

section Chains

variable {nodes : NodeMap}

/-- The loop of `getChainSync` is a walk up the parent links that ends where no
node is stored. -/
theorem chainFrom_walk {visited : List JsString} {cursor : Option JsString}
    {chain result : List DelegationNode} (h : chainFrom nodes visited cursor chain = .ok result) :
    ∃ walked last, Walk nodes.lookup DelegationNode.parentId cursor walked last ∧
      result = walked.reverse ++ chain ∧
      ∀ id, last = some id → id = [] ∨ nodes.lookup id = none := by
  induction visited, cursor, chain using chainFrom.induct nodes with
  | case1 visited chain =>
      rw [chainFrom] at h
      cases h
      exact ⟨[], none, .stop _, rfl, by simp⟩
  | case2 visited chain =>
      rw [chainFrom, if_pos rfl] at h
      cases h
      exact ⟨[], some [], .stop _, rfl, fun id hid => .inl (Option.some.inj hid).symm⟩
  | case3 visited chain id hid hvisited =>
      rw [chainFrom, if_neg hid, dif_pos hvisited] at h
      cases h
  | case4 visited chain id hid hvisited hnode =>
      rw [chainFrom, if_neg hid, dif_neg hvisited] at h
      split at h
      · cases h
        exact ⟨[], some id, .stop _, rfl, fun id' hid' => .inr (Option.some.inj hid' ▸ hnode)⟩
      · rename_i node' hnode'
        cases hnode.symm.trans hnode'
  | case5 visited chain id hid hvisited node hnode ih =>
      rw [chainFrom, if_neg hid, dif_neg hvisited] at h
      split at h
      · rename_i hnode'
        cases hnode.symm.trans hnode'
      · rename_i node' hnode'
        cases hnode.symm.trans hnode'
        obtain ⟨walked, last, hwalk, hresult, hlast⟩ := ih h
        exact ⟨node :: walked, last, .step hnode hwalk, by simp [hresult], hlast⟩

/-- In a rooted graph every chain is a walk to a parentless node. -/
theorem Rooted.chain_walk {s : GraphState ω} (h : Rooted s) {id : JsString}
    {chain : List DelegationNode} (hchain : getChainSync s.nodes id = .ok chain) :
    ∃ walked last, Walk s.nodes.lookup DelegationNode.parentId (some id) walked last ∧
      chain = walked.reverse ∧ ∀ key, last = some key → s.nodes.lookup key = none := by
  obtain ⟨walked, last, hwalk, hresult, hlast⟩ := chainFrom_walk hchain
  refine ⟨walked, last, hwalk, by simpa using hresult, fun key hkey => ?_⟩
  rcases hlast key hkey with rfl | hmissing
  · exact parentOf_eq_none.mp h.named
  · exact hmissing

/-- Every registered ancestor of a stored delegation is stored, as its ancestor. -/
theorem Rooted.ancestor_stored {s : GraphState ω} (h : Rooted s) {ancestor id : JsString}
    (hanc : RegisteredAncestor s.history ancestor id) (hid : parentOf s.nodes id ≠ none) :
    IsAncestor s.nodes.lookup DelegationNode.parentId ancestor id ∧
      parentOf s.nodes ancestor ≠ none := by
  induction hanc with
  | refl => exact ⟨.refl, hid⟩
  | @tail parent child _ hlink ih =>
      have hparent : parentOf s.nodes child = some (some parent) := by
        have hregistered := h.registered child
        split at hregistered
        · rw [hregistered, hlink]
        · exact (hid hregistered).elim
      obtain ⟨habove, hstored⟩ := ih (h.parent_stored child parent hparent)
      exact ⟨habove.tail (isParent_iff.mpr hparent), hstored⟩

/-- A chain holds every registered ancestor of its delegation, as stored. -/
theorem Rooted.mem_chain {s : GraphState ω} (h : Rooted s) {ancestor id : JsString}
    {chain : List DelegationNode} (hchain : getChainSync s.nodes id = .ok chain)
    (hanc : RegisteredAncestor s.history ancestor id) (hid : parentOf s.nodes id ≠ none) :
    ∃ node ∈ chain, s.nodes.lookup ancestor = some node := by
  obtain ⟨walked, last, hwalk, rfl, hlast⟩ := h.chain_walk hchain
  obtain ⟨habove, hstored⟩ := h.ancestor_stored hanc hid
  obtain ⟨node, hnode⟩ := Option.ne_none_iff_exists'.mp (mt parentOf_eq_none.mpr hstored)
  exact ⟨node, List.mem_reverse.mpr (hwalk.mem_of_isAncestor hlast rfl habove hnode), hnode⟩

end Chains

end KyaOs
