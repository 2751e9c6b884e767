import KyaOs.Delegation.GraphInterleaving

/-!
# Races on the delegation graph

A call that stores back a node it read earlier undoes what another call stored
there in between. `Unraced` rules this out step by step; then every step is one
of the changes in `SharedStep`, no recorded revocation is lost and no child
falls out of its parent's list.
-/

namespace KyaOs

open Js MemoryDelegationGraphStorage

section History

/-- `setRevoked(id, true)` has returned `true`, and since then `id` was not
removed and no `setRevoked(id, false)` was called. -/
def markStands : List CallEvent → JsString → Bool
  | [], _ => false
  | .returnedMark marked true true :: history, id => marked = id || markStands history id
  | .calledMark marked false :: history, id => marked ≠ id && markStands history id
  | .deleted removed :: history, id => removed ≠ id && markStands history id
  | _ :: history, id => markStands history id

/-- The parent a delegation was registered under, while neither is removed. -/
def linkStands : List CallEvent → JsString → Option JsString
  | [], _ => none
  | .inserted inserted parentId :: history, id =>
      if inserted = id then parentId else linkStands history id
  | .unlinked removed :: history, id => if removed = id then none else linkStands history id
  | .deleted removed :: history, id =>
      if removed = id then none else (linkStands history id).filter (· ≠ removed)
  | _ :: history, id => linkStands history id

end History

section Views

variable {s : SharedGraph}

/-- Nodes are stored under their own ids, and no stored object is still to be made. -/
def SharedGraph.Keyed (s : SharedGraph) : Prop :=
  ∀ id ref, s.nodes id = some ref → ref < s.next ∧ (s.heap ref).id = id

theorem stored_eq_some {id : JsString} {node : DelegationNode} :
    s.stored id = some node ↔ ∃ ref, s.nodes id = some ref ∧ s.heap ref = node :=
  Option.map_eq_some_iff

theorem SharedGraph.Keyed.stored_id (h : s.Keyed) {id : JsString} {node : DelegationNode}
    (hnode : s.stored id = some node) : node.id = id := by
  obtain ⟨ref, href, rfl⟩ := stored_eq_some.mp hnode
  exact (h id ref href).2

theorem stored_setNew (h : s.Keyed) (node : DelegationNode) :
    (s.setNew node).stored = Function.update s.stored node.id (some node) := by
  funext id
  by_cases hid : id = node.id
  · subst hid
    simp [SharedGraph.stored, SharedGraph.setNew]
  · rw [Function.update_of_ne hid]
    simp only [SharedGraph.stored, SharedGraph.setNew, Function.update_of_ne hid]
    refine Option.map_congr fun ref href => Function.update_of_ne ?_ _ _
    exact (h id ref href).1.ne

theorem keyed_setNew (h : s.Keyed) (node : DelegationNode) : (s.setNew node).Keyed := by
  intro id ref href
  by_cases hid : id = node.id
  · subst hid
    simp only [SharedGraph.setNew, Function.update_self, Option.some.injEq] at href ⊢
    subst href
    simp
  · simp only [SharedGraph.setNew, Function.update_of_ne hid] at href ⊢
    obtain ⟨hlt, hkey⟩ := h id ref href
    rw [Function.update_of_ne hlt.ne]
    exact ⟨by omega, hkey⟩

/-- Changing an object in place shows under no other id than its own. -/
theorem stored_setInPlace (h : s.Keyed) {ref : Nat} {node : DelegationNode}
    (hsame : (s.heap ref).id = node.id) :
    (s.setInPlace ref node).stored = Function.update s.stored node.id (some node) := by
  funext id
  by_cases hid : id = node.id
  · subst hid
    simp [SharedGraph.stored, SharedGraph.setInPlace]
  · rw [Function.update_of_ne hid]
    simp only [SharedGraph.stored, SharedGraph.setInPlace, Function.update_of_ne hid]
    refine Option.map_congr fun other hother => Function.update_of_ne ?_ _ _
    rintro rfl
    exact hid ((h id other hother).2.symm.trans hsame)

theorem keyed_setInPlace (h : s.Keyed) {ref : Nat} {node : DelegationNode} (hlt : ref < s.next)
    (hsame : (s.heap ref).id = node.id) : (s.setInPlace ref node).Keyed := by
  intro id other hother
  by_cases hid : id = node.id
  · subst hid
    simp only [SharedGraph.setInPlace, Function.update_self, Option.some.injEq] at hother ⊢
    subst hother
    simpa using hlt
  · simp only [SharedGraph.setInPlace, Function.update_of_ne hid] at hother ⊢
    obtain ⟨hlt', hkey⟩ := h id other hother
    refine ⟨hlt', ?_⟩
    rw [Function.update_of_ne, hkey]
    rintro rfl
    exact hid (hkey.symm.trans hsame)

theorem stored_deleteNode (id : JsString) :
    (s.deleteNode id).stored = Function.update s.stored id none := by
  funext other
  by_cases hid : other = id
  · subst hid
    simp [SharedGraph.stored, SharedGraph.deleteNode]
  · simp [SharedGraph.stored, SharedGraph.deleteNode, Function.update_of_ne hid]

theorem keyed_deleteNode (h : s.Keyed) (id : JsString) : (s.deleteNode id).Keyed := by
  intro other ref href
  by_cases hid : other = id
  · subst hid
    simp [SharedGraph.deleteNode] at href
  · simp only [SharedGraph.deleteNode, Function.update_of_ne hid] at href
    exact h other ref href

end Views

/-- The changes of the stored nodes that undo nothing. A mark is reported as
recorded only for an id that is `settled`. -/
inductive SharedStep (settled : JsString → Prop) (s s' : SharedGraph) : Prop
  | reads : s'.stored = s.stored → s'.history = s.history → SharedStep settled s s'
  | callsMark (id : JsString) (revoked : Bool) :
      s'.stored = s.stored → s'.history = .calledMark id revoked :: s.history →
        SharedStep settled s s'
  | returnsMark (id : JsString) (revoked carried : Bool) :
      (revoked = true → carried = true →
        settled id ∧ ∃ node, s.stored id = some node ∧ node.revoked = some true) →
      s'.stored = s.stored →
      s'.history = .returnedMark id revoked carried :: s.history → SharedStep settled s s'
  | marks {id : JsString} {node : DelegationNode} (revoked : Bool) :
      s.stored id = some node → (revoked = false → markStands s.history id = false) →
      s'.stored = Function.update s.stored id (some { node with revoked := some revoked }) →
      s'.history = s.history → SharedStep settled s s'
  | insertsRoot {node : DelegationNode} :
      s.stored node.id = none → node.parentId = none → node.children = [] →
      s'.stored = Function.update s.stored node.id (some node) →
      s'.history = .inserted node.id none :: s.history → SharedStep settled s s'
  | insertsChild {node parent : DelegationNode} {parentId : JsString} :
      s.stored node.id = none → node.parentId = some parentId → node.children = [] →
      s.stored parentId = some parent →
      s'.stored = Function.update
        (Function.update s.stored parentId (some (linkChild parent node.id))) node.id (some node) →
      s'.history = .inserted node.id (some parentId) :: s.history → SharedStep settled s s'
  | unlinks {id parentId : JsString} {parent : DelegationNode} :
      s.stored parentId = some parent →
      s'.stored = Function.update s.stored parentId (some (unlinkChild parent id)) →
      s'.history = .unlinked id :: s.history → SharedStep settled s s'
  | deletes (id : JsString) :
      s'.stored = Function.update s.stored id none →
      s'.history = .deleted id :: s.history → SharedStep settled s s'

section Kept

variable {stored : JsString → Option DelegationNode} {settled : JsString → Prop}

/-- The node stored under an id carries the revocation mark. -/
def CarriesMark (stored : JsString → Option DelegationNode) (id : JsString) : Prop :=
  ∃ node, stored id = some node ∧ node.revoked = some true

/-- A stored child is listed by its stored parent. -/
def Listed (stored : JsString → Option DelegationNode) (id parentId : JsString) : Prop :=
  ∃ child parent, stored id = some child ∧ child.parentId = some parentId ∧
    stored parentId = some parent ∧ id ∈ parent.children

theorem CarriesMark.update {id key : JsString} {node node' : DelegationNode}
    (h : CarriesMark stored id) (hnode : stored key = some node)
    (hrevoked : id = key → node.revoked = some true → node'.revoked = some true) :
    CarriesMark (Function.update stored key (some node')) id := by
  obtain ⟨marked, hmarked, hmark⟩ := h
  by_cases hid : id = key
  · subst hid
    cases hnode.symm.trans hmarked
    exact ⟨node', Function.update_self _ _ _, hrevoked rfl hmark⟩
  · exact ⟨marked, (Function.update_of_ne hid _ _).trans hmarked, hmark⟩

theorem CarriesMark.other {id key : JsString} {entry : Option DelegationNode}
    (h : CarriesMark stored id) (hne : id ≠ key) :
    CarriesMark (Function.update stored key entry) id := by
  obtain ⟨marked, hmarked, hmark⟩ := h
  exact ⟨marked, (Function.update_of_ne hne _ _).trans hmarked, hmark⟩

theorem CarriesMark.ne_of_none {id key : JsString} (h : CarriesMark stored id)
    (hnone : stored key = none) : id ≠ key := by
  rintro rfl
  obtain ⟨marked, hmarked, _⟩ := h
  rw [hnone] at hmarked
  cases hmarked

theorem Listed.update {id parentId key : JsString} {node node' : DelegationNode}
    (h : Listed stored id parentId) (hnode : stored key = some node)
    (hparent : node'.parentId = node.parentId)
    (hchildren : id ∈ node.children → id ∈ node'.children) :
    Listed (Function.update stored key (some node')) id parentId := by
  obtain ⟨child, parent, hchild, hup, hstored, hlisted⟩ := h
  have hread : ∀ {other : JsString} {node₁ : DelegationNode}, stored other = some node₁ →
      ∃ node₂, Function.update stored key (some node') other = some node₂ ∧
        node₂.parentId = node₁.parentId ∧ (id ∈ node₁.children → id ∈ node₂.children) := by
    intro other node₁ hother
    by_cases hkey : other = key
    · subst hkey
      cases hnode.symm.trans hother
      exact ⟨node', Function.update_self _ _ _, hparent, hchildren⟩
    · exact ⟨node₁, (Function.update_of_ne hkey _ _).trans hother, rfl, fun hmem => hmem⟩
  obtain ⟨child', hchild', hup', -⟩ := hread hchild
  obtain ⟨parent', hparent', -, hkept⟩ := hread hstored
  exact ⟨child', parent', hchild', hup'.trans hup, hparent', hkept hlisted⟩

theorem Listed.other {id parentId key : JsString} {entry : Option DelegationNode}
    (h : Listed stored id parentId) (hid : id ≠ key) (hparentId : parentId ≠ key) :
    Listed (Function.update stored key entry) id parentId := by
  obtain ⟨child, parent, hchild, hup, hstored, hlisted⟩ := h
  exact ⟨child, parent, (Function.update_of_ne hid _ _).trans hchild, hup,
    (Function.update_of_ne hparentId _ _).trans hstored, hlisted⟩

theorem Listed.ne_of_none {id parentId key : JsString} (h : Listed stored id parentId)
    (hnone : stored key = none) : id ≠ key ∧ parentId ≠ key := by
  obtain ⟨child, parent, hchild, -, hstored, -⟩ := h
  constructor
  · rintro rfl
    rw [hnone] at hchild
    cases hchild
  · rintro rfl
    rw [hnone] at hstored
    cases hstored

/-- What no step but a race breaks: child lists hold no id twice, marks that
stand are stored, and children whose link stands are listed. -/
structure Kept (s : SharedGraph) : Prop where
  nodup : ∀ id node, s.stored id = some node → node.children.Nodup
  marks : ∀ id, markStands s.history id = true → CarriesMark s.stored id
  links : ∀ id parentId, linkStands s.history id = some parentId → Listed s.stored id parentId

theorem nodup_linkChild {parent : DelegationNode} (h : parent.children.Nodup)
    (childId : JsString) : (linkChild parent childId).children.Nodup := by
  rw [linkChild]
  split
  · exact h
  · rename_i hnew
    exact List.nodup_append'.mpr ⟨h, List.nodup_singleton _, by simpa using hnew⟩

theorem mem_linkChild {parent : DelegationNode} {childId id : JsString}
    (h : id ∈ parent.children) : id ∈ (linkChild parent childId).children := by
  rw [linkChild]
  split
  · exact h
  · exact List.mem_append_left _ h

theorem childId_mem_linkChild (parent : DelegationNode) (childId : JsString) :
    childId ∈ (linkChild parent childId).children := by
  rw [linkChild]
  split
  · assumption
  · simp

/-- A property of stored nodes survives storing one more node that has it. -/
theorem forall_stored_update {P : DelegationNode → Prop} {key : JsString} {node : DelegationNode}
    (h : ∀ id node, stored id = some node → P node) (hnode : P node) :
    ∀ id node', Function.update stored key (some node) id = some node' → P node' := by
  intro id node' hstored
  by_cases hid : id = key
  · subst hid
    rw [Function.update_self] at hstored
    cases hstored
    exact hnode
  · rw [Function.update_of_ne hid] at hstored
    exact h id node' hstored

theorem SharedStep.keeps_nodup {s s' : SharedGraph} (hstep : SharedStep settled s s')
    (h : ∀ id node, s.stored id = some node → node.children.Nodup) :
    ∀ id node, s'.stored id = some node → node.children.Nodup := by
  cases hstep with
  | reads hstored _ => rwa [hstored]
  | callsMark _ _ hstored _ => rwa [hstored]
  | returnsMark _ _ _ _ hstored _ => rwa [hstored]
  | @marks id node revoked hnode _ hstored _ =>
      have hchildren : node.children.Nodup := h id node hnode
      rw [hstored]
      exact forall_stored_update h hchildren
  | insertsRoot _ _ hchildren hstored _ =>
      rw [hstored]
      exact forall_stored_update h (by simp [hchildren])
  | insertsChild _ _ hchildren hparent hstored _ =>
      rw [hstored]
      exact forall_stored_update (forall_stored_update h (nodup_linkChild (h _ _ hparent) _))
        (by simp [hchildren])
  | unlinks hparent hstored _ =>
      rw [hstored]
      exact forall_stored_update h ((h _ _ hparent).filter _)
  | deletes id hstored _ =>
      rw [hstored]
      intro other node hother
      by_cases hid : other = id
      · subst hid
        rw [Function.update_self] at hother
        cases hother
      · rw [Function.update_of_ne hid] at hother
        exact h other node hother

theorem SharedStep.keeps_marks {s s' : SharedGraph} (hstep : SharedStep settled s s')
    (h : ∀ id, markStands s.history id = true → CarriesMark s.stored id) :
    ∀ id, markStands s'.history id = true → CarriesMark s'.stored id := by
  intro id hmark
  cases hstep with
  | reads hstored hhistory =>
      rw [hhistory] at hmark
      exact hstored ▸ h id hmark
  | callsMark called revoked hstored hhistory =>
      rw [hhistory] at hmark
      rw [hstored]
      cases revoked with
      | true => exact h id hmark
      | false => exact h id (by simp [markStands] at hmark; exact hmark.2)
  | returnsMark returned revoked carried hread hstored hhistory =>
      rw [hhistory] at hmark
      rw [hstored]
      match revoked, carried with
      | true, true =>
          by_cases hid : returned = id
          · exact hid ▸ (hread rfl rfl).2
          · exact h id (by simpa [markStands, hid] using hmark)
      | true, false => exact h id hmark
      | false, _ => exact h id hmark
  | @marks marked node revoked hnode hfalse hstored hhistory =>
      rw [hhistory] at hmark
      rw [hstored]
      refine (h id hmark).update hnode fun hid _ => ?_
      cases revoked with
      | true => rfl
      | false =>
          rw [hid, hfalse rfl] at hmark
          cases hmark
  | insertsRoot hnew _ _ hstored hhistory =>
      rw [hhistory] at hmark
      rw [hstored]
      exact (h id hmark).other ((h id hmark).ne_of_none hnew)
  | @insertsChild node parent above hnew _ _ hparent hstored hhistory =>
      rw [hhistory] at hmark
      rw [hstored]
      have hkept : CarriesMark
          (Function.update s.stored above (some (linkChild parent node.id))) id :=
        (h id hmark).update hparent fun _ hrevoked => hrevoked
      exact hkept.other ((h id hmark).ne_of_none hnew)
  | unlinks hparent hstored hhistory =>
      rw [hhistory] at hmark
      rw [hstored]
      exact (h id hmark).update hparent fun _ hrevoked => hrevoked
  | deletes removed hstored hhistory =>
      rw [hhistory] at hmark
      rw [hstored]
      simp only [markStands, Bool.and_eq_true, decide_eq_true_eq] at hmark
      exact (h id hmark.2).other (Ne.symm hmark.1)

theorem SharedStep.keeps_links {s s' : SharedGraph} (hstep : SharedStep settled s s')
    (h : ∀ id parentId, linkStands s.history id = some parentId → Listed s.stored id parentId) :
    ∀ id parentId, linkStands s'.history id = some parentId → Listed s'.stored id parentId := by
  intro id parentId hlink
  cases hstep with
  | reads hstored hhistory =>
      rw [hhistory] at hlink
      exact hstored ▸ h id parentId hlink
  | callsMark _ _ hstored hhistory =>
      rw [hhistory] at hlink
      exact hstored ▸ h id parentId hlink
  | returnsMark _ _ _ _ hstored hhistory =>
      rw [hhistory] at hlink
      exact hstored ▸ h id parentId hlink
  | marks revoked hnode _ hstored hhistory =>
      rw [hhistory] at hlink
      rw [hstored]
      exact (h id parentId hlink).update hnode rfl fun hmem => hmem
  | insertsRoot hnew _ _ hstored hhistory =>
      rw [hhistory, linkStands] at hlink
      rw [hstored]
      split at hlink
      · cases hlink
      · have hold := h id parentId hlink
        exact hold.other (hold.ne_of_none hnew).1 (hold.ne_of_none hnew).2
  | @insertsChild node parent above hnew hup _ hparent hstored hhistory =>
      rw [hhistory, linkStands] at hlink
      rw [hstored]
      split at hlink
      · rename_i hid
        cases hlink
        subst hid
        have hne : parentId ≠ node.id := by
          rintro rfl
          rw [hnew] at hparent
          cases hparent
        refine ⟨node, linkChild parent node.id, Function.update_self _ _ _, hup, ?_,
          childId_mem_linkChild _ _⟩
        rw [Function.update_of_ne hne, Function.update_self]
      · have hold := h id parentId hlink
        have hkept : Listed (Function.update s.stored above (some (linkChild parent node.id))) id
            parentId := hold.update hparent rfl mem_linkChild
        exact hkept.other (hold.ne_of_none hnew).1 (hold.ne_of_none hnew).2
  | @unlinks removed above parent hparent hstored hhistory =>
      rw [hhistory, linkStands] at hlink
      rw [hstored]
      split at hlink
      · cases hlink
      · rename_i hne
        refine (h id parentId hlink).update hparent rfl fun hmem => ?_
        exact List.mem_filter.mpr ⟨hmem, by simpa using Ne.symm hne⟩
  | deletes removed hstored hhistory =>
      rw [hhistory, linkStands] at hlink
      rw [hstored]
      split at hlink
      · cases hlink
      · rename_i hne
        obtain ⟨hlink, hparentId⟩ := Option.filter_eq_some_iff.mp hlink
        exact (h id parentId hlink).other (Ne.symm hne) (by simpa using hparentId)

theorem SharedStep.kept {s s' : SharedGraph} (hstep : SharedStep settled s s') (h : Kept s) :
    Kept s' where
  nodup := hstep.keeps_nodup h.nodup
  marks := hstep.keeps_marks h.marks
  links := hstep.keeps_links h.links

end Kept

section Unraced

/-- What a call does next with a node it read is what it would do with the node
stored now: nothing else stored in between is undone. -/
def Awaiting.actsOnStored (s : SharedGraph) : Awaiting → Prop
  | .nodeToMark delegationId revoked (some ref) =>
      ∃ node, s.stored delegationId = some node ∧
        { s.heap ref with revoked := some revoked } = { node with revoked := some revoked }
  | .parentToUnlink delegationId parentId (some ref) =>
      ∃ parent, s.stored parentId = some parent ∧
        unlinkChild (s.heap ref) delegationId = unlinkChild parent delegationId
  | .markToCompare delegationId true stored =>
      (s.stored delegationId).bind (·.revoked) = (stored.map s.heap).bind (·.revoked)
  | _ => True

/-- No running call is still to clear the mark of `id`. -/
def CallPool.Settled (pool : CallPool) (id : JsString) : Prop :=
  ∀ call node, pool.calls call ≠ some (.nodeToMark id false node)

/-- The action acts on the nodes stored now, and no `setRevoked(id, false)` is
still to write when a `setRevoked(id, true)` returns. -/
def CallPool.Unraced (pool : CallPool) : PoolAction → Prop
  | .begin _ _ => True
  | .resume call => ∀ awaiting, pool.calls call = some awaiting →
      awaiting.actsOnStored pool.graph ∧
        ∀ id stored, awaiting = .markToCompare id true stored → pool.Settled id

/-- What every interleaving without races keeps. -/
structure CallPool.Inv (pool : CallPool) : Prop where
  keyed : pool.graph.Keyed
  parents : ∀ call id parentId ref,
    pool.calls call = some (.parentToUnlink id parentId (some ref)) → ref < pool.graph.next
  unmarking : ∀ id, markStands pool.graph.history id = true →
    ∀ call node, pool.calls call ≠ some (.nodeToMark id false node)
  kept : Kept pool.graph

variable {settled : JsString → Prop}

/-- What one call does up to its next `await`, seen by the invariant. -/
structure Advances (settled : JsString → Prop) (s : SharedGraph) (next : Option Awaiting)
    (s' : SharedGraph) : Prop where
  step : SharedStep settled s s'
  keyed : s'.Keyed
  grows : s.next ≤ s'.next
  parent : ∀ id parentId ref, next = some (.parentToUnlink id parentId (some ref)) → ref < s'.next
  unmarking : ∀ id node, next = some (.nodeToMark id false node) →
    markStands s'.history id = false

theorem Advances.ends {s s' : SharedGraph} (hstep : SharedStep settled s s') (hkeyed : s'.Keyed)
    (hgrows : s.next ≤ s'.next) : Advances settled s none s' :=
  ⟨hstep, hkeyed, hgrows, nofun, nofun⟩

theorem Advances.fails {s : SharedGraph} (h : s.Keyed) : Advances settled s none s :=
  .ends (.reads rfl rfl) h le_rfl

theorem Advances.waits {s s' : SharedGraph} {next : Awaiting} (hstep : SharedStep settled s s')
    (hkeyed : s'.Keyed) (hgrows : s.next ≤ s'.next)
    (hparent : ∀ id parentId parent, next ≠ .parentToUnlink id parentId parent)
    (hmark : ∀ id node, next ≠ .nodeToMark id false node) : Advances settled s (some next) s' :=
  ⟨hstep, hkeyed, hgrows, fun _ _ _ h => (hparent _ _ _ (Option.some.inj h)).elim,
    fun _ _ h => (hmark _ _ (Option.some.inj h)).elim⟩

theorem advances_deleteAndReturn {s : SharedGraph} (h : s.Keyed) (id : JsString) :
    Advances settled s (deleteAndReturn s id).1.awaiting (deleteAndReturn s id).2 :=
  .ends (.deletes id (stored_deleteNode id) rfl) (keyed_deleteNode h id) le_rfl

theorem begin_advances {s : SharedGraph} (h : s.Keyed) (graphCall : GraphCall) :
    Advances settled s (graphCall.begin s).1.awaiting (graphCall.begin s).2 := by
  cases graphCall with
  | setRevoked id revoked =>
      refine ⟨.callsMark id revoked rfl rfl, h, le_rfl, nofun, fun id' node hawaits => ?_⟩
      obtain ⟨rfl, rfl, -⟩ := Awaiting.nodeToMark.inj (Option.some.inj hawaits)
      simp [GraphCall.begin, SharedGraph.record, markStands]
  | registerDelegation params =>
      simp only [GraphCall.begin]
      split
      · exact .fails h
      · split
        · exact .waits (.reads rfl rfl) h le_rfl nofun nofun
        · exact .waits (.reads rfl rfl) h le_rfl nofun nofun
  | removeDelegation id => exact .waits (.reads rfl rfl) h le_rfl nofun nofun

theorem registerNodeAtomic_advances {s : SharedGraph} (h : s.Keyed) (params : DelegationParams) :
    Advances settled s none (s.registerNodeAtomic params.node).2 := by
  rw [SharedGraph.registerNodeAtomic]
  split
  · exact .fails h
  · cases hexisting : s.stored params.node.id with
    | some existing =>
        dsimp only
        cases registrationConflict existing params.node <;> exact .fails h
    | none =>
        cases hparentId : params.node.parentId with
        | none =>
            exact .ends (.insertsRoot hexisting hparentId rfl (stored_setNew h _) rfl)
              (keyed_setNew h _) (Nat.le_succ _)
        | some parentId =>
            dsimp only
            cases hparent : s.stored parentId with
            | none => exact .fails h
            | some parent =>
                have hlinked := keyed_setNew h (linkChild parent params.node.id)
                have hkey : parent.id = parentId := h.stored_id hparent
                refine .ends (.insertsChild hexisting hparentId rfl hparent ?_ rfl)
                  (keyed_setNew hlinked _) ?_
                · change ((s.setNew _).setNew params.node).stored = _
                  rw [stored_setNew hlinked, stored_setNew h, ← hkey]
                  rfl
                · simp only [SharedGraph.record, SharedGraph.setNew]
                  omega

theorem resume_advances {s : SharedGraph} (hkeyed : s.Keyed) {awaiting : Awaiting}
    (hstored : awaiting.actsOnStored s)
    (hsettled : ∀ id stored, awaiting = .markToCompare id true stored → settled id)
    (hparent : ∀ id parentId ref, awaiting = .parentToUnlink id parentId (some ref) → ref < s.next)
    (hmark : ∀ id node, awaiting = .nodeToMark id false node → markStands s.history id = false) :
    Advances settled s (awaiting.resume s).1.awaiting (awaiting.resume s).2 := by
  cases awaiting with
  | nodeToMark id revoked node =>
      cases node with
      | none => exact .fails hkeyed
      | some ref =>
          obtain ⟨node, hnode, hsame⟩ := hstored
          refine .waits (.marks revoked hnode ?_ ?_ rfl) (keyed_setNew hkeyed _) (Nat.le_succ _)
            nofun nofun
          · rintro rfl
            exact hmark id (some ref) rfl
          · rw [Awaiting.resume, stored_setNew hkeyed, hsame, ← hkeyed.stored_id hnode]
  | markStored id revoked => exact .waits (.reads rfl rfl) hkeyed le_rfl nofun nofun
  | markToCompare id revoked stored =>
      refine .ends (.returnsMark id revoked _ ?_ rfl rfl) hkeyed le_rfl
      rintro rfl hcarried
      have hread : (s.stored id).bind (·.revoked) = some true := by
        rw [show (s.stored id).bind (·.revoked) = _ from hstored]
        cases hmarked : (stored.map s.heap).bind (·.revoked) with
        | none => simp [hmarked] at hcarried
        | some mark => simpa [hmarked] using hcarried
      exact ⟨hsettled id stored rfl, Option.bind_eq_some_iff.mp hread⟩
  | parentToCheck params parent =>
      cases parent with
      | none => exact .fails hkeyed
      | some ref => exact .waits (.reads rfl rfl) hkeyed le_rfl nofun nofun
  | existingToCheck params existing =>
      cases existing with
      | some ref =>
          simp only [Awaiting.resume]
          split <;> exact .fails hkeyed
      | none =>
          have hregisters : Advances settled s none (s.registerNodeAtomic params.node).2 :=
            registerNodeAtomic_advances hkeyed params
          simp only [Awaiting.resume]
          generalize s.registerNodeAtomic params.node = result at hregisters ⊢
          rcases result with ⟨_ | _, s'⟩ <;> exact hregisters
  | nodeToRemove id node =>
      cases node with
      | none => exact .fails hkeyed
      | some ref =>
          simp only [Awaiting.resume]
          split
          · refine ⟨.reads rfl rfl, hkeyed, le_rfl, fun id' parentId' ref' hawaits => ?_,
              by rintro _ _ ⟨⟩⟩
            obtain ⟨-, -, href⟩ := Awaiting.parentToUnlink.inj (Option.some.inj hawaits)
            exact (hkeyed _ _ href).1
          · exact advances_deleteAndReturn hkeyed id
  | parentToUnlink id parentId parent =>
      cases parent with
      | none => exact advances_deleteAndReturn hkeyed id
      | some ref =>
          obtain ⟨node, hnode, hsame⟩ := hstored
          have hid : (s.heap ref).id = (unlinkChild (s.heap ref) id).id := rfl
          refine .waits (.unlinks hnode ?_ rfl)
            (keyed_setInPlace hkeyed (hparent id parentId ref rfl) hid) le_rfl (by rintro _ _ _ ⟨⟩)
            (by rintro _ _ ⟨⟩)
          change (s.setInPlace ref (unlinkChild (s.heap ref) id)).stored = _
          have hkey : node.id = parentId := hkeyed.stored_id hnode
          rw [stored_setInPlace hkeyed hid, hsame, ← hkey]
          rfl
  | parentUnlinked id => exact advances_deleteAndReturn hkeyed id

/-- A mark that stands after a step stood before it or is of a settled id. -/
theorem markStands_of_step {s s' : SharedGraph} (hstep : SharedStep settled s s') {id : JsString}
    (hmark : markStands s'.history id = true) : markStands s.history id = true ∨ settled id := by
  cases hstep with
  | reads _ hhistory =>
      rw [hhistory] at hmark
      exact .inl hmark
  | callsMark called revoked _ hhistory =>
      rw [hhistory] at hmark
      cases revoked with
      | true => exact .inl hmark
      | false => exact .inl (Bool.and_eq_true_iff.mp hmark).2
  | returnsMark returned revoked carried hread _ hhistory =>
      rw [hhistory] at hmark
      match revoked, carried with
      | true, true =>
          rcases Bool.or_eq_true_iff.mp hmark with hid | hbefore
          · exact .inr (of_decide_eq_true hid ▸ (hread rfl rfl).1)
          · exact .inl hbefore
      | true, false => exact .inl hmark
      | false, _ => exact .inl hmark
  | marks _ _ _ _ hhistory =>
      rw [hhistory] at hmark
      exact .inl hmark
  | insertsRoot _ _ _ _ hhistory =>
      rw [hhistory] at hmark
      exact .inl hmark
  | insertsChild _ _ _ _ _ hhistory =>
      rw [hhistory] at hmark
      exact .inl hmark
  | unlinks _ _ hhistory =>
      rw [hhistory] at hmark
      exact .inl hmark
  | deletes removed _ hhistory =>
      rw [hhistory] at hmark
      exact .inl (Bool.and_eq_true_iff.mp hmark).2

theorem CallPool.Inv.advance {pool : CallPool} (h : pool.Inv) {call : Nat}
    {next : Option Awaiting} {s' : SharedGraph}
    (hadvances : Advances pool.Settled pool.graph next s') :
    CallPool.Inv ⟨s', Function.update pool.calls call next⟩ where
  keyed := hadvances.keyed
  parents := by
    intro other id parentId ref hother
    by_cases hcall : other = call
    · subst hcall
      simp only [Function.update_self] at hother
      exact hadvances.parent id parentId ref hother
    · simp only [Function.update_of_ne hcall] at hother
      exact (h.parents other id parentId ref hother).trans_le hadvances.grows
  unmarking := by
    intro id hmark other node hother
    by_cases hcall : other = call
    · subst hcall
      simp only [Function.update_self] at hother
      rw [hadvances.unmarking id node hother] at hmark
      cases hmark
    · simp only [Function.update_of_ne hcall] at hother
      rcases markStands_of_step hadvances.step hmark with hbefore | hsettled
      · exact h.unmarking id hbefore other node hother
      · exact hsettled other node hother
  kept := hadvances.step.kept h.kept

theorem CallPool.Inv.act {pool pool' : CallPool} (h : pool.Inv) {action : PoolAction}
    (hunraced : pool.Unraced action) (hact : pool.act action = some pool') : pool'.Inv := by
  cases action with
  | begin call graphCall =>
      simp only [CallPool.act] at hact
      split at hact
      · cases hact
      · cases hact
        exact h.advance (begin_advances h.keyed graphCall)
  | resume call =>
      simp only [CallPool.act] at hact
      split at hact
      · cases hact
      · rename_i awaiting hawaiting
        cases hact
        obtain ⟨hstored, hsettled⟩ := hunraced awaiting hawaiting
        refine h.advance (resume_advances h.keyed hstored hsettled ?_ ?_)
        · rintro id parentId ref rfl
          exact h.parents call id parentId ref hawaiting
        · rintro id node rfl
          by_contra hmark
          exact h.unmarking id (by simpa using hmark) call node hawaiting

theorem Interleaved.inv {pool : CallPool} (h : Interleaved CallPool.Unraced pool) : pool.Inv := by
  induction h with
  | start =>
      exact ⟨nofun, nofun, by simp [emptyPool, markStands],
        by simp [emptyPool, SharedGraph.stored], by simp [emptyPool, markStands],
        by simp [emptyPool, linkStands]⟩
  | act _ hunraced hact ih => exact ih.act hunraced hact

/-- Without races no recorded revocation is lost, and every delegation stays
listed exactly once by the parent it was registered under. -/
theorem unraced_keeps {pool : CallPool} (h : Interleaved CallPool.Unraced pool) :
    (∀ id, markStands pool.graph.history id = true →
      ∃ node, pool.graph.stored id = some node ∧ node.revoked = some true) ∧
    ∀ id parentId, linkStands pool.graph.history id = some parentId →
      ∃ child parent, pool.graph.stored id = some child ∧ child.parentId = some parentId ∧
        pool.graph.stored parentId = some parent ∧ parent.children.count id = 1 := by
  have hkept := h.inv.kept
  refine ⟨hkept.marks, fun id parentId hlink => ?_⟩
  obtain ⟨child, parent, hchild, hup, hparent, hmem⟩ := hkept.links id parentId hlink
  exact ⟨child, parent, hchild, hup, hparent,
    List.count_eq_one_of_mem (hkept.nodup parentId parent hparent) hmem⟩

theorem begin_awaiting {s : SharedGraph} (graphCall : GraphCall) :
    s.history ⊆ (graphCall.begin s).2.history ∧
      ∀ id revoked node, (graphCall.begin s).1.awaiting = some (.nodeToMark id revoked node) →
        .calledMark id revoked ∈ (graphCall.begin s).2.history := by
  cases graphCall with
  | setRevoked id revoked =>
      refine ⟨List.subset_cons_self _ _, fun id' revoked' node hawaits => ?_⟩
      obtain ⟨rfl, rfl, -⟩ := Awaiting.nodeToMark.inj (Option.some.inj hawaits)
      exact List.mem_cons_self
  | registerDelegation params =>
      simp only [GraphCall.begin]
      split
      · exact ⟨List.Subset.refl _, nofun⟩
      · split <;> exact ⟨List.Subset.refl _, nofun⟩
  | removeDelegation id => exact ⟨List.Subset.refl _, nofun⟩

theorem registerNodeAtomic_history (s : SharedGraph) (node : DelegationNode) :
    s.history ⊆ (s.registerNodeAtomic node).2.history := by
  rw [SharedGraph.registerNodeAtomic]
  split
  · exact List.Subset.refl _
  · split
    · split <;> exact List.Subset.refl _
    · split
      · exact List.subset_cons_self _ _
      · split
        · exact List.Subset.refl _
        · exact List.subset_cons_self _ _

theorem resume_awaiting {s : SharedGraph} (awaiting : Awaiting) :
    s.history ⊆ (awaiting.resume s).2.history ∧
      ∀ id revoked node, (awaiting.resume s).1.awaiting ≠ some (.nodeToMark id revoked node) := by
  cases awaiting with
  | nodeToMark id revoked node => cases node <;> exact ⟨List.Subset.refl _, by rintro _ _ _ ⟨⟩⟩
  | markStored id revoked => exact ⟨List.Subset.refl _, by rintro _ _ _ ⟨⟩⟩
  | markToCompare id revoked stored => exact ⟨List.subset_cons_self _ _, by rintro _ _ _ ⟨⟩⟩
  | parentToCheck params parent => cases parent <;> exact ⟨List.Subset.refl _, by rintro _ _ _ ⟨⟩⟩
  | existingToCheck params existing =>
      cases existing with
      | some ref =>
          simp only [Awaiting.resume]
          split <;> exact ⟨List.Subset.refl _, by rintro _ _ _ ⟨⟩⟩
      | none =>
          have hgrows := registerNodeAtomic_history s params.node
          simp only [Awaiting.resume]
          generalize s.registerNodeAtomic params.node = result at hgrows ⊢
          rcases result with ⟨_ | _, s'⟩ <;> exact ⟨hgrows, by rintro _ _ _ ⟨⟩⟩
  | nodeToRemove id node =>
      cases node with
      | none => exact ⟨List.Subset.refl _, by rintro _ _ _ ⟨⟩⟩
      | some ref =>
          simp only [Awaiting.resume]
          split
          · exact ⟨List.Subset.refl _, by rintro _ _ _ ⟨⟩⟩
          · exact ⟨List.subset_cons_self _ _, by rintro _ _ _ ⟨⟩⟩
  | parentToUnlink id parentId parent =>
      cases parent <;> exact ⟨List.subset_cons_self _ _, by rintro _ _ _ ⟨⟩⟩
  | parentUnlinked id => exact ⟨List.subset_cons_self _ _, by rintro _ _ _ ⟨⟩⟩

theorem calledMark_of_pending {allowed : CallPool → PoolAction → Prop} {pool : CallPool}
    (h : Interleaved allowed pool) {call : Nat} {id : JsString} {revoked : Bool}
    {node : Option Nat} (hcall : pool.calls call = some (.nodeToMark id revoked node)) :
    .calledMark id revoked ∈ pool.graph.history := by
  induction h generalizing call node with
  | start => cases hcall
  | @act pool pool' action _ _ hact ih =>
      cases action with
      | begin other graphCall =>
          simp only [CallPool.act] at hact
          split at hact <;> cases hact
          obtain ⟨hgrows, hcalled⟩ := begin_awaiting (s := pool.graph) graphCall
          by_cases hsame : call = other
          · subst hsame
            simp only [Function.update_self] at hcall
            exact hcalled id revoked node hcall
          · simp only [Function.update_of_ne hsame] at hcall
            exact hgrows (ih hcall)
      | resume other =>
          simp only [CallPool.act] at hact
          split at hact <;> cases hact
          rename_i awaiting hawaiting
          obtain ⟨hgrows, hnone⟩ := resume_awaiting (s := pool.graph) awaiting
          by_cases hsame : call = other
          · subst hsame
            simp only [Function.update_self] at hcall
            exact (hnone id revoked node hcall).elim
          · simp only [Function.update_of_ne hsame] at hcall
            exact hgrows (ih hcall)

/-- Where nobody has called `setRevoked(id, false)`, none is still to write. -/
theorem settled_of_not_called {allowed : CallPool → PoolAction → Prop} {pool : CallPool}
    (h : Interleaved allowed pool) {id : JsString}
    (hnone : .calledMark id false ∉ pool.graph.history) : pool.Settled id :=
  fun _ _ hcall => hnone (calledMark_of_pending h hcall)

theorem Interleaved.begin {pool pool' : CallPool} (h : Interleaved CallPool.Unraced pool)
    (call : Nat) (graphCall : GraphCall) (hact : pool.act (.begin call graphCall) = some pool') :
    Interleaved CallPool.Unraced pool' :=
  .act h (show pool.Unraced (.begin call graphCall) from trivial) hact

theorem Interleaved.resume {pool pool' : CallPool} (h : Interleaved CallPool.Unraced pool)
    (call : Nat) (hunraced : pool.Unraced (.resume call))
    (hact : pool.act (.resume call) = some pool') : Interleaved CallPool.Unraced pool' :=
  .act h hunraced hact

def rootParams : DelegationParams :=
  { id := js "root", parentId := none, issuerDid := js "did:a", subjectDid := js "did:b" }

def childParams : DelegationParams :=
  { id := js "child", parentId := some (js "root"), issuerDid := js "did:b"
    subjectDid := js "did:c" }

def otherParams : DelegationParams :=
  { id := js "other", parentId := none, issuerDid := js "did:c", subjectDid := js "did:d" }

/-- A marking overlaps with the registration of another delegation. -/
theorem unraced_keeps_overlapped :
    ∃ pool, Interleaved CallPool.Unraced pool ∧
      markStands pool.graph.history (js "root") = true ∧
      ∃ node, pool.graph.stored (js "root") = some node ∧ node.revoked = some true := by
  have h₁ := Interleaved.start.begin 0 (.registerDelegation rootParams) rfl
  have h₂ := h₁.resume 0 (fun awaiting h => by cases h; exact ⟨trivial, nofun⟩) rfl
  have h₃ := h₂.begin 1 (.setRevoked (js "root") true) rfl
  have h₄ := h₃.begin 2 (.registerDelegation otherParams) rfl
  have h₅ := h₄.resume 1 (fun awaiting h => by cases h; exact ⟨⟨_, rfl, rfl⟩, nofun⟩) rfl
  have h₆ := h₅.resume 2 (fun awaiting h => by cases h; exact ⟨trivial, nofun⟩) rfl
  have h₇ := h₆.resume 1 (fun awaiting h => by cases h; exact ⟨trivial, nofun⟩) rfl
  have h₈ := h₇.resume 1 (fun awaiting h => by
    cases h
    refine ⟨rfl, fun id stored hread => ?_⟩
    cases hread
    exact settled_of_not_called h₇ (by decide +kernel)) rfl
  exact ⟨_, h₈, rfl, (unraced_keeps h₈).1 (js "root") rfl⟩

/-- Registration of a root and of a child under it. -/
def registerRootAndChild : List PoolAction :=
  [.begin 0 (.registerDelegation rootParams), .resume 0,
    .begin 1 (.registerDelegation childParams), .resume 1, .resume 1]

/-- A removal of the child has read the root when the root is marked, and stores
the unmarked root back. -/
def lostMark : List PoolAction :=
  registerRootAndChild ++
    [.begin 2 (.removeDelegation (js "child")), .resume 2,
      .begin 3 (.setRevoked (js "root") true), .resume 3, .resume 3, .resume 3,
      .resume 2]

/-- A marking of the root has read it when the child is registered, and stores
the childless root back. -/
def lostChild : List PoolAction :=
  [.begin 0 (.registerDelegation rootParams), .resume 0,
    .begin 2 (.setRevoked (js "root") true),
    .begin 1 (.registerDelegation childParams), .resume 1, .resume 1,
    .resume 2]

theorem races_lose_updates :
    (∃ pool, Interleaved (fun _ _ => True) pool ∧
      markStands pool.graph.history (js "root") = true ∧
      ¬ ∃ node, pool.graph.stored (js "root") = some node ∧ node.revoked = some true) ∧
    ∃ pool, Interleaved (fun _ _ => True) pool ∧
      linkStands pool.graph.history (js "child") = some (js "root") ∧
      ¬ ∃ parent, pool.graph.stored (js "root") = some parent ∧
        parent.children.count (js "child") = 1 := by
  constructor
  · have hlost : (afterSchedule lostMark).map (fun pool =>
        (markStands pool.graph.history (js "root"),
          (pool.graph.stored (js "root")).bind (·.revoked))) = some (true, none) := by
      decide +kernel
    obtain ⟨pool, hrun, hpool⟩ := Option.map_eq_some_iff.mp hlost
    refine ⟨pool, interleaved_afterSchedule hrun (fun _ _ _ _ _ => trivial),
      congrArg Prod.fst hpool, ?_⟩
    rintro ⟨node, hnode, hrevoked⟩
    have hmark := congrArg Prod.snd hpool
    simp [hnode, hrevoked] at hmark
  · have hlost : (afterSchedule lostChild).map (fun pool =>
        (linkStands pool.graph.history (js "child"),
          (pool.graph.stored (js "root")).map (·.children))) =
            some (some (js "root"), some []) := by
      decide +kernel
    obtain ⟨pool, hrun, hpool⟩ := Option.map_eq_some_iff.mp hlost
    refine ⟨pool, interleaved_afterSchedule hrun (fun _ _ _ _ _ => trivial),
      congrArg Prod.fst hpool, ?_⟩
    rintro ⟨parent, hparent, hcount⟩
    have hchildren := congrArg Prod.snd hpool
    simp only [hparent, Option.map_some, Option.some.injEq] at hchildren
    rw [hchildren] at hcount
    cases hcount

end Unraced

end KyaOs
