import KyaOs.Delegation.GraphRuns

/-!
# Revocation over whole runs

A run is any series of calls from an empty graph, each to its end or to the
throw that stopped it, while the outside world changes as it likes. As long as
nothing is removed, a recorded revocation covers the whole registered subtree.
With removals, a validated chain is complete as long as none takes a node away
from under its children.
-/

namespace KyaOs

open Js Effect ParentWalk MemoryDelegationGraphStorage DelegationGraphManager
open CascadingRevocationManager

variable {ω : Type}

inductive GraphCommand (ω : Type) where
  | registerDelegation (params : DelegationParams)
  | revokeDelegation (delegationId : JsString) (options : CascadingRevocationOptions ω)
  | restoreDelegation (delegationId : JsString)
  | removeDelegation (delegationId : JsString)

variable (ports : RevocationPorts ω) (numberText : JsNumber → JsString)

def GraphCommand.run : GraphCommand ω → GraphM ω PUnit
  | .registerDelegation params => do
      let _ ← DelegationGraphManager.registerDelegation params
  | .revokeDelegation delegationId options => do
      let _ ← CascadingRevocationManager.revokeDelegation ports numberText delegationId options
  | .restoreDelegation delegationId => do
      let _ ← CascadingRevocationManager.restoreDelegation ports delegationId
  | .removeDelegation delegationId => DelegationGraphManager.removeDelegation delegationId

/-- The states of the runs whose calls are all `allowed` in the state they start in. -/
inductive Reachable (allowed : GraphState ω → GraphCommand ω → Prop) : GraphState ω → Prop
  | start (o : ω) : Reachable allowed ⟨∅, [], o⟩
  | call {s : GraphState ω} (command : GraphCommand ω) :
      Reachable allowed s → allowed s command →
        Reachable allowed (exec (command.run ports numberText) s).2
  | meanwhile {s : GraphState ω} (o : ω) :
      Reachable allowed s → Reachable allowed { s with outside := o }

/-- Only non-empty ids are registered. -/
def namesIds : GraphCommand ω → Prop
  | .registerDelegation params => params.id ≠ []
  | _ => True

/-- No removals. -/
def removesNothing : GraphCommand ω → Prop
  | .removeDelegation _ => False
  | _ => True

variable {ports numberText}

theorem moves_run {command : GraphCommand ω} (hnames : namesIds command)
    (hremoves : removesNothing command) :
    Moves GraphStep (command.run ports numberText) := by
  cases command with
  | registerDelegation params =>
      exact (moves_registerDelegation hnames).bind fun _ => Moves.pure _
  | revokeDelegation id options =>
      exact (moves_revokeDelegation _ _ _ _).bind fun _ => Moves.pure _
  | restoreDelegation id => exact (moves_restoreDelegation _ _).bind fun _ => Moves.pure _
  | removeDelegation id => exact hremoves.elim

section Queries

theorem exec_getChain (id : JsString) (s : GraphState ω) :
    exec (getChain id) s = (getChainSync s.nodes id, s) := by
  rw [getChain, exec_get_bind, exec_liftExcept]

/-- Nothing revokes a node of the chain: no mark, and its status bit was clear in the state that the
reads of the nodes before it left. -/
structure ReadsLive (ports : RevocationPorts ω) (s : GraphState ω) (before : List DelegationNode)
    (node : DelegationNode) : Prop where
  unmarked : node.revoked ≠ some true
  clear : ∃ s₁ s₂, exec (firstRevoked ports before) s = (.ok none, s₁) ∧
    exec (isStatusBitSet ports node) s₁ = (.ok false, s₂)

/-- Every node of the chain reads as live, root first, from this state on. -/
def AllLive (ports : RevocationPorts ω) (s : GraphState ω) (chain : List DelegationNode) : Prop :=
  ∀ before node after, chain = before ++ node :: after → ReadsLive ports s before node

theorem AllLive.of_mem {chain : List DelegationNode} {s : GraphState ω} {node : DelegationNode}
    (h : AllLive ports s chain) (hmem : node ∈ chain) :
    ∃ before after, chain = before ++ node :: after ∧ ReadsLive ports s before node := by
  obtain ⟨before, after, hplace⟩ := List.append_of_mem hmem
  exact ⟨before, after, hplace, h before node after hplace⟩

theorem firstRevoked_none {chain : List DelegationNode} {s s' : GraphState ω}
    (h : exec (firstRevoked ports chain) s = (.ok none, s')) : AllLive ports s chain := by
  induction chain generalizing s with
  | nil =>
      intro before node after hchain
      cases before <;> cases hchain
  | cons first chain ih =>
      rw [firstRevoked] at h
      obtain ⟨revoked, s₁, hfirst, h⟩ := exec_bind_ok.mp h
      cases revoked with
      | true => cases h
      | false =>
          intro before node after hchain
          cases before with
          | nil =>
              cases hchain
              rw [isNodeRevoked] at hfirst
              by_cases hmark : first.revoked = some true
              · rw [if_pos hmark] at hfirst
                cases hfirst
              · rw [if_neg hmark] at hfirst
                exact ⟨hmark, s, s₁, rfl, hfirst⟩
          | cons _ before =>
              cases hchain
              obtain ⟨hmark, s₂, s₃, hbefore, hbit⟩ := ih h before node after rfl
              refine ⟨hmark, s₂, s₃, ?_, hbit⟩
              rw [firstRevoked]
              exact exec_bind_ok.mpr ⟨false, s₁, hfirst, hbefore⟩

/-- `isRevoked` reads the graph and changes nothing of it. -/
theorem isRevoked_nodes (id : JsString) (s : GraphState ω) :
    (exec (isRevoked ports id) s).2.nodes = s.nodes := by
  have hbit : ∀ node, Moves (fun s s' : GraphState ω => s'.nodes = s.nodes)
      (isNodeRevoked ports node) := by
    intro node
    rw [isNodeRevoked]
    split
    · exact Moves.pure _
    · refine (Moves.lift _).bind fun credentialStatus => ?_
      cases credentialStatus with
      | none => exact Moves.pure _
      | some credentialStatus => exact moves_outside (fun _ _ => rfl) _
  have hfirst : ∀ chain, Moves (fun s s' : GraphState ω => s'.nodes = s.nodes)
      (firstRevoked ports chain) := by
    intro chain
    induction chain with
    | nil => exact Moves.pure _
    | cons node chain ih =>
        refine (hbit node).bind fun revoked => ?_
        cases revoked with
        | true => exact Moves.pure _
        | false => exact ih
  have hmoves : Moves (fun s s' : GraphState ω => s'.nodes = s.nodes) (isRevoked ports id) := by
    refine (moves_getChain id).bind fun chain => (hfirst chain).bind fun first => ?_
    cases first <;> exact Moves.pure _
  exact hmoves.keeps (I := fun s₁ => s₁.nodes = s.nodes) (fun _ _ hstep h => hstep.trans h) rfl

/-- `isRevoked` answered for a whole chain, and answers `false` only when every
node of it reads as live. -/
theorem isRevoked_ok {id : JsString} {s s' : GraphState ω} {outcome : Revocation}
    (h : exec (isRevoked ports id) s = (.ok outcome, s')) :
    ∃ chain, getChainSync s.nodes id = .ok chain ∧
      (outcome.revoked = false → AllLive ports s chain) := by
  rw [isRevoked] at h
  obtain ⟨chain, s₁, hchain, h⟩ := exec_bind_ok.mp h
  obtain ⟨first, s₂, hfirst, h⟩ := exec_bind_ok.mp h
  rw [exec_getChain] at hchain
  obtain ⟨hstored, rfl⟩ := Prod.mk.inj hchain
  refine ⟨chain, hstored, fun hrevoked => ?_⟩
  cases first with
  | none => exact firstRevoked_none hfirst
  | some node =>
      cases h
      cases hrevoked

end Queries

section Cascade

/-- What a run without removals keeps: every mark recorded last is the stored
node's, and every registration stands. -/
structure Recorded (s : GraphState ω) : Prop where
  rooted : Rooted s
  marks : ∀ id revoked, lastMark s.history id = some revoked →
    ∃ node, s.nodes.lookup id = some node ∧ node.revoked = some revoked
  standing : ∀ id, registeredParent s.history id ≠ none → standing s.history id = true

theorem recorded_start (o : ω) : Recorded (⟨∅, [], o⟩ : GraphState ω) where
  rooted := rooted_start o
  marks := by simp [lastMark]
  standing := by simp [registeredParent]

theorem GraphStep.marks {s s' : GraphState ω} (hstep : GraphStep s s') (hkeyed : Keyed s.nodes)
    (h : ∀ id revoked, lastMark s.history id = some revoked →
      ∃ node, s.nodes.lookup id = some node ∧ node.revoked = some revoked) :
    ∀ id revoked, lastMark s'.history id = some revoked →
      ∃ node, s'.nodes.lookup id = some node ∧ node.revoked = some revoked := by
  intro id revoked hmark
  cases hstep with
  | outside o => exact h id revoked hmark
  | @registerRoot node hid hnew hroot =>
      obtain ⟨stored, hstored, hrevoked⟩ := h id revoked hmark
      have hne : id ≠ node.id := fun hsame => by
        rw [hsame, hnew] at hstored
        cases hstored
      exact ⟨stored, (AList.lookup_insert_ne hne).trans hstored, hrevoked⟩
  | @registerChild node parent parentId hid hnew hparentId hparent =>
      obtain ⟨stored, hstored, hrevoked⟩ := h id revoked hmark
      have hne : id ≠ node.id := fun hsame => by
        rw [hsame, hnew] at hstored
        cases hstored
      rw [record_nodes, store_nodes, AList.lookup_insert_ne hne]
      by_cases hsame : id = parent.id
      · -- the parent is stored again with a longer child list and the same mark
        subst hsame
        have hkey : parent.id = parentId := hkeyed _ _ hparent
        rw [hkey, hparent] at hstored
        cases hstored
        exact ⟨linkChild parent node.id, AList.lookup_insert _, hrevoked⟩
      · exact ⟨stored, (AList.lookup_insert_ne hsame).trans hstored, hrevoked⟩
  | @mark marked node mark hnode =>
      have hkey : node.id = marked := hkeyed _ _ hnode
      change (if marked = id then some mark else lastMark s.history id) = some revoked at hmark
      rw [record_nodes, store_nodes, hkey]
      split at hmark
      · rename_i hsame
        cases hmark
        subst hsame
        exact ⟨_, AList.lookup_insert _, rfl⟩
      · rename_i hne
        obtain ⟨stored, hstored, hrevoked⟩ := h id revoked hmark
        exact ⟨stored, (AList.lookup_insert_ne (Ne.symm hne)).trans hstored, hrevoked⟩

theorem GraphStep.recorded {s s' : GraphState ω} (hstep : GraphStep s s') (h : Recorded s) :
    Recorded s' where
  rooted := hstep.rooted h.rooted
  marks := hstep.marks h.rooted.keyed h.marks
  standing := by
    intro id hregistered
    cases hstep with
    | outside o => exact h.standing id hregistered
    | mark revoked hnode => exact h.standing id hregistered
    | @registerRoot node hid hnew hroot =>
        by_cases hsame : node.id = id
        · simp [KyaOs.standing, GraphState.record, hsame]
        · simp [GraphState.record, GraphState.store, registeredParent, hsame] at hregistered
          simp [KyaOs.standing, GraphState.record, GraphState.store, h.standing id hregistered]
    | @registerChild node parent parentId hid hnew hparentId hparent =>
        by_cases hsame : node.id = id
        · simp [KyaOs.standing, GraphState.record, hsame]
        · simp [GraphState.record, GraphState.store, registeredParent, hsame] at hregistered
          simp [KyaOs.standing, GraphState.record, GraphState.store, h.standing id hregistered]

theorem Reachable.recorded {s : GraphState ω}
    (h : Reachable ports numberText
      (fun _ command => namesIds command ∧ removesNothing command) s) :
    Recorded s := by
  induction h with
  | start o => exact recorded_start o
  | call command _ hallowed ih =>
      exact (moves_run hallowed.1 hallowed.2).keeps (fun _ _ hstep => hstep.recorded) ih
  | meanwhile o _ ih => exact (GraphStep.outside _ o).recorded ih

theorem exec_requireParent_state (parentId : Option JsString) (s : GraphState ω) :
    (exec (requireParent parentId) s).2 = s := by
  cases parentId with
  | none => rfl
  | some parentId =>
      rw [requireParent]
      split
      · rfl
      · change (exec (stopIf _ _) s).2 = s
        rw [exec_stopIf]

/-- Registering a stored id again, with whatever fields, changes nothing. -/
theorem registerDelegation_stored {params : DelegationParams} {s : GraphState ω}
    {existing : DelegationNode} (hstored : s.nodes.lookup params.id = some existing) :
    (exec (registerDelegation params) s).2 = s := by
  rw [registerDelegation, exec_bind, exec_stopIf]
  split
  · rename_i s' hguard
    obtain rfl : s = s' := congrArg Prod.snd hguard
    have hparent := exec_requireParent_state params.parentId s
    rw [exec_bind]
    rcases hrun : exec (requireParent params.parentId) s with ⟨_ | _, s'⟩
    · simpa [hrun] using hparent
    · rw [hrun] at hparent
      cases hparent
      simp only [exec_bind, getNode, exec_get, exec_pure, hstored]
      cases registrationConflict existing params.node <;> rfl
  · rename_i hguard
    exact (congrArg Prod.snd hguard).symm

/-- Cascading revocation over whole runs: a mark recorded last on `p` covers
every delegation registered under `p`, before or after, restored or not; and a
repeated registration changes nothing. -/
theorem cascading_revocation {s : GraphState ω}
    (h : Reachable ports numberText
      (fun _ command => namesIds command ∧ removesNothing command) s) :
    (∀ p d, lastMark s.history p = some true → RegisteredAncestor s.history p d →
      ∀ outcome s', exec (isRevoked ports d) s = (.ok outcome, s') → outcome.revoked = true) ∧
    ∀ params : DelegationParams, registeredParent s.history params.id ≠ none →
      (exec (registerDelegation params) s).2.nodes = s.nodes := by
  have hrecorded := h.recorded
  have hstored : ∀ id, registeredParent s.history id ≠ none → parentOf s.nodes id ≠ none := by
    intro id hregistered
    rw [hrecorded.rooted.registered, if_pos (hrecorded.standing id hregistered)]
    exact hregistered
  constructor
  · intro p d hmark hanc outcome s' hrun
    obtain ⟨marked, hmarked, hrevoked⟩ := hrecorded.marks p true hmark
    have hd : parentOf s.nodes d ≠ none := by
      rcases Relation.ReflTransGen.cases_tail hanc with rfl | ⟨_, _, hlink⟩
      · simp [parentOf, hmarked]
      · exact hstored d (by simp [hlink])
    obtain ⟨chain, hchain, hlive⟩ := isRevoked_ok hrun
    obtain ⟨node, hmem, hnode⟩ := hrecorded.rooted.mem_chain hchain hanc hd
    cases hmarked.symm.trans hnode
    by_contra hfalse
    obtain ⟨_, _, _, hlives⟩ := (hlive (by simpa using hfalse)).of_mem hmem
    exact hlives.unmarked hrevoked
  · intro params hregistered
    obtain ⟨existing, hexisting⟩ := Option.ne_none_iff_exists'.mp
      (mt parentOf_eq_none.mpr (hstored params.id hregistered))
    rw [registerDelegation_stored hexisting]

/-- Ports that answer every call and hold no status bit. -/
def quietPorts : RevocationPorts PUnit where
  updateStatus _ _ := pure PUnit.unit
  checkStatus _ := pure false
  now _ := 0

def registration (id : String) (parentId : Option String) (issuerDid subjectDid : String) :
    DelegationParams :=
  { id := js id
    parentId := parentId.map js
    issuerDid := js issuerDid
    subjectDid := js subjectDid }

/-- The state a series of calls leaves. -/
def afterCalls (commands : List (GraphCommand PUnit)) : GraphState PUnit :=
  commands.foldl (fun s command => (exec (command.run quietPorts fun _ => []) s).2)
    { nodes := ∅, history := [], outside := PUnit.unit }

theorem reachable_afterCalls {allowed : GraphState PUnit → GraphCommand PUnit → Prop}
    {commands : List (GraphCommand PUnit)}
    (h : ∀ before command, before ++ [command] <+: commands → allowed (afterCalls before) command) :
    Reachable quietPorts (fun _ => []) allowed (afterCalls commands) := by
  induction commands using List.reverseRecOn with
  | nil => exact .start PUnit.unit
  | append_singleton commands command ih =>
      rw [afterCalls, List.foldl_append]
      refine .call command (ih fun before earlier hbegins => ?_) (h _ _ (List.prefix_refl _))
      exact h before earlier (hbegins.trans (List.prefix_append _ _))

/-- A root revoked before its child is registered, and the child restored. -/
def lateChild : List (GraphCommand PUnit) :=
  [.registerDelegation (registration "root" none "did:a" "did:b"),
    .revokeDelegation (js "root") {},
    .registerDelegation (registration "child" (some "root") "did:b" "did:c"),
    .restoreDelegation (js "child")]

theorem cascading_revocation_lateChild :
    (exec (isRevoked quietPorts (js "child")) (afterCalls lateChild)).1.toOption.map (·.revoked) =
        some true ∧
      (exec (registerDelegation (registration "root" none "did:a" "did:b"))
        (afterCalls lateChild)).2.nodes = (afterCalls lateChild).nodes := by
  have hallowed : ∀ command ∈ lateChild, namesIds command ∧ removesNothing command := by
    simp [lateChild, namesIds, removesNothing, registration, js, units]
  have hreach : Reachable quietPorts (fun _ => [])
      (fun _ command => namesIds command ∧ removesNothing command) (afterCalls lateChild) :=
    reachable_afterCalls fun before command hbegins =>
      hallowed command (hbegins.subset (by simp))
  obtain ⟨hrevoked, hrepeat⟩ := cascading_revocation hreach
  refine ⟨?_, hrepeat _ (by decide +kernel)⟩
  have hbelow : RegisteredAncestor (afterCalls lateChild).history (js "root") (js "child") :=
    .single (by decide +kernel)
  obtain ⟨outcome, s', hrun, -⟩ := exec_ok_of_map (f := fun _ => ()) (c := ())
    (x := isRevoked quietPorts (js "child")) (s := afterCalls lateChild) (by decide +kernel)
  have houtcome := hrevoked (js "root") (js "child") (by decide +kernel) hbelow outcome s' hrun
  rw [hrun]
  exact congrArg some houtcome

end Cascade

section Completeness

theorem exec_unlinkFromParent {s : GraphState ω} (hkeyed : Keyed s.nodes) (node : DelegationNode)
    (id : JsString) :
    ∃ s', exec (unlinkFromParent node id) s = (.ok ⟨⟩, s') ∧ Keyed s'.nodes ∧
      s'.history = s.history ∧ ∀ id', parentOf s'.nodes id' = parentOf s.nodes id' := by
  have hunchanged : ∃ s', (Except.ok (ε := Error) PUnit.unit, s) = (.ok ⟨⟩, s') ∧
      Keyed s'.nodes ∧ s'.history = s.history ∧
      ∀ id', parentOf s'.nodes id' = parentOf s.nodes id' :=
    ⟨s, rfl, hkeyed, rfl, fun _ => rfl⟩
  rw [unlinkFromParent]
  cases node.parentId with
  | none => exact hunchanged
  | some parentId =>
      by_cases hempty : parentId = []
      · simp only [hempty, if_true]
        exact hunchanged
      · simp only [hempty, if_false, getNode, exec_bind, exec_get, exec_pure]
        cases hparent : s.nodes.lookup parentId with
        | none => exact hunchanged
        | some parent =>
            have hstored : s.nodes.lookup parent.id = some parent := by
              rwa [hkeyed _ _ hparent]
            exact ⟨_, rfl, hkeyed.insert _, rfl, parentOf_insert_same
              { parent with children := parent.children.filter (· ≠ id) } hstored rfl⟩

/-- A removal takes one stored delegation away and leaves every other link. -/
theorem exec_removeDelegation {s : GraphState ω} (hkeyed : Keyed s.nodes) (id : JsString) :
    exec (removeDelegation id) s = (.ok ⟨⟩, s) ∨
      ∃ s', exec (removeDelegation id) s = (.ok ⟨⟩, s') ∧ Keyed s'.nodes ∧
        s'.history = .removed id :: s.history ∧
        ∀ id', parentOf s'.nodes id' = if id' = id then none else parentOf s.nodes id' := by
  simp only [removeDelegation, getNode, exec_bind, exec_get, exec_pure]
  cases s.nodes.lookup id with
  | none => exact .inl rfl
  | some node =>
      right
      obtain ⟨s₁, hrun, hkeyed₁, hhistory, hlinks⟩ := exec_unlinkFromParent hkeyed node id
      simp only [exec_bind, hrun, deleteNode, exec_modify]
      refine ⟨_, rfl, hkeyed₁.erase id, congrArg _ hhistory, fun id' => ?_⟩
      rw [record_nodes, parentOf_erase, hlinks]

/-- No stored node names the delegation a removal targets as its parent. -/
def removesLeaf (s : GraphState ω) : GraphCommand ω → Prop
  | .removeDelegation delegationId =>
      ∀ id node, s.nodes.lookup id = some node → node.parentId ≠ some delegationId
  | _ => True

theorem Reachable.rooted {s : GraphState ω}
    (h : Reachable ports numberText (fun s command => namesIds command ∧ removesLeaf s command)
      s) : Rooted s := by
  induction h with
  | start o => exact rooted_start o
  | @call s command _ hallowed ih =>
      obtain ⟨hnames, hleaf⟩ := hallowed
      cases command with
      | removeDelegation id =>
          rw [GraphCommand.run]
          rcases exec_removeDelegation ih.keyed id with
            hrun | ⟨s', hrun, hkeyed, hhistory, hlinks⟩
          · rwa [hrun]
          · rw [hrun]
            refine ih.of_removed hkeyed (fun id' hparent => ?_) hlinks hhistory
            obtain ⟨node, hnode, hup⟩ := Option.map_eq_some_iff.mp hparent
            exact hleaf id' node hnode hup
      | registerDelegation params =>
          exact (moves_run hnames trivial).keeps (fun _ _ hstep => hstep.rooted) ih
      | revokeDelegation id options =>
          exact (moves_run hnames trivial).keeps (fun _ _ hstep => hstep.rooted) ih
      | restoreDelegation id =>
          exact (moves_run hnames trivial).keeps (fun _ _ hstep => hstep.rooted) ih
  | meanwhile o _ ih => exact (GraphStep.outside _ o).rooted ih

/-- A parent and its child as `validateChain` compares them. -/
def GraphLinked (parent child : DelegationNode) : Prop :=
  child.parentId = some parent.id ∧ child.issuerDid = parent.subjectDid

theorem linkFault_eq_none {chain : List DelegationNode} :
    linkFault chain = none ↔ chain.IsChain GraphLinked := by
  induction chain using linkFault.induct with
  | case1 parent child rest hissuer =>
      simp [linkFault, hissuer, List.isChain_cons_cons, GraphLinked]
  | case2 parent child rest hissuer hparent =>
      simp [linkFault, hissuer, hparent, List.isChain_cons_cons, GraphLinked]
  | case3 parent child rest hissuer hparent ih =>
      rw [linkFault, if_neg hissuer, if_neg hparent, ih, List.isChain_cons_cons]
      simp only [not_not] at hissuer hparent
      simp [GraphLinked, hissuer, hparent]
  | case4 chain hshort =>
      match chain, hshort with
      | [], _ => simp [linkFault]
      | [node], _ => simp [linkFault]
      | parent :: child :: rest, hshort => exact (hshort parent child rest rfl).elim

theorem validateChain_valid {id : JsString} {s s' : GraphState ω} {verdict : Verification}
    (h : exec (DelegationGraphManager.validateChain id) s = (.ok verdict, s'))
    (hvalid : verdict.valid = true) :
    ∃ chain, getChainSync s.nodes id = .ok chain ∧ chain ≠ [] ∧ chain.IsChain GraphLinked := by
  obtain ⟨chain, s₁, hchain, h⟩ := exec_bind_ok.mp h
  rw [exec_getChain] at hchain
  refine ⟨chain, congrArg Prod.fst hchain, ?_⟩
  split at h
  · cases h
    cases hvalid
  · rename_i hne
    split at h
    · cases h
      cases hvalid
    · rename_i hfault
      exact ⟨hne, linkFault_eq_none.mp hfault⟩

/-- `validateDelegation` accepted: the chain is not empty, linked and reads live. -/
theorem validateDelegation_valid {id : JsString} {s s' : GraphState ω} {verdict : Verification}
    (h : exec (validateDelegation ports id) s = (.ok verdict, s')) (hvalid : verdict.valid = true) :
    ∃ chain, getChainSync s.nodes id = .ok chain ∧ chain ≠ [] ∧ chain.IsChain GraphLinked ∧
      AllLive ports s chain := by
  obtain ⟨revokedCheck, s₁, hrevoked, h⟩ := exec_bind_ok.mp h
  have hnodes : s₁.nodes = s.nodes := by
    have hkept : (exec (isRevoked ports id) s).2.nodes = s.nodes := isRevoked_nodes id s
    rwa [hrevoked] at hkept
  obtain ⟨chain, hchain, hlive⟩ := isRevoked_ok hrevoked
  split at h
  · cases h
    cases hvalid
  · rename_i hnot
    obtain ⟨chainValidation, s₂, hvalidate, h⟩ := exec_bind_ok.mp h
    have hlinks : chainValidation.valid = true := by
      split at h
      · cases h
        exact hvalid
      · rename_i hok
        simpa using hok
    obtain ⟨chain', hchain', hne, hlinked⟩ := validateChain_valid hvalidate hlinks
    rw [hnodes, hchain] at hchain'
    cases hchain'
    exact ⟨chain, hchain, hne, hlinked, hlive (by simpa using hnot)⟩

/-- The chain reaches from a root to the delegation and covers all it descends from, and every
status bit was clear where `validateDelegation`, called in this state, asked for it. -/
structure CompleteChain (ports : RevocationPorts ω) (s : GraphState ω) (id : JsString)
    (chain : List DelegationNode) : Prop where
  starts : ∃ root rest, chain = root :: rest ∧ root.parentId = none
  ends : ∃ node, chain.getLast? = some node ∧ node.id = id
  linked : chain.IsChain GraphLinked
  ancestors : ∀ ancestor, RegisteredAncestor s.history ancestor id →
    standing s.history ancestor = true ∧
      ∃ before node after, chain = before ++ node :: after ∧
        s.nodes.lookup ancestor = some node ∧ ReadsLive ports s before node

theorem validateDelegation_complete {s s' : GraphState ω} {id : JsString} {verdict : Verification}
    (h : Reachable ports numberText (fun s command => namesIds command ∧ removesLeaf s command) s)
    (hrun : exec (validateDelegation ports id) s = (.ok verdict, s'))
    (hvalid : verdict.valid = true) :
    ∃ chain, getChainSync s.nodes id = .ok chain ∧ CompleteChain ports s id chain := by
  have hrooted := h.rooted
  obtain ⟨chain, hchain, hne, hlinked, hlive⟩ := validateDelegation_valid hrun hvalid
  obtain ⟨walked, last, hwalk, rfl, hlast⟩ := hrooted.chain_walk hchain
  -- the walk met the delegation first and a parentless node last
  obtain ⟨target, rest, rfl⟩ := List.exists_cons_of_ne_nil (mt List.reverse_eq_nil_iff.mpr hne)
  obtain ⟨key, hkey, htarget⟩ := hwalk.head
  cases hkey
  have hstored : parentOf s.nodes id ≠ none := mt parentOf_eq_none.mp (by simp [htarget])
  refine ⟨_, hchain, ?_, ⟨target, by simp, hrooted.keyed _ _ htarget⟩, hlinked, ?_⟩
  · obtain ⟨root, front, hfront⟩ := List.exists_cons_of_ne_nil hne
    refine ⟨root, front, hfront, ?_⟩
    have hroot : root ∈ (target :: rest).getLast? := by
      rw [← List.head?_reverse, hfront]
      rfl
    cases hup : root.parentId with
    | none => rfl
    | some parentId =>
        exfalso
        have hend : last = some parentId := (hwalk.up_getLast root hroot).symm.trans hup
        obtain ⟨key, hrootKey, _⟩ := hwalk.stored root (List.mem_of_getLast? hroot) id rfl
        have hparent := hrooted.parent_stored key parentId (by simp [parentOf, hrootKey, hup])
        exact hparent (parentOf_eq_none.mpr (hlast parentId hend))
  · intro ancestor hanc
    obtain ⟨node, hmem, hnode⟩ := hrooted.mem_chain hchain hanc hstored
    have hstanding : standing s.history ancestor = true := by
      by_contra hgone
      have := hrooted.registered ancestor
      rw [if_neg hgone, parentOf_eq_none, hnode] at this
      cases this
    obtain ⟨before, after, hplace, hlives⟩ := hlive.of_mem hmem
    exact ⟨hstanding, before, node, after, hplace, hnode, hlives⟩

/-- A root, a middle and a leaf delegation. -/
def threeLevels : List (GraphCommand PUnit) :=
  [.registerDelegation (registration "root" none "did:a" "did:b"),
    .registerDelegation (registration "middle" (some "root") "did:b" "did:c"),
    .registerDelegation (registration "leaf" (some "middle") "did:c" "did:d")]

/-- Without its leaf the middle delegation still validates, with a complete chain. -/
theorem validateDelegation_complete_leafRemoved :
    ∃ chain, getChainSync
        (afterCalls (threeLevels ++ [.removeDelegation (js "leaf")])).nodes (js "middle") =
          .ok chain ∧
      CompleteChain quietPorts (afterCalls (threeLevels ++ [.removeDelegation (js "leaf")]))
        (js "middle") chain := by
  have hregistered : Reachable quietPorts (fun _ => [])
      (fun s command => namesIds command ∧ removesLeaf s command) (afterCalls threeLevels) := by
    refine reachable_afterCalls fun before command hbegins => ?_
    have hmem : command ∈ threeLevels := hbegins.subset (by simp)
    simp only [threeLevels, List.mem_cons, List.not_mem_nil, or_false] at hmem
    rcases hmem with rfl | rfl | rfl <;> simp [namesIds, removesLeaf, registration, js, units]
  have hchildless : ∀ entry ∈ (afterCalls threeLevels).nodes.entries,
      entry.2.parentId ≠ some (js "leaf") := by
    decide +kernel
  have hreach : Reachable quietPorts (fun _ => [])
      (fun s command => namesIds command ∧ removesLeaf s command)
      (afterCalls (threeLevels ++ [.removeDelegation (js "leaf")])) := by
    rw [afterCalls, List.foldl_append]
    exact .call _ hregistered
      ⟨trivial, fun id node hnode => hchildless ⟨id, node⟩ (AList.mem_lookup_iff.mp hnode)⟩
  obtain ⟨verdict, s', hrun, hvalid⟩ := exec_ok_of_map (f := Verification.valid) (c := true)
    (x := validateDelegation quietPorts (js "middle"))
    (s := afterCalls (threeLevels ++ [.removeDelegation (js "leaf")])) (by decide +kernel)
  exact validateDelegation_complete hreach hrun hvalid

/-- With the middle delegation removed the leaf still validates, over a chain
that holds the leaf alone. -/
theorem middleRemoved_validates :
    ∃ s, Reachable quietPorts (fun _ => []) (fun _ command => namesIds command) s ∧
      (∃ verdict s', exec (validateDelegation quietPorts (js "leaf")) s = (.ok verdict, s') ∧
        verdict.valid = true) ∧
      ¬ ∃ chain, getChainSync s.nodes (js "leaf") = .ok chain ∧
        CompleteChain quietPorts s (js "leaf") chain := by
  refine ⟨afterCalls (threeLevels ++ [.removeDelegation (js "middle")]), ?_, ?_, ?_⟩
  · refine reachable_afterCalls fun before command hbegins => ?_
    have hmem : command ∈ threeLevels ++ [.removeDelegation (js "middle")] :=
      hbegins.subset (by simp)
    simp only [threeLevels, List.cons_append, List.nil_append, List.mem_cons, List.not_mem_nil,
      or_false] at hmem
    rcases hmem with rfl | rfl | rfl | rfl <;> simp [namesIds, registration, js, units]
  · obtain ⟨verdict, s', hrun, hvalid⟩ := exec_ok_of_map (f := Verification.valid) (c := true)
      (x := validateDelegation quietPorts (js "leaf"))
      (s := afterCalls (threeLevels ++ [.removeDelegation (js "middle")])) (by decide +kernel)
    exact ⟨verdict, s', hrun, hvalid⟩
  · rintro ⟨chain, hchain, hcomplete⟩
    have hparents : (getChainSync
        (afterCalls (threeLevels ++ [.removeDelegation (js "middle")])).nodes
          (js "leaf")).toOption.map (List.map (·.parentId)) = some [some (js "middle")] := by
      decide +kernel
    obtain ⟨root, rest, rfl, hroot⟩ := hcomplete.starts
    rw [hchain] at hparents
    simp [Except.toOption, hroot] at hparents

end Completeness

end KyaOs
