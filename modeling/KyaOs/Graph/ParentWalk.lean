import Mathlib.Data.List.Chain
import Mathlib.Logic.Relation

/-!
# Following parent pointers

Nodes of type `ν` are stored under keys of type `κ`, and `up` reads a node's
pointer to its parent's key. A `Walk` records the nodes met on the way up, the
nearest first, and where the cursor stands afterwards.
-/

namespace ParentWalk

variable {κ ν : Type*} {lookup : κ → Option ν} {up : ν → Option κ}

inductive Walk (lookup : κ → Option ν) (up : ν → Option κ) :
    Option κ → List ν → Option κ → Prop
  | stop (cursor : Option κ) : Walk lookup up cursor [] cursor
  | step {key : κ} {node : ν} {rest : List ν} {last : Option κ} :
      lookup key = some node → Walk lookup up (up node) rest last →
        Walk lookup up (some key) (node :: rest) last

/-- `parent` is the key the node stored under `child` points to. -/
def IsParent (lookup : κ → Option ν) (up : ν → Option κ) (parent child : κ) : Prop :=
  ∃ node, lookup child = some node ∧ up node = some parent

/-- Ancestors of a key, the key itself included. -/
abbrev IsAncestor (lookup : κ → Option ν) (up : ν → Option κ) : κ → κ → Prop :=
  Relation.ReflTransGen (IsParent lookup up)

/-- No key is its own proper ancestor. -/
def Acyclic (lookup : κ → Option ν) (up : ν → Option κ) : Prop :=
  ∀ key, ¬ Relation.TransGen (IsParent lookup up) key key

/-- Links that are among those of an acyclic store form no cycle either. -/
theorem Acyclic.mono {lookup' : κ → Option ν} (h : Acyclic lookup up)
    (hsub : ∀ parent child, IsParent lookup' up parent child → IsParent lookup up parent child) :
    Acyclic lookup' up :=
  fun key hcycle => h key (Relation.TransGen.mono hsub key key hcycle)

/-- Storing a node under a key no stored node points to closes no cycle. -/
theorem Acyclic.add_leaf {lookup' : κ → Option ν} (h : Acyclic lookup up) (leaf : κ)
    (hleaf : ∀ child, ¬ IsParent lookup' up leaf child)
    (hold : ∀ parent child, child ≠ leaf → IsParent lookup' up parent child →
      IsParent lookup up parent child) :
    Acyclic lookup' up := by
  have hbelow : ∀ above below, Relation.TransGen (IsParent lookup' up) above below →
      below ≠ leaf → Relation.TransGen (IsParent lookup up) above below := by
    intro above below hpath
    induction hpath with
    | single hlink => exact fun hne => .single (hold _ _ hne hlink)
    | tail _ hlink ih =>
        intro hne
        refine (ih ?_).tail (hold _ _ hne hlink)
        rintro rfl
        exact hleaf _ hlink
  intro key hcycle
  refine h key (hbelow key key hcycle ?_)
  rintro rfl
  obtain ⟨child, hlink, _⟩ := Relation.TransGen.head'_iff.mp hcycle
  exact hleaf _ hlink

theorem Walk.last_of_nil {cursor last : Option κ} (h : Walk lookup up cursor [] last) :
    last = cursor := by
  cases h
  rfl

theorem Walk.head {cursor last : Option κ} {node : ν} {rest : List ν}
    (h : Walk lookup up cursor (node :: rest) last) :
    ∃ key, cursor = some key ∧ lookup key = some node := by
  cases h with
  | step hnode _ => exact ⟨_, rfl, hnode⟩

/-- Each node of a walk is the parent of the node before it. -/
theorem Walk.linked {cursor last : Option κ} {nodes : List ν}
    (h : Walk lookup up cursor nodes last) :
    nodes.IsChain fun child parent => ∃ key, up child = some key ∧ lookup key = some parent := by
  induction h with
  | stop => exact .nil
  | @step key node rest last hnode hrest ih =>
      cases rest with
      | nil => exact .singleton _
      | cons parent rest =>
          refine .cons_cons ?_ ih
          obtain ⟨key, hkey, hparent⟩ := hrest.head
          exact ⟨key, hkey, hparent⟩

/-- Where a walk stopped is where its last node points. -/
theorem Walk.up_getLast {cursor last : Option κ} {nodes : List ν}
    (h : Walk lookup up cursor nodes last) : ∀ top ∈ nodes.getLast?, up top = last := by
  induction h with
  | stop => simp
  | @step key node rest last hnode hrest ih =>
      intro top htop
      cases rest with
      | nil =>
          simp only [List.getLast?_singleton, Option.mem_def, Option.some.injEq] at htop
          rw [← htop, hrest.last_of_nil]
      | cons parent rest =>
          rw [List.getLast?_cons_cons] at htop
          exact ih top htop

/-- Every node of a walk is stored under an ancestor of the key it started at. -/
theorem Walk.stored {cursor last : Option κ} {nodes : List ν}
    (h : Walk lookup up cursor nodes last) :
    ∀ node ∈ nodes, ∀ start, cursor = some start →
      ∃ key, lookup key = some node ∧ IsAncestor lookup up key start := by
  induction h with
  | stop => simp
  | @step key node rest last hnode hrest ih =>
      intro node' hmem start hstart
      cases hstart
      rcases List.mem_cons.mp hmem with rfl | hmem
      · exact ⟨key, hnode, .refl⟩
      · cases hup : up node with
        | none =>
            rw [hup] at hrest
            cases hrest
            cases hmem
        | some parent =>
            obtain ⟨above, habove, hanc⟩ := ih node' hmem parent hup
            exact ⟨above, habove, hanc.tail ⟨node, hnode, hup⟩⟩

/-- A walk that stopped because nothing is stored at the cursor met every stored
ancestor of its start. -/
theorem Walk.mem_of_isAncestor {cursor last : Option κ} {nodes : List ν}
    (h : Walk lookup up cursor nodes last) (hend : ∀ key, last = some key → lookup key = none)
    {start key : κ} {node : ν} (hstart : cursor = some start)
    (hanc : IsAncestor lookup up key start) (hnode : lookup key = some node) : node ∈ nodes := by
  induction h generalizing start with
  | stop =>
      exfalso
      have hmissing := hend start hstart
      rcases Relation.ReflTransGen.cases_tail hanc with rfl | ⟨_, _, child, hchild, _⟩
      · rw [hmissing] at hnode
        cases hnode
      · rw [hmissing] at hchild
        cases hchild
  | @step here node' rest last hhere hrest ih =>
      cases hstart
      rcases Relation.ReflTransGen.cases_tail hanc with rfl | ⟨parent, habove, child, hchild, hup⟩
      · rw [hhere] at hnode
        cases hnode
        exact List.mem_cons_self
      · rw [hhere] at hchild
        cases hchild
        exact List.mem_cons_of_mem _ (ih hend hup habove)

end ParentWalk
