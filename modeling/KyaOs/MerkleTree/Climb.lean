import KyaOs.MerkleTree.Levels

/-!
# Audit paths and the climb that checks them

`auditPath` builds the siblings of one node from the top split. `climb` folds a
path upwards from the node's position and the last position of its level, the
way an iterative verifier does: a node at an odd position, or the last node of
its level, has its sibling on the left, every other node on the right, and a
last node at an even position is first promoted to the level where it has one.

The climb is generic in what it accumulates, so one set of level equations
serves inclusion and both halves of consistency.
-/

namespace MerkleTree

variable {H A : Type*}

/-- The sibling of node `i` on its own level, if it has one there. -/
def levelSibling (nodes : List H) (i : Nat) : List H :=
  nodes[if i % 2 = 1 then i - 1 else i + 1]?.toList

theorem levelSibling_take {nodes : List H} {k i : Nat} (heven : k % 2 = 0) (hi : i < k) :
    levelSibling (nodes.take k) i = levelSibling nodes i := by
  unfold levelSibling
  rw [List.getElem?_take_of_lt (by split <;> omega)]

theorem levelSibling_drop {nodes : List H} {k i : Nat} (heven : k % 2 = 0) (hi : k ≤ i) :
    levelSibling (nodes.drop k) (i - k) = levelSibling nodes i := by
  unfold levelSibling
  rw [List.getElem?_drop]
  congr 2
  split <;> split <;> omega

section Paths

variable [Inhabited H] (node : H → H → H)

/-- The siblings of node `i`, from its own level to the top. -/
def auditPath (nodes : List H) (i : Nat) : List H :=
  if nodes.length ≤ 1 then []
  else
    let k := splitPoint nodes.length
    if i < k then auditPath (nodes.take k) i ++ [head node (nodes.drop k)]
    else auditPath (nodes.drop k) (i - k) ++ [head node (nodes.take k)]
termination_by nodes.length
decreasing_by
  · have := splitPoint_lt (n := nodes.length) (by omega)
    rw [List.length_take]
    omega
  · have := splitPoint_pos nodes.length
    rw [List.length_drop]
    omega

theorem auditPath_short {nodes : List H} (h : nodes.length ≤ 1) (i : Nat) :
    auditPath node nodes i = [] := by
  rw [auditPath, if_pos h]

theorem auditPath_left (nodes : List H) (i : Nat) (h : 2 ≤ nodes.length)
    (hi : i < splitPoint nodes.length) :
    auditPath node nodes i = auditPath node (nodes.take (splitPoint nodes.length)) i ++
      [head node (nodes.drop (splitPoint nodes.length))] := by
  rw [auditPath, if_neg (by omega)]
  exact if_pos hi

theorem auditPath_right (nodes : List H) (i : Nat) (h : 2 ≤ nodes.length)
    (hi : splitPoint nodes.length ≤ i) :
    auditPath node nodes i =
      auditPath node (nodes.drop (splitPoint nodes.length)) (i - splitPoint nodes.length) ++
        [head node (nodes.take (splitPoint nodes.length))] := by
  rw [auditPath, if_neg (by omega)]
  exact if_neg (by omega)

/-- Read level by level, a path starts with the sibling on the node's own level. -/
theorem auditPath_level (nodes : List H) (i : Nat) (hi : i < nodes.length) :
    auditPath node nodes i =
      levelSibling nodes i ++ auditPath node (pairUp node nodes) (i / 2) := by
  induction hn : nodes.length using Nat.strongRecOn generalizing nodes i with
  | ind n ih =>
      subst hn
      rcases Nat.lt_or_ge 2 nodes.length with hlen | hshort
      · have hlt := splitPoint_lt (n := nodes.length) (by omega)
        have hpos := splitPoint_pos nodes.length
        have heven := splitPoint_even hlen
        have hhalf : splitPoint (pairUp node nodes).length = splitPoint nodes.length / 2 := by
          rw [length_pairUp, splitPoint_half hlen]
        have hup : 2 ≤ (pairUp node nodes).length := by rw [length_pairUp]; omega
        obtain ⟨htake, hdrop⟩ := pairUp_take_drop node heven (Nat.le_of_lt hlt)
        rcases Nat.lt_or_ge i (splitPoint nodes.length) with hleft | hright
        · have hrec := ih _ (by rw [List.length_take]; omega)
            (nodes.take (splitPoint nodes.length)) i (by rw [List.length_take]; omega) rfl
          rw [auditPath_left node nodes i (by omega) hleft, hrec, levelSibling_take heven hleft,
            auditPath_left node _ _ hup (by rw [hhalf]; omega), hhalf, htake, hdrop, head_pairUp,
            List.append_assoc]
        · have hrec := ih _ (by rw [List.length_drop]; omega)
            (nodes.drop (splitPoint nodes.length)) (i - splitPoint nodes.length)
            (by rw [List.length_drop]; omega) rfl
          rw [auditPath_right node nodes i (by omega) hright, hrec, levelSibling_drop heven hright,
            auditPath_right node _ _ hup (by rw [hhalf]; omega), hhalf, htake, hdrop, head_pairUp,
            List.append_assoc]
          congr 3
          omega
      · match nodes, hi, hshort with
        | [a], hi, _ =>
            obtain rfl : i = 0 := by simpa using hi
            simp [auditPath_short, levelSibling]
        | [a, b], hi, _ =>
            have : i = 0 ∨ i = 1 := by simp at hi; omega
            rcases this with rfl | rfl
            · simp [auditPath_left, auditPath_short, splitPoint_of_le_two, levelSibling]
            · simp [auditPath_right, auditPath_short, splitPoint_of_le_two, levelSibling]

end Paths

/-- Promote a last node at an even position until its position is odd or zero. -/
def promote (p q : Nat) : Nat × Nat :=
  if p % 2 = 0 ∧ p ≠ 0 then promote (p / 2) (q / 2) else (p, q)
termination_by p

theorem promote_even {p q : Nat} (h : p % 2 = 0) (hne : p ≠ 0) :
    promote p q = promote (p / 2) (q / 2) := by
  rw [promote, if_pos ⟨h, hne⟩]

theorem promote_odd {p q : Nat} (h : p % 2 = 1) : promote p q = (p, q) := by
  rw [promote, if_neg (by omega)]

section Climb

variable (left : H → A → A) (right : A → H → A)

/-- Fold a path from position `p` on a level whose last position is `q`. The
path must end exactly at the top. -/
def climb : Nat → Nat → A → List H → Option A
  | _, q, acc, [] => if q = 0 then some acc else none
  | p, q, acc, sibling :: rest =>
      if q = 0 then none
      else if p % 2 = 1 ∨ p = q then
        climb ((promote p q).1 / 2) ((promote p q).2 / 2) (left sibling acc) rest
      else climb (p / 2) (q / 2) (right acc sibling) rest

theorem climb_top (p : Nat) (acc : A) (path : List H) :
    climb left right p 0 acc path = if path = [] then some acc else none := by
  cases path <;> simp [climb]

theorem climb_nil {p q : Nat} (acc : A) (hq : q ≠ 0) : climb left right p q acc [] = none := by
  simp [climb, hq]

theorem climb_odd {p q : Nat} (acc : A) (sibling : H) (rest : List H) (hp : p % 2 = 1)
    (hq : q ≠ 0) : climb left right p q acc (sibling :: rest) =
      climb left right (p / 2) (q / 2) (left sibling acc) rest := by
  simp [climb, hq, hp, promote_odd hp]

theorem climb_even {p q : Nat} (acc : A) (sibling : H) (rest : List H) (hp : p % 2 = 0)
    (hlt : p < q) : climb left right p q acc (sibling :: rest) =
      climb left right (p / 2) (q / 2) (right acc sibling) rest := by
  rw [climb, if_neg (by omega), if_neg (by omega)]

/-- A last node at an even position climbs one level without a sibling. -/
theorem climb_promote {p : Nat} (acc : A) (path : List H) (hp : p % 2 = 0) (hne : p ≠ 0) :
    climb left right p p acc path = climb left right (p / 2) (p / 2) acc path := by
  cases path with
  | nil => rw [climb_nil _ _ _ hne, climb_nil _ _ _ (by omega)]
  | cons sibling rest =>
      rw [climb, if_neg hne, if_pos (.inr rfl), climb, if_neg (by omega), if_pos (.inr rfl),
        promote_even hp hne]

/-- One level of a climb: along an audit path, the accumulator takes up the
sibling of its own level, when there is one. -/
theorem climb_level {nodes : List H} {p : Nat} (acc : A) (path : List H)
    (hlen : 2 ≤ nodes.length) (hp : p < nodes.length) :
    climb left right p (nodes.length - 1) acc (levelSibling nodes p ++ path) =
      climb left right (p / 2) ((nodes.length - 1) / 2)
        ((levelSibling nodes p).foldl
          (fun acc sibling => if p % 2 = 1 then left sibling acc else right acc sibling) acc)
        path := by
  rcases Nat.mod_two_eq_zero_or_one p with heven | hodd
  · rcases Nat.lt_or_ge (p + 1) nodes.length with hlt | hlast
    · have hsib : levelSibling nodes p = [nodes[p + 1]] := by simp [levelSibling, heven, hlt]
      simp only [hsib, List.cons_append, List.nil_append, List.foldl_cons, List.foldl_nil]
      rw [climb_even _ _ _ _ _ heven (by omega), if_neg (by omega)]
    · have hsib : levelSibling nodes p = [] := by simp [levelSibling, heven, hlast]
      obtain rfl : p = nodes.length - 1 := by omega
      rw [hsib]
      exact climb_promote left right acc path heven (by omega)
  · have hsib : levelSibling nodes p = [nodes[p - 1]] := by
      simp [levelSibling, hodd, show p - 1 < nodes.length by omega]
    simp only [hsib, List.cons_append, List.nil_append, List.foldl_cons, List.foldl_nil]
    rw [climb_odd _ _ _ _ _ hodd (by omega), if_pos hodd]

end Climb

end MerkleTree
