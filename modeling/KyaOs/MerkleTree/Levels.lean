import Mathlib.Data.List.Basic
import Mathlib.Data.Nat.Basic

/-!
# Hash trees, read from the top and level by level

A hash tree over a non-empty list splits it at the largest power of two below
its length. Pairing neighbours and promoting a last node without a neighbour
gives the level above, and both readings have the same head. Proof builders
recurse from the top; verifiers walk the levels. Nothing is assumed of the node
function here.
-/

namespace MerkleTree

/-- The largest power of two below `n`, for `2 ≤ n`. -/
def splitPoint (n : Nat) : Nat :=
  if n ≤ 2 then 1 else 2 * splitPoint ((n + 1) / 2)

theorem splitPoint_of_le_two {n : Nat} (h : n ≤ 2) : splitPoint n = 1 := by
  rw [splitPoint, if_pos h]

theorem splitPoint_of_two_lt {n : Nat} (h : 2 < n) :
    splitPoint n = 2 * splitPoint ((n + 1) / 2) := by
  rw [splitPoint, if_neg (by omega)]

theorem splitPoint_pos (n : Nat) : 0 < splitPoint n := by
  induction n using splitPoint.induct with
  | case1 n h => simp [splitPoint_of_le_two h]
  | case2 n h ih => rw [splitPoint_of_two_lt (by omega)]; omega

theorem splitPoint_lt {n : Nat} (h : 2 ≤ n) : splitPoint n < n := by
  induction n using splitPoint.induct with
  | case1 n hn => rw [splitPoint_of_le_two hn]; omega
  | case2 n hn ih =>
      rw [splitPoint_of_two_lt (by omega)]
      have := ih (by omega)
      omega

theorem splitPoint_even {n : Nat} (h : 2 < n) : splitPoint n % 2 = 0 := by
  rw [splitPoint_of_two_lt h]
  omega

/-- The tree one level up splits at half the split point. -/
theorem splitPoint_half {n : Nat} (h : 2 < n) :
    splitPoint ((n + 1) / 2) = splitPoint n / 2 := by
  rw [splitPoint_of_two_lt h]
  omega

variable {H : Type*} (node : H → H → H)

section Head

variable [Inhabited H]

/-- The head of the tree over a list of nodes, split from the top. -/
def head (nodes : List H) : H :=
  match nodes with
  | [] => default
  | [h] => h
  | a :: b :: rest =>
      node (head ((a :: b :: rest).take (splitPoint (rest.length + 2))))
        (head ((a :: b :: rest).drop (splitPoint (rest.length + 2))))
termination_by nodes.length
decreasing_by
  · have := splitPoint_lt (n := rest.length + 2) (by omega)
    simp only [List.length_take, List.length_cons]
    omega
  · have := splitPoint_pos (rest.length + 2)
    simp only [List.length_drop, List.length_cons]
    omega

@[simp] theorem head_singleton (h : H) : head node [h] = h := by rw [head]

theorem head_split (nodes : List H) (h : 2 ≤ nodes.length) :
    head node nodes = node (head node (nodes.take (splitPoint nodes.length)))
      (head node (nodes.drop (splitPoint nodes.length))) := by
  match nodes, h with
  | a :: b :: rest, _ =>
      rw [head]
      rfl

end Head

/-- The level above: neighbours are combined, a last node alone is promoted. -/
def pairUp : List H → List H
  | a :: b :: rest => node a b :: pairUp rest
  | nodes => nodes

@[simp] theorem pairUp_nil : pairUp node [] = [] := rfl

@[simp] theorem pairUp_singleton (h : H) : pairUp node [h] = [h] := rfl

@[simp] theorem pairUp_cons_cons (a b : H) (rest : List H) :
    pairUp node (a :: b :: rest) = node a b :: pairUp node rest := rfl

@[simp] theorem length_pairUp (nodes : List H) :
    (pairUp node nodes).length = (nodes.length + 1) / 2 := by
  induction nodes using pairUp.induct with
  | case1 a b rest ih => simp only [pairUp_cons_cons, List.length_cons, ih]; omega
  | case2 nodes h =>
      match nodes with
      | [] => simp
      | [_] => simp
      | a :: b :: rest => exact absurd rfl (h a b rest)

theorem pairUp_append {left : List H} (h : left.length % 2 = 0) (right : List H) :
    pairUp node (left ++ right) = pairUp node left ++ pairUp node right := by
  induction left using pairUp.induct with
  | case1 a b rest ih =>
      simp only [List.cons_append, pairUp_cons_cons]
      rw [ih (by simp only [List.length_cons] at h; omega)]
  | case2 nodes hnodes =>
      match nodes with
      | [] => rfl
      | [_] => simp at h
      | a :: b :: rest => exact absurd rfl (hnodes a b rest)

theorem getElem?_pairUp (nodes : List H) (i : Nat) :
    (pairUp node nodes)[i]? = nodes[2 * i]?.map (fun a => (nodes[2 * i + 1]?).elim a (node a)) := by
  induction nodes using pairUp.induct generalizing i with
  | case1 a b rest ih =>
      cases i with
      | zero => simp
      | succ i => simp [ih, Nat.mul_add]
  | case2 nodes h =>
      match nodes with
      | [] => simp
      | [_] => cases i <;> simp
      | a :: b :: rest => exact absurd rfl (h a b rest)

/-- An even cut of a level is a cut of the level above. -/
theorem pairUp_take_drop {nodes : List H} {k : Nat} (heven : k % 2 = 0) (hk : k ≤ nodes.length) :
    (pairUp node nodes).take (k / 2) = pairUp node (nodes.take k) ∧
    (pairUp node nodes).drop (k / 2) = pairUp node (nodes.drop k) := by
  have hlen : (nodes.take k).length = k := by simp [hk]
  have hcut : (pairUp node (nodes.take k)).length = k / 2 := by
    rw [length_pairUp, hlen]
    omega
  have hsplit : pairUp node nodes = pairUp node (nodes.take k) ++ pairUp node (nodes.drop k) := by
    rw [← pairUp_append node (by rw [hlen, heven]), List.take_append_drop]
  rw [hsplit]
  exact ⟨List.take_left' hcut, List.drop_left' hcut⟩

variable [Inhabited H]

/-- Both readings agree: the level above has the same head. -/
theorem head_pairUp (nodes : List H) : head node (pairUp node nodes) = head node nodes := by
  induction hn : nodes.length using Nat.strongRecOn generalizing nodes with
  | ind n ih =>
      subst hn
      rcases Nat.lt_or_ge 2 nodes.length with hlen | hshort
      · have hlt := splitPoint_lt (n := nodes.length) (by omega)
        have hpos := splitPoint_pos nodes.length
        obtain ⟨htake, hdrop⟩ :=
          pairUp_take_drop node (splitPoint_even hlen) (Nat.le_of_lt hlt)
        rw [head_split node (pairUp node nodes) (by rw [length_pairUp]; omega),
          head_split node nodes (by omega), length_pairUp, splitPoint_half hlen,
          htake, hdrop]
        have hleft := ih _ (by rw [List.length_take]; omega)
          (nodes.take (splitPoint nodes.length)) rfl
        have hright := ih _ (by rw [List.length_drop]; omega)
          (nodes.drop (splitPoint nodes.length)) rfl
        rw [hleft, hright]
      · match nodes, hshort with
        | [], _ => rfl
        | [_], _ => rfl
        | [a, b], _ => simp [head_split, splitPoint_of_le_two]

end MerkleTree
