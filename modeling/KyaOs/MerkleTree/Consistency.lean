import KyaOs.MerkleTree.Inclusion

/-!
# Consistency: one path for two trees

A consistency path starts at the last node the old tree shares with the new
one and climbs both trees at once. The new half is an inclusion climb. The old
half takes up left siblings only, because the old tree ends at its position.
Under a binding node function the two climbs reach both heads only when the old
nodes are the first nodes of the new tree.
-/

namespace MerkleTree

variable {H : Type*}

/-- Skip the levels where the last node of the old tree has its parent's whole
subtree below it. -/
def lower (p q : Nat) : Nat × Nat :=
  if p % 2 = 1 then lower (p / 2) (q / 2) else (p, q)
termination_by p

theorem lower_odd {p q : Nat} (h : p % 2 = 1) : lower p q = lower (p / 2) (q / 2) := by
  rw [lower, if_pos h]

theorem lower_even {p q : Nat} (h : p % 2 = 0) : lower p q = (p, q) := by
  rw [lower, if_neg (by omega)]

/-- Climb the old tree along a path of the new one: right siblings are beyond
its end. -/
def climbOld (node : H → H → H) : Nat → Nat → H → List H → Option H :=
  climb node (fun acc _ => acc)

section Builder

variable [Inhabited H] (node : H → H → H)

/-- The consistency path from the first `m` of `nodes` to all of them.
`complete` records that the old tree is a whole subtree on the left spine. -/
def subproof (m : Nat) (nodes : List H) (complete : Bool) : List H :=
  if m = nodes.length ∨ nodes.length ≤ 1 then
    if complete then [] else [head node nodes]
  else
    let k := splitPoint nodes.length
    if m ≤ k then subproof m (nodes.take k) complete ++ [head node (nodes.drop k)]
    else subproof (m - k) (nodes.drop k) false ++ [head node (nodes.take k)]
termination_by nodes.length
decreasing_by
  · have := splitPoint_lt (n := nodes.length) (by omega)
    rw [List.length_take]
    omega
  · have := splitPoint_pos nodes.length
    rw [List.length_drop]
    omega

theorem subproof_whole {m : Nat} {nodes : List H} (h : m = nodes.length) (complete : Bool) :
    subproof node m nodes complete = if complete then [] else [head node nodes] := by
  rw [subproof, if_pos (.inl h)]

theorem subproof_left {m : Nat} {nodes : List H} (hm : m < nodes.length)
    (hlen : 2 ≤ nodes.length) (h : m ≤ splitPoint nodes.length) (complete : Bool) :
    subproof node m nodes complete =
      subproof node m (nodes.take (splitPoint nodes.length)) complete ++
        [head node (nodes.drop (splitPoint nodes.length))] := by
  rw [subproof, if_neg (by omega)]
  exact if_pos h

theorem subproof_right {m : Nat} {nodes : List H} (hm : m < nodes.length)
    (hlen : 2 ≤ nodes.length) (h : splitPoint nodes.length < m) (complete : Bool) :
    subproof node m nodes complete =
      subproof node (m - splitPoint nodes.length) (nodes.drop (splitPoint nodes.length)) false ++
        [head node (nodes.take (splitPoint nodes.length))] := by
  rw [subproof, if_neg (by omega)]
  exact if_neg (by omega)

/-- An even old size is the old size of the level above. -/
theorem subproof_even (m : Nat) (nodes : List H) (complete : Bool) (heven : m % 2 = 0)
    (hpos : 0 < m) (hm : m ≤ nodes.length) :
    subproof node m nodes complete = subproof node (m / 2) (pairUp node nodes) complete := by
  induction hn : nodes.length using Nat.strongRecOn generalizing m nodes complete with
  | ind n ih =>
      subst hn
      rcases Nat.lt_or_ge m nodes.length with hlt | hge
      · have hlen : 2 < nodes.length := by omega
        have hklt := splitPoint_lt (n := nodes.length) (by omega)
        have hkpos := splitPoint_pos nodes.length
        have hkeven := splitPoint_even hlen
        have hhalf : splitPoint (pairUp node nodes).length = splitPoint nodes.length / 2 := by
          rw [length_pairUp, splitPoint_half hlen]
        have hmup : m / 2 < (pairUp node nodes).length := by rw [length_pairUp]; omega
        have hup : 2 ≤ (pairUp node nodes).length := by rw [length_pairUp]; omega
        obtain ⟨htake, hdrop⟩ := pairUp_take_drop node hkeven (Nat.le_of_lt hklt)
        rcases Nat.lt_or_ge (splitPoint nodes.length) m with hright | hleft
        · have hrec := ih _ (by rw [List.length_drop]; omega) (m - splitPoint nodes.length)
            (nodes.drop (splitPoint nodes.length)) false (by omega) (by omega)
            (by rw [List.length_drop]; omega) rfl
          rw [subproof_right node hlt (by omega) hright, hrec,
            subproof_right node hmup hup (by rw [hhalf]; omega), hhalf, htake, hdrop, head_pairUp,
            show m / 2 - splitPoint nodes.length / 2 = (m - splitPoint nodes.length) / 2 by omega]
        · have hrec := ih _ (by rw [List.length_take]; omega) m
            (nodes.take (splitPoint nodes.length)) complete heven hpos
            (by rw [List.length_take]; omega) rfl
          rw [subproof_left node hlt (by omega) hleft, hrec,
            subproof_left node hmup hup (by rw [hhalf]; omega), hhalf, htake, hdrop, head_pairUp]
      · have hwhole : m = nodes.length := by omega
        rw [subproof_whole node hwhole, subproof_whole node (by rw [length_pairUp]; omega),
          head_pairUp]

/-- An odd old size ends at a node of its own, followed by that node's audit
path; the node is left out when it is the whole old tree. -/
theorem subproof_odd (m : Nat) (nodes : List H) (complete : Bool) (hodd : m % 2 = 1)
    (hm : m < nodes.length) :
    subproof node m nodes complete =
      (if complete = true ∧ m = 1 then [] else nodes[m - 1]?.toList) ++
        auditPath node nodes (m - 1) := by
  induction hn : nodes.length using Nat.strongRecOn generalizing m nodes complete with
  | ind n ih =>
      subst hn
      have hklt := splitPoint_lt (n := nodes.length) (by omega)
      have hkpos := splitPoint_pos nodes.length
      rcases Nat.lt_or_ge (splitPoint nodes.length) m with hright | hleft
      · have hkeven := splitPoint_even (n := nodes.length) (by omega)
        have hrec := ih _ (by rw [List.length_drop]; omega) (m - splitPoint nodes.length)
          (nodes.drop (splitPoint nodes.length)) false (by omega)
          (by rw [List.length_drop]; omega) rfl
        rw [subproof_right node hm (by omega) hright, hrec,
          auditPath_right node nodes (m - 1) (by omega) (by omega), if_neg (by simp),
          if_neg (by omega), List.getElem?_drop, List.append_assoc,
          show splitPoint nodes.length + (m - splitPoint nodes.length - 1) = m - 1 by omega,
          show m - splitPoint nodes.length - 1 = m - 1 - splitPoint nodes.length by omega]
      · rw [subproof_left node hm (by omega) hleft,
          auditPath_left node nodes (m - 1) (by omega) (by omega)]
        rcases Nat.lt_or_ge m (splitPoint nodes.length) with hinner | hedge
        · have hrec := ih _ (by rw [List.length_take]; omega) m
            (nodes.take (splitPoint nodes.length)) complete hodd
            (by rw [List.length_take]; omega) rfl
          rw [hrec, List.getElem?_take_of_lt (by omega), List.append_assoc]
        · -- an odd power of two is one, so the left subtree is a single node
          have hone : splitPoint nodes.length = 1 := by
            by_contra hne
            have := splitPoint_even (n := nodes.length) (by
              by_contra hle
              exact hne (splitPoint_of_le_two (by omega)))
            omega
          obtain rfl : m = 1 := by omega
          have htake : nodes.take 1 = [nodes[0]] := by
            rw [List.take_one, List.head?_eq_getElem?, List.getElem?_eq_getElem (by omega)]
            rfl
          rw [hone, subproof_whole node (by simp [htake]), htake]
          cases complete <;> simp [auditPath_short, show 0 < nodes.length by omega]

end Builder

variable {node : H → H → H} {good : H → Prop}

/-- Levels that agree below a position agree below its half one level up. -/
theorem agree_pairUp {old new : List H} {p : Nat} (h : ∀ j < p, old[j]? = new[j]?) :
    ∀ j < p / 2, (pairUp node old)[j]? = (pairUp node new)[j]? := by
  intro j hj
  rw [getElem?_pairUp, getElem?_pairUp, h (2 * j) (by omega), h (2 * j + 1) (by omega)]

/-- Equal parents have equal children. -/
theorem agree_of_agree_pairUp (hb : Binding node good) {old new : List H} {k : Nat}
    (hgood : ∀ x ∈ pairUp node old, good x) (hold : 2 * k ≤ old.length)
    (hnew : 2 * k ≤ new.length) (h : ∀ j < k, (pairUp node old)[j]? = (pairUp node new)[j]?) :
    ∀ j < 2 * k, old[j]? = new[j]? := by
  have hpair : ∀ j < k, old[2 * j]? = new[2 * j]? ∧ old[2 * j + 1]? = new[2 * j + 1]? := by
    intro j hj
    have hparent : (pairUp node old)[j]? = some (node old[2 * j] old[2 * j + 1]) := by
      simp [getElem?_pairUp, show 2 * j < old.length by omega,
        show 2 * j + 1 < old.length by omega]
    have hparent' : (pairUp node new)[j]? = some (node new[2 * j] new[2 * j + 1]) := by
      simp [getElem?_pairUp, show 2 * j < new.length by omega,
        show 2 * j + 1 < new.length by omega]
    have hsame := h j hj
    rw [hparent, hparent', Option.some.injEq] at hsame
    obtain ⟨hl, hr⟩ := hb.inj (hgood _ (List.mem_of_getElem? hparent)) hsame
    exact ⟨by rw [List.getElem?_eq_getElem (by omega), List.getElem?_eq_getElem (by omega), hl],
      by rw [List.getElem?_eq_getElem (by omega), List.getElem?_eq_getElem (by omega), hr]⟩
  intro j hj
  rcases Nat.mod_two_eq_zero_or_one j with heven | hodd
  · rw [show j = 2 * (j / 2) by omega]
    exact (hpair (j / 2) (by omega)).1
  · rw [show j = 2 * (j / 2) + 1 by omega]
    exact (hpair (j / 2) (by omega)).2

theorem takeUp_even {A : Type*} {left : H → A → A} {p : Nat} (h : p % 2 = 0) (acc : A)
    (siblings : List H) : takeUp left (fun acc _ => acc) p acc siblings = acc := by
  simp [takeUp, h, List.foldl_fixed]

/-- The last old node's parent takes up its left sibling, which both trees share. -/
theorem getElem?_pairUp_old {old new : List H} {p : Nat} (hold : old.length = p + 1)
    (h : ∀ j < p, old[j]? = new[j]?) :
    (pairUp node old)[p / 2]? =
      some (takeUp node (fun acc _ => acc) p old[p] (levelSibling new p)) := by
  rw [getElem?_pairUp]
  rcases Nat.mod_two_eq_zero_or_one p with heven | hodd
  · have hdouble : 2 * (p / 2) = p := by omega
    simp [hdouble, hold, takeUp_even heven]
  · have hdouble : 2 * (p / 2) = p - 1 := by omega
    have hnext : p - 1 + 1 = p := by omega
    have hshared : new[p - 1]? = some old[p - 1] := by
      rw [← h (p - 1) (by omega), List.getElem?_eq_getElem]
    simp [hdouble, hnext, hold, takeUp, levelSibling, hodd, hshared,
      show p - 1 < p + 1 by omega]

variable [Inhabited H]

/-- Along the new tree's audit path, the old half of the climb reaches the head
of the old tree. -/
theorem climbOld_auditPath (old new : List H) (p : Nat) (hold : old.length = p + 1)
    (hp : p < new.length) (h : ∀ j < p, old[j]? = new[j]?) :
    climbOld node p (new.length - 1) old[p] (auditPath node new p) = some (head node old) := by
  induction hn : new.length using Nat.strongRecOn generalizing old new p with
  | ind n ih =>
      subst hn
      rcases Nat.lt_or_ge 1 new.length with hlen | hshort
      · have hup : p / 2 < (pairUp node old).length := by rw [length_pairUp]; omega
        have hrec := ih _ (by rw [length_pairUp]; omega) (pairUp node old) (pairUp node new) (p / 2)
          (by rw [length_pairUp]; omega) (by rw [length_pairUp]; omega) (agree_pairUp h) rfl
        have hparent : (pairUp node old)[p / 2]? = _ := getElem?_pairUp_old hold h
        rw [List.getElem?_eq_getElem hup, Option.some.injEq] at hparent
        rw [climbOld, auditPath_level node new p hp, climb_level _ _ _ _ (by omega) hp,
          ← head_pairUp node old, ← hrec, hparent, length_pairUp,
          show (new.length + 1) / 2 - 1 = (new.length - 1) / 2 by omega]
        rfl
      · obtain rfl : p = 0 := by omega
        match old, hold with
        | [a], _ => simp [climbOld, auditPath_short node hshort,
            show new.length - 1 = 0 by omega, climb_top]

/-- Under a binding node function, the old half of a climb along the new tree's
audit path reaches the old head only from the last old node, and only when the
two trees agree before it. -/
theorem agree_of_climbOld (hb : Binding node good) {old new : List H} {p : Nat} {acc : H}
    (hgood : good (head node old)) (hold : old.length = p + 1) (hp : p < new.length)
    (hclimb : climbOld node p (new.length - 1) acc (auditPath node new p) =
      some (head node old)) :
    old[p]? = some acc ∧ ∀ j < p, old[j]? = new[j]? := by
  induction hn : new.length using Nat.strongRecOn generalizing old new p acc with
  | ind n ih =>
      subst hn
      rcases Nat.lt_or_ge 1 new.length with hlen | hshort
      · rw [climbOld, auditPath_level node new p hp, climb_level _ _ _ _ (by omega) hp,
          ← head_pairUp node old] at hclimb
        rw [← head_pairUp node old] at hgood
        have holdUp : (pairUp node old).length = p / 2 + 1 := by rw [length_pairUp]; omega
        have hnewUp : (pairUp node new).length - 1 = (new.length - 1) / 2 := by
          rw [length_pairUp]; omega
        obtain ⟨hacc, hagree⟩ := @ih (pairUp node new).length (by rw [length_pairUp]; omega)
          (pairUp node old) (pairUp node new) (p / 2) _ hgood holdUp
          (by rw [length_pairUp]; omega) (by rw [hnewUp]; exact hclimb) rfl
        have hupGood := good_of_good_head hb hgood
        have hbelow := agree_of_agree_pairUp hb hupGood (by omega) (by omega) hagree
        rcases Nat.mod_two_eq_zero_or_one p with heven | hodd
        · have hagree' : ∀ j < p, old[j]? = new[j]? := fun j hj => hbelow j (by omega)
          rw [getElem?_pairUp_old hold hagree', takeUp_even heven] at hacc
          refine ⟨?_, hagree'⟩
          rw [List.getElem?_eq_getElem (by omega), hacc]
          exact congrArg some (takeUp_even heven acc _)
        · have hdouble : 2 * (p / 2) = p - 1 := by omega
          have hnext : p - 1 + 1 = p := by omega
          have hparent : (pairUp node old)[p / 2]? = some (node old[p - 1] old[p]) := by
            simp [getElem?_pairUp, hdouble, hnext, hold, show p - 1 < p + 1 by omega]
          have hparentGood := hupGood _ (List.mem_of_getElem? hparent)
          have hsib : levelSibling new p = [new[p - 1]] := by
            simp [levelSibling, hodd, show p - 1 < new.length by omega]
          rw [hparent, hsib] at hacc
          simp only [List.foldl_cons, List.foldl_nil, hodd, if_true, Option.some.injEq] at hacc
          obtain ⟨hleft, hright⟩ := hb.inj hparentGood hacc
          refine ⟨by rw [List.getElem?_eq_getElem (by omega), hright], ?_⟩
          intro j hj
          rcases Nat.lt_or_ge j (p - 1) with hlt | hge
          · exact hbelow j (by omega)
          · obtain rfl : j = p - 1 := by omega
            rw [List.getElem?_eq_getElem (by omega), List.getElem?_eq_getElem (by omega), hleft]
      · obtain rfl : p = 0 := by omega
        obtain ⟨a, rfl⟩ : ∃ a, old = [a] := List.length_eq_one_iff.mp hold
        simp only [climbOld, auditPath_short node hshort,
          show new.length - 1 = 0 by omega, climb_top, if_true, head_singleton,
          Option.some.injEq] at hclimb
        exact ⟨by simp [hclimb], by omega⟩

/-- Two trees of one size and one head have the same nodes. -/
theorem eq_of_head_eq (hb : Binding node good) {old new : List H}
    (hgood : good (head node old)) (hlen : old.length = new.length)
    (h : head node old = head node new) : old = new := by
  induction hn : new.length using Nat.strongRecOn generalizing old new with
  | ind n ih =>
      subst hn
      rcases Nat.lt_or_ge 1 new.length with hlong | hshort
      · have hlt := splitPoint_lt (n := new.length) (by omega)
        have hpos := splitPoint_pos new.length
        rw [head_split node old (by omega), hlen] at hgood h
        rw [head_split node new (by omega)] at h
        obtain ⟨hleft, hright⟩ := hb.inj hgood h
        have htake := ih _ (by rw [List.length_take]; omega) (hb.left_good hgood)
          (by simp [hlen]) hleft rfl
        have hdrop := ih _ (by rw [List.length_drop]; omega) (hb.right_good hgood)
          (by simp [hlen]) hright rfl
        rw [← List.take_append_drop (splitPoint new.length) old, htake, hdrop,
          List.take_append_drop]
      · match new, hshort with
        | [], _ => simpa using hlen
        | [b], _ =>
            obtain ⟨a, rfl⟩ := List.length_eq_one_iff.mp hlen
            simpa using h

/-- A consistency path that climbs to both heads from one start proves that the
old nodes are the first nodes of the new tree. -/
theorem prefix_of_climbs (hb : Binding node good) {old new : List H} {start : H}
    {path : List H} (hold : good (head node old)) (hnew : good (head node new))
    (hpos : 0 < old.length) (hle : old.length ≤ new.length)
    (hclimbOld : climbOld node (lower (old.length - 1) (new.length - 1)).1
      (lower (old.length - 1) (new.length - 1)).2 start path = some (head node old))
    (hclimb : climb node node (lower (old.length - 1) (new.length - 1)).1
      (lower (old.length - 1) (new.length - 1)).2 start path = some (head node new)) :
    old = new.take old.length := by
  induction hn : old.length using Nat.strongRecOn generalizing old new with
  | ind n ih =>
      subst hn
      rcases Nat.mod_two_eq_zero_or_one (old.length - 1) with heven | hodd
      · rw [lower_even heven] at hclimbOld hclimb
        obtain ⟨rfl, rfl⟩ := eq_of_climb hb hnew (by omega) hclimb
        obtain ⟨hlast, hagree⟩ :=
          agree_of_climbOld hb hold (by omega) (by omega) hclimbOld
        refine List.ext_getElem? fun j => ?_
        rw [List.getElem?_take]
        split
        · rename_i hj
          rcases Nat.lt_or_ge j (old.length - 1) with hbefore | hat
          · exact hagree j hbefore
          · obtain rfl : j = old.length - 1 := by omega
            rw [hlast, List.getElem?_eq_getElem]
        · exact List.getElem?_eq_none (by omega)
      · have holdUp : (pairUp node old).length = old.length / 2 := by rw [length_pairUp]; omega
        have holdPos : (old.length - 1) / 2 = (pairUp node old).length - 1 := by
          rw [holdUp]; omega
        have hnewPos : (new.length - 1) / 2 = (pairUp node new).length - 1 := by
          rw [length_pairUp]; omega
        rw [lower_odd hodd, holdPos, hnewPos, ← head_pairUp] at hclimbOld hclimb
        rw [← head_pairUp] at hold hnew
        have hup := ih _ (by omega) hold hnew (by omega) (by rw [holdUp, length_pairUp]; omega)
          hclimbOld hclimb rfl
        have hupAgree : ∀ j < old.length / 2, (pairUp node old)[j]? = (pairUp node new)[j]? := by
          intro j hj
          rw [hup, List.getElem?_take_of_lt (by omega)]
        have hagree := agree_of_agree_pairUp hb (good_of_good_head hb hold) (by omega) (by omega)
          hupAgree
        refine List.ext_getElem? fun j => ?_
        rw [List.getElem?_take]
        split
        · exact hagree j (by omega)
        · exact List.getElem?_eq_none (by omega)

/-- The consistency path of the first `m` nodes climbs to both heads from one
start: its own first node, or the whole old tree when that is a subtree. -/
theorem climbs_subproof (m : Nat) (new : List H) (hpos : 0 < m) (hm : m < new.length) :
    ∃ start rest,
      subproof node m new true =
        (if (lower (m - 1) (new.length - 1)).1 = 0 then rest else start :: rest) ∧
      ((lower (m - 1) (new.length - 1)).1 = 0 → start = head node (new.take m)) ∧
      climbOld node (lower (m - 1) (new.length - 1)).1 (lower (m - 1) (new.length - 1)).2
        start rest = some (head node (new.take m)) ∧
      climb node node (lower (m - 1) (new.length - 1)).1 (lower (m - 1) (new.length - 1)).2
        start rest = some (head node new) := by
  induction hn : m using Nat.strongRecOn generalizing m new with
  | ind n ih =>
      subst hn
      rcases Nat.mod_two_eq_zero_or_one (m - 1) with heven | hodd
      · have hlen : (new.take m).length = m - 1 + 1 := by rw [List.length_take]; omega
        have hlast : (new.take m)[m - 1] = new[m - 1] := List.getElem_take
        refine ⟨new[m - 1], auditPath node new (m - 1), ?_, ?_, ?_, ?_⟩ <;> rw [lower_even heven]
        · rw [subproof_odd node m new true (by omega) hm,
            List.getElem?_eq_getElem (show m - 1 < new.length by omega)]
          rcases Nat.lt_or_ge 1 m with hlong | hone
          · simp [show m ≠ 1 by omega, show m - 1 ≠ 0 by omega]
          · simp [show m = 1 by omega]
        · intro hzero
          obtain rfl : m = 1 := by simp only at hzero; omega
          rw [List.take_one, List.head?_eq_getElem?, List.getElem?_eq_getElem (by omega)]
          simp
        · rw [← hlast]
          refine climbOld_auditPath (new.take m) new (m - 1) hlen (by omega) ?_
          intro j hj
          rw [List.getElem?_take_of_lt (by omega)]
        · exact climb_auditPath new (m - 1) (by omega)
      · have hmUp : (m - 1) / 2 = m / 2 - 1 := by omega
        have hnewUp : (new.length - 1) / 2 = (pairUp node new).length - 1 := by
          rw [length_pairUp]; omega
        obtain ⟨htake, -⟩ := pairUp_take_drop node (show m % 2 = 0 by omega) (Nat.le_of_lt hm)
        have hrec := ih (m / 2) (by omega) (m / 2) (pairUp node new) (by omega)
          (by rw [length_pairUp]; omega) rfl
        rw [htake, head_pairUp, head_pairUp] at hrec
        rw [lower_odd hodd, hmUp, hnewUp, subproof_even node m new true (by omega) hpos (by omega)]
        exact hrec

end MerkleTree
