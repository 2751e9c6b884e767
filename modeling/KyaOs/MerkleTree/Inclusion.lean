import KyaOs.MerkleTree.Climb

/-!
# Inclusion: what a climb to the head of a tree proves

Climbing the audit path of a node reaches the head. Conversely, when the node
function is binding on the values that matter, a climb that reaches the head
started from the node at that position and used exactly its audit path.
-/

namespace MerkleTree

variable {H A : Type*}

/-- A node function that can be opened in only one way wherever its value is
`good`, with good values built from good values. -/
structure Binding (node : H → H → H) (good : H → Prop) : Prop where
  left_good : ∀ {a b}, good (node a b) → good a
  right_good : ∀ {a b}, good (node a b) → good b
  inj : ∀ {a b c d}, good (node a b) → node a b = node c d → a = c ∧ b = d

/-- Take up the siblings of one level into an accumulator. -/
def takeUp (left : H → A → A) (right : A → H → A) (p : Nat) (acc : A) (siblings : List H) : A :=
  siblings.foldl (fun acc sibling => if p % 2 = 1 then left sibling acc else right acc sibling) acc

section Level

variable (left : H → A → A) (right : A → H → A)

/-- A climb that arrives consumed as many siblings on its first level as the
node at its position has there. -/
theorem climb_arrives {nodes : List H} {p : Nat} {acc result : A} {path : List H}
    (hlen : 2 ≤ nodes.length) (hp : p < nodes.length)
    (h : climb left right p (nodes.length - 1) acc path = some result) :
    ∃ siblings rest, path = siblings ++ rest ∧
      siblings.length = (levelSibling nodes p).length ∧
      climb left right (p / 2) ((nodes.length - 1) / 2) (takeUp left right p acc siblings) rest =
        some result := by
  rcases Nat.mod_two_eq_zero_or_one p with heven | hodd
  · rcases Nat.lt_or_ge (p + 1) nodes.length with hlt | hlast
    · cases path with
      | nil => rw [climb_nil _ _ _ (by omega)] at h; cases h
      | cons sibling rest =>
          rw [climb_even _ _ _ _ _ heven (by omega)] at h
          exact ⟨[sibling], rest, rfl, by simp [levelSibling, heven, hlt],
            by simpa [takeUp, heven] using h⟩
    · obtain rfl : p = nodes.length - 1 := by omega
      rw [climb_promote _ _ _ _ heven (by omega)] at h
      exact ⟨[], path, rfl, by
        simp [levelSibling, heven, show nodes.length ≤ nodes.length - 1 + 1 by omega], h⟩
  · cases path with
    | nil => rw [climb_nil _ _ _ (by omega)] at h; cases h
    | cons sibling rest =>
        rw [climb_odd _ _ _ _ _ hodd (by omega)] at h
        exact ⟨[sibling], rest, rfl, by
          simp [levelSibling, hodd, show p - 1 < nodes.length by omega],
          by simpa [takeUp, hodd] using h⟩

end Level

variable [Inhabited H] {node : H → H → H} {good : H → Prop}

omit [Inhabited H] in
/-- Taking up the own sibling of a node gives its parent. -/
theorem getElem?_pairUp_half {nodes : List H} {p : Nat} (hp : p < nodes.length) :
    (pairUp node nodes)[p / 2]? =
      some (takeUp node node p nodes[p] (levelSibling nodes p)) := by
  rw [getElem?_pairUp]
  rcases Nat.mod_two_eq_zero_or_one p with heven | hodd
  · have hdouble : 2 * (p / 2) = p := by omega
    rcases Nat.lt_or_ge (p + 1) nodes.length with hlt | hlast
    · simp [hdouble, hp, hlt, takeUp, levelSibling, heven]
    · simp [hdouble, hp, hlast, takeUp, levelSibling, heven]
  · have hdouble : 2 * (p / 2) = p - 1 := by omega
    have hnext : p - 1 + 1 = p := by omega
    simp [hdouble, hnext, hp, takeUp, levelSibling, hodd, show p - 1 < nodes.length by omega]

theorem good_of_good_head (hb : Binding node good) {nodes : List H}
    (h : good (head node nodes)) : ∀ x ∈ nodes, good x := by
  induction hn : nodes.length using Nat.strongRecOn generalizing nodes with
  | ind n ih =>
      subst hn
      rcases Nat.lt_or_ge 1 nodes.length with hlen | hshort
      · have hlt := splitPoint_lt (n := nodes.length) (by omega)
        have hpos := splitPoint_pos nodes.length
        rw [head_split node nodes (by omega)] at h
        have htake := ih _ (by rw [List.length_take]; omega) (hb.left_good h) rfl
        have hdrop := ih _ (by rw [List.length_drop]; omega) (hb.right_good h) rfl
        intro x hx
        rw [← List.take_append_drop (splitPoint nodes.length) nodes] at hx
        rcases List.mem_append.mp hx with hx | hx
        · exact htake x hx
        · exact hdrop x hx
      · match nodes, hshort with
        | [], _ => simp
        | [a], _ => simpa using h

/-- The audit path of a node climbs to the head. -/
theorem climb_auditPath (nodes : List H) (p : Nat) (hp : p < nodes.length) :
    climb node node p (nodes.length - 1) nodes[p] (auditPath node nodes p) =
      some (head node nodes) := by
  induction hn : nodes.length using Nat.strongRecOn generalizing nodes p with
  | ind n ih =>
      subst hn
      rcases Nat.lt_or_ge 1 nodes.length with hlen | hshort
      · have hup : p / 2 < (pairUp node nodes).length := by rw [length_pairUp]; omega
        have hrec := ih _ (by rw [length_pairUp]; omega) (pairUp node nodes) (p / 2) hup rfl
        have hparent : (pairUp node nodes)[p / 2]? = _ := getElem?_pairUp_half hp
        rw [List.getElem?_eq_getElem hup, Option.some.injEq] at hparent
        rw [auditPath_level node nodes p hp, climb_level node node _ _ (by omega) hp,
          ← head_pairUp node nodes, ← hrec, hparent, length_pairUp,
          show (nodes.length + 1) / 2 - 1 = (nodes.length - 1) / 2 by omega]
        rfl
      · match nodes, hp, hshort with
        | [a], hp, _ =>
            obtain rfl : p = 0 := by simpa using hp
            simp [auditPath_short, climb_top]

/-- Under a binding node function, a climb that reaches the head of a tree
started from its node at that position, along that node's audit path. -/
theorem eq_of_climb (hb : Binding node good) {nodes : List H} {p : Nat} {acc : H}
    {path : List H} (hgood : good (head node nodes)) (hp : p < nodes.length)
    (h : climb node node p (nodes.length - 1) acc path = some (head node nodes)) :
    acc = nodes[p] ∧ path = auditPath node nodes p := by
  induction hn : nodes.length using Nat.strongRecOn generalizing nodes p acc path with
  | ind n ih =>
      subst hn
      rcases Nat.lt_or_ge 1 nodes.length with hlen | hshort
      · obtain ⟨siblings, rest, rfl, hcount, hclimb⟩ := climb_arrives node node (by omega) hp h
        have hup : p / 2 < (pairUp node nodes).length := by rw [length_pairUp]; omega
        rw [← head_pairUp node nodes] at hgood hclimb
        obtain ⟨hacc, hrest⟩ := ih _ (by rw [length_pairUp]; omega) hgood hup
          (by rw [length_pairUp, show (nodes.length + 1) / 2 - 1 = (nodes.length - 1) / 2 by omega]
              exact hclimb) rfl
        have hparent : (pairUp node nodes)[p / 2]? = _ := getElem?_pairUp_half hp
        rw [List.getElem?_eq_getElem hup, Option.some.injEq] at hparent
        have hparentGood := good_of_good_head hb hgood _ (List.getElem_mem hup)
        rw [auditPath_level node nodes p hp, hrest]
        -- both take one level up to the same parent, with equally many siblings
        match hs : levelSibling nodes p, siblings, hcount with
        | [], [], _ =>
            rw [hs] at hparent
            exact ⟨hacc.trans hparent, rfl⟩
        | [own], [sibling], _ =>
            rw [hs] at hparent
            rw [hparent] at hacc hparentGood
            simp only [takeUp, List.foldl_cons, List.foldl_nil] at hacc hparentGood
            split at hacc
            · rename_i hodd
              rw [if_pos hodd] at hparentGood
              obtain ⟨rfl, rfl⟩ := hb.inj hparentGood hacc.symm
              exact ⟨rfl, rfl⟩
            · rename_i heven
              rw [if_neg heven] at hparentGood
              obtain ⟨rfl, rfl⟩ := hb.inj hparentGood hacc.symm
              exact ⟨rfl, rfl⟩
        | _ :: _ :: _, _, _ =>
            have := congrArg List.length hs
            simp only [levelSibling, List.length_cons] at this
            have hle := Option.length_toList_le
              (o := nodes[if p % 2 = 1 then p - 1 else p + 1]?)
            omega
      · obtain ⟨a, rfl⟩ : ∃ a, nodes = [a] := List.length_eq_one_iff.mp (by omega)
        obtain rfl : p = 0 := by simpa using hp
        simp only [List.length_singleton, Nat.sub_self, climb_top, head_singleton] at h
        split at h
        · rename_i hpath
          exact ⟨by simpa using h, by rw [hpath, auditPath_short node (by simp)]⟩
        · cases h

end MerkleTree
