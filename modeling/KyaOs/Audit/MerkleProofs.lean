import KyaOs.Audit.Merkle
import Mathlib.Data.List.Nodup

/-!
# Soundness and completeness of audit Merkle proofs

A rejected hash is read as a missing node, so the source's tree over digest
texts is the library's tree over optional digests, and the two verifier loops
are climbs. Under an injective hasher the node function is binding wherever a
node is present, and the library's results give the two soundness theorems.
Completeness needs only that the hasher answers with well-formed digests.
-/

namespace KyaOs.Audit

open Js MerkleTree

theorem toNat_hexDigit_lt {u : UInt16} (h : isLowerHex u = true) : hexDigit u < 16 := by
  simp only [isLowerHex, isDigit, hexDigit, digitValue, Bool.or_eq_true, Bool.and_eq_true,
    decide_eq_true_eq, UInt16.le_iff_toNat_le] at *
  simp only [UInt16.reduceToNat] at *
  split <;> omega

theorem hexDigit_injective {u v : UInt16} (hu : isLowerHex u = true) (hv : isLowerHex v = true)
    (h : hexDigit u = hexDigit v) : u = v := by
  rw [← UInt16.toNat_inj]
  simp only [isLowerHex, isDigit, hexDigit, digitValue, Bool.or_eq_true, Bool.and_eq_true,
    decide_eq_true_eq, UInt16.le_iff_toNat_le] at *
  simp only [UInt16.reduceToNat] at *
  split at h <;> split at h <;> omega

theorem length_hexBytes (hex : JsString) : (hexBytes hex).length = hex.length / 2 := by
  induction hex using hexBytes.induct with
  | case1 hi lo rest ih => simp only [hexBytes, List.length_cons, ih]; omega
  | case2 hex h =>
      match hex with
      | [] => rfl
      | [_] => simp [hexBytes]
      | hi :: lo :: rest => exact absurd rfl (h hi lo rest)

theorem hexBytes_injective {a b : JsString} (hlen : a.length = b.length)
    (heven : a.length % 2 = 0) (ha : a.all isLowerHex = true) (hb : b.all isLowerHex = true)
    (h : hexBytes a = hexBytes b) : a = b := by
  induction a using hexBytes.induct generalizing b with
  | case1 hi lo rest ih =>
      match b, hlen with
      | hi' :: lo' :: rest', hlen =>
          simp only [List.all_cons, Bool.and_eq_true] at ha hb
          simp only [hexBytes, List.cons.injEq, ← UInt8.toNat_inj, UInt8.toNat_ofNat'] at h
          have h1 := toNat_hexDigit_lt ha.1
          have h2 := toNat_hexDigit_lt ha.2.1
          have h3 := toNat_hexDigit_lt hb.1
          have h4 := toNat_hexDigit_lt hb.2.1
          obtain rfl := hexDigit_injective ha.1 hb.1 (by omega)
          obtain rfl := hexDigit_injective ha.2.1 hb.2.1 (by omega)
          rw [ih (by simpa using hlen) (by simp only [List.length_cons] at heven; omega)
            ha.2.2 hb.2.2 h.2]
  | case2 a hshort =>
      match a, b, hlen with
      | [], [], _ => rfl
      | [_], _, _ => simp at heven
      | hi :: lo :: rest, _, _ => exact absurd rfl (hshort hi lo rest)

/-- A digest the hasher may return: `DIGEST_PATTERN` accepts it. -/
def WellFormed (digest : Digest) : Prop := (digestPattern digest).isSome

instance (digest : Digest) : Decidable (WellFormed digest) :=
  inferInstanceAs (Decidable ((digestPattern digest).isSome = true))

theorem digestPattern_cases {digest hex : JsString} (h : digestPattern digest = some hex) :
    digest = js "sha256:" ++ hex ∧ hex.length = 64 ∧ hex.all isLowerHex = true := by
  unfold digestPattern at h
  split at h
  · rename_i hstart
    obtain ⟨tail, rfl⟩ := startsWith_iff.mp hstart
    have hdrop : (js "sha256:" ++ tail).drop 7 = tail := List.drop_left' (by decide)
    simp only [hdrop] at h
    split at h
    · rename_i hhex
      cases h
      exact ⟨rfl, hhex⟩
    · cases h
  · cases h

theorem digestBytes_ok {digest : Digest} {bytes : Bytes} (h : digestBytes digest = .ok bytes) :
    ∃ hex, digestPattern digest = some hex ∧ hexBytes hex = bytes := by
  unfold digestBytes at h
  split at h
  · cases h
  · rename_i hex hpattern
    cases h
    exact ⟨hex, hpattern, rfl⟩

theorem length_of_digestBytes {digest : Digest} {bytes : Bytes}
    (h : digestBytes digest = .ok bytes) : bytes.length = 32 := by
  obtain ⟨hex, hpattern, rfl⟩ := digestBytes_ok h
  rw [length_hexBytes, (digestPattern_cases hpattern).2.1]

theorem digestBytes_injective {a b : Digest} {bytes : Bytes} (ha : digestBytes a = .ok bytes)
    (hb : digestBytes b = .ok bytes) : a = b := by
  obtain ⟨hex, hpattern, rfl⟩ := digestBytes_ok ha
  obtain ⟨hex', hpattern', hsame⟩ := digestBytes_ok hb
  obtain ⟨rfl, hlen, hall⟩ := digestPattern_cases hpattern
  obtain ⟨rfl, hlen', hall'⟩ := digestPattern_cases hpattern'
  rw [hexBytes_injective (by omega) (by omega) hall hall' hsame.symm]

theorem digestBytes_of_wellFormed {digest : Digest} (h : WellFormed digest) :
    ∃ bytes, digestBytes digest = .ok bytes := by
  obtain ⟨hex, hhex⟩ := Option.isSome_iff_exists.mp h
  exact ⟨hexBytes hex, by simp [digestBytes, hhex]⟩

section Link

variable {sha256 : Bytes → Except Error Digest}

/-- A node with both children present is their hash, when the hasher answers. -/
def node (sha256 : Bytes → Except Error Digest) (left right : Option Digest) : Option Digest :=
  left.bind fun l => right.bind fun r => (nodeHash sha256 l r).toOption

/-- The bottom level of the tree. -/
def leafNodes (sha256 : Bytes → Except Error Digest) (leaves : List Digest) :
    List (Option Digest) :=
  leaves.map fun leaf => (leafHash sha256 leaf).toOption

@[simp] theorem length_leafNodes (leaves : List Digest) :
    (leafNodes sha256 leaves).length = leaves.length := by
  simp [leafNodes]

theorem getElem_leafNodes (leaves : List Digest) (i : Nat)
    (hi : i < (leafNodes sha256 leaves).length) :
    (leafNodes sha256 leaves)[i] =
      (leafHash sha256 (leaves.get ⟨i, by rwa [length_leafNodes] at hi⟩)).toOption := by
  simp [leafNodes]

theorem leafNodes_take (leaves : List Digest) (k : Nat) :
    (leafNodes sha256 leaves).take k = leafNodes sha256 (leaves.take k) := by
  simp [leafNodes]

theorem leafNodes_drop (leaves : List Digest) (k : Nat) :
    (leafNodes sha256 leaves).drop k = leafNodes sha256 (leaves.drop k) := by
  simp [leafNodes]

theorem root_split {leaves : List Digest} (h : 2 ≤ leaves.length) :
    root sha256 leaves = (do
      let left ← root sha256 (leaves.take (splitPoint leaves.length))
      let right ← root sha256 (leaves.drop (splitPoint leaves.length))
      nodeHash sha256 left right) := by
  match leaves, h with
  | a :: b :: rest, _ =>
      rw [root]
      simp only [largestPowerOfTwoLessThan_eq]

theorem root_toOption (leaves : List Digest) (h : leaves ≠ []) :
    (root sha256 leaves).toOption = head (node sha256) (leafNodes sha256 leaves) := by
  induction hn : leaves.length using Nat.strongRecOn generalizing leaves with
  | ind n ih =>
      subst hn
      rcases Nat.lt_or_ge 1 leaves.length with hlong | hshort
      · have hlt := splitPoint_lt (n := leaves.length) (by omega)
        have hpos := splitPoint_pos leaves.length
        have hleft := ih _ (by rw [List.length_take]; omega)
          (leaves.take (splitPoint leaves.length))
          (List.ne_nil_of_length_pos (by rw [List.length_take]; omega)) rfl
        have hright := ih _ (by rw [List.length_drop]; omega)
          (leaves.drop (splitPoint leaves.length))
          (List.ne_nil_of_length_pos (by rw [List.length_drop]; omega)) rfl
        rw [root_split (by omega), head_split _ _ (by rw [length_leafNodes]; omega),
          length_leafNodes, leafNodes_take, leafNodes_drop, ← hleft, ← hright]
        simp [node]
      · match leaves, h, hshort with
        | [leaf], _, _ => simp [root, leafNodes]

/-- A path read as nodes ends in `last` when the digests do. -/
theorem append_eq_map_some_iff {nodes : List (Option Digest)} {last : Option Digest}
    {path : List Digest} : nodes ++ [last] = path.map some ↔
      ∃ before digest, nodes = before.map some ∧ last = some digest ∧
        path = before ++ [digest] := by
  constructor
  · intro h
    obtain ⟨before, rest, rfl, rfl, hrest⟩ := List.map_eq_append_iff.mp h.symm
    obtain ⟨digest, rfl, rfl⟩ := List.map_eq_singleton_iff.mp hrest
    exact ⟨before, digest, rfl, rfl, rfl⟩
  · rintro ⟨before, digest, rfl, rfl, rfl⟩
    simp

/-- One round of a proof builder: the inner path, then the sibling's root. -/
theorem append_root_ok_iff {inner : Except Error (List Digest)} {leaves path : List Digest}
    (h : leaves ≠ []) :
    (do let path ← inner
        let sibling ← root sha256 leaves
        return path ++ [sibling]) = .ok path ↔
      ∃ before digest, inner = .ok before ∧
        head (node sha256) (leafNodes sha256 leaves) = some digest ∧
        path = before ++ [digest] := by
  rw [← root_toOption leaves h]
  cases inner with
  | error e => simp [bind, Except.bind]
  | ok before =>
      cases root sha256 leaves with
      | error e => simp [bind, Except.bind, Except.toOption]
      | ok digest => simp [bind, Except.bind, pure, Except.pure, Except.toOption, @eq_comm _ path]

theorem buildInclusionProof_ok_iff (leaves path : List Digest) (i : Nat) :
    buildInclusionProof sha256 leaves i = .ok path ↔
      auditPath (node sha256) (leafNodes sha256 leaves) i = path.map some := by
  induction hn : leaves.length using Nat.strongRecOn generalizing leaves path i with
  | ind n ih =>
      subst hn
      rcases Nat.lt_or_ge 1 leaves.length with hlong | hshort
      · have hlt := splitPoint_lt (n := leaves.length) (by omega)
        have hpos := splitPoint_pos leaves.length
        have htake : leaves.take (splitPoint leaves.length) ≠ [] :=
          List.ne_nil_of_length_pos (by rw [List.length_take]; omega)
        have hdrop : leaves.drop (splitPoint leaves.length) ≠ [] :=
          List.ne_nil_of_length_pos (by rw [List.length_drop]; omega)
        rw [buildInclusionProof, if_neg (by omega), largestPowerOfTwoLessThan_eq]
        rcases Nat.lt_or_ge i (splitPoint leaves.length) with hleft | hright
        · rw [auditPath_left _ _ _ (by rw [length_leafNodes]; omega)
            (by rw [length_leafNodes]; exact hleft), append_eq_map_some_iff, length_leafNodes,
            leafNodes_take, leafNodes_drop]
          simp only [hleft, if_true, append_root_ok_iff hdrop]
          simp only [ih _ (show (leaves.take (splitPoint leaves.length)).length < leaves.length by
            rw [List.length_take]; omega) _ _ _ rfl]
        · rw [auditPath_right _ _ _ (by rw [length_leafNodes]; omega)
            (by rw [length_leafNodes]; exact hright), append_eq_map_some_iff, length_leafNodes,
            leafNodes_take, leafNodes_drop]
          simp only [Nat.not_lt.mpr hright, if_false, append_root_ok_iff htake]
          simp only [ih _ (show (leaves.drop (splitPoint leaves.length)).length < leaves.length by
            rw [List.length_drop]; omega) _ _ _ rfl]
      · rw [buildInclusionProof, if_pos hshort,
          auditPath_short _ (by rw [length_leafNodes]; exact hshort)]
        cases path <;> simp [pure, Except.pure]

theorem buildConsistencyProof_ok_iff (m : Nat) (leaves path : List Digest) (complete : Bool)
    (hne : leaves ≠ []) :
    buildConsistencyProof sha256 m leaves complete = .ok path ↔
      subproof (node sha256) m (leafNodes sha256 leaves) complete = path.map some := by
  induction hn : leaves.length using Nat.strongRecOn generalizing m leaves path complete with
  | ind n ih =>
      subst hn
      rw [buildConsistencyProof, subproof, largestPowerOfTwoLessThan_eq, length_leafNodes]
      split
      · cases complete with
        | true => cases path <;> simp [pure, Except.pure]
        | false =>
            rw [← root_toOption leaves hne]
            obtain _ | ⟨_, _ | ⟨_, _⟩⟩ := path <;> cases root sha256 leaves <;>
              simp [bind, Except.bind, pure, Except.pure, Except.toOption]
      · rename_i hlong
        have hlen : 2 ≤ leaves.length := by omega
        have hlt := splitPoint_lt hlen
        have hpos := splitPoint_pos leaves.length
        have htake : leaves.take (splitPoint leaves.length) ≠ [] :=
          List.ne_nil_of_length_pos (by rw [List.length_take]; omega)
        have hdrop : leaves.drop (splitPoint leaves.length) ≠ [] :=
          List.ne_nil_of_length_pos (by rw [List.length_drop]; omega)
        simp only [leafNodes_take, leafNodes_drop]
        split
        · rw [append_eq_map_some_iff, append_root_ok_iff hdrop]
          simp only [ih _ (show (leaves.take (splitPoint leaves.length)).length < leaves.length by
            rw [List.length_take]; omega) _ _ _ _ htake rfl]
        · rw [append_eq_map_some_iff, append_root_ok_iff htake]
          simp only [ih _ (show (leaves.drop (splitPoint leaves.length)).length < leaves.length by
            rw [List.length_drop]; omega) _ _ _ _ hdrop rfl]

/-- A climb whose accumulator is already missing does not end at a digest. -/
theorem climb_none {left : Option Digest → Option Digest → Option Digest}
    {right : Option Digest → Option Digest → Option Digest} (hleft : ∀ s, left s none = none)
    (hright : ∀ s, right none s = none) (p q : Nat) (path : List (Option Digest))
    (result : Digest) : climb left right p q none path ≠ some (some result) := by
  induction path generalizing p q with
  | nil => simp [climb]
  | cons sibling rest ih =>
      simp only [climb, hleft, hright]
      split
      · simp
      · split <;> exact ih _ _

@[simp] theorem node_some_some (l r : Digest) :
    node sha256 (some l) (some r) = (nodeHash sha256 l r).toOption := rfl

@[simp] theorem node_none_right (l : Option Digest) : node sha256 l none = none := by
  cases l <;> rfl

@[simp] theorem node_none_left (r : Option Digest) : node sha256 none r = none := rfl

theorem verifyInclusionLoop_iff (expected : Digest) (p q : Nat) (acc : Digest)
    (path : List Digest) :
    verifyInclusionLoop sha256 expected p q acc path = .ok true ↔
      climb (node sha256) (node sha256) p q (some acc) (path.map some) =
        some (some expected) := by
  induction path generalizing p q acc with
  | nil =>
      simp only [verifyInclusionLoop, List.map_nil, climb]
      by_cases hq : q = 0 <;> simp [hq, pure, Except.pure]
  | cons sibling rest ih =>
      simp only [verifyInclusionLoop, List.map_cons, climb]
      split
      · simp [pure, Except.pure]
      · split
        · cases hhash : nodeHash sha256 sibling acc with
          | ok digest => simp [bind, Except.bind, ih, hhash, Except.toOption]
          | error e =>
              simpa [bind, Except.bind, hhash, Except.toOption] using
                climb_none node_none_right node_none_left _ _ _ _
        · cases hhash : nodeHash sha256 acc sibling with
          | ok digest => simp [bind, Except.bind, ih, hhash, Except.toOption]
          | error e =>
              simpa [bind, Except.bind, hhash, Except.toOption] using
                climb_none node_none_right node_none_left _ _ _ _

theorem verifyConsistencyLoop_iff (oldRoot newRoot : Digest) (p q : Nat) (old new : Digest)
    (path : List Digest) :
    verifyConsistencyLoop sha256 oldRoot newRoot p q old new path = .ok true ↔
      climbOld (node sha256) p q (some old) (path.map some) = some (some oldRoot) ∧
      climb (node sha256) (node sha256) p q (some new) (path.map some) = some (some newRoot) := by
  induction path generalizing p q old new with
  | nil =>
      simp only [verifyConsistencyLoop, List.map_nil, climbOld, climb]
      by_cases hq : q = 0 <;> simp [hq, pure, Except.pure]
  | cons sibling rest ih =>
      simp only [verifyConsistencyLoop, List.map_cons, climbOld, climb]
      split
      · simp [pure, Except.pure]
      · split
        · cases hold : nodeHash sha256 sibling old with
          | error e =>
              simpa [bind, Except.bind, hold, Except.toOption] using fun h =>
                absurd h (climb_none node_none_right (fun _ => rfl) _ _ _ _)
          | ok oldDigest =>
              cases hnew : nodeHash sha256 sibling new with
              | ok newDigest => simp [bind, Except.bind, ih, climbOld, hold, hnew, Except.toOption]
              | error e =>
                  simpa [bind, Except.bind, hold, hnew, Except.toOption] using fun _ =>
                    climb_none node_none_right node_none_left _ _ _ _
        · cases hnew : nodeHash sha256 new sibling with
          | ok newDigest => simp [bind, Except.bind, ih, climbOld, hnew, Except.toOption]
          | error e =>
              simpa [bind, Except.bind, hnew, Except.toOption] using fun _ =>
                climb_none node_none_right node_none_left _ _ _ _

/-- No two inputs the hasher answers have the same digest. -/
def InjectiveHash (sha256 : Bytes → Except Error Digest) : Prop :=
  ∀ ⦃a b : Bytes⦄ ⦃digest : Digest⦄, sha256 a = .ok digest → sha256 b = .ok digest → a = b

/-- The hasher answers every input with a well-formed digest. -/
def AnswersWellFormed (sha256 : Bytes → Except Error Digest) : Prop :=
  ∀ bytes, ∃ digest, sha256 bytes = .ok digest ∧ WellFormed digest

/-- A hasher known on the recorded inputs; `otherwise` is its answer elsewhere. -/
def recordedHash (records : List (Bytes × Digest)) (otherwise : Except Error Digest)
    (bytes : Bytes) : Except Error Digest :=
  match records.lookup bytes with
  | some digest => .ok digest
  | none => otherwise

theorem recordedHash_injective {records : List (Bytes × Digest)} {e : Error}
    (hdistinct : (records.map Prod.snd).Nodup) :
    InjectiveHash (recordedHash records (.error e)) := by
  intro a b digest ha hb
  unfold recordedHash at ha hb
  split at ha <;> split at hb <;> cases ha <;> cases hb
  rename_i hlookup hlookup'
  obtain ⟨before, after, rfl, -⟩ := List.lookup_eq_some_iff.mp hlookup
  obtain ⟨before', after', hsame, -⟩ := List.lookup_eq_some_iff.mp hlookup'
  have hmem : (b, digest) ∈ before ++ (a, digest) :: after := by rw [hsame]; simp
  have hmem' : (a, digest) ∈ before ++ (a, digest) :: after := by simp
  exact congrArg Prod.fst (List.inj_on_of_nodup_map hdistinct hmem' hmem rfl)

theorem recordedHash_answersWellFormed {records : List (Bytes × Digest)} {digest : Digest}
    (hrecords : ∀ record ∈ records, WellFormed record.2) (hdigest : WellFormed digest) :
    AnswersWellFormed (recordedHash records (.ok digest)) := by
  intro bytes
  unfold recordedHash
  split
  · rename_i recorded hlookup
    obtain ⟨before, after, rfl, -⟩ := List.lookup_eq_some_iff.mp hlookup
    exact ⟨recorded, rfl, hrecords (bytes, recorded) (by simp)⟩
  · exact ⟨digest, rfl, hdigest⟩

/-- The digest of the one-byte entry `a`. -/
def entryA : Digest :=
  js "sha256:ca978112ca1bbdcafac231b39a23dc4da786eff8147c4e72b9807785afee48bb"

/-- The digest of the one-byte entry `b`. -/
def entryB : Digest :=
  js "sha256:3e23e8160039594a33894f6564e1b1348bbd7a0088d42c4acb73eeaed59c009d"

def leafA : Digest :=
  js "sha256:a23bd5b06da9048238a65b3f1d9d0b9e15fae3dde262688e6489aa4c763d1820"

def leafB : Digest :=
  js "sha256:a0d9f0a50b35b9f7d7edc57fb64f4771ddef0fefeaca4e6f949a1514db5b136d"

def rootAB : Digest :=
  js "sha256:ad5ca6cddc0b27c6a83e332bf28011769236e6c6a1f786ebf7b5267b37a5bd22"

/-- SHA-256 on the three inputs a tree over `entryA` and `entryB` hashes. -/
def twoLeafRecords : List (Bytes × Digest) :=
  [(0x00 :: hexBytes (entryA.drop 7), leafA), (0x00 :: hexBytes (entryB.drop 7), leafB),
    (0x01 :: hexBytes (leafA.drop 7) ++ hexBytes (leafB.drop 7), rootAB)]

theorem root_twoLeafRecords :
    root (recordedHash twoLeafRecords (.error .nonError)) [entryA, entryB] = .ok rootAB := by
  simp only [root]
  decide +kernel

theorem leafHash_injective (hinj : InjectiveHash sha256) {a b digest : Digest}
    (ha : leafHash sha256 a = .ok digest) (hb : leafHash sha256 b = .ok digest) : a = b := by
  obtain ⟨bytes, hbytes, hhash⟩ := bind_eq_ok.mp ha
  obtain ⟨bytes', hbytes', hhash'⟩ := bind_eq_ok.mp hb
  obtain rfl : bytes = bytes' := by simpa using hinj hhash hhash'
  exact digestBytes_injective hbytes hbytes'

theorem nodeHash_injective (hinj : InjectiveHash sha256) {a b c d digest : Digest}
    (h : nodeHash sha256 a b = .ok digest) (h' : nodeHash sha256 c d = .ok digest) :
    a = c ∧ b = d := by
  obtain ⟨left, hleft, h⟩ := bind_eq_ok.mp h
  obtain ⟨right, hright, hhash⟩ := bind_eq_ok.mp h
  obtain ⟨left', hleft', h'⟩ := bind_eq_ok.mp h'
  obtain ⟨right', hright', hhash'⟩ := bind_eq_ok.mp h'
  have hbytes : left ++ right = left' ++ right' := by simpa using hinj hhash hhash'
  obtain ⟨rfl, rfl⟩ := List.append_inj hbytes
    ((length_of_digestBytes hleft).trans (length_of_digestBytes hleft').symm)
  exact ⟨digestBytes_injective hleft hleft', digestBytes_injective hright hright'⟩

/-- Where a node is present, the hasher commits to its two children. -/
theorem node_binding (hinj : InjectiveHash sha256) :
    Binding (node sha256) (fun o => o.isSome = true) where
  left_good {a b} h := by cases a <;> simp_all
  right_good {a b} h := by cases b <;> simp_all
  inj {a b c d} h hsame := by
    obtain ⟨digest, hdigest⟩ := Option.isSome_iff_exists.mp h
    rw [hdigest] at hsame
    match a, b, c, d with
    | some a, some b, some c, some d =>
        obtain ⟨rfl, rfl⟩ := nodeHash_injective hinj (toOption_eq_some.mp hdigest)
          (toOption_eq_some.mp hsame.symm)
        exact ⟨rfl, rfl⟩
    | none, _, _, _ => simp at hdigest
    | some _, none, _, _ => simp at hdigest
    | some _, some _, none, _ => simp at hsame
    | some _, some _, some _, none => simp at hsame

theorem leafNodes_injective (hinj : InjectiveHash sha256) {old new : List Digest}
    (hgood : ∀ x ∈ leafNodes sha256 old, x.isSome = true)
    (h : leafNodes sha256 old = leafNodes sha256 new) : old = new := by
  refine List.ext_getElem (by simpa using congrArg List.length h) fun i hi hi' => ?_
  have hsame : (leafHash sha256 old[i]).toOption = (leafHash sha256 new[i]).toOption := by
    have := congrArg (·[i]?) h
    simpa [leafNodes, hi, hi'] using this
  obtain ⟨digest, hdigest⟩ := Option.isSome_iff_exists.mp
    (hgood _ (List.mem_map_of_mem (List.getElem_mem hi)))
  exact leafHash_injective hinj (toOption_eq_some.mp hdigest)
    (toOption_eq_some.mp (hsame ▸ hdigest))

theorem validateSize_ok {size : JsNumber} {label : JsString} {n : Nat}
    (h : validateSize size label = .ok n) : size = .ofNat n := by
  unfold validateSize at h
  split at h
  · rename_i m hm
    split at h
    · cases h
      exact JsNumber.eq_ofNat_of_toInt? hm
    · cases h
  · cases h

theorem ofNat_of_validateSize {m n : Nat} {label : JsString}
    (h : validateSize (.ofNat m) label = .ok n) : n = m := by
  have := congrArg JsNumber.toInt? (validateSize_ok h)
  exact_mod_cast (by simpa using this.symm : (n : Int) = m)

theorem caught_eq_true {answer : Except Error Bool} : caught answer = true ↔ answer = .ok true := by
  cases answer <;> simp [caught]

/-- An accepted inclusion proof names a leaf of the tree at its index, and its
path is the one the tree's own proof builder returns. -/
theorem verifyInclusion_sound (sha256 : Bytes → Except Error Digest)
    (hinj : InjectiveHash sha256) (leaves : List Digest) (rootDigest leaf : Digest)
    (leafIndex : JsNumber) (path : List Digest) (hroot : root sha256 leaves = .ok rootDigest)
    (haccept : verifyInclusion sha256
      { leaf := leaf, leafIndex := leafIndex, treeSize := .ofNat leaves.length,
        root := rootDigest, auditPath := path } = true) :
    ∃ i, leafIndex = .ofNat i ∧ i < leaves.length ∧ leaves[i]? = some leaf ∧
      inclusionProof sha256 leaves leafIndex = .ok path := by
  obtain ⟨i, hi, h⟩ := bind_eq_ok.mp (caught_eq_true.mp haccept)
  obtain ⟨n, hn, h⟩ := bind_eq_ok.mp h
  obtain rfl := ofNat_of_validateSize hn
  split at h
  · cases h
  rename_i hrange
  obtain ⟨calculated, hleaf, hloop⟩ := bind_eq_ok.mp h
  have hlt : i < (leafNodes sha256 leaves).length := by rw [length_leafNodes]; omega
  have hne : leaves ≠ [] := List.ne_nil_of_length_pos (by omega)
  have hhead : head (node sha256) (leafNodes sha256 leaves) = some rootDigest := by
    rw [← root_toOption leaves hne, hroot]
    rfl
  rw [verifyInclusionLoop_iff, ← hhead] at hloop
  have hgood : (head (node sha256) (leafNodes sha256 leaves)).isSome = true := by rw [hhead]; rfl
  obtain ⟨hat, hpath⟩ := eq_of_climb (node_binding hinj) hgood hlt
    (by rw [length_leafNodes]; exact hloop)
  refine ⟨i, validateSize_ok hi, by omega, ?_, ?_⟩
  · have hsame : leafHash sha256 leaves[i] = .ok calculated :=
      toOption_eq_some.mp (by simpa [leafNodes] using hat.symm)
    rw [List.getElem?_eq_getElem (by omega), leafHash_injective hinj hsame hleaf]
  · rw [inclusionProof, hi]
    simp only [bind, Except.bind]
    rw [if_neg (by omega)]
    exact (buildInclusionProof_ok_iff leaves path i).mpr hpath.symm

theorem verifyInclusion_sound_entryB :
    ∃ i, JsNumber.ofNat 1 = .ofNat i ∧ i < 2 ∧ [entryA, entryB][i]? = some entryB ∧
      inclusionProof (recordedHash twoLeafRecords (.error .nonError)) [entryA, entryB]
        (.ofNat 1) = .ok [leafA] :=
  verifyInclusion_sound (recordedHash twoLeafRecords (.error .nonError))
    (recordedHash_injective (by decide +kernel)) [entryA, entryB] rootAB entryB (.ofNat 1) [leafA]
    root_twoLeafRecords (by decide +kernel)

/-- An accepted consistency proof between the roots of two trees shows that the
old leaves are the first leaves of the new tree. -/
theorem verifyConsistency_sound (sha256 : Bytes → Except Error Digest)
    (hinj : InjectiveHash sha256) (old new : List Digest) (oldRoot newRoot : Digest)
    (path : List Digest) (hold : root sha256 old = .ok oldRoot)
    (hnew : root sha256 new = .ok newRoot)
    (haccept : verifyConsistency sha256
      { oldSize := .ofNat old.length, newSize := .ofNat new.length,
        oldRoot := oldRoot, newRoot := newRoot, auditPath := path } = true) :
    old = new.take old.length := by
  obtain ⟨m, hm, h⟩ := bind_eq_ok.mp (caught_eq_true.mp haccept)
  obtain rfl := ofNat_of_validateSize hm
  obtain ⟨n, hn, h⟩ := bind_eq_ok.mp h
  obtain rfl := ofNat_of_validateSize hn
  split at h
  · cases h
  rename_i hrange
  have hneOld : old ≠ [] := List.ne_nil_of_length_pos (by omega)
  have hneNew : new ≠ [] := List.ne_nil_of_length_pos (by omega)
  have hheadOld : head (node sha256) (leafNodes sha256 old) = some oldRoot := by
    rw [← root_toOption old hneOld, hold]
    rfl
  have hheadNew : head (node sha256) (leafNodes sha256 new) = some newRoot := by
    rw [← root_toOption new hneNew, hnew]
    rfl
  have hgoodOld : (head (node sha256) (leafNodes sha256 old)).isSome = true := by
    rw [hheadOld]; rfl
  have hgoodNew : (head (node sha256) (leafNodes sha256 new)).isSome = true := by
    rw [hheadNew]; rfl
  have hleaves := good_of_good_head (node_binding hinj) hgoodOld
  split at h
  · rename_i hsize
    have hroots : oldRoot = newRoot := by simp [pure, Except.pure] at h; exact h.2
    have hlen : (leafNodes sha256 old).length = (leafNodes sha256 new).length := by
      simpa using hsize
    have hnodes := eq_of_head_eq (node_binding hinj) hgoodOld hlen
      (by rw [hheadOld, hheadNew, hroots])
    rw [hsize, List.take_length]
    exact leafNodes_injective hinj hleaves hnodes
  · -- both starts of the source are one start of the two climbs
    have hstart : ∃ start rest, verifyConsistencyLoop sha256 oldRoot newRoot
        (lower (old.length - 1) (new.length - 1)).1 (lower (old.length - 1) (new.length - 1)).2
        start start rest = .ok true := by
      split at h <;> simp only at h <;> split at h
      · exact ⟨_, _, h⟩
      · cases h
      · exact ⟨_, _, h⟩
      · exact ⟨_, _, h⟩
    obtain ⟨start, rest, hloop⟩ := hstart
    obtain ⟨hclimbOld, hclimb⟩ := (verifyConsistencyLoop_iff ..).mp hloop
    have hbegins := prefix_of_climbs (node_binding hinj) hgoodOld hgoodNew
      (by rw [length_leafNodes]; omega) (by simp only [length_leafNodes]; omega)
      (by simp only [length_leafNodes]; rw [hclimbOld, hheadOld])
      (by simp only [length_leafNodes]; rw [hclimb, hheadNew])
    rw [length_leafNodes, leafNodes_take] at hbegins
    exact leafNodes_injective hinj hleaves hbegins

theorem verifyConsistency_sound_entryA : [entryA] = [entryA, entryB].take 1 :=
  verifyConsistency_sound (recordedHash twoLeafRecords (.error .nonError))
    (recordedHash_injective (by decide +kernel)) [entryA] [entryA, entryB] leafA rootAB [leafB]
    (by simp only [root]; decide +kernel) root_twoLeafRecords (by decide +kernel)

theorem leafHash_ok (hhash : AnswersWellFormed sha256) {leaf : Digest} (h : WellFormed leaf) :
    ∃ digest, leafHash sha256 leaf = .ok digest ∧ WellFormed digest := by
  obtain ⟨bytes, hbytes⟩ := digestBytes_of_wellFormed h
  obtain ⟨digest, hdigest, hwell⟩ := hhash (0x00 :: bytes)
  exact ⟨digest, bind_eq_ok.mpr ⟨bytes, hbytes, hdigest⟩, hwell⟩

theorem nodeHash_ok (hhash : AnswersWellFormed sha256) {left right : Digest}
    (hleft : WellFormed left) (hright : WellFormed right) :
    ∃ digest, nodeHash sha256 left right = .ok digest ∧ WellFormed digest := by
  obtain ⟨leftBytes, hleftBytes⟩ := digestBytes_of_wellFormed hleft
  obtain ⟨rightBytes, hrightBytes⟩ := digestBytes_of_wellFormed hright
  obtain ⟨digest, hdigest, hwell⟩ := hhash (0x01 :: leftBytes ++ rightBytes)
  exact ⟨digest, bind_eq_ok.mpr ⟨_, hleftBytes, bind_eq_ok.mpr ⟨_, hrightBytes, hdigest⟩⟩, hwell⟩

theorem root_ok (hhash : AnswersWellFormed sha256) (leaves : List Digest)
    (h : ∀ leaf ∈ leaves, WellFormed leaf) :
    ∃ digest, root sha256 leaves = .ok digest ∧ WellFormed digest := by
  induction leaves using root.induct with
  | case1 => simpa [root] using hhash []
  | case2 leaf => simpa [root] using leafHash_ok hhash (h leaf (by simp))
  | case3 a b rest leaves ihLeft ihRight =>
      obtain ⟨left, hleft, hwellLeft⟩ := ihLeft fun leaf hmem => h leaf (List.mem_of_mem_take hmem)
      obtain ⟨right, hright, hwellRight⟩ :=
        ihRight fun leaf hmem => h leaf (List.mem_of_mem_drop hmem)
      obtain ⟨digest, hdigest, hwell⟩ := nodeHash_ok hhash hwellLeft hwellRight
      refine ⟨digest, ?_, hwell⟩
      rw [root]
      exact bind_eq_ok.mpr ⟨left, hleft, bind_eq_ok.mpr ⟨right, hright, hdigest⟩⟩

theorem buildInclusionProof_ok (hhash : AnswersWellFormed sha256) (leaves : List Digest)
    (h : ∀ leaf ∈ leaves, WellFormed leaf) (i : Nat) :
    ∃ path, buildInclusionProof sha256 leaves i = .ok path := by
  induction leaves, i using buildInclusionProof.induct with
  | case1 leaves i hshort => exact ⟨[], by rw [buildInclusionProof, if_pos hshort]; rfl⟩
  | case2 leaves i hlong split hleft ih =>
      obtain ⟨path, hpath⟩ := ih fun leaf hmem => h leaf (List.mem_of_mem_take hmem)
      obtain ⟨sibling, hsibling, -⟩ := root_ok hhash (leaves.drop split)
        fun leaf hmem => h leaf (List.mem_of_mem_drop hmem)
      refine ⟨path ++ [sibling], ?_⟩
      rw [buildInclusionProof, if_neg hlong, if_pos hleft]
      exact bind_eq_ok.mpr ⟨path, hpath, bind_eq_ok.mpr ⟨sibling, hsibling, rfl⟩⟩
  | case3 leaves i hlong split hright ih =>
      obtain ⟨path, hpath⟩ := ih fun leaf hmem => h leaf (List.mem_of_mem_drop hmem)
      obtain ⟨sibling, hsibling, -⟩ := root_ok hhash (leaves.take split)
        fun leaf hmem => h leaf (List.mem_of_mem_take hmem)
      refine ⟨path ++ [sibling], ?_⟩
      rw [buildInclusionProof, if_neg hlong, if_neg hright]
      exact bind_eq_ok.mpr ⟨path, hpath, bind_eq_ok.mpr ⟨sibling, hsibling, rfl⟩⟩

theorem buildConsistencyProof_ok (hhash : AnswersWellFormed sha256) (m : Nat)
    (leaves : List Digest) (h : ∀ leaf ∈ leaves, WellFormed leaf) (complete : Bool) :
    ∃ path, buildConsistencyProof sha256 m leaves complete = .ok path := by
  induction m, leaves, complete using buildConsistencyProof.induct with
  | case1 m leaves hend =>
      exact ⟨[], by rw [buildConsistencyProof, if_pos hend]; rfl⟩
  | case2 m leaves complete hend hpartial =>
      obtain ⟨digest, hdigest, -⟩ := root_ok hhash leaves h
      refine ⟨[digest], ?_⟩
      rw [buildConsistencyProof, if_pos hend, if_neg hpartial]
      exact bind_eq_ok.mpr ⟨digest, hdigest, rfl⟩
  | case3 m leaves complete hlong split hleft ih =>
      obtain ⟨path, hpath⟩ := ih fun leaf hmem => h leaf (List.mem_of_mem_take hmem)
      obtain ⟨sibling, hsibling, -⟩ := root_ok hhash (leaves.drop split)
        fun leaf hmem => h leaf (List.mem_of_mem_drop hmem)
      refine ⟨path ++ [sibling], ?_⟩
      rw [buildConsistencyProof, if_neg hlong, if_pos hleft]
      exact bind_eq_ok.mpr ⟨path, hpath, bind_eq_ok.mpr ⟨sibling, hsibling, rfl⟩⟩
  | case4 m leaves complete hlong split hright ih =>
      obtain ⟨path, hpath⟩ := ih fun leaf hmem => h leaf (List.mem_of_mem_drop hmem)
      obtain ⟨sibling, hsibling, -⟩ := root_ok hhash (leaves.take split)
        fun leaf hmem => h leaf (List.mem_of_mem_take hmem)
      refine ⟨path ++ [sibling], ?_⟩
      rw [buildConsistencyProof, if_neg hlong, if_neg hright]
      exact bind_eq_ok.mpr ⟨path, hpath, bind_eq_ok.mpr ⟨sibling, hsibling, rfl⟩⟩

/-- A tree whose root the hasher computed, as a head of the library's tree. -/
theorem head_eq_of_root {leaves : List Digest} {digest : Digest} (hne : leaves ≠ [])
    (h : root sha256 leaves = .ok digest) :
    head (node sha256) (leafNodes sha256 leaves) = some digest := by
  rw [← root_toOption leaves hne, h]
  rfl

theorem validateSize_ofNat {n : Nat} (h : n ≤ JsNumber.maxSafeInteger) (label : JsString) :
    validateSize (.ofNat n) label = .ok n := by
  simp [validateSize, JsNumber.isSafeInteger, h]

/-- The tree's own inclusion proof of any of its leaves is accepted. -/
theorem inclusionProof_accepted (hhash : AnswersWellFormed sha256) (leaves : List Digest)
    (hleaves : ∀ leaf ∈ leaves, WellFormed leaf)
    (hlength : leaves.length ≤ JsNumber.maxSafeInteger) (i : Nat) (hi : i < leaves.length) :
    ∃ path rootDigest, inclusionProof sha256 leaves (.ofNat i) = .ok path ∧
      root sha256 leaves = .ok rootDigest ∧
      verifyInclusion sha256
        { leaf := leaves[i], leafIndex := .ofNat i, treeSize := .ofNat leaves.length,
          root := rootDigest, auditPath := path } = true := by
  obtain ⟨path, hpath⟩ := buildInclusionProof_ok hhash leaves hleaves i
  obtain ⟨rootDigest, hroot, -⟩ := root_ok hhash leaves hleaves
  obtain ⟨leafDigest, hleaf, -⟩ := leafHash_ok hhash (hleaves _ (List.getElem_mem hi))
  have hne : leaves ≠ [] := List.ne_nil_of_length_pos (by omega)
  refine ⟨path, rootDigest, ?_, hroot, caught_eq_true.mpr ?_⟩
  · rw [inclusionProof, validateSize_ofNat (by omega)]
    simp only [bind, Except.bind]
    rw [if_neg (by omega)]
    exact hpath
  · have hclimb := @climb_auditPath _ _ (node sha256) (leafNodes sha256 leaves) i
      (by rw [length_leafNodes]; exact hi)
    rw [(buildInclusionProof_ok_iff leaves path i).mp hpath, head_eq_of_root hne hroot,
      getElem_leafNodes, List.get_eq_getElem, hleaf, length_leafNodes] at hclimb
    refine bind_eq_ok.mpr ⟨i, validateSize_ofNat (by omega) _,
      bind_eq_ok.mpr ⟨leaves.length, validateSize_ofNat hlength _, ?_⟩⟩
    rw [if_neg (by omega)]
    exact bind_eq_ok.mpr ⟨leafDigest, hleaf, (verifyInclusionLoop_iff ..).mpr hclimb⟩

/-- The tree's own consistency proof from any of its non-empty prefixes is accepted. -/
theorem consistencyProof_accepted (hhash : AnswersWellFormed sha256) (leaves : List Digest)
    (hleaves : ∀ leaf ∈ leaves, WellFormed leaf)
    (hlength : leaves.length ≤ JsNumber.maxSafeInteger) (m : Nat) (hpos : 1 ≤ m)
    (hm : m ≤ leaves.length) :
    ∃ path oldRoot newRoot, consistencyProof sha256 leaves (.ofNat m) = .ok path ∧
      root sha256 (leaves.take m) = .ok oldRoot ∧ root sha256 leaves = .ok newRoot ∧
      verifyConsistency sha256
        { oldSize := .ofNat m, newSize := .ofNat leaves.length, oldRoot := oldRoot,
          newRoot := newRoot, auditPath := path } = true := by
  have hsizeOld := validateSize_ofNat (hm.trans hlength)
  have hsizeNew := validateSize_ofNat hlength
  obtain ⟨newRoot, hnew, -⟩ := root_ok hhash leaves hleaves
  obtain ⟨oldRoot, hold, -⟩ := root_ok hhash (leaves.take m)
    fun leaf hmem => hleaves leaf (List.mem_of_mem_take hmem)
  have hne : leaves ≠ [] := List.ne_nil_of_length_pos (by omega)
  have hneOld : leaves.take m ≠ [] := List.ne_nil_of_length_pos (by rw [List.length_take]; omega)
  rcases Nat.lt_or_ge m leaves.length with hlt | hge
  · obtain ⟨path, hpath⟩ := buildConsistencyProof_ok hhash m leaves hleaves true
    have hnodes := (buildConsistencyProof_ok_iff m leaves path true hne).mp hpath
    obtain ⟨start, rest, hsub, hzero, hclimbOld, hclimb⟩ :=
      @climbs_subproof _ (node sha256) _ m (leafNodes sha256 leaves) hpos
        (by rw [length_leafNodes]; exact hlt)
    rw [leafNodes_take, head_eq_of_root hneOld hold] at hzero hclimbOld
    rw [head_eq_of_root hne hnew] at hclimb
    rw [length_leafNodes] at hsub hzero hclimbOld hclimb
    rw [hnodes] at hsub
    refine ⟨path, oldRoot, newRoot, ?_, hold, hnew, caught_eq_true.mpr ?_⟩
    · refine bind_eq_ok.mpr ⟨m, hsizeOld _, ?_⟩
      simp only [bind, Except.bind]
      rw [if_neg (by omega)]
      simpa [hlt.ne] using hpath
    · refine bind_eq_ok.mpr ⟨m, hsizeOld _, bind_eq_ok.mpr ⟨leaves.length, hsizeNew _, ?_⟩⟩
      rw [if_neg (by omega), if_neg hlt.ne]
      by_cases hstart : (lower (m - 1) (leaves.length - 1)).1 = 0
      · rw [if_pos hstart] at hsub
        rw [hzero hstart, ← hsub] at hclimbOld hclimb
        simp only [hstart, if_true]
        exact (verifyConsistencyLoop_iff ..).mpr ⟨by simpa [hstart] using hclimbOld,
          by simpa [hstart] using hclimb⟩
      · rw [if_neg hstart] at hsub
        obtain ⟨first, tail, rfl, rfl, rfl⟩ := List.map_eq_cons_iff.mp hsub
        simp only [hstart, if_false]
        exact (verifyConsistencyLoop_iff ..).mpr ⟨hclimbOld, hclimb⟩
  · obtain rfl : m = leaves.length := by omega
    rw [List.take_length, hnew] at hold
    cases hold
    refine ⟨[], newRoot, newRoot, ?_, by rw [List.take_length, hnew], hnew,
      caught_eq_true.mpr ?_⟩
    · refine bind_eq_ok.mpr ⟨_, hsizeOld _, ?_⟩
      simp only [bind, Except.bind]
      rw [if_neg (by omega)]
      simp [pure, Except.pure]
    · refine bind_eq_ok.mpr ⟨_, hsizeOld _, bind_eq_ok.mpr ⟨_, hsizeNew _, ?_⟩⟩
      rw [if_neg (by omega)]
      simp [pure, Except.pure]

/-- Every proof the tree builds is accepted: the inclusion proof of each leaf, and
the consistency proof from each non-empty prefix. An array is far shorter than
`Number.MAX_SAFE_INTEGER`. -/
theorem proofs_complete (sha256 : Bytes → Except Error Digest)
    (hhash : AnswersWellFormed sha256) (leaves : List Digest)
    (hleaves : ∀ leaf ∈ leaves, WellFormed leaf)
    (hlength : leaves.length ≤ JsNumber.maxSafeInteger) :
    (∀ i (hi : i < leaves.length), ∃ path rootDigest,
      inclusionProof sha256 leaves (.ofNat i) = .ok path ∧
      root sha256 leaves = .ok rootDigest ∧
      verifyInclusion sha256
        { leaf := leaves[i], leafIndex := .ofNat i, treeSize := .ofNat leaves.length,
          root := rootDigest, auditPath := path } = true) ∧
    (∀ m, 1 ≤ m → m ≤ leaves.length → ∃ path oldRoot newRoot,
      consistencyProof sha256 leaves (.ofNat m) = .ok path ∧
      root sha256 (leaves.take m) = .ok oldRoot ∧ root sha256 leaves = .ok newRoot ∧
      verifyConsistency sha256
        { oldSize := .ofNat m, newSize := .ofNat leaves.length, oldRoot := oldRoot,
          newRoot := newRoot, auditPath := path } = true) :=
  ⟨inclusionProof_accepted hhash leaves hleaves hlength,
    consistencyProof_accepted hhash leaves hleaves hlength⟩

theorem proofs_complete_twoLeaves : ∃ path oldRoot newRoot,
    consistencyProof (recordedHash twoLeafRecords (.ok leafA)) [entryA, entryB] (.ofNat 1) =
      .ok path ∧
    root (recordedHash twoLeafRecords (.ok leafA)) [entryA] = .ok oldRoot ∧
    root (recordedHash twoLeafRecords (.ok leafA)) [entryA, entryB] = .ok newRoot ∧
    verifyConsistency (recordedHash twoLeafRecords (.ok leafA))
      { oldSize := .ofNat 1, newSize := .ofNat 2, oldRoot := oldRoot, newRoot := newRoot,
        auditPath := path } = true :=
  (proofs_complete (recordedHash twoLeafRecords (.ok leafA))
    (recordedHash_answersWellFormed (by decide +kernel) (by decide +kernel)) [entryA, entryB]
    (by decide +kernel) (by decide)).2 1 (by decide) (by decide)

end Link

end KyaOs.Audit
