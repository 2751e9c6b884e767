import KyaOs.Js.Number
import KyaOs.Js.Throws
import KyaOs.MerkleTree.Consistency

/-!
# The RFC 9162 tree of audit-entry digests

`Rfc9162MerkleTree` as the audit ledger computes it: the recursive root and
proof builders over digest texts, and the two iterative verifiers, which answer
`false` on anything thrown. The hasher is a parameter; it may reject.
-/

namespace KyaOs.Audit

open Js

/-- A digest text; only `DIGEST_PATTERN` makes it a well-formed one. -/
abbrev Digest := JsString

abbrev Bytes := List UInt8

def isLowerHex (u : UInt16) : Bool := isDigit u || (0x61 ≤ u && u ≤ 0x66)

/-- `DIGEST_PATTERN.exec(digest)`: the 64 hexadecimal digits after `sha256:`. -/
def digestPattern (digest : Digest) : Option JsString :=
  if startsWith digest (js "sha256:") then
    let hex := digest.drop 7
    if hex.length = 64 ∧ hex.all isLowerHex then some hex else none
  else none

def hexDigit (u : UInt16) : Nat := if isDigit u then digitValue u else u.toNat - 0x61 + 10

/-- `Number.parseInt` on each two digits in turn. -/
def hexBytes : JsString → Bytes
  | hi :: lo :: rest => UInt8.ofNat (16 * hexDigit hi + hexDigit lo) :: hexBytes rest
  | _ => []

def digestBytes (digest : Digest) : Except Error Bytes :=
  match digestPattern digest with
  | none => .error (.typeError (js "Expected sha256:<lowercase-hex> digest"))
  | some hex => .ok (hexBytes hex)

/-- The loop of `largestPowerOfTwoLessThan`; the power doubles, so `value` rounds
are more than it takes. -/
def doubleWhileBelow (value : Nat) : Nat → Nat → Nat
  | 0, power => power
  | fuel + 1, power =>
      if power * 2 < value then doubleWhileBelow value fuel (power * 2) else power

def largestPowerOfTwoLessThan (value : Nat) : Nat := doubleWhileBelow value value 1

theorem doubleWhileBelow_eq (value fuel power : Nat) (hpower : 0 < power)
    (hfuel : value ≤ power * 2 ^ fuel) :
    doubleWhileBelow value fuel power =
      power * MerkleTree.splitPoint ((value + power - 1) / power) := by
  induction fuel generalizing power with
  | zero =>
      have hshort : (value + power - 1) / power ≤ 2 :=
        Nat.lt_succ_iff.mp (Nat.div_lt_of_lt_mul (by simp at hfuel; omega))
      rw [doubleWhileBelow, MerkleTree.splitPoint_of_le_two hshort, Nat.mul_one]
  | succ fuel ih =>
      rw [doubleWhileBelow]
      split
      · rename_i hbelow
        have hlong : 2 < (value + power - 1) / power :=
          (Nat.le_div_iff_mul_le hpower).mpr (by omega)
        have hhalf : ((value + power - 1) / power + 1) / 2 =
            (value + power * 2 - 1) / (power * 2) := by
          rw [← Nat.add_div_right _ hpower, Nat.div_div_eq_div_mul]
          congr 1
          omega
        rw [ih (power * 2) (by omega) (by rw [Nat.pow_succ] at hfuel; grind),
          MerkleTree.splitPoint_of_two_lt hlong, hhalf, Nat.mul_assoc]
      · have hshort : (value + power - 1) / power ≤ 2 :=
          Nat.lt_succ_iff.mp (Nat.div_lt_of_lt_mul (by omega))
        rw [MerkleTree.splitPoint_of_le_two hshort, Nat.mul_one]

theorem largestPowerOfTwoLessThan_eq (value : Nat) :
    largestPowerOfTwoLessThan value = MerkleTree.splitPoint value := by
  rw [largestPowerOfTwoLessThan, doubleWhileBelow_eq value value 1 Nat.one_pos
    (by simpa using Nat.lt_two_pow_self.le)]
  simp

/-- A size or index argument, as the natural number it is checked to be. -/
def validateSize (size : JsNumber) (label : JsString) : Except Error Nat :=
  match size.toInt? with
  | some (.ofNat n) =>
    if size.isSafeInteger then .ok n
    else .error (.rangeError (label ++ js " must be a non-negative safe integer"))
  | _ => .error (.rangeError (label ++ js " must be a non-negative safe integer"))

structure AuditInclusionVerification where
  leaf : Digest
  leafIndex : JsNumber
  treeSize : JsNumber
  root : Digest
  auditPath : List Digest

structure AuditConsistencyVerification where
  oldSize : JsNumber
  newSize : JsNumber
  oldRoot : Digest
  newRoot : Digest
  auditPath : List Digest

section Rfc9162MerkleTree

variable (sha256 : Bytes → Except Error Digest)

def leafHash (entryDigest : Digest) : Except Error Digest := do
  sha256 (0x00 :: (← digestBytes entryDigest))

def nodeHash (left right : Digest) : Except Error Digest := do
  let leftBytes ← digestBytes left
  let rightBytes ← digestBytes right
  sha256 (0x01 :: leftBytes ++ rightBytes)

def root : List Digest → Except Error Digest
  | [] => sha256 []
  | [leaf] => leafHash sha256 leaf
  | a :: b :: rest => do
      let leaves := a :: b :: rest
      let left ← root (leaves.take (largestPowerOfTwoLessThan leaves.length))
      let right ← root (leaves.drop (largestPowerOfTwoLessThan leaves.length))
      nodeHash sha256 left right
termination_by leaves => leaves.length
decreasing_by
  · have := MerkleTree.splitPoint_lt (n := (a :: b :: rest).length) (by simp)
    rw [List.length_take, largestPowerOfTwoLessThan_eq]
    omega
  · have := MerkleTree.splitPoint_pos (a :: b :: rest).length
    rw [List.length_drop, largestPowerOfTwoLessThan_eq]
    simp only [List.length_cons] at *
    omega

/-- The caller rules out an empty list, on which the source would not return. -/
def buildInclusionProof (leaves : List Digest) (leafIndex : Nat) : Except Error (List Digest) :=
  if leaves.length ≤ 1 then return []
  else
    let split := largestPowerOfTwoLessThan leaves.length
    if leafIndex < split then do
      let path ← buildInclusionProof (leaves.take split) leafIndex
      let sibling ← root sha256 (leaves.drop split)
      return path ++ [sibling]
    else do
      let path ← buildInclusionProof (leaves.drop split) (leafIndex - split)
      let sibling ← root sha256 (leaves.take split)
      return path ++ [sibling]
termination_by leaves.length
decreasing_by
  · have := MerkleTree.splitPoint_lt (n := leaves.length) (by omega)
    rw [List.length_take, largestPowerOfTwoLessThan_eq]
    omega
  · have := MerkleTree.splitPoint_pos leaves.length
    rw [List.length_drop, largestPowerOfTwoLessThan_eq]
    omega

def inclusionProof (leaves : List Digest) (leafIndex : JsNumber) :
    Except Error (List Digest) := do
  let index ← validateSize leafIndex (js "Leaf index")
  if leaves.length = 0 ∨ leaves.length ≤ index then
    throw (.rangeError (js "Leaf index must identify a leaf in the tree"))
  buildInclusionProof sha256 leaves index

/-- The loop of `verifyInclusion` and its final comparison. -/
def verifyInclusionLoop (expected : Digest) : Nat → Nat → Digest → List Digest → Except Error Bool
  | _, lastNodePosition, calculated, [] => return lastNodePosition = 0 && calculated = expected
  | leafPosition, lastNodePosition, calculated, sibling :: rest =>
      if lastNodePosition = 0 then return false
      else if leafPosition % 2 = 1 ∨ leafPosition = lastNodePosition then do
        let calculated ← nodeHash sha256 sibling calculated
        -- while ((leafPosition & 1) === 0 && leafPosition !== 0)
        let positions := MerkleTree.promote leafPosition lastNodePosition
        verifyInclusionLoop expected (positions.1 / 2) (positions.2 / 2) calculated rest
      else do
        let calculated ← nodeHash sha256 calculated sibling
        verifyInclusionLoop expected (leafPosition / 2) (lastNodePosition / 2) calculated rest

/-- A `try` block whose `catch` returns `false`. -/
def caught (answer : Except Error Bool) : Bool :=
  match answer with
  | .ok b => b
  | .error _ => false

def verifyInclusion (input : AuditInclusionVerification) : Bool :=
  caught do
    let leafIndex ← validateSize input.leafIndex (js "Leaf index")
    let treeSize ← validateSize input.treeSize (js "Tree size")
    if treeSize = 0 ∨ treeSize ≤ leafIndex then return false
    let calculated ← leafHash sha256 input.leaf
    verifyInclusionLoop sha256 input.root leafIndex (treeSize - 1) calculated input.auditPath

/-- The caller keeps `1 ≤ oldSize ≤ leaves.length`; the recursion keeps it too, so
a single leaf is only reached with `oldSize = 1`. -/
def buildConsistencyProof (oldSize : Nat) (leaves : List Digest) (completeSubtree : Bool) :
    Except Error (List Digest) :=
  if oldSize = leaves.length ∨ leaves.length ≤ 1 then do
    if completeSubtree then return [] else return [← root sha256 leaves]
  else
    let split := largestPowerOfTwoLessThan leaves.length
    if oldSize ≤ split then do
      let path ← buildConsistencyProof oldSize (leaves.take split) completeSubtree
      let rightRoot ← root sha256 (leaves.drop split)
      return path ++ [rightRoot]
    else do
      let path ← buildConsistencyProof (oldSize - split) (leaves.drop split) false
      let leftRoot ← root sha256 (leaves.take split)
      return path ++ [leftRoot]
termination_by leaves.length
decreasing_by
  · have := MerkleTree.splitPoint_lt (n := leaves.length) (by omega)
    rw [List.length_take, largestPowerOfTwoLessThan_eq]
    omega
  · have := MerkleTree.splitPoint_pos leaves.length
    rw [List.length_drop, largestPowerOfTwoLessThan_eq]
    omega

def consistencyProof (leaves : List Digest) (oldSize : JsNumber) :
    Except Error (List Digest) := do
  let size ← validateSize oldSize (js "Old tree size")
  if size = 0 ∨ leaves.length < size then
    throw (.rangeError (js "Old tree size must be between 1 and the new tree size"))
  if size = leaves.length then return []
  buildConsistencyProof sha256 size leaves true

/-- The loop of `verifyConsistency` and its final comparison. -/
def verifyConsistencyLoop (oldRoot newRoot : Digest) :
    Nat → Nat → Digest → Digest → List Digest → Except Error Bool
  | _, newNode, oldCalculated, newCalculated, [] =>
      return newNode = 0 && oldCalculated = oldRoot && newCalculated = newRoot
  | oldNode, newNode, oldCalculated, newCalculated, sibling :: rest =>
      if newNode = 0 then return false
      else if oldNode % 2 = 1 ∨ oldNode = newNode then do
        let oldCalculated ← nodeHash sha256 sibling oldCalculated
        let newCalculated ← nodeHash sha256 sibling newCalculated
        -- while ((oldNode & 1) === 0 && oldNode !== 0)
        let positions := MerkleTree.promote oldNode newNode
        verifyConsistencyLoop oldRoot newRoot (positions.1 / 2) (positions.2 / 2)
          oldCalculated newCalculated rest
      else do
        let newCalculated ← nodeHash sha256 newCalculated sibling
        verifyConsistencyLoop oldRoot newRoot (oldNode / 2) (newNode / 2)
          oldCalculated newCalculated rest

def verifyConsistency (input : AuditConsistencyVerification) : Bool :=
  caught do
    let oldSize ← validateSize input.oldSize (js "Old tree size")
    let newSize ← validateSize input.newSize (js "New tree size")
    if oldSize = 0 ∨ newSize < oldSize then return false
    if oldSize = newSize then
      return input.auditPath.length = 0 && input.oldRoot = input.newRoot
    -- while ((oldNode & 1) === 1)
    let positions := MerkleTree.lower (oldSize - 1) (newSize - 1)
    if positions.1 = 0 then
      verifyConsistencyLoop sha256 input.oldRoot input.newRoot positions.1 positions.2
        input.oldRoot input.oldRoot input.auditPath
    else match input.auditPath with
      | [] => return false
      | first :: rest =>
        verifyConsistencyLoop sha256 input.oldRoot input.newRoot positions.1 positions.2
          first first rest

end Rfc9162MerkleTree

end KyaOs.Audit
