import KyaOs.StatusList.Bits
import Mathlib.Data.Rat.Floor

/-!
# Status bitstrings

`BitstringManager`: bits are stored MSB-first in each byte. `bitsOf` is the
list of bits a byte string stands for, the abstract value the operations work on.
-/

namespace KyaOs

open Js

/-- `0x80 >> bitIndex`. -/
def bitMask (bitIndex : Nat) : UInt8 := 0x80 >>> UInt8.ofNat bitIndex

structure BitstringManager where
  bits : List UInt8
  size : Nat

namespace BitstringManager

def outOfRange {α : Type} (manager : BitstringManager) (index : Nat) : Except Error α :=
  .error (.error (js "Bit index " ++ decimalText index ++ js " out of range (0-" ++
    decimalText ((manager.size : Int) - 1) ++ js ")"))

/-- One byte with one of its bits written. -/
def setByteBit (byte : UInt8) (bitIndex : Nat) (value : Bool) : UInt8 :=
  if value then byte ||| bitMask bitIndex else byte &&& (0xFF ^^^ bitMask bitIndex)

def setBit (manager : BitstringManager) (index : Nat) (value : Bool) :
    Except Error BitstringManager :=
  if index ≥ manager.size then manager.outOfRange index
  else
    .ok { manager with
      bits := manager.bits.modify (index / 8) fun byte => setByteBit byte (index % 8) value }

def getBit (manager : BitstringManager) (index : Nat) : Except Error Bool :=
  if index ≥ manager.size then manager.outOfRange index
  else .ok (manager.bits.getD (index / 8) 0 &&& bitMask (index % 8) ≠ 0)

def encode (codec : GzipCodec) (manager : BitstringManager) : Except Error JsString :=
  encodeStatusListPayload codec manager.bits

def decode (codec : GzipCodec) (encodedList : JsString) : Except Error BitstringManager := do
  let decompressed ← decodeStatusListPayload codec encodedList
  return { bits := decompressed, size := decompressed.length * 8 }

end BitstringManager

/-- `new Uint8Array(Math.ceil(size / 8))`, with the host's limit on array lengths. -/
def newBits (arrayLimit : Nat) (size : JsNumber) : Except Error (List UInt8) :=
  match size with
  | .finite q =>
      if 0 ≤ ⌈q / 8⌉ ∧ ⌈q / 8⌉ ≤ arrayLimit then .ok (List.replicate ⌈q / 8⌉.toNat 0)
      else .error (.rangeError (js "Invalid typed array length: " ++ decimalText ⌈q / 8⌉))
  | .infinity _ => .error (.rangeError (js "Invalid typed array length"))
  | .nan => .ok []

section Bits

/-- A bit of a byte, MSB-first. -/
def byteBit (byte : UInt8) (bitIndex : Nat) : Bool := byte &&& bitMask bitIndex ≠ 0

/-- The bits of a byte string in index order. -/
def bitsOf (bytes : List UInt8) : List Bool :=
  bytes.flatMap fun byte => (List.range 8).map (byteBit byte)

theorem or_and_distrib (x y z : UInt8) : (x ||| y) &&& z = (x &&& z) ||| (y &&& z) := by
  rw [← UInt8.toBitVec_inj]
  ext i
  simp [Bool.and_or_distrib_right]

theorem bitMask_and : ∀ a < 8, ∀ b < 8,
    bitMask a &&& bitMask b = if a = b then bitMask b else 0 := by
  decide +kernel

theorem bitMask_clear : ∀ a < 8, ∀ b < 8,
    (0xFF ^^^ bitMask a) &&& bitMask b = if a = b then 0 else bitMask b := by
  decide +kernel

theorem bitMask_ne_zero : ∀ a < 8, bitMask a ≠ 0 := by
  decide +kernel

/-- Writing one bit of a byte leaves its other bits. -/
theorem byteBit_set (byte : UInt8) {a b : Nat} (ha : a < 8) (hb : b < 8) (value : Bool) :
    byteBit (BitstringManager.setByteBit byte a value) b =
      if a = b then value else byteBit byte b := by
  cases value with
  | true =>
      simp only [BitstringManager.setByteBit, if_true, byteBit, or_and_distrib,
        bitMask_and a ha b hb]
      by_cases hab : a = b
      · simp [hab, bitMask_ne_zero b hb]
      · simp [hab]
  | false =>
      simp only [BitstringManager.setByteBit, byteBit, Bool.false_eq_true, if_false,
        UInt8.and_assoc, bitMask_clear a ha b hb]
      by_cases hab : a = b
      · simp [hab]
      · simp [hab]

@[simp] theorem length_bitsOf (bytes : List UInt8) : (bitsOf bytes).length = bytes.length * 8 := by
  simp [bitsOf, List.length_flatMap]

theorem getElem?_bitsOf (bytes : List UInt8) (i : Nat) :
    (bitsOf bytes)[i]? = bytes[i / 8]?.map fun byte => byteBit byte (i % 8) := by
  induction bytes generalizing i with
  | nil => simp [bitsOf]
  | cons byte bytes ih =>
      rw [bitsOf, List.flatMap_cons, ← bitsOf]
      by_cases hi : i < 8
      · rw [List.getElem?_append_left (by simpa using hi)]
        simp [Nat.div_eq_of_lt hi, Nat.mod_eq_of_lt hi, hi]
      · rw [List.getElem?_append_right (by simpa using hi)]
        obtain ⟨j, rfl⟩ : ∃ j, i = j + 8 := ⟨i - 8, by omega⟩
        simp [ih]

theorem bitsOf_zeros (count : Nat) :
    bitsOf (List.replicate count 0) = List.replicate (count * 8) false := by
  have hbit : ∀ j < 8, byteBit 0 j = false := by decide +kernel
  refine List.ext_getElem? fun i => ?_
  rw [getElem?_bitsOf, List.getElem?_replicate, List.getElem?_replicate]
  by_cases hi : i / 8 < count
  · have : i < count * 8 := by omega
    simp [hi, this, hbit (i % 8) (by omega)]
  · have : ¬ i < count * 8 := by omega
    simp [hi, this]

/-- `setBit` writes one bit of the abstract list. -/
theorem setBit_ok {manager manager' : BitstringManager} {index : Nat} {value : Bool}
    (h : manager.setBit index value = .ok manager') :
    index < manager.size ∧ bitsOf manager'.bits = (bitsOf manager.bits).set index value ∧
      manager'.bits.length = manager.bits.length := by
  rw [BitstringManager.setBit] at h
  split at h
  · cases h
  · rename_i hindex
    cases h
    refine ⟨by omega, List.ext_getElem? fun i => ?_, by simp⟩
    rw [getElem?_bitsOf, List.getElem?_modify, List.getElem?_set, getElem?_bitsOf, length_bitsOf]
    cases hbyte : manager.bits[i / 8]? with
    | none =>
        have hpast : manager.bits.length ≤ i / 8 := List.getElem?_eq_none_iff.mp hbyte
        by_cases hi : index = i
        · rw [if_pos hi, if_neg (by omega)]
          rfl
        · rw [if_neg hi]
          rfl
    | some byte =>
        have hbefore : i / 8 < manager.bits.length := (List.getElem?_eq_some_iff.mp hbyte).1
        simp only [Option.map_eq_map, Option.map_some]
        by_cases hsame : index / 8 = i / 8
        · rw [if_pos hsame, byteBit_set byte (by omega) (by omega)]
          by_cases hi : index = i
          · rw [if_pos (by omega), if_pos hi, if_pos (by omega)]
          · rw [if_neg (by omega), if_neg hi]
        · have hi : index ≠ i := fun hi => hsame (by rw [hi])
          rw [if_neg hsame, if_neg hi]

end Bits

end KyaOs
