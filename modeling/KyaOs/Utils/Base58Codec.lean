import KyaOs.Positional.Convert
import KyaOs.Utils.Base58

/-!
# Base58 there and back

`base58Encode`, and `base58Decode` without a bound on the length. Both change the base of a
number and carry the leading zeros over, so that each undoes the other.
-/

namespace Js

open Positional

/-- `ALPHABET[value]`. -/
def base58Char (value : Nat) : UInt16 := base58Alphabet.getD value 0

/-- The number of big-endian bytes. -/
def bytesNumber (bytes : List UInt8) : Nat :=
  bytes.foldl (fun num byte => num * 256 + byte.toNat) 0

/-- The digits of a number in front of a result. -/
def base58Digits (num : Nat) (result : JsString) : JsString :=
  if num = 0 then result else base58Digits (num / 58) (base58Char (num % 58) :: result)

def base58Encode (bytes : List UInt8) : JsString :=
  if bytes = [] then []
  else
    List.replicate (bytes.takeWhile (· = 0)).length 0x31 ++ base58Digits (bytesNumber bytes) []

/-- The bytes that pairs of hexadecimal digits stand for. -/
def hexPairs : List Nat → List UInt8
  | high :: low :: rest => .ofNat (high * 16 + low) :: hexPairs rest
  | _ => []

/-- The bytes of a number, through its hexadecimal digits, which are made even in number. -/
def hexBytes (num : Nat) : List UInt8 :=
  let hex := (Nat.digits 16 num).reverse
  hexPairs (if hex.length % 2 = 1 then 0 :: hex else hex)

/-- `base58Decode` when `maxLength` is omitted. -/
def base58DecodeUnbounded (encoded : JsString) : Except Error (List UInt8) :=
  if encoded = [] then .ok []
  else do
    let num ← base58Number 0 encoded
    let leadingZeros := (encoded.takeWhile (· = 0x31)).length
    return List.replicate leadingZeros 0 ++ hexBytes num

theorem base58Char_facts : ∀ d < 58, base58Alphabet.idxOf? (base58Char d) = some d ∧
    (base58Char d = 0x31 ↔ d = 0) := by
  decide +kernel

theorem base58Char_of_idxOf? {char : UInt16} {d : Nat}
    (h : base58Alphabet.idxOf? char = some d) : d < 58 ∧ base58Char d = char := by
  obtain ⟨hlt, hchar, -⟩ := List.findIdx?_eq_some_iff_getElem.mp h
  refine ⟨lt_of_lt_of_eq hlt (by decide), ?_⟩
  rw [base58Char, List.getD_eq_getElem?_getD, List.getElem?_eq_getElem hlt, Option.getD_some]
  exact beq_iff_eq.mp hchar

/-- A text over the alphabet is of digits. -/
theorem exists_digits {text : JsString} (h : ∀ char ∈ text, char ∈ base58Alphabet) :
    ∃ digits : List Nat, (∀ d ∈ digits, d < 58) ∧ text = digits.map base58Char := by
  induction text with
  | nil => exact ⟨[], by simp, rfl⟩
  | cons char rest ih =>
      obtain ⟨hchar, hrest⟩ := List.forall_mem_cons.mp h
      obtain ⟨digits, hdigits, rfl⟩ := ih hrest
      obtain ⟨d, hd⟩ := Option.isSome_iff_exists.mp (List.isSome_idxOf?.mpr hchar)
      obtain ⟨hlt, rfl⟩ := base58Char_of_idxOf? hd
      exact ⟨d :: digits, List.forall_mem_cons.mpr ⟨hlt, hdigits⟩, rfl⟩

theorem base58Number_map {digits : List Nat} (h : ∀ d ∈ digits, d < 58) (num : Nat) :
    base58Number num (digits.map base58Char) =
      .ok (digits.foldl (fun n d => n * 58 + d) num) := by
  induction digits generalizing num with
  | nil => rfl
  | cons d rest ih =>
      obtain ⟨hd, hrest⟩ := List.forall_mem_cons.mp h
      rw [List.map_cons, base58Number, (base58Char_facts d hd).1]
      exact ih hrest _

theorem mem_alphabet_of_base58Number {text : JsString} {num num' : Nat}
    (h : base58Number num text = .ok num') : ∀ char ∈ text, char ∈ base58Alphabet := by
  induction text generalizing num with
  | nil => simp
  | cons char rest ih =>
      rw [base58Number] at h
      split at h
      · cases h
      · rename_i d hd
        exact List.forall_mem_cons.mpr
          ⟨List.isSome_idxOf?.mp (Option.isSome_iff_exists.mpr ⟨d, hd⟩), ih h⟩

/-- Leading ones are leading zeros. -/
theorem length_takeWhile_map {digits : List Nat} (h : ∀ d ∈ digits, d < 58) :
    ((digits.map base58Char).takeWhile (· = 0x31)).length = zeros digits := by
  rw [List.takeWhile_map, List.length_map, zeros]
  congr 1
  induction digits with
  | nil => rfl
  | cons d rest ih =>
      obtain ⟨hd, hrest⟩ := List.forall_mem_cons.mp h
      rw [List.takeWhile_cons, List.takeWhile_cons, ih hrest]
      simp [(base58Char_facts d hd).2]

theorem base58Digits_eq (num : Nat) (result : JsString) :
    base58Digits num result = (canonical 58 num).map base58Char ++ result := by
  induction num using Nat.strongRecOn generalizing result with
  | ind num ih =>
      rw [base58Digits]
      split_ifs with hzero
      · rw [hzero, canonical_zero, List.map_nil, List.nil_append]
      · rw [ih (num / 58) (by omega), canonical_eq_concat (n := num) (by decide) (by omega),
          List.map_append, List.map_singleton, List.append_assoc, List.singleton_append]

theorem bytesNumber_eq (bytes : List UInt8) :
    bytesNumber bytes = value 256 (bytes.map UInt8.toNat) := by
  rw [bytesNumber, value, List.foldl_map]

theorem zeros_bytes (bytes : List UInt8) :
    (bytes.takeWhile (· = 0)).length = zeros (bytes.map UInt8.toNat) := by
  rw [zeros, List.takeWhile_map, List.length_map]
  congr 2
  funext byte
  simp [← UInt8.toNat_inj]

theorem base58Encode_eq (bytes : List UInt8) :
    base58Encode bytes = (convert 256 58 (bytes.map UInt8.toNat)).map base58Char := by
  have hzero : base58Char 0 = 0x31 := by decide
  rw [base58Encode, convert]
  split_ifs with hempty
  · rw [hempty]
    rfl
  · rw [base58Digits_eq, bytesNumber_eq, zeros_bytes, List.map_append, List.map_replicate, hzero,
      List.append_nil]

/-- Pairs of hexadecimal digits are the bytes of the same number. -/
theorem hexPairs_eq {hex : List Nat} (hlt : ∀ d ∈ hex, d < 16) (heven : hex.length % 2 = 0) :
    ∃ bytes : List Nat, hexPairs hex = bytes.map UInt8.ofNat ∧ (∀ byte ∈ bytes, byte < 256) ∧
      (∀ n, bytes.foldl (fun n d => n * 256 + d) n = hex.foldl (fun n d => n * 16 + d) n) ∧
      bytes.head? = (hex.head?.bind fun high => (hex.drop 1).head?.map (high * 16 + ·)) := by
  induction hex using hexPairs.induct with
  | case1 high low rest ih =>
      simp only [List.forall_mem_cons] at hlt
      obtain ⟨hhigh, hlow, hrest⟩ := hlt
      obtain ⟨bytes, hbytes, hbound, hvalue, -⟩ := ih hrest (by
        rw [List.length_cons, List.length_cons] at heven
        omega)
      refine ⟨(high * 16 + low) :: bytes, by rw [hexPairs, hbytes, List.map_cons], ?_, ?_, rfl⟩
      · exact List.forall_mem_cons.mpr ⟨by omega, hbound⟩
      · intro n
        rw [List.foldl_cons, hvalue, List.foldl_cons, List.foldl_cons]
        congr 1
        omega
  | case2 hex hshort =>
      cases hex with
      | nil => exact ⟨[], rfl, by simp, fun n => rfl, rfl⟩
      | cons high tail =>
          cases tail with
          | nil => simp at heven
          | cons low rest => exact absurd rfl (hshort high low rest)

theorem hexBytes_eq (num : Nat) : hexBytes num = (canonical 256 num).map UInt8.ofNat := by
  have hlt : ∀ d ∈ canonical 16 num, d < 16 := canonical_lt (by decide)
  have hhead := head_canonical 16 num
  obtain ⟨hex, hhex, heven, hdigits, hvalue, hfirst⟩ : ∃ hex : List Nat,
      hexBytes num = hexPairs hex ∧ hex.length % 2 = 0 ∧ (∀ d ∈ hex, d < 16) ∧
        value 16 hex = num ∧
        (hex.head?.bind fun high => (hex.drop 1).head?.map (high * 16 + ·)) ≠ some 0 := by
    by_cases hodd : (canonical 16 num).length % 2 = 1
    · refine ⟨0 :: canonical 16 num, by rw [hexBytes]; exact congrArg _ (if_pos hodd),
        ?_, ?_, ?_, ?_⟩
      · rw [List.length_cons]
        omega
      · exact List.forall_mem_cons.mpr ⟨by decide, hlt⟩
      · exact (value_zeros 16 1 _).trans (value_canonical 16 num)
      · simpa using hhead
    · refine ⟨canonical 16 num, by rw [hexBytes]; exact congrArg _ (if_neg hodd), by omega, hlt,
        value_canonical 16 num, ?_⟩
      cases hcanonical : canonical 16 num with
      | nil => simp
      | cons high rest =>
          rw [hcanonical] at hhead
          cases rest with
          | nil => simp
          | cons low rest =>
              simp only [List.head?_cons, ne_eq, Option.some.injEq, List.drop_one, List.tail_cons,
                Option.map_some, Option.bind_some] at hhead ⊢
              omega
  obtain ⟨bytes, hbytes, hbound, hsame, hleading⟩ := hexPairs_eq hdigits heven
  have hnum : value 256 bytes = num := (hsame 0).trans hvalue
  rw [hhex, hbytes, ← hnum, canonical_value (by decide) hbound (by rwa [hleading])]

theorem base58DecodeUnbounded_map {digits : List Nat} (h : ∀ d ∈ digits, d < 58) :
    base58DecodeUnbounded (digits.map base58Char) =
      .ok ((convert 58 256 digits).map UInt8.ofNat) := by
  rw [base58DecodeUnbounded]
  split_ifs with hempty
  · rw [List.map_eq_nil_iff.mp hempty]
    rfl
  · rw [base58Number_map h, length_takeWhile_map h, convert, List.map_append, List.map_replicate]
    change Except.ok (_ ++ hexBytes (value 58 digits)) = _
    rw [hexBytes_eq]
    rfl

theorem bytes_lt (bytes : List UInt8) : ∀ d ∈ bytes.map UInt8.toNat, d < 256 := by
  intro d hd
  obtain ⟨byte, -, rfl⟩ := List.mem_map.mp hd
  exact byte.toNat_lt

theorem map_ofNat_toNat (bytes : List UInt8) :
    (bytes.map UInt8.toNat).map UInt8.ofNat = bytes := by
  rw [List.map_map]
  exact (List.map_congr_left fun byte _ => UInt8.ofNat_toNat).trans (List.map_id bytes)

/-- Decoding takes an encoded byte string back to its bytes. -/
theorem base58DecodeUnbounded_encode (bytes : List UInt8) :
    base58DecodeUnbounded (base58Encode bytes) = .ok bytes := by
  rw [base58Encode_eq, base58DecodeUnbounded_map (convert_lt (by decide)),
    convert_convert (by decide) (bytes_lt bytes), map_ofNat_toNat]

theorem map_toNat_ofNat {digits : List Nat} (h : ∀ d ∈ digits, d < 256) :
    (digits.map UInt8.ofNat).map UInt8.toNat = digits := by
  rw [List.map_map]
  refine (List.map_congr_left fun d hd => ?_).trans (List.map_id digits)
  exact UInt8.toNat_ofNat_of_lt' (h d hd)

/-- A text over the alphabet is the encoding of the bytes it is decoded to. -/
theorem base58Encode_decode {text : JsString} (h : ∀ char ∈ text, char ∈ base58Alphabet) :
    ∃ bytes, base58DecodeUnbounded text = .ok bytes ∧ base58Encode bytes = text := by
  obtain ⟨digits, hdigits, rfl⟩ := exists_digits h
  refine ⟨_, base58DecodeUnbounded_map hdigits, ?_⟩
  rw [base58Encode_eq, map_toNat_ofNat (convert_lt (by decide)),
    convert_convert (by decide) hdigits]

theorem base58Encode_of_decode {text : JsString} {bytes : List UInt8}
    (h : base58DecodeUnbounded text = .ok bytes) : base58Encode bytes = text := by
  have halphabet : ∀ char ∈ text, char ∈ base58Alphabet := by
    rw [base58DecodeUnbounded] at h
    split_ifs at h with hempty
    · simp [hempty]
    · obtain ⟨num, hnum, -⟩ := bind_eq_ok.mp h
      exact mem_alphabet_of_base58Number hnum
  obtain ⟨bytes', hbytes, htext⟩ := base58Encode_decode halphabet
  rw [h] at hbytes
  rwa [Except.ok.inj hbytes]

theorem bytesOfNumber_eq {fuel num : Nat} (h : num < 256 ^ fuel) :
    bytesOfNumber fuel num = (canonical 256 num).map UInt8.ofNat := by
  induction fuel generalizing num with
  | zero =>
      obtain rfl : num = 0 := by simpa using h
      rw [canonical_zero]
      rfl
  | succ fuel ih =>
      rw [bytesOfNumber]
      split_ifs with hzero
      · rw [hzero, canonical_zero, List.map_nil]
      · have hless : num / 256 < 256 ^ fuel := Nat.div_lt_of_lt_mul (by rwa [← pow_succ'])
        rw [ih hless, canonical_eq_concat (n := num) (by decide) (by omega),
          List.map_append, List.map_singleton]

/-- A bound only refuses what is longer. -/
theorem base58Decode_eq (encoded : JsString) (maxLength : Nat) :
    base58Decode encoded maxLength =
      if encoded.length > maxLength then
        .error (.error (js "Base58 input exceeds " ++ js (toString maxLength) ++ js " characters"))
      else base58DecodeUnbounded encoded := by
  rw [base58Decode]
  split_ifs with hlong
  · rfl
  · cases hnumber : base58Number 0 encoded with
    | error thrown =>
        have hne : encoded ≠ [] := by
          rintro rfl
          cases hnumber
        rw [base58DecodeUnbounded, if_neg hne, hnumber]
        rfl
    | ok num =>
        obtain ⟨digits, hdigits, rfl⟩ := exists_digits (mem_alphabet_of_base58Number hnumber)
        have hnum : value 58 digits = num := by
          rw [base58Number_map hdigits] at hnumber
          exact Except.ok.inj hnumber
        have hbound : num < 256 ^ (digits.map base58Char).length := by
          rw [← hnum, List.length_map]
          exact lt_of_lt_of_le (value_lt (by decide) hdigits) (Nat.pow_le_pow_left (by decide) _)
        rw [base58DecodeUnbounded_map hdigits, length_takeWhile_map hdigits, convert, hnum,
          List.map_append, List.map_replicate, ← bytesOfNumber_eq hbound]
        rfl

end Js
