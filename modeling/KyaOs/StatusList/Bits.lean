import KyaOs.Js.Number
import KyaOs.Utils.Base64

/-!
# Status-list primitives

What every status-list reader and publisher shares: canonical index parsing and
the GZIP-checked payload. The GZIP codec is a parameter.
-/

namespace KyaOs

open Js

/-- Hard ceiling on an inflated status bitstring. -/
def maxStatusListBytes : Nat := 16 * 1024 * 1024

/-- `u`, the multibase prefix of an `encodedList`. -/
def multibaseBase64url : UInt16 := 0x75

/-- `Number(raw)` for a text of decimal digits; exact up to `MAX_SAFE_INTEGER`,
and past it on the far side whichever way the language rounds. -/
def decimalValue (raw : JsString) : Nat := raw.foldl (fun n u => 10 * n + digitValue u) 0

def parseStatusListIndex (raw : JsString) : Except Error Nat :=
  if raw = [] ∨ ¬ raw.all isDigit then
    .error (.error (js "Invalid statusListIndex \"" ++ raw ++
      js "\" — must be a canonical non-negative decimal"))
  else if decimalValue raw > JsNumber.maxSafeInteger then
    .error (.error (js "statusListIndex \"" ++ raw ++ js "\" exceeds the safe integer range"))
  else .ok (decimalValue raw)

/-- `String(n)` for a safe integer. -/
def decimalText (n : Int) : JsString := js (toString n)

/-- The compressor and the decompressor a manager is given. -/
structure GzipCodec where
  compress : List UInt8 → List UInt8
  decompress : List UInt8 → Except Error (List UInt8)

/-- Whether `bytes` opens with the GZIP member magic. -/
def isGzip (bytes : List UInt8) : Bool := bytes[0]? = some 0x1F && bytes[1]? = some 0x8B

/-- Encode a raw status bitstring, refusing a compressor that is not GZIP. -/
def encodeStatusListPayload (codec : GzipCodec) (bits : List UInt8) : Except Error JsString :=
  let compressed := codec.compress bits
  if isGzip compressed then .ok (multibaseBase64url :: base64urlEncodeFromBytes compressed)
  else .error (.error (js "Refusing to publish a status list whose encodedList is not GZIP: " ++
    js "the compressor must GZIP the bitstring"))

/-- The compressed bytes of an `encodedList`, with or without the prefix. -/
def compressedBytes (encodedList : JsString) : Except Error (List UInt8) :=
  base64urlDecodeToBytes (if encodedList.head? = some multibaseBase64url then encodedList.tail
    else encodedList)

/-- The checks on a decompressor's output. -/
def checkInflated (compressed inflated : List UInt8) : Except Error (List UInt8) :=
  if inflated = compressed then
    .error (.error (js "Status list decompressor returned its GZIP input unchanged: " ++
      js "it must inflate GZIP"))
  else if inflated.length > maxStatusListBytes then
    .error (.error (js "Status list too large: " ++ decimalText inflated.length ++
      js " bytes exceeds " ++ decimalText maxStatusListBytes))
  else .ok inflated

/-- Decode an `encodedList` to the raw bitstring, fail-closed. -/
def decodeStatusListPayload (codec : GzipCodec) (encodedList : JsString) :
    Except Error (List UInt8) := do
  let compressed ← compressedBytes encodedList
  if isGzip compressed then
    let inflated ← codec.decompress compressed
    checkInflated compressed inflated
  else throw (.error (js "Status list encodedList is not GZIP"))

section Payload

variable {codec : GzipCodec}

/-- Decompressing takes every byte array's compression back to it. -/
def GzipCodec.RoundTrips (codec : GzipCodec) : Prop :=
  ∀ bytes, codec.decompress (codec.compress bytes) = .ok bytes

/-- The bitstring a published list stands for, whatever its size. -/
def inflatedBits (codec : GzipCodec) (encodedList : JsString) : Except Error (List UInt8) :=
  compressedBytes encodedList >>= codec.decompress

/-- What was encoded is what inflating gives back. -/
theorem inflatedBits_encode (hcodec : codec.RoundTrips) {bits : List UInt8}
    {encodedList : JsString} (h : encodeStatusListPayload codec bits = .ok encodedList) :
    inflatedBits codec encodedList = .ok bits := by
  simp only [encodeStatusListPayload] at h
  split at h
  · cases h
    rw [inflatedBits, compressedBytes, List.head?_cons, if_pos rfl, List.tail_cons,
      base64urlDecodeToBytes_encode]
    exact hcodec bits
  · cases h

/-- What the checks let through is the output itself, within the cap. -/
theorem checkInflated_ok {compressed inflated bits : List UInt8}
    (h : checkInflated compressed inflated = .ok bits) :
    inflated = bits ∧ bits.length ≤ maxStatusListBytes := by
  rw [checkInflated] at h
  split at h
  · cases h
  · split at h
    · cases h
    · rename_i hcap
      cases h
      exact ⟨rfl, Nat.le_of_not_lt hcap⟩

/-- A list that decodes decodes to the bitstring it stands for, within the cap. -/
theorem decodeStatusListPayload_ok {encodedList : JsString} {bits : List UInt8}
    (h : decodeStatusListPayload codec encodedList = .ok bits) :
    inflatedBits codec encodedList = .ok bits ∧ bits.length ≤ maxStatusListBytes := by
  obtain ⟨compressed, hcompressed, h⟩ := bind_eq_ok.mp h
  rw [inflatedBits, hcompressed]
  split at h
  · obtain ⟨inflated, hinflated, h⟩ := bind_eq_ok.mp h
    obtain ⟨rfl, hcap⟩ := checkInflated_ok h
    exact ⟨hinflated, hcap⟩
  · cases h

end Payload

end KyaOs
