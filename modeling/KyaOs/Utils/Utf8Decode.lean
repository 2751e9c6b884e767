import KyaOs.Utils.Base64
import KyaOs.Utils.Utf8

/-!
# Text of UTF-8 bytes

`Buffer.toString("utf-8")`, which puts a replacement character where the bytes are no
UTF-8, and the base64url texts that are decoded with it.
-/

open Js

namespace KyaOs

/-- What the decoder has read of a code point that goes on. -/
structure Utf8Pending where
  codePoint : Nat
  needed : Nat
  /-- The bounds of the next byte. -/
  lower : Nat := 0x80
  upper : Nat := 0xBF

/-- The units of a code point. -/
def codePointUnits (codePoint : Nat) : JsString := units (Char.ofNat codePoint)

def replacement : JsString := [0xFFFD]

/-- The first byte of a code point. -/
def startUtf8 (byte : Nat) : JsString × Option Utf8Pending :=
  if byte < 0x80 then (codePointUnits byte, none)
  else if 0xC2 ≤ byte ∧ byte ≤ 0xDF then ([], some { codePoint := byte - 0xC0, needed := 1 })
  else if 0xE0 ≤ byte ∧ byte ≤ 0xEF then
    ([], some
      { codePoint := byte - 0xE0
        needed := 2
        lower := if byte = 0xE0 then 0xA0 else 0x80
        upper := if byte = 0xED then 0x9F else 0xBF })
  else if 0xF0 ≤ byte ∧ byte ≤ 0xF4 then
    ([], some
      { codePoint := byte - 0xF0
        needed := 3
        lower := if byte = 0xF0 then 0x90 else 0x80
        upper := if byte = 0xF4 then 0x8F else 0xBF })
  else (replacement, none)

/-- A byte that cannot go on with a code point is read again as a first one. -/
def stepUtf8 (pending : Option Utf8Pending) (byte : Nat) : JsString × Option Utf8Pending :=
  match pending with
  | none => startUtf8 byte
  | some read =>
    if read.lower ≤ byte ∧ byte ≤ read.upper then
      let codePoint := read.codePoint * 64 + (byte - 0x80)
      if read.needed = 1 then (codePointUnits codePoint, none)
      else ([], some { codePoint, needed := read.needed - 1 })
    else
      let (text, pending) := startUtf8 byte
      (replacement ++ text, pending)

def decodeUtf8From (pending : Option Utf8Pending) : List UInt8 → JsString
  | [] => if pending.isSome then replacement else []
  | byte :: rest =>
    let (text, pending) := stepUtf8 pending byte.toNat
    text ++ decodeUtf8From pending rest

def decodeUtf8 (bytes : List UInt8) : JsString := decodeUtf8From none bytes

/-- `/^[A-Za-z0-9+/]*={0,2}$/`. -/
def isBase64 (text : JsString) : Bool :=
  let padding := text.dropWhile fun u => (sextetValue u).isSome
  padding.length ≤ 2 && padding.all (· = pad)

/-- With that test passed, `Buffer.from` reads what `atob` does. -/
def base64urlDecodeToString (input : JsString) : Except Error JsString := do
  let base64 := (addPadding input).map fromUrlUnit
  if !isBase64 base64 then
    throw (.error (js "Invalid base64url string: contains invalid characters"))
  return decodeUtf8 (← atob base64)

/-- An encoded byte string is read as the text of its bytes. -/
theorem base64urlDecodeToString_encode (bytes : List UInt8) :
    base64urlDecodeToString (base64urlEncodeFromBytes bytes) = .ok (decodeUtf8 bytes) := by
  obtain ⟨count, hcount, hpadded, -⟩ := padded_encode bytes
  have hdigits : ∀ u ∈ (sextets bytes).map sextetUnit, (sextetValue u).isSome = true := by
    intro u hu
    obtain ⟨n, hn, rfl⟩ := List.mem_map.mp hu
    rw [(sextetUnit_facts n (sextets_lt bytes n hn)).1]
    rfl
  have hpadding : (List.replicate count pad).dropWhile (fun u => (sextetValue u).isSome) =
      List.replicate count pad := by
    cases count with
    | zero => rfl
    | succ count => rfl
  have hbase64 : isBase64 ((sextets bytes).map sextetUnit ++ List.replicate count pad) = true := by
    rw [isBase64, List.dropWhile_append_of_pos hdigits, hpadding]
    simp [hcount]
  have hbytes := base64urlDecodeToBytes_encode bytes
  rw [base64urlDecodeToBytes, hpadded] at hbytes
  rw [base64urlDecodeToString, hpadded, hbase64, hbytes]
  rfl

end KyaOs
