import KyaOs.Js.Throws
import KyaOs.Json.Text

/-!
# Base58

The Bitcoin alphabet, and decoding of texts up to a length. A `Uint8Array` is the list of
its bytes.
-/

namespace Js

def base58Alphabet : JsString :=
  js "123456789ABCDEFGHJKLMNPQRSTUVWXYZabcdefghijkmnopqrstuvwxyz"

/-- The first character of a text that begins with this unit, which may be half of it. -/
def firstCharacter (u : UInt16) (rest : JsString) : JsString :=
  match rest with
  | v :: _ => if Json.isLeadSurrogate u && Json.isTrailSurrogate v then [u, v] else [u]
  | [] => [u]

/-- The number that base58 digits stand for, after those that make `num`. -/
def base58Number : Nat → JsString → Except Error Nat
  | num, [] => .ok num
  | num, char :: rest =>
    match base58Alphabet.idxOf? char with
    | none => .error (.error (js "Invalid base58 character: " ++ firstCharacter char rest))
    | some value => base58Number (num * 58 + value) rest

/-- The bytes of a number, without leading zeros; a base58 digit is less than a byte. -/
def bytesOfNumber : Nat → Nat → List UInt8
  | 0, _ => []
  | fuel + 1, num =>
    if num = 0 then [] else bytesOfNumber fuel (num / 256) ++ [.ofNat (num % 256)]

def base58Decode (encoded : JsString) (maxLength : Nat) : Except Error (List UInt8) :=
  if encoded.length > maxLength then
    .error (.error (js "Base58 input exceeds " ++ js (toString maxLength) ++ js " characters"))
  else do
    let num ← base58Number 0 encoded
    let leadingZeros := (encoded.takeWhile (· = 0x31)).length
    return List.replicate leadingZeros 0 ++ bytesOfNumber encoded.length num

end Js
