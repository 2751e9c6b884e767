import KyaOs.Json.Text
import KyaOs.Utils.Untyped

/-!
# Which addresses may be connected to

`isBlockedAddress`: a resolved address is public unicast or not, and what cannot be read
is not. IPv6 literals are judged by their sixteen bytes, an embedded IPv4 address by the
IPv4 rules.
-/

namespace KyaOs

open Js

section Ipv4

variable (toNumber : JsString → JsNumber)

/-- `Number(part)` of each part, where all are integers from 0 to 255. -/
def readOctets (parts : List JsString) : Option (List Nat) :=
  parts.mapM fun part =>
    match (toNumber part).toInt? with
    | some o => if o < 0 ∨ 255 < o then none else some o.toNat
    | none => none

/-- The ranges that are not public unicast. -/
def isReservedIpv4 (a b c : Nat) : Bool :=
  a == 0 || a == 10 || a == 127 ||
  (a == 169 && b == 254) ||
  (a == 172 && 16 ≤ b && b ≤ 31) ||
  (a == 192 && b == 168) ||
  (a == 100 && 64 ≤ b && b ≤ 127) ||
  (a == 192 && b == 0 && c == 0) ||
  (a == 192 && b == 0 && c == 2) ||
  (a == 198 && b == 51 && c == 100) ||
  (a == 203 && b == 0 && c == 113) ||
  (a == 198 && (b == 18 || b == 19)) ||
  224 ≤ a

def isBlockedIpv4 (ip : JsString) : Bool :=
  let parts := ip.splitOn 0x2E
  if parts.length ≠ 4 then true
  else
    match readOctets toNumber parts with
    | some (a :: b :: c :: _) => isReservedIpv4 a b c
    | _ => true

end Ipv4

/-- `ip.toLowerCase()`; only ASCII letters can become a hexadecimal digit. -/
def lowerHex (u : UInt16) : UInt16 := if 0x41 ≤ u ∧ u ≤ 0x5A then u + 0x20 else u

/-- `text.split('::')`. -/
def splitDoubleColon : JsString → List JsString
  | [] => [[]]
  | 0x3A :: 0x3A :: rest => [] :: splitDoubleColon rest
  | u :: rest =>
    match splitDoubleColon rest with
    | first :: others => (u :: first) :: others
    | [] => [[u]]

/-- A number of a dotted quad, `\d{1,3}`. -/
def quadNumber (s : JsString) : Option Nat :=
  if 1 ≤ s.length ∧ s.length ≤ 3 ∧ s.all isDigit then
    some (s.foldl (fun n u => 10 * n + digitValue u) 0)
  else none

/-- The text before the last colon and the numbers of the dotted quad after it. -/
def trailingQuad (text : JsString) : Option (JsString × List Nat) :=
  if 0x3A ∈ text then
    let quad := (text.reverse.takeWhile (· ≠ 0x3A)).reverse
    let parts := quad.splitOn 0x2E
    if parts.length = 4 then
      (parts.mapM quadNumber).map fun o => (text.take (text.length - quad.length - 1), o)
    else none
  else none

/-- `n.toString(16)`. -/
def hexText (n : Nat) : JsString := js (String.ofList (Nat.toDigits 16 n))

/-- Folds a trailing dotted quad into two hextets; `none` when a number is above 255. -/
def foldQuad (text : JsString) : Option JsString :=
  match trailingQuad text with
  | none => some text
  | some (before, o) =>
    if o.any (255 < ·) then none
    else
      let hi := hexText (256 * o.getD 0 0 + o.getD 1 0)
      let lo := hexText (256 * o.getD 2 0 + o.getD 3 0)
      some (before ++ js ":" ++ hi ++ js ":" ++ lo)

/-- `parseInt(h, 16)` of one to four hexadecimal digits. -/
def readHextet (h : JsString) : Option Nat :=
  if 1 ≤ h.length ∧ h.length ≤ 4 then
    h.foldlM (fun n u => (Json.hexValue u).map (16 * n + ·)) 0
  else none

/-- The hextets of one side of `::`. -/
def readHextets (part : JsString) : Option (List Nat) :=
  if part = [] then some [] else (part.splitOn 0x3A).mapM readHextet

/-- The hextets of a literal, `::` standing for at least one of them. -/
def readHalves : List JsString → Option (List Nat)
  | [whole] => readHextets whole
  | [before, after] => do
    let head ← readHextets before
    let tail ← readHextets after
    if head.length + tail.length < 8 then
      some (head ++ List.replicate (8 - head.length - tail.length) 0 ++ tail)
    else none
  | _ => none

def ipv6ToBytes (ip : JsString) : Option (List Nat) := do
  let text ← foldQuad ((ip.map lowerHex).takeWhile (· ≠ 0x25))
  let hextets ← readHalves (splitDoubleColon text)
  if hextets.length ≠ 8 then none
  else some (hextets.flatMap fun h => [h / 256, h % 256])

/-- The dotted quad of four bytes from the `i`-th on. -/
def quadText (b : List Nat) (i : Nat) : JsString :=
  (js ".").intercalate ((List.range 4).map fun k => js (Nat.repr (b.getD (i + k) 0)))

/-- `b.subarray(from, to).every((x) => x === 0)`. -/
def zeros (b : List Nat) (start stop : Nat) : Bool := ((b.take stop).drop start).all (· == 0)

section Blocked

variable (toNumber : JsString → JsNumber)

/-- The first clause that applies decides, in the order of the source. -/
def isBlockedBytes (b : List Nat) : Bool :=
  let byte := fun i => b.getD i 0
  let embeddedV4 := isBlockedIpv4 toNumber (quadText b 12)
  if zeros b 0 10 && byte 10 == 0xff && byte 11 == 0xff then embeddedV4
  else if zeros b 0 16 then true
  else if zeros b 0 15 && byte 15 == 1 then true
  else if byte 0 == 0xfe && byte 1 &&& 0xc0 == 0x80 then true
  else if byte 0 &&& 0xfe == 0xfc then true
  else if byte 0 == 0xff then true
  else if byte 0 == 0xfe && byte 1 &&& 0xc0 == 0xc0 then true
  else if byte 0 == 0x00 && byte 1 == 0x64 && byte 2 == 0xff && byte 3 == 0x9b && zeros b 4 12 then
    embeddedV4
  else if byte 0 == 0x00 && byte 1 == 0x64 && byte 2 == 0xff && byte 3 == 0x9b && byte 4 == 0x00 &&
      byte 5 == 0x01 then
    embeddedV4
  else if byte 0 == 0x20 && byte 1 == 0x02 then isBlockedIpv4 toNumber (quadText b 2)
  else if byte 0 == 0x20 && byte 1 == 0x01 && byte 2 == 0x00 && byte 3 == 0x00 then true
  else if zeros b 0 12 then embeddedV4
  else if byte 0 == 0x20 && byte 1 == 0x01 && byte 2 == 0x0d && byte 3 == 0xb8 then true
  else if byte 0 == 0x01 && byte 1 == 0x00 && zeros b 2 8 then true
  else false

def isBlockedIpv6 (ip : JsString) : Bool :=
  match ipv6ToBytes ip with
  | none => true
  | some b => isBlockedBytes toNumber b

/-- Judged by the shape of the address, not by its family. -/
def isBlockedAddress (address : JsString) : Bool :=
  if 0x3A ∈ address then isBlockedIpv6 toNumber address else isBlockedIpv4 toNumber address

end Blocked

/-- `Number` of a text of digits. -/
def digitsNumber (text : JsString) : JsNumber :=
  if text.all isDigit then .ofNat (text.foldl (fun n u => 10 * n + digitValue u) 0) else .nan

example : isBlockedAddress digitsNumber (js "::ffff:169.254.169.254") = true ∧
    isBlockedAddress digitsNumber (js "64:ff9b::a9fe:a9fe") = true ∧
    isBlockedAddress digitsNumber (js "0:0:0:0:0:0:0:1") = true ∧
    isBlockedAddress digitsNumber (js "2606:4700::6810:85E5") = false ∧
    isBlockedAddress digitsNumber (js "93.184.216.34") = false := by decide +kernel

end KyaOs
