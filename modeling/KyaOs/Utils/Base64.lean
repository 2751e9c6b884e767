import KyaOs.Js.Throws

/-!
# Base64url

`btoa` and `atob` of the host, and the byte helpers over them. A `Uint8Array`
is the list of its bytes.
-/

namespace Js

/-- The base64 digits of a byte string, without padding. -/
def sextets : List UInt8 → List Nat
  | [] => []
  | [a] => [a.toNat / 4, a.toNat % 4 * 16]
  | [a, b] => [a.toNat / 4, a.toNat % 4 * 16 + b.toNat / 16, b.toNat % 16 * 4]
  | a :: b :: c :: rest =>
      a.toNat / 4 :: (a.toNat % 4 * 16 + b.toNat / 16) :: (b.toNat % 16 * 4 + c.toNat / 64) ::
        c.toNat % 64 :: sextets rest

/-- The bytes base64 digits stand for; bits past the last whole byte are dropped. -/
def ofSextets : List Nat → List UInt8
  | a :: b :: c :: d :: rest =>
      .ofNat (a * 4 + b / 16) :: .ofNat (b % 16 * 16 + c / 4) :: .ofNat (c % 4 * 64 + d) ::
        ofSextets rest
  | [a, b, c] => [.ofNat (a * 4 + b / 16), .ofNat (b % 16 * 16 + c / 4)]
  | [a, b] => [.ofNat (a * 4 + b / 16)]
  | _ => []

def sextetUnit (n : Nat) : UInt16 :=
  if n < 26 then .ofNat (0x41 + n)
  else if n < 52 then .ofNat (0x61 + (n - 26))
  else if n < 62 then .ofNat (0x30 + (n - 52))
  else if n = 62 then 0x2B
  else 0x2F

def sextetValue (u : UInt16) : Option Nat :=
  if 0x41 ≤ u ∧ u ≤ 0x5A then some (u.toNat - 0x41)
  else if 0x61 ≤ u ∧ u ≤ 0x7A then some (u.toNat - 0x61 + 26)
  else if 0x30 ≤ u ∧ u ≤ 0x39 then some (u.toNat - 0x30 + 52)
  else if u = 0x2B then some 62
  else if u = 0x2F then some 63
  else none

/-- `=`, the padding unit. -/
def pad : UInt16 := 0x3D

/-- `btoa`, over the bytes its binary string stands for. -/
def btoa (bytes : List UInt8) : JsString :=
  (sextets bytes).map sextetUnit ++ List.replicate ((3 - bytes.length % 3) % 3) pad

/-- ASCII white space, which `atob` ignores. -/
def isAsciiWhiteSpace (u : UInt16) : Bool :=
  u = 0x09 || u = 0x0A || u = 0x0C || u = 0x0D || u = 0x20

/-- Up to two padding units are dropped at the end. -/
def dropPadding (text : JsString) : JsString :=
  text.take (text.length - min 2 (text.reverse.takeWhile (· = pad)).length)

/-- `atob`, as the bytes of the binary string it returns. -/
def atob (text : JsString) : Except Error (List UInt8) :=
  let data := text.filter fun u => !isAsciiWhiteSpace u
  let data := if data.length % 4 = 0 then dropPadding data else data
  if data.length % 4 = 1 then
    .error (.error (js "The string to be decoded is not correctly encoded."))
  else
    match data.mapM sextetValue with
    | some digits => .ok (ofSextets digits)
    | none => .error (.error (js "Invalid character"))

end Js

namespace KyaOs

open Js

def addPadding (input : JsString) : JsString :=
  let remainder := input.length % 4
  if remainder = 0 then input else input ++ List.replicate ((4 - remainder) % 4) pad

/-- A dash becomes a plus sign and an underscore a slash. -/
def fromUrlUnit (u : UInt16) : UInt16 :=
  if u = 0x2D then 0x2B else if u = 0x5F then 0x2F else u

/-- A plus sign becomes a dash and a slash an underscore. -/
def toUrlUnit (u : UInt16) : UInt16 :=
  if u = 0x2B then 0x2D else if u = 0x2F then 0x5F else u

def base64urlEncodeFromBytes (bytes : List UInt8) : JsString :=
  ((btoa bytes).map toUrlUnit).filter (· ≠ pad)

def base64urlDecodeToBytes (input : JsString) : Except Error (List UInt8) :=
  atob ((addPadding input).map fromUrlUnit)

section RoundTrip

theorem sextets_lt (bytes : List UInt8) : ∀ n ∈ sextets bytes, n < 64 := by
  have hbyte : ∀ b : UInt8, b.toNat < 256 := fun b => b.toNat_lt
  induction bytes using sextets.induct with
  | case1 => simp [sextets]
  | case2 a =>
      have := hbyte a
      simp only [sextets, List.mem_cons, List.not_mem_nil, or_false]
      rintro n (rfl | rfl) <;> omega
  | case3 a b =>
      have := hbyte a
      have := hbyte b
      simp only [sextets, List.mem_cons, List.not_mem_nil, or_false]
      rintro n (rfl | rfl | rfl) <;> omega
  | case4 a b c rest ih =>
      have := hbyte a
      have := hbyte b
      have := hbyte c
      simp only [sextets, List.mem_cons]
      rintro n (rfl | rfl | rfl | rfl | hrest)
      · omega
      · omega
      · omega
      · omega
      · exact ih n hrest

theorem ofSextets_sextets (bytes : List UInt8) : ofSextets (sextets bytes) = bytes := by
  have hbyte : ∀ b : UInt8, b.toNat < 256 := fun b => b.toNat_lt
  have hof : ∀ (b : UInt8) (n : Nat), n = b.toNat → UInt8.ofNat n = b := by
    rintro b n rfl
    exact UInt8.ofNat_toNat
  induction bytes using sextets.induct with
  | case1 => rfl
  | case2 a =>
      have := hbyte a
      simp only [sextets, ofSextets, List.cons.injEq, and_true]
      exact hof a _ (by omega)
  | case3 a b =>
      have := hbyte a
      have := hbyte b
      simp only [sextets, ofSextets, List.cons.injEq, and_true]
      exact ⟨hof a _ (by omega), hof b _ (by omega)⟩
  | case4 a b c rest ih =>
      have := hbyte a
      have := hbyte b
      have := hbyte c
      simp only [sextets, ofSextets, ih, List.cons.injEq, and_true]
      exact ⟨hof a _ (by omega), hof b _ (by omega), hof c _ (by omega)⟩

theorem length_sextets (bytes : List UInt8) : (sextets bytes).length % 4 ≠ 1 := by
  induction bytes using sextets.induct with
  | case1 => simp [sextets]
  | case2 a => simp [sextets]
  | case3 a b => simp [sextets]
  | case4 a b c rest ih =>
      simp only [sextets, List.length_cons]
      omega

theorem sextetUnit_facts : ∀ n < 64,
    sextetValue (sextetUnit n) = some n ∧ fromUrlUnit (toUrlUnit (sextetUnit n)) = sextetUnit n ∧
      toUrlUnit (sextetUnit n) ≠ pad ∧ sextetUnit n ≠ pad ∧
      isAsciiWhiteSpace (sextetUnit n) = false := by
  decide +kernel

/-- The text of a byte string: its digits, without padding. -/
theorem base64urlEncodeFromBytes_eq (bytes : List UInt8) :
    base64urlEncodeFromBytes bytes = (sextets bytes).map fun n => toUrlUnit (sextetUnit n) := by
  have hpad : toUrlUnit pad = pad := by decide
  rw [base64urlEncodeFromBytes, btoa, List.map_append, List.filter_append, List.map_replicate,
    hpad, List.map_map]
  have hnone : List.filter (· ≠ pad) (List.replicate ((3 - bytes.length % 3) % 3) pad) = [] := by
    simp
  rw [hnone, List.append_nil, List.filter_eq_self.mpr]
  · rfl
  · intro u hu
    obtain ⟨n, hn, rfl⟩ := List.mem_map.mp hu
    simpa using (sextetUnit_facts n (sextets_lt bytes n hn)).2.2.1

/-- Padding behind text without any is what `atob` drops. -/
theorem dropPadding_append {text : JsString} (htext : ∀ u ∈ text, u ≠ pad) {count : Nat}
    (hcount : count ≤ 2) : dropPadding (text ++ List.replicate count pad) = text := by
  have htake : ((text ++ List.replicate count pad).reverse.takeWhile (· = pad)).length = count := by
    rw [List.reverse_append, List.reverse_replicate, List.takeWhile_append_of_pos (by simp),
      List.length_append, List.length_replicate]
    have hnone : text.reverse.takeWhile (· = pad) = [] := by
      cases hrev : text.reverse with
      | nil => rfl
      | cons u rest =>
          have hu : u ≠ pad := htext u (List.mem_reverse.mp (hrev ▸ List.mem_cons_self))
          simp [hu]
    simp [hnone]
  rw [dropPadding, htake, Nat.min_eq_right hcount, List.length_append, List.length_replicate,
    Nat.add_sub_cancel, List.take_left]

theorem mapM_sextetValue {digits : List Nat} (h : ∀ n ∈ digits, n < 64) :
    (digits.map sextetUnit).mapM sextetValue = some digits := by
  induction digits with
  | nil => rfl
  | cons n digits ih =>
      have hn := (sextetUnit_facts n (h n List.mem_cons_self)).1
      have hrest := ih fun m hm => h m (List.mem_cons_of_mem _ hm)
      simp [hn, hrest]

/-- An encoded byte string with its padding, in the standard alphabet. -/
theorem padded_encode (bytes : List UInt8) : ∃ count ≤ 2,
    (addPadding (base64urlEncodeFromBytes bytes)).map fromUrlUnit =
      (sextets bytes).map sextetUnit ++ List.replicate count pad ∧
    ((sextets bytes).length + count) % 4 = 0 := by
  have hlength := length_sextets bytes
  have hpad : fromUrlUnit pad = pad := by decide
  have hback : ((sextets bytes).map fun n => toUrlUnit (sextetUnit n)).map fromUrlUnit =
      (sextets bytes).map sextetUnit := by
    rw [List.map_map]
    exact List.map_congr_left fun n hn => (sextetUnit_facts n (sextets_lt bytes n hn)).2.1
  rw [base64urlEncodeFromBytes_eq]
  simp only [addPadding, List.length_map]
  split
  · exact ⟨0, by omega, by simpa using hback, by omega⟩
  · refine ⟨(4 - (sextets bytes).length % 4) % 4, by omega, ?_, by omega⟩
    rw [List.map_append, hback, List.map_replicate, hpad]

/-- Decoding takes an encoded byte string back to its bytes. -/
theorem base64urlDecodeToBytes_encode (bytes : List UInt8) :
    base64urlDecodeToBytes (base64urlEncodeFromBytes bytes) = .ok bytes := by
  have hlt := sextets_lt bytes
  have hlength := length_sextets bytes
  have hnoPad : ∀ u ∈ (sextets bytes).map sextetUnit, u ≠ pad := by
    intro u hu
    obtain ⟨n, hn, rfl⟩ := List.mem_map.mp hu
    exact (sextetUnit_facts n (hlt n hn)).2.2.2.1
  obtain ⟨count, hcount, hpadded, hwhole⟩ := padded_encode bytes
  have hkept : ((sextets bytes).map sextetUnit ++ List.replicate count pad).filter
      (fun u => !isAsciiWhiteSpace u) =
        (sextets bytes).map sextetUnit ++ List.replicate count pad := by
    refine List.filter_eq_self.mpr fun u hu => ?_
    rcases List.mem_append.mp hu with hu | hu
    · obtain ⟨n, hn, rfl⟩ := List.mem_map.mp hu
      simp [(sextetUnit_facts n (hlt n hn)).2.2.2.2]
    · rw [List.eq_of_mem_replicate hu]
      decide
  rw [base64urlDecodeToBytes, hpadded, atob, hkept]
  simp only [List.length_append, List.length_map, List.length_replicate, hwhole, if_true,
    dropPadding_append hnoPad hcount, hlength, if_false, mapM_sextetValue hlt, ofSextets_sextets]

end RoundTrip

end KyaOs
