import KyaOs.Js.StringToNumber
import KyaOs.Utils.IpLiterals
import Mathlib.Tactic.Ring

/-!
# What the classifier lets through

The ranges that are not public unicast, as prefixes, and the wrappers that carry an IPv4
address. An address that is not blocked is read as bytes outside all of them; what is read is a
literal, unless it is written in one of the ways that the classifier is lenient about.
-/

namespace KyaOs

open Js

/-- An address begins with the first `bits` bits of a prefix. -/
def InRange (address : List Nat) (range : List Nat × Nat) : Bool :=
  let whole := range.2 / 8
  let rest := range.2 % 8
  address.take whole = range.1.take whole ∧
    (rest = 0 ∨ address.getD whole 0 / 2 ^ (8 - rest) = range.1.getD whole 0 / 2 ^ (8 - rest))

/-- The IPv4 ranges that are not public unicast. -/
def ipv4Ranges : List (List Nat × Nat) := [
  ([0], 8), ([10], 8), ([127], 8), ([169, 254], 16), ([172, 16], 12), ([192, 168], 16),
  ([100, 64], 10), ([192, 0, 0], 24), ([192, 0, 2], 24), ([198, 51, 100], 24),
  ([203, 0, 113], 24), ([198, 18], 15), ([224], 4), ([240], 4)]

def PublicIpv4 (octets : List Nat) : Prop := ∀ range ∈ ipv4Ranges, InRange octets range = false

theorem isReservedIpv4_iff {a b c d : Nat} (ha : a < 256) :
    isReservedIpv4 a b c = false ↔ PublicIpv4 [a, b, c, d] := by
  have h16 : (16 ≤ b → 31 < b) ↔ ¬ b / 16 = 1 := by omega
  have h64 : (64 ≤ b → 127 < b) ↔ ¬ b / 64 = 1 := by omega
  have h2 : (¬ b = 18 ∧ ¬ b = 19) ↔ ¬ b / 2 = 9 := by omega
  have h224 : a < 224 ↔ ¬ a / 16 = 14 ∧ ¬ a / 16 = 15 := by omega
  simp only [PublicIpv4, ipv4Ranges, isReservedIpv4, List.forall_mem_cons]
  simp [InRange, h16, h64, h2, h224, and_assoc]

/-- The IPv6 ranges that are not public unicast. -/
def ipv6Ranges : List (List Nat × Nat) := [
  (List.replicate 16 0, 128), (List.replicate 15 0 ++ [1], 128), ([0xFE, 0x80], 10), ([0xFC], 7),
  ([0xFF], 8), ([0xFE, 0xC0], 10), ([0x20, 0x01, 0, 0], 32), ([0x20, 0x01, 0x0D, 0xB8], 32),
  ([0x01, 0, 0, 0, 0, 0, 0, 0], 64)]

/-- The ranges whose addresses carry an IPv4 address, and where in them it is: IPv4-mapped,
both NAT64 prefixes, 6to4 and IPv4-compatible. -/
def ipv4Wrappers : List ((List Nat × Nat) × Nat) := [
  ((List.replicate 10 0 ++ [0xFF, 0xFF], 96), 12),
  (([0, 0x64, 0xFF, 0x9B, 0, 0, 0, 0, 0, 0, 0, 0], 96), 12),
  (([0, 0x64, 0xFF, 0x9B, 0, 1], 48), 12),
  (([0x20, 0x02], 16), 2), ((List.replicate 12 0, 96), 12)]

def PublicIpv6 (bytes : List Nat) : Prop :=
  (∀ range ∈ ipv6Ranges, InRange bytes range = false) ∧
    ∀ wrapper ∈ ipv4Wrappers, InRange bytes wrapper.1 = true →
      PublicIpv4 ((bytes.drop wrapper.2).take 4)

section Bytes

theorem eq_map_range {bytes : List Nat} {n : Nat} (h : bytes.length = n) :
    bytes = (List.range n).map (bytes.getD · 0) := by
  apply List.ext_getElem
  · simp [h]
  · intro i hi _
    simp [List.getD_eq_getElem?_getD, List.getElem?_eq_getElem hi]

/-- `Number(part)`, where it is an integer from 0 to 255. -/
def readOctet (part : JsString) : Option Nat :=
  match (stringToNumber part).toInt? with
  | some o => if o < 0 ∨ 255 < o then none else some o.toNat
  | none => none

theorem readOctets_eq (parts : List JsString) :
    readOctets stringToNumber parts = parts.mapM readOctet := rfl

theorem readOctet_iff {part : JsString} {o : Nat} :
    readOctet part = some o ↔ stringToNumber part = .ofNat o ∧ o < 256 := by
  rw [readOctet]
  constructor
  · intro h
    split at h
    · rename_i z hz
      split_ifs at h with hbounds
      obtain ⟨n, rfl⟩ := Int.eq_ofNat_of_zero_le (show 0 ≤ z by omega)
      obtain rfl : n = o := Option.some.inj h
      exact ⟨JsNumber.eq_ofNat_of_toInt? hz, by omega⟩
    · cases h
  · rintro ⟨hnumber, ho⟩
    have hbounds : ¬ ((o : Int) < 0 ∨ 255 < (o : Int)) := by omega
    rw [hnumber, JsNumber.toInt?_ofNat]
    simp only [if_neg hbounds, Int.toNat_natCast]

theorem readOctets_toString {octets : List Nat} (h : ∀ o ∈ octets, o < 256) :
    readOctets stringToNumber (octets.map fun o => js (toString o)) = some octets := by
  rw [readOctets_eq]
  induction octets with
  | nil => rfl
  | cons o rest ih =>
      obtain ⟨ho, hrest⟩ := List.forall_mem_cons.mp h
      rw [List.map_cons, List.mapM_cons, readOctet_iff.mpr ⟨stringToNumber_toString o ho, ho⟩,
        ih hrest]
      rfl

/-- A quad is judged by its octets. -/
theorem isBlockedIpv4_dottedQuad {octets : List Nat} (hlength : octets.length = 4)
    (h : ∀ o ∈ octets, o < 256) :
    isBlockedIpv4 stringToNumber (dottedQuad octets) = false ↔ PublicIpv4 octets := by
  have hne : octets ≠ [] := by
    rintro rfl
    cases hlength
  have hfour := eq_map_range hlength
  rw [isBlockedIpv4, splitOn_dottedQuad hne]
  simp only [List.length_map, hlength, ne_eq, not_true_eq_false, if_false, readOctets_toString h]
  have hfirst : octets.getD 0 0 < 256 := by
    rw [List.getD_eq_getElem?_getD, List.getElem?_eq_getElem (by omega : 0 < octets.length)]
    exact h _ (List.getElem_mem _)
  rw [hfour]
  exact isReservedIpv4_iff hfirst

theorem isBlockedBytes_cons {b0 b1 b2 b3 b4 b5 b6 b7 b8 b9 b10 b11 b12 b13 b14 b15 : Nat}
    {bytes : List Nat}
    (hbytes : bytes = [b0, b1, b2, b3, b4, b5, b6, b7, b8, b9, b10, b11, b12, b13, b14, b15])
    (h0 : b0 < 256) (h1 : b1 < 256)
    (hlast : isBlockedIpv4 stringToNumber (quadText bytes 12) = false ↔
      PublicIpv4 [b12, b13, b14, b15])
    (hsixToFour : isBlockedIpv4 stringToNumber (quadText bytes 2) = false ↔
      PublicIpv4 [b2, b3, b4, b5]) :
    isBlockedBytes stringToNumber bytes = false ↔ PublicIpv6 bytes := by
  have hmask : ∀ b < 256, (b &&& 192 = 128 ↔ b / 64 = 2) ∧ (b &&& 192 = 192 ↔ b / 64 = 3) ∧
      (b &&& 254 = 252 ↔ b / 2 = 126) := by
    decide +kernel
  obtain ⟨h128, h192, -⟩ := hmask b1 h1
  obtain ⟨-, -, h252⟩ := hmask b0 h0
  subst hbytes
  simp only [PublicIpv6, ipv6Ranges, ipv4Wrappers, isBlockedBytes, List.forall_mem_cons]
  simp [InRange, zeros, hlast, hsixToFour, h128, h192, h252]
  -- A wrapper's prefix is in no other range, so the order of the clauses does not matter.
  split_ifs with hmapped hnat64 hlocal h6to4 hcompatible
  · obtain ⟨⟨⟨rfl, rfl, rfl, rfl, rfl, rfl, rfl, rfl, rfl, rfl⟩, rfl⟩, rfl⟩ := hmapped
    simp
  · obtain ⟨⟨⟨⟨rfl, rfl⟩, rfl⟩, rfl⟩, rfl, rfl, rfl, rfl, rfl, rfl, rfl, rfl⟩ := hnat64
    simp
  · obtain ⟨⟨⟨⟨⟨rfl, rfl⟩, rfl⟩, rfl⟩, rfl⟩, rfl⟩ := hlocal
    simp
  · obtain ⟨rfl, rfl⟩ := h6to4
    simp
  · obtain ⟨rfl, rfl, rfl, rfl, rfl, rfl, rfl, rfl, rfl, rfl, rfl, rfl⟩ := hcompatible
    simp
    grind
  · grind

theorem mem_take_drop {bytes : List Nat} (h : ∀ b ∈ bytes, b < 256) (i : Nat) :
    ∀ b ∈ (bytes.drop i).take 4, b < 256 :=
  fun b hb => h b (List.mem_of_mem_drop (List.mem_of_mem_take hb))

/-- The quad of an embedded address, as it is judged. -/
theorem isBlockedIpv4_quadText {bytes : List Nat} (hlength : bytes.length = 16)
    (h : ∀ b ∈ bytes, b < 256) {i : Nat} (hi : i + 4 ≤ 16) :
    quadText bytes i = dottedQuad ((bytes.drop i).take 4) ∧
      (isBlockedIpv4 stringToNumber (quadText bytes i) = false ↔
        PublicIpv4 ((bytes.drop i).take 4)) := by
  have hfour : ((bytes.drop i).take 4).length = 4 := by
    rw [List.length_take, List.length_drop, hlength]
    omega
  have hquad : quadText bytes i = dottedQuad ((bytes.drop i).take 4) := by
    have hdot : js "." = [0x2E] := by decide
    rw [eq_map_range hfour, quadText, dottedQuad, hdot, List.map_map]
    congr 1
    apply List.map_congr_left
    intro k hk
    have hk4 : k < 4 := List.mem_range.mp hk
    simp [List.getD_eq_getElem?_getD, List.getElem?_take, List.getElem?_drop, hk4]
  refine ⟨hquad, ?_⟩
  rw [hquad]
  exact isBlockedIpv4_dottedQuad hfour (mem_take_drop h i)

/-- Sixteen bytes are judged by the ranges they are in. -/
theorem isBlockedBytes_iff {bytes : List Nat} (hlength : bytes.length = 16)
    (h : ∀ b ∈ bytes, b < 256) :
    isBlockedBytes stringToNumber bytes = false ↔ PublicIpv6 bytes := by
  have hlast := (isBlockedIpv4_quadText hlength h (i := 12) (by decide)).2
  have hsixToFour := (isBlockedIpv4_quadText hlength h (i := 2) (by decide)).2
  have hbyte : ∀ i, bytes.getD i 0 < 256 := by
    intro i
    rw [List.getD_eq_getElem?_getD]
    cases hi : bytes[i]? with
    | none => decide
    | some b => exact h b (List.mem_of_getElem? hi)
  have hsixteen := eq_map_range hlength
  rw [hsixteen] at hlast hsixToFour ⊢
  exact isBlockedBytes_cons rfl (hbyte 0) (hbyte 1) hlast hsixToFour

end Bytes

/-- Four parts between dots, each of which `Number` makes a byte. -/
structure ReadsIpv4 (address : JsString) (octets : List Nat) : Prop where
  parts : (address.splitOn 0x2E).length = 4
  numbers : (address.splitOn 0x2E).map stringToNumber = octets.map JsNumber.ofNat
  octet : ∀ o ∈ octets, o < 256

/-- A literal in front of a percent sign, leading zeros in its quad or not. -/
def ReadsIpv6 (address : JsString) (bytes : List Nat) : Prop :=
  ∃ hextets, LenientLiteral (address.takeWhile (· ≠ 0x25)) hextets ∧ bytes = hextetBytes hextets

/-- What is read as an address is one outside the ranges. -/
def ReadsPublic (address : JsString) : Prop :=
  (0x3A ∉ address ∧ ∃ octets, ReadsIpv4 address octets ∧ PublicIpv4 octets) ∨
    (0x3A ∈ address ∧ ∃ bytes, ReadsIpv6 address bytes ∧ PublicIpv6 bytes)

/-- What is read although it is not written as an address: a part that is not printed as a
decimal number, a quad with a leading zero, or no zone behind the percent sign. -/
def Lenient (address : JsString) : Prop :=
  (0x3A ∉ address ∧ ∃ part ∈ address.splitOn 0x2E, ¬ IsDecimal part) ∨
    (0x3A ∈ address ∧ LenientIpv6 address)

section Reading

variable {address : JsString} {octets bytes hextets : List Nat}

theorem readOctets_iff {parts : List JsString} : readOctets stringToNumber parts = some octets ↔
    parts.map stringToNumber = octets.map JsNumber.ofNat ∧ ∀ o ∈ octets, o < 256 := by
  rw [readOctets_eq]
  induction parts generalizing octets with
  | nil =>
      cases octets with
      | nil => simp
      | cons o rest => simp
  | cons part others ih =>
      constructor
      · intro h
        obtain ⟨o, rest, hpart, hothers, rfl⟩ := mapM_cons_eq_some h
        obtain ⟨hnumbers, hrest⟩ := ih.mp hothers
        obtain ⟨hnumber, ho⟩ := readOctet_iff.mp hpart
        exact ⟨by rw [List.map_cons, List.map_cons, hnumber, hnumbers],
          List.forall_mem_cons.mpr ⟨ho, hrest⟩⟩
      · rintro ⟨hnumbers, hall⟩
        cases octets with
        | nil => cases hnumbers
        | cons o rest =>
            obtain ⟨ho, hrest⟩ := List.forall_mem_cons.mp hall
            obtain ⟨hpart, hothers⟩ := List.cons.inj hnumbers
            rw [List.mapM_cons, readOctet_iff.mpr ⟨hpart, ho⟩, ih.mpr ⟨hothers, hrest⟩]
            rfl

theorem ReadsIpv4.length (h : ReadsIpv4 address octets) : octets.length = 4 := by
  have hlengths := congrArg List.length h.numbers
  rw [List.length_map, List.length_map, h.parts] at hlengths
  exact hlengths.symm

/-- Without a colon: an address is let through exactly when it is read as a public one. -/
theorem isBlockedIpv4_iff : isBlockedIpv4 stringToNumber address = false ↔
    ∃ octets, ReadsIpv4 address octets ∧ PublicIpv4 octets := by
  rw [isBlockedIpv4]
  by_cases hparts : (address.splitOn 0x2E).length = 4
  · rw [if_neg (by simpa using hparts)]
    constructor
    · intro h
      split at h
      · rename_i a b c rest hread
        obtain ⟨hnumbers, hoctets⟩ := readOctets_iff.mp hread
        have hreads : ReadsIpv4 address (a :: b :: c :: rest) := ⟨hparts, hnumbers, hoctets⟩
        obtain ⟨d, rfl⟩ : ∃ d, rest = [d] :=
          List.length_eq_one_iff.mp (by simpa using hreads.length)
        exact ⟨_, hreads, (isReservedIpv4_iff (hoctets a (by simp))).mp h⟩
      · cases h
    · rintro ⟨octets, hreads, hpublic⟩
      rw [readOctets_iff.mpr ⟨hreads.numbers, hreads.octet⟩]
      have hfour := eq_map_range hreads.length
      have hoctets := hreads.octet
      rw [hfour] at hpublic hoctets ⊢
      exact (isReservedIpv4_iff (hoctets _ List.mem_cons_self)).mpr hpublic
  · rw [if_pos (by simpa using hparts)]
    constructor
    · intro h
      cases h
    · rintro ⟨octets, hreads, -⟩
      exact absurd hreads.parts hparts

theorem foldlM_hexValue_lt {group : JsString} {n m : Nat}
    (h : group.foldlM (fun n u => (Json.hexValue u).map (16 * n + ·)) n = some m) :
    m < 16 ^ group.length * (n + 1) := by
  induction group generalizing n with
  | nil =>
      obtain rfl := Option.some.inj h
      simp
  | cons u rest ih =>
      rw [List.foldlM_cons] at h
      obtain ⟨value, hvalue, hrest⟩ := Option.bind_eq_some_iff.mp h
      obtain ⟨d, hd, rfl⟩ := Option.map_eq_some_iff.mp hvalue
      have hdigit : d < 16 := by
        rw [hexValue_eq] at hd
        split_ifs at hd <;> cases hd <;> omega
      calc m < 16 ^ rest.length * (16 * n + d + 1) := ih hrest
        _ ≤ 16 ^ rest.length * (16 * (n + 1)) := Nat.mul_le_mul_left _ (by omega)
        _ = 16 ^ (u :: rest).length * (n + 1) := by
          rw [List.length_cons, pow_succ]
          ring

theorem readHextet_lt {group : JsString} {n : Nat} (h : readHextet group = some n) : n < 65536 := by
  rw [readHextet] at h
  split_ifs at h with hlength
  have hbound := foldlM_hexValue_lt h
  have hpower : 16 ^ group.length ≤ 16 ^ 4 := Nat.pow_le_pow_right (by decide) hlength.2
  omega

theorem mapM_readHextet_lt {groups : List JsString} (h : groups.mapM readHextet = some hextets) :
    ∀ n ∈ hextets, n < 65536 := by
  induction groups generalizing hextets with
  | nil =>
      obtain rfl := Option.some.inj h
      simp
  | cons group others ih =>
      obtain ⟨n, ns, hgroup, hothers, rfl⟩ := mapM_cons_eq_some h
      exact List.forall_mem_cons.mpr ⟨readHextet_lt hgroup, ih hothers⟩

theorem PlainLiteral.bounds {text : JsString} (h : PlainLiteral text hextets) :
    hextets.length = 8 ∧ ∀ n ∈ hextets, n < 65536 := by
  cases h with
  | whole hgroups hlength => exact ⟨hlength, mapM_readHextet_lt hgroups⟩
  | compressed hleft hright hlength =>
      constructor
      · simp only [List.length_append, List.length_replicate]
        omega
      · intro n hn
        simp only [List.mem_append, List.mem_replicate] at hn
        obtain (hbefore | ⟨-, rfl⟩) | hafter := hn
        · exact mapM_readHextet_lt hleft n hbefore
        · decide
        · exact mapM_readHextet_lt hright n hafter

theorem LenientLiteral.bounds {text : JsString} (h : LenientLiteral text hextets) :
    hextets.length = 8 ∧ ∀ n ∈ hextets, n < 65536 := by
  cases h with
  | plain h => exact h.bounds
  | mixed hquad h => exact h.bounds

/-- What is read as an IPv6 address are sixteen bytes. -/
theorem ReadsIpv6.bounds (h : ReadsIpv6 address bytes) :
    bytes.length = 16 ∧ ∀ b ∈ bytes, b < 256 := by
  obtain ⟨hextets, hliteral, rfl⟩ := h
  obtain ⟨hlength, hlt⟩ := hliteral.bounds
  constructor
  · rw [hextetBytes, List.length_flatMap]
    simp [hlength]
  · intro b hb
    obtain ⟨n, hn, hmem⟩ := List.mem_flatMap.mp hb
    have hbound := hlt n hn
    simp only [List.mem_cons, List.not_mem_nil, or_false] at hmem
    omega

theorem readsIpv6_iff : ReadsIpv6 address bytes ↔ ipv6ToBytes address = some bytes := by
  rw [ipv6ToBytes_eq, readLiteral_iff]
  rfl

/-- With a colon: an address is let through exactly when it is read as a public one. -/
theorem isBlockedIpv6_iff : isBlockedIpv6 stringToNumber address = false ↔
    ∃ bytes, ReadsIpv6 address bytes ∧ PublicIpv6 bytes := by
  rw [isBlockedIpv6]
  constructor
  · intro h
    split at h
    · cases h
    · rename_i bytes hread
      have hreads := readsIpv6_iff.mpr hread
      exact ⟨bytes, hreads, (isBlockedBytes_iff hreads.bounds.1 hreads.bounds.2).mp h⟩
  · rintro ⟨bytes, hreads, hpublic⟩
    rw [readsIpv6_iff.mp hreads]
    exact (isBlockedBytes_iff hreads.bounds.1 hreads.bounds.2).mpr hpublic

/-- What is not blocked is read as a public address, and the other way round. -/
theorem isBlockedAddress_iff :
    isBlockedAddress stringToNumber address = false ↔ ReadsPublic address := by
  rw [isBlockedAddress, ReadsPublic]
  by_cases hcolon : 0x3A ∈ address
  · rw [if_pos hcolon, isBlockedIpv6_iff]
    simp [hcolon]
  · rw [if_neg hcolon, isBlockedIpv4_iff]
    simp [hcolon]

/-- What is read from four decimal numbers is their quad. -/
theorem ReadsIpv4.canonical (h : ReadsIpv4 address octets)
    (hdecimal : ∀ part ∈ address.splitOn 0x2E, IsDecimal part) :
    CanonicalQuad address octets := by
  have hparts : ∀ {parts : List JsString} {octets : List Nat},
      parts.map stringToNumber = octets.map JsNumber.ofNat → (∀ o ∈ octets, o < 256) →
        (∀ part ∈ parts, IsDecimal part) → parts = octets.map fun o => js (toString o) := by
    intro parts
    induction parts with
    | nil =>
        intro octets hnumbers _ _
        rw [List.map_eq_nil_iff.mp hnumbers.symm]
        rfl
    | cons part others ih =>
        intro octets hnumbers hlt hall
        obtain ⟨hpartDecimal, hothers⟩ := List.forall_mem_cons.mp hall
        cases octets with
        | nil => cases hnumbers
        | cons o rest =>
            obtain ⟨ho, hrest⟩ := List.forall_mem_cons.mp hlt
            obtain ⟨hpart, hnumbers⟩ := List.cons.inj hnumbers
            have hvalue : Js.decimalValue part = o := by
              rw [stringToNumber_digits hpartDecimal.1 hpartDecimal.2.1] at hpart
              by_cases hsmall : Js.decimalValue part < 256
              · have hread := stringToNumber_toString _ hsmall
                rw [toString_decimalValue hpartDecimal,
                  stringToNumber_digits hpartDecimal.1 hpartDecimal.2.1, hpart] at hread
                exact (by simpa [JsNumber.ofNat] using hread.symm)
              · have hlarge := JsNumber.nearest_large (n := Js.decimalValue part) (z := o)
                  (by omega) (by rw [hpart, JsNumber.toInt?_ofNat])
                omega
            rw [List.map_cons, ← hvalue, toString_decimalValue hpartDecimal,
              ih hnumbers hrest hothers]
  refine ⟨h.length, h.octet, ?_⟩
  rw [dottedQuad, ← hparts h.numbers h.octet hdecimal, List.intercalate_splitOn]

theorem CanonicalQuad.reads (h : CanonicalQuad address octets) : ReadsIpv4 address octets := by
  have hread := readOctets_iff.mp (readOctets_toString h.octet)
  refine ⟨h.quadText.parts, ?_, h.octet⟩
  rw [h.text, splitOn_dottedQuad h.ne_nil]
  exact hread.1

theorem CanonicalQuad.colon_notMem (h : CanonicalQuad address octets) : 0x3A ∉ address :=
  h.quadText.notMem (by decide) (by decide)

theorem PlainLiteral.colon_mem {text : JsString} (h : PlainLiteral text hextets) :
    0x3A ∈ text := by
  cases h with
  | @whole groups _ hgroups hlength =>
      cases groups with
      | nil =>
          obtain rfl := Option.some.inj hgroups
          cases hlength
      | cons group others =>
          obtain ⟨n, ns, hgroup, hothers, rfl⟩ := mapM_cons_eq_some hgroups
          cases others with
          | nil =>
              obtain rfl := Option.some.inj hothers
              cases hlength
          | cons second others => simp [List.intercalate_cons_cons]
  | compressed hleft hright hlength => simp

theorem WellFormedIpv6.colon_mem (h : WellFormedIpv6 address bytes) : 0x3A ∈ address := by
  obtain ⟨literal, hextets, hliteral, -, haddress⟩ := h
  have hcolon : 0x3A ∈ literal := by
    cases hliteral with
    | plain h => exact h.colon_mem
    | mixed hquad h => simp
  obtain rfl | ⟨zone, -, rfl⟩ := haddress
  · exact hcolon
  · exact List.mem_append_left _ hcolon

/-- Leniency is what keeps a text that is read from being an address. -/
theorem not_lenient_of_literal (h : (∃ octets, CanonicalQuad address octets) ∨
    ∃ bytes, WellFormedIpv6 address bytes) : ¬ Lenient address := by
  rintro (⟨hcolon, part, hpart, hdecimal⟩ | ⟨hcolon, hlenient⟩)
  · obtain ⟨octets, hquad⟩ | ⟨bytes, hliteral⟩ := h
    · exact hdecimal (hquad.isDecimal part hpart)
    · exact hcolon hliteral.colon_mem
  · obtain ⟨octets, hquad⟩ | ⟨bytes, hliteral⟩ := h
    · exact hquad.colon_notMem hcolon
    · exact hliteral.read.2 hlenient

/-- An address that is let through is a canonical quad or an IPv6 literal of public bytes,
unless it is a public address in a lenient writing. -/
theorem letThrough_iff (address : JsString) :
    (isBlockedAddress stringToNumber address = false →
        (∃ octets, CanonicalQuad address octets ∧ PublicIpv4 octets) ∨
          ∃ bytes, WellFormedIpv6 address bytes ∧ PublicIpv6 bytes) ↔
      ¬ (Lenient address ∧ ReadsPublic address) := by
  constructor
  · rintro h ⟨hlenient, hpublic⟩
    obtain ⟨octets, hquad, -⟩ | ⟨bytes, hliteral, -⟩ := h (isBlockedAddress_iff.mpr hpublic)
    · exact not_lenient_of_literal (.inl ⟨octets, hquad⟩) hlenient
    · exact not_lenient_of_literal (.inr ⟨bytes, hliteral⟩) hlenient
  · intro h hthrough
    have hpublic := isBlockedAddress_iff.mp hthrough
    have hstrict : ¬ Lenient address := fun hlenient => h ⟨hlenient, hpublic⟩
    obtain ⟨hcolon, octets, hreads, hpublic⟩ | ⟨hcolon, bytes, hreads, hpublic⟩ := hpublic
    · refine .inl ⟨octets, hreads.canonical fun part hpart => ?_, hpublic⟩
      by_contra hdecimal
      exact hstrict (.inl ⟨hcolon, part, hpart, hdecimal⟩)
    · exact .inr ⟨bytes, wellFormedIpv6_of_read (readsIpv6_iff.mp hreads)
        fun hlenient => hstrict (.inr ⟨hcolon, hlenient⟩), hpublic⟩

/-- The verdict on an IPv6 literal is the verdict on its bytes. -/
theorem isBlockedAddress_literal (h : WellFormedIpv6 address bytes) :
    isBlockedAddress stringToNumber address = isBlockedBytes stringToNumber bytes := by
  rw [isBlockedAddress, if_pos h.colon_mem, isBlockedIpv6, h.read.1]

/-- The classifier lets no address through but public ones written as addresses, lenient
writings aside; it judges an IPv6 literal by its bytes, and by an IPv4 address it carries. -/
theorem isBlockedAddress_sound (address : JsString) :
    ((isBlockedAddress stringToNumber address = false →
        (∃ octets, CanonicalQuad address octets ∧ PublicIpv4 octets) ∨
          ∃ bytes, WellFormedIpv6 address bytes ∧ PublicIpv6 bytes) ↔
      ¬ (Lenient address ∧ ReadsPublic address)) ∧
    (∀ address' bytes, WellFormedIpv6 address bytes → WellFormedIpv6 address' bytes →
      isBlockedAddress stringToNumber address = isBlockedAddress stringToNumber address') ∧
    ∀ bytes, WellFormedIpv6 address bytes → ∀ wrapper ∈ ipv4Wrappers,
      InRange bytes wrapper.1 = true →
        isBlockedAddress stringToNumber (dottedQuad ((bytes.drop wrapper.2).take 4)) = true →
          isBlockedAddress stringToNumber address = true := by
  have hoffsets : ∀ wrapper ∈ ipv4Wrappers, wrapper.2 + 4 ≤ 16 := by decide
  refine ⟨letThrough_iff address, ?_, ?_⟩
  · intro address' bytes h h'
    rw [isBlockedAddress_literal h, isBlockedAddress_literal h']
  · intro bytes h wrapper hwrapper hrange hembedded
    obtain ⟨hlength, hlt⟩ := (readsIpv6_iff.mpr h.read.1).bounds
    have hoffset := hoffsets wrapper hwrapper
    have hfour : ((bytes.drop wrapper.2).take 4).length = 4 := by
      rw [List.length_take, List.length_drop, hlength]
      omega
    by_contra hthrough
    rw [Bool.not_eq_true, isBlockedAddress_literal h, isBlockedBytes_iff hlength hlt] at hthrough
    have hpublic := hthrough.2 wrapper hwrapper hrange
    have hquad : CanonicalQuad (dottedQuad ((bytes.drop wrapper.2).take 4))
        ((bytes.drop wrapper.2).take 4) := ⟨hfour, mem_take_drop hlt _, rfl⟩
    have hunblocked := isBlockedAddress_iff.mpr
      (.inl ⟨hquad.colon_notMem, _, hquad.reads, hpublic⟩)
    rw [hembedded] at hunblocked
    cases hunblocked

/-- A hexadecimal part is let through. -/
theorem hexadecimal_letThrough :
    isBlockedAddress stringToNumber (js "0x8.8.8.8") = false ∧
      (¬ ∃ octets, CanonicalQuad (js "0x8.8.8.8") octets) ∧
      ¬ ∃ bytes, WellFormedIpv6 (js "0x8.8.8.8") bytes := by
  have hthrough : isBlockedAddress stringToNumber (js "0x8.8.8.8") = false := by decide +kernel
  have hlenient : Lenient (js "0x8.8.8.8") :=
    .inl ⟨by decide, js "0x8", by decide, by decide⟩
  exact ⟨hthrough, fun h => not_lenient_of_literal (.inl h) hlenient,
    fun h => not_lenient_of_literal (.inr h) hlenient⟩

/-- An IPv4-mapped literal is blocked for the address it carries. -/
theorem isBlockedAddress_sound_sample :
    isBlockedAddress stringToNumber (js "::ffff:10.0.0.1") = true := by
  have hquad : CanonicalQuad (js "10.0.0.1") [10, 0, 0, 1] :=
    ⟨rfl, by decide, by decide +kernel⟩
  have hplain : PlainLiteral (js "::ffff" ++ 0x3A :: quadGroups [10, 0, 0, 1])
      (List.replicate 5 0 ++ [0xFFFF, 0x0A00, 1]) :=
    readHalves_iff.mp (by decide +kernel)
  have hliteral : WellFormedIpv6 (js "::ffff:10.0.0.1")
      (List.replicate 10 0 ++ [0xFF, 0xFF, 10, 0, 0, 1]) :=
    ⟨js "::ffff" ++ 0x3A :: js "10.0.0.1", _, .mixed hquad hplain, by decide, .inl (by decide)⟩
  exact (isBlockedAddress_sound _).2.2 _ hliteral _ List.mem_cons_self (by decide)
    (by decide +kernel)

end Reading

end KyaOs
