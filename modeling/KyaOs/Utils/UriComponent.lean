import KyaOs.Json.RoundTrip
import KyaOs.Utils.Utf8Bytes
import KyaOs.Utils.Utf8Decode

/-!
# URI components

`encodeURIComponent` and `decodeURIComponent`. A string without unpaired surrogates is
encoded without a separator, and decodes to itself again.
-/

open Js Json

namespace KyaOs

/-- The `URIError` of both functions. -/
def uriError : Error := .error (js "URI malformed")

def percentSign : UInt16 := 0x25

/-- `-_.!~*'()`, letters and digits. -/
def isUnreserved (c : Char) : Bool :=
  c.isAlphanum || c ∈ ['-', '_', '.', '!', '~', '*', '\'', '(', ')']

/-- A hexadecimal digit, in upper case. -/
def upperHexDigit (n : Nat) : UInt16 :=
  UInt16.ofNat (if n < 10 then 0x30 + n else 0x41 + (n - 10))

def escapeOctet (octet : UInt8) : JsString :=
  [percentSign, upperHexDigit (octet.toNat / 16), upperHexDigit (octet.toNat % 16)]

def encodeCodePoint (c : Char) : JsString :=
  if isUnreserved c then units c else (String.utf8EncodeChar c).flatMap escapeOctet

def encodeURIComponent (text : JsString) : Except Error JsString :=
  if hasLoneSurrogate text then .error uriError
  else .ok ((codePoints text).flatMap encodeCodePoint)

/-- An octet can begin, or go on with, a code point. -/
def acceptsOctet (pending : Option Utf8Pending) (octet : Nat) : Bool :=
  match pending with
  | none => octet < 0x80 || (0xC2 ≤ octet && octet ≤ 0xF4)
  | some read => read.lower ≤ octet && octet ≤ read.upper

/-- The octet of an escape `%XX`. -/
def parseHexOctet (high low : UInt16) : Option Nat := do
  let upper ← hexValue high
  let lower ← hexValue low
  return upper * 16 + lower

/-- What is left of a text, after the octets of a code point that goes on. -/
def decodeFrom (pending : Option Utf8Pending) : JsString → Except Error JsString
  | [] => if pending.isSome then .error uriError else .ok []
  | u :: rest =>
    if u = percentSign then
      match rest with
      | high :: low :: rest =>
        match parseHexOctet high low with
        | none => .error uriError
        | some octet =>
          if acceptsOctet pending octet then do
            let (text, pending) := stepUtf8 pending octet
            return text ++ (← decodeFrom pending rest)
          else .error uriError
      | _ => .error uriError
    else if pending.isSome then .error uriError
    else do return u :: (← decodeFrom none rest)

def decodeURIComponent (text : JsString) : Except Error JsString := decodeFrom none text

theorem parseHexOctet_escape (octet : UInt8) :
    parseHexOctet (upperHexDigit (octet.toNat / 16)) (upperHexDigit (octet.toNat % 16)) =
      some octet.toNat := by
  have hdigit : ∀ n < 16, hexValue (upperHexDigit n) = some n := by decide
  have hlt := octet.toNat_lt
  simp only [parseHexOctet, hdigit _ (show octet.toNat / 16 < 16 by omega),
    hdigit _ (show octet.toNat % 16 < 16 by omega), Option.bind_eq_bind, Option.bind_some,
    Option.pure_def, Option.some.injEq]
  omega

/-- An octet that is accepted is read on. -/
theorem decodeFrom_escape {pending : Option Utf8Pending} {octet : UInt8}
    (h : acceptsOctet pending octet.toNat = true) (rest : JsString) :
    decodeFrom pending (escapeOctet octet ++ rest) =
      (fun text => (stepUtf8 pending octet.toNat).1 ++ text) <$>
        decodeFrom (stepUtf8 pending octet.toNat).2 rest := by
  rw [escapeOctet, List.cons_append, List.cons_append, List.cons_append, List.nil_append,
    decodeFrom, if_pos rfl]
  simp only [parseHexOctet_escape, h, if_true]
  cases decodeFrom (stepUtf8 pending octet.toNat).2 rest <;> rfl

theorem toNat_ofNat_octet {n : Nat} (h : n < 256) : (UInt8.ofNat n).toNat = n := by
  rw [UInt8.toNat_ofNat']
  exact Nat.mod_eq_of_lt h

theorem startUtf8_two {n : Nat} (hlower : 0xC2 ≤ n) (hupper : n ≤ 0xDF) :
    startUtf8 n = ([], some { codePoint := n - 0xC0, needed := 1 }) := by
  rw [startUtf8, if_neg (by omega), if_pos ⟨hlower, hupper⟩]

theorem startUtf8_three {n : Nat} (hlower : 0xE0 ≤ n) (hupper : n ≤ 0xEF) :
    startUtf8 n = ([], some
      { codePoint := n - 0xE0
        needed := 2
        lower := if n = 0xE0 then 0xA0 else 0x80
        upper := if n = 0xED then 0x9F else 0xBF }) := by
  rw [startUtf8, if_neg (by omega), if_neg (by omega), if_pos ⟨hlower, hupper⟩]

theorem startUtf8_four {n : Nat} (hlower : 0xF0 ≤ n) (hupper : n ≤ 0xF4) :
    startUtf8 n = ([], some
      { codePoint := n - 0xF0
        needed := 3
        lower := if n = 0xF0 then 0x90 else 0x80
        upper := if n = 0xF4 then 0x8F else 0xBF }) := by
  rw [startUtf8, if_neg (by omega), if_neg (by omega), if_neg (by omega), if_pos ⟨hlower, hupper⟩]

/-- A first octet of a longer code point. -/
theorem decodeFrom_first {octet : UInt8} {read : Utf8Pending}
    (hstart : startUtf8 octet.toNat = ([], some read)) (hlower : 0xC2 ≤ octet.toNat)
    (hupper : octet.toNat ≤ 0xF4) (rest : JsString) :
    decodeFrom none (escapeOctet octet ++ rest) = decodeFrom (some read) rest := by
  have haccepts : acceptsOctet none octet.toNat = true := by simp [acceptsOctet, hlower, hupper]
  rw [decodeFrom_escape haccepts, stepUtf8, hstart]
  cases decodeFrom (some read) rest <;> rfl

/-- An octet in the middle of a code point. -/
theorem decodeFrom_middle {octet : UInt8} {read : Utf8Pending} (hlower : read.lower ≤ octet.toNat)
    (hupper : octet.toNat ≤ read.upper) (hneeded : read.needed ≠ 1) (rest : JsString) :
    decodeFrom (some read) (escapeOctet octet ++ rest) =
      decodeFrom (some (.mk (read.codePoint * 64 + (octet.toNat - 0x80)) (read.needed - 1) 0x80
        0xBF)) rest := by
  have haccepts : acceptsOctet (some read) octet.toNat = true := by
    simp [acceptsOctet, hlower, hupper]
  rw [decodeFrom_escape haccepts, stepUtf8, if_pos ⟨hlower, hupper⟩, if_neg hneeded]
  cases decodeFrom _ rest <;> rfl

/-- The last octet of a code point. -/
theorem decodeFrom_last {octet : UInt8} {read : Utf8Pending} (hlower : read.lower ≤ octet.toNat)
    (hupper : octet.toNat ≤ read.upper) (hneeded : read.needed = 1) (rest : JsString) :
    decodeFrom (some read) (escapeOctet octet ++ rest) =
      (fun text => codePointUnits (read.codePoint * 64 + (octet.toNat - 0x80)) ++ text) <$>
        decodeFrom none rest := by
  have haccepts : acceptsOctet (some read) octet.toNat = true := by
    simp [acceptsOctet, hlower, hupper]
  rw [decodeFrom_escape haccepts, stepUtf8, if_pos ⟨hlower, hupper⟩, if_pos hneeded]

/-- The octets of a code point decode to its units. -/
theorem decodeFrom_octets (c : Char) (rest : JsString) :
    decodeFrom none ((String.utf8EncodeChar c).flatMap escapeOctet ++ rest) =
      (fun text => units c ++ text) <$> decodeFrom none rest := by
  have hvalid : c.toNat < 0xD800 ∨ 0xDFFF < c.toNat ∧ c.toNat < 0x110000 := c.valid
  have hunits : ∀ {n}, n = c.toNat → codePointUnits n = units c := by
    rintro n rfl
    rw [codePointUnits, Char.ofNat_toNat]
  simp only [String.utf8EncodeChar, show c.val.toNat = c.toNat from rfl]
  split_ifs with hone htwo hthree
  · simp only [List.flatMap_cons, List.flatMap_nil, List.append_nil]
    have hoctet := @toNat_ofNat_octet c.toNat (by omega)
    have haccepts : acceptsOctet none (UInt8.ofNat c.toNat).toNat = true := by
      rw [hoctet]
      simp only [acceptsOctet, Bool.or_eq_true, decide_eq_true_eq]
      exact .inl (by omega)
    rw [decodeFrom_escape haccepts, hoctet, stepUtf8, startUtf8, if_pos (by omega), hunits rfl]
  · simp only [List.flatMap_cons, List.flatMap_nil, List.append_nil, List.append_assoc]
    have hfirst := @toNat_ofNat_octet (c.toNat / 64 % 0x20 + 0xC0) (by omega)
    have hlast := @toNat_ofNat_octet (c.toNat % 0x40 + 0x80) (by omega)
    refine (decodeFrom_first (startUtf8_two ?_ ?_) ?_ ?_ _).trans ?_
    iterate 4 omega
    refine (decodeFrom_last ?_ ?_ rfl _).trans ?_
    iterate 2 simp only; omega
    rw [hunits]
    simp only
    omega
  · simp only [List.flatMap_cons, List.flatMap_nil, List.append_nil, List.append_assoc]
    have hfirst := @toNat_ofNat_octet (c.toNat / 4096 % 0x10 + 0xE0) (by omega)
    have hmiddle := @toNat_ofNat_octet (c.toNat / 64 % 0x40 + 0x80) (by omega)
    have hlast := @toNat_ofNat_octet (c.toNat % 0x40 + 0x80) (by omega)
    refine (decodeFrom_first (startUtf8_three ?_ ?_) ?_ ?_ _).trans ?_
    iterate 4 omega
    refine (decodeFrom_middle ?_ ?_ (by simp) _).trans ?_
    iterate 2 simp only; split_ifs <;> omega
    refine (decodeFrom_last ?_ ?_ rfl _).trans ?_
    iterate 2 simp only; omega
    rw [hunits]
    simp only
    omega
  · simp only [List.flatMap_cons, List.flatMap_nil, List.append_nil, List.append_assoc]
    have hbound : c.toNat < 0x110000 := by omega
    have hfirst := @toNat_ofNat_octet (c.toNat / 262144 % 0x08 + 0xF0) (by omega)
    have hsecond := @toNat_ofNat_octet (c.toNat / 4096 % 0x40 + 0x80) (by omega)
    have hthird := @toNat_ofNat_octet (c.toNat / 64 % 0x40 + 0x80) (by omega)
    have hlast := @toNat_ofNat_octet (c.toNat % 0x40 + 0x80) (by omega)
    refine (decodeFrom_first (startUtf8_four ?_ ?_) ?_ ?_ _).trans ?_
    iterate 4 omega
    refine (decodeFrom_middle ?_ ?_ (by simp) _).trans ?_
    iterate 2 simp only; split_ifs <;> omega
    refine (decodeFrom_middle ?_ ?_ (by simp) _).trans ?_
    iterate 2 simp only; omega
    refine (decodeFrom_last ?_ ?_ rfl _).trans ?_
    iterate 2 simp only; omega
    rw [hunits]
    simp only
    omega

theorem isUnreserved_bounds {c : Char} (h : isUnreserved c = true) :
    c.toNat < 0x80 ∧ c.toNat ≠ 0x25 ∧ c.toNat ≠ 0x3A := by
  rw [isUnreserved, Bool.or_eq_true] at h
  obtain halphanum | hmark := h
  · have hranges : (decide (65 ≤ c.val ∧ c.val ≤ 90) || (97 ≤ c.val && c.val ≤ 122) ||
        (48 ≤ c.val && c.val ≤ 57)) = true := halphanum
    simp only [Bool.or_eq_true, Bool.and_eq_true, decide_eq_true_eq, UInt32.le_iff_toNat_le]
      at hranges
    simp at hranges
    omega
  · simp only [List.mem_cons, List.not_mem_nil, or_false, decide_eq_true_eq] at hmark
    obtain rfl | rfl | rfl | rfl | rfl | rfl | rfl | rfl | rfl := hmark <;> decide

theorem units_unreserved {c : Char} (h : isUnreserved c = true) :
    ∃ u, units c = [u] ∧ u ≠ percentSign ∧ u ≠ 0x3A := by
  obtain ⟨hlt, hpercent, hcolon⟩ := isUnreserved_bounds h
  have htoNat : (UInt16.ofNat c.toNat).toNat = c.toNat := by
    rw [UInt16.toNat_ofNat']
    exact Nat.mod_eq_of_lt (by omega)
  refine ⟨UInt16.ofNat c.toNat, units_of_lt (by omega), fun hu => hpercent ?_, fun hu => hcolon ?_⟩
  · rw [← htoNat, hu]
    rfl
  · rw [← htoNat, hu]
    rfl

theorem decodeFrom_codePoint (c : Char) (rest : JsString) :
    decodeFrom none (encodeCodePoint c ++ rest) =
      (fun text => units c ++ text) <$> decodeFrom none rest := by
  rw [encodeCodePoint]
  split_ifs with hunreserved
  · obtain ⟨u, hunits, hpercent, -⟩ := units_unreserved hunreserved
    rw [hunits, List.singleton_append, decodeFrom.eq_def]
    simp only [if_neg hpercent, Option.isSome_none, Bool.false_eq_true, if_false]
    cases decodeFrom none rest <;> rfl
  · exact decodeFrom_octets c rest

theorem decodeFrom_codePoints (cs : List Char) :
    decodeFrom none (cs.flatMap encodeCodePoint) = .ok (cs.flatMap units) := by
  induction cs with
  | nil => rfl
  | cons c cs ih =>
      rw [List.flatMap_cons, List.flatMap_cons, decodeFrom_codePoint, ih]
      rfl

theorem encodeURIComponent_eq_ok {text encoded : JsString} :
    encodeURIComponent text = .ok encoded ↔ hasLoneSurrogate text = false ∧
      (codePoints text).flatMap encodeCodePoint = encoded := by
  rw [encodeURIComponent]
  cases hasLoneSurrogate text <;> simp

/-- What is encoded decodes to itself. -/
theorem decodeURIComponent_encode {text encoded : JsString}
    (h : encodeURIComponent text = .ok encoded) : decodeURIComponent encoded = .ok text := by
  obtain ⟨hpaired, rfl⟩ := encodeURIComponent_eq_ok.mp h
  rw [decodeURIComponent, decodeFrom_codePoints, units_codePoints hpaired]

theorem encodeURIComponent_injective {text text' encoded : JsString}
    (h : encodeURIComponent text = .ok encoded) (h' : encodeURIComponent text' = .ok encoded) :
    text = text' :=
  Except.ok.inj ((decodeURIComponent_encode h).symm.trans (decodeURIComponent_encode h'))

theorem colon_notMem_escapeOctet (octet : UInt8) : 0x3A ∉ escapeOctet octet := by
  have hdigit : ∀ n < 16, upperHexDigit n ≠ 0x3A := by decide
  have hlt := octet.toNat_lt
  simp only [escapeOctet, List.mem_cons, List.not_mem_nil, or_false, not_or]
  exact ⟨by decide, (hdigit _ (by omega)).symm, (hdigit _ (by omega)).symm⟩

/-- What is encoded has no colon. -/
theorem colon_notMem_encode {text encoded : JsString}
    (h : encodeURIComponent text = .ok encoded) : 0x3A ∉ encoded := by
  obtain ⟨-, rfl⟩ := encodeURIComponent_eq_ok.mp h
  intro hmem
  obtain ⟨c, -, hmem⟩ := List.mem_flatMap.mp hmem
  rw [encodeCodePoint] at hmem
  split_ifs at hmem with hunreserved
  · obtain ⟨u, hunits, -, hcolon⟩ := units_unreserved hunreserved
    rw [hunits, List.mem_singleton] at hmem
    exact hcolon hmem.symm
  · obtain ⟨octet, -, hmem⟩ := List.mem_flatMap.mp hmem
    exact colon_notMem_escapeOctet octet hmem

/-- Octets that decode when they are escaped are read as the same text. -/
theorem decodeUtf8From_of_decodeFrom {pending : Option Utf8Pending} {bytes : List UInt8}
    {text : JsString} (h : decodeFrom pending (bytes.flatMap escapeOctet) = .ok text) :
    decodeUtf8From pending bytes = text := by
  induction bytes generalizing pending text with
  | nil =>
      cases pending with
      | none =>
          cases h
          rfl
      | some read => cases h
  | cons byte rest ih =>
      rw [List.flatMap_cons] at h
      by_cases haccepts : acceptsOctet pending byte.toNat = true
      · rw [decodeFrom_escape haccepts] at h
        cases hrest : decodeFrom (stepUtf8 pending byte.toNat).2 (rest.flatMap escapeOctet) with
        | error error =>
            rw [hrest] at h
            cases h
        | ok others =>
            rw [hrest] at h
            cases h
            exact congrArg ((stepUtf8 pending byte.toNat).1 ++ ·) (ih hrest)
      · rw [escapeOctet, List.cons_append, List.cons_append, List.cons_append, List.nil_append,
          decodeFrom, if_pos rfl] at h
        simp only [parseHexOctet_escape, haccepts] at h
        cases h

theorem decodeFrom_bytes (cs : List Char) :
    decodeFrom none ((cs.flatMap String.utf8EncodeChar).flatMap escapeOctet) =
      .ok (cs.flatMap units) := by
  induction cs with
  | nil => rfl
  | cons c rest ih =>
      rw [List.flatMap_cons, List.flatMap_append, decodeFrom_octets, ih]
      rfl

/-- Text without unpaired surrogates is read back from its bytes. -/
theorem decodeUtf8_encodeUtf8 {text : JsString} (h : hasLoneSurrogate text = false) :
    decodeUtf8 (encodeUtf8 text) = text := by
  rw [encodeUtf8_eq, decodeUtf8, decodeUtf8From_of_decodeFrom (decodeFrom_bytes _),
    units_codePoints h]

end KyaOs
