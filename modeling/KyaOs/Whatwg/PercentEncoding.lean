import Mathlib.Data.List.Basic

/-!
# Percent-encoding

The percent-encode sets of the WHATWG URL standard over the bytes of a text, and
percent-decoding. Encoding never changes what a text decodes to.
-/

namespace Whatwg

abbrev Bytes := List UInt8

/-- The bytes of an ASCII literal. -/
def ascii (text : String) : Bytes := text.toList.map fun c => UInt8.ofNat c.toNat

def percent : UInt8 := 0x25

def isHexDigit (b : UInt8) : Bool :=
  (0x30 ≤ b && b ≤ 0x39) || (0x41 ≤ b && b ≤ 0x46) || (0x61 ≤ b && b ≤ 0x66)

def hexDigitValue (b : UInt8) : UInt8 :=
  if b ≤ 0x39 then b - 0x30 else if b ≤ 0x46 then b - 0x37 else b - 0x57

/-- A hexadecimal digit, in upper case. -/
def upperHex (n : UInt8) : UInt8 := if n < 10 then 0x30 + n else 0x37 + n

theorem isHexDigit_upperHex {n : UInt8} (h : n < 16) : isHexDigit (upperHex n) = true := by
  have hdigits : ∀ n < 16, isHexDigit (upperHex (UInt8.ofNat n)) = true := by decide
  simpa using hdigits n.toNat h

theorem hexDigitValue_upperHex {n : UInt8} (h : n < 16) : hexDigitValue (upperHex n) = n := by
  have hdigits : ∀ n < 16, hexDigitValue (upperHex (UInt8.ofNat n)) = UInt8.ofNat n := by decide
  simpa using hdigits n.toNat h

theorem nibbles_lt (b : UInt8) : b / 16 < 16 ∧ b % 16 < 16 := by
  have hlt := b.toNat_lt
  rw [UInt8.lt_iff_toNat_lt, UInt8.lt_iff_toNat_lt, UInt8.toNat_div, UInt8.toNat_mod]
  exact ⟨(by omega : b.toNat / 16 < 16), (by omega : b.toNat % 16 < 16)⟩

def c0ControlSet (b : UInt8) : Bool := b ≤ 0x1F || 0x7F ≤ b

def fragmentSet (b : UInt8) : Bool := c0ControlSet b || b ∈ ascii " \"<>`"

def querySet (b : UInt8) : Bool := c0ControlSet b || b ∈ ascii " \"#<>"

def specialQuerySet (b : UInt8) : Bool := querySet b || b ∈ ascii "'"

def pathSet (b : UInt8) : Bool := querySet b || b ∈ ascii "?^`\x7b\x7d"

def userinfoSet (b : UInt8) : Bool := pathSet b || b ∈ ascii "/:;=@[\\]|"

/-- What holds of the first 256 numbers holds of the bytes. -/
theorem forall_byte {P : UInt8 → Prop} (h : ∀ n < 256, P (UInt8.ofNat n)) (b : UInt8) : P b := by
  simpa using h b.toNat b.toNat_lt

theorem pathSet_of_isHexDigit : ∀ b, isHexDigit b = true → pathSet b = false :=
  forall_byte (by decide +kernel)

def percentEncodeByte (b : UInt8) : Bytes := [percent, upperHex (b / 16), upperHex (b % 16)]

def percentEncode (set : UInt8 → Bool) (text : Bytes) : Bytes :=
  text.flatMap fun b => if set b then percentEncodeByte b else [b]

/-- The text begins with the two digits of an escape. -/
def startsHex : Bytes → Bool
  | high :: low :: _ => isHexDigit high && isHexDigit low
  | _ => false

def percentDecode : Bytes → Bytes
  | [] => []
  | b :: rest =>
    match rest with
    | high :: low :: rest' =>
      if b = percent && isHexDigit high && isHexDigit low then
        (hexDigitValue high * 16 + hexDigitValue low) :: percentDecode rest'
      else b :: percentDecode (high :: low :: rest')
    | rest => b :: percentDecode rest

/-- An escape `%XX` stands in the text. -/
def hasEscape : Bytes → Bool
  | [] => false
  | b :: rest => (b = percent && startsHex rest) || hasEscape rest

section Decode

variable {set : UInt8 → Bool} {text : Bytes} {b : UInt8}

theorem percentDecode_cons (h : (b = percent && startsHex text) = false) :
    percentDecode (b :: text) = b :: percentDecode text := by
  rw [percentDecode.eq_def]
  split
  · rename_i heq
    cases heq
  · rename_i heq
    cases heq
    split
    · rw [if_neg]
      simpa [startsHex, Bool.and_assoc] using h
    · rfl

theorem percentDecode_escape {high low : UInt8} (hhigh : isHexDigit high = true)
    (hlow : isHexDigit low = true) :
    percentDecode (percent :: high :: low :: text) =
      (hexDigitValue high * 16 + hexDigitValue low) :: percentDecode text := by
  rw [percentDecode]
  simp [hhigh, hlow]

theorem percentDecode_encodeByte :
    percentDecode (percentEncodeByte b ++ text) = b :: percentDecode text := by
  have hlt := b.toNat_lt
  obtain ⟨hhigh, hlow⟩ := nibbles_lt b
  rw [percentEncodeByte, List.cons_append, List.cons_append, List.cons_append, List.nil_append,
    percentDecode_escape (isHexDigit_upperHex hhigh) (isHexDigit_upperHex hlow),
    hexDigitValue_upperHex hhigh, hexDigitValue_upperHex hlow]
  congr 1
  apply UInt8.toNat_inj.mp
  simp only [UInt8.toNat_add, UInt8.toNat_mul, UInt8.toNat_div, UInt8.toNat_mod, UInt8.reduceToNat]
  omega

/-- Text without an escape decodes to itself. -/
theorem percentDecode_eq_self (h : hasEscape text = false) : percentDecode text = text := by
  induction text with
  | nil => rfl
  | cons b rest ih =>
      obtain ⟨hfirst, hrest⟩ := Bool.or_eq_false_iff.mp h
      rw [percentDecode_cons hfirst, ih hrest]

theorem percentEncode_cons : percentEncode set (b :: text) =
    (if set b then percentEncodeByte b else [b]) ++ percentEncode set text := rfl

/-- Encoding neither makes nor breaks the digits of an escape. -/
theorem startsHex_percentEncode (h : ∀ b, isHexDigit b = true → set b = false) :
    startsHex (percentEncode set text) = startsHex text := by
  have hpercent : isHexDigit percent = false := by decide
  have hset : ∀ {b}, set b = true → isHexDigit b = false := by
    intro b hb
    cases hdigit : isHexDigit b with
    | false => rfl
    | true =>
        rw [h b hdigit] at hb
        cases hb
  obtain - | ⟨high, - | ⟨low, rest⟩⟩ := text
  · rfl
  · rw [percentEncode_cons]
    by_cases hhigh : set high = true
    · rw [if_pos hhigh]
      simp [percentEncode, percentEncodeByte, startsHex, hpercent]
    · rw [if_neg hhigh]
      rfl
  · rw [percentEncode_cons, percentEncode_cons]
    by_cases hhigh : set high = true
    · rw [if_pos hhigh]
      simp [percentEncodeByte, startsHex, hpercent, hset hhigh]
    · rw [if_neg hhigh]
      by_cases hlow : set low = true
      · rw [if_pos hlow]
        simp [percentEncodeByte, startsHex, hpercent, hset hlow]
      · rw [if_neg hlow]
        rfl

/-- Encoding does not change what the text decodes to. -/
theorem percentDecode_percentEncode (hpercent : set percent = false)
    (hhex : ∀ b, isHexDigit b = true → set b = false) :
    percentDecode (percentEncode set text) = percentDecode text := by
  induction hlength : text.length using Nat.strongRecOn generalizing text with
  | _ length ih =>
      subst hlength
      cases text with
      | nil => rfl
      | cons b rest =>
          have hrest : percentDecode (percentEncode set rest) = percentDecode rest :=
            ih _ (Nat.lt_succ_self _) rfl
          rw [percentEncode_cons]
          by_cases hb : set b = true
          · have hplain : b ≠ percent := by
              rintro rfl
              rw [hpercent] at hb
              cases hb
            rw [if_pos hb, percentDecode_encodeByte, hrest, percentDecode_cons (by simp [hplain])]
          · rw [if_neg hb, List.singleton_append]
            cases hescape : (b = percent && startsHex rest) with
            | false =>
                rw [percentDecode_cons hescape, percentDecode_cons, hrest]
                rwa [startsHex_percentEncode hhex]
            | true =>
                -- The digits are kept, so that the escape is read past.
                obtain ⟨rfl, hdigits⟩ : b = percent ∧ startsHex rest = true := by
                  simpa using hescape
                obtain - | ⟨high, - | ⟨low, others⟩⟩ := rest
                · cases hdigits
                · cases hdigits
                · obtain ⟨hhigh, hlow⟩ := Bool.and_eq_true_iff.mp hdigits
                  have hothers : percentDecode (percentEncode set others) =
                      percentDecode others := ih _ (by simp only [List.length_cons]; omega) rfl
                  rw [percentEncode_cons, hhex high hhigh, percentEncode_cons, hhex low hlow]
                  simp only [Bool.false_eq_true, if_false, List.singleton_append]
                  rw [percentDecode_escape hhigh hlow, percentDecode_escape hhigh hlow, hothers]

theorem percentEncode_eq_self (h : ∀ b ∈ text, set b = false) : percentEncode set text = text := by
  induction text with
  | nil => rfl
  | cons b rest ih =>
      rw [percentEncode_cons, h b List.mem_cons_self, ih fun b hb =>
        h b (List.mem_cons_of_mem _ hb)]
      rfl

/-- A byte of an encoded text is a plain byte of the text, or belongs to an escape. -/
theorem mem_percentEncode (h : b ∈ percentEncode set text) :
    (b ∈ text ∧ set b = false) ∨ b = percent ∨ isHexDigit b = true := by
  obtain ⟨c, hc, hb⟩ := List.mem_flatMap.mp h
  split_ifs at hb with hset
  · obtain ⟨hhigh, hlow⟩ := nibbles_lt c
    simp only [percentEncodeByte, List.mem_cons, List.not_mem_nil, or_false] at hb
    rcases hb with rfl | rfl | rfl
    · exact .inr (.inl rfl)
    · exact .inr (.inr (isHexDigit_upperHex hhigh))
    · exact .inr (.inr (isHexDigit_upperHex hlow))
  · obtain rfl := List.mem_singleton.mp hb
    exact .inl ⟨hc, Bool.not_eq_true _ ▸ hset⟩

end Decode

end Whatwg
