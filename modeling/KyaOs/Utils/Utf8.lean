import KyaOs.Utils.CanonicalInjective

/-!
# UTF-8 of a JavaScript string

`TextEncoder.encode`: the UTF-8 bytes of a string's code points, with every unpaired
surrogate replaced. On strings without unpaired surrogates it is injective.
-/

open Js Json

namespace KyaOs

open JsonValue

/-- The code point of a unit that is not half of a pair. -/
def unitChar (u : UInt16) : Char :=
  if isLeadSurrogate u || isTrailSurrogate u then '\uFFFD' else Char.ofNat u.toNat

def pairChar (u v : UInt16) : Char :=
  Char.ofNat (0x10000 + (u.toNat - 0xD800) * 0x400 + (v.toNat - 0xDC00))

def codePoints : JsString → List Char
  | [] => []
  | [u] => [unitChar u]
  | u :: v :: rest =>
    if isLeadSurrogate u && isTrailSurrogate v then pairChar u v :: codePoints rest
    else unitChar u :: codePoints (v :: rest)

/-- `new TextEncoder().encode(text)`. -/
def encodeUtf8 (text : JsString) : List UInt8 :=
  (String.ofList (codePoints text)).toByteArray.data.toList

theorem codePoints_of_encodeUtf8 {s t : JsString} (h : encodeUtf8 s = encodeUtf8 t) :
    codePoints s = codePoints t := by
  have hbytes : (String.ofList (codePoints s)).toByteArray =
      (String.ofList (codePoints t)).toByteArray := ByteArray.ext (Array.ext' h)
  rw [String.toByteArray_inj] at hbytes
  simpa using congrArg String.toList hbytes

theorem toNat_ofNat_of_valid {n : Nat} (h : n.isValidChar) : (Char.ofNat n).toNat = n := by
  rw [Char.ofNat, dif_pos h]
  rfl

theorem units_unitChar {u : UInt16} (hlead : isLeadSurrogate u = false)
    (htrail : isTrailSurrogate u = false) : units (unitChar u) = [u] := by
  have hu := u.toNat_lt
  simp only [isLeadSurrogate, isTrailSurrogate, Bool.and_eq_false_iff, decide_eq_false_iff_not,
    UInt16.le_iff_toNat_le, UInt16.reduceToNat, not_le] at hlead htrail
  have hvalid : u.toNat.isValidChar := by
    rw [Nat.isValidChar]
    omega
  have hplain : unitChar u = Char.ofNat u.toNat := by
    rw [unitChar, if_neg]
    simp only [isLeadSurrogate, isTrailSurrogate, Bool.or_eq_true, Bool.and_eq_true,
      decide_eq_true_eq, UInt16.le_iff_toNat_le, UInt16.reduceToNat]
    omega
  rw [hplain, units, toNat_ofNat_of_valid hvalid, if_pos hu, UInt16.ofNat_toNat]

theorem units_pairChar {u v : UInt16} (hlead : isLeadSurrogate u = true)
    (htrail : isTrailSurrogate v = true) : units (pairChar u v) = [u, v] := by
  simp only [isLeadSurrogate, isTrailSurrogate, Bool.and_eq_true, decide_eq_true_eq,
    UInt16.le_iff_toNat_le, UInt16.reduceToNat] at hlead htrail
  obtain ⟨n, hn⟩ : ∃ n, n = 0x10000 + (u.toNat - 0xD800) * 0x400 + (v.toNat - 0xDC00) := ⟨_, rfl⟩
  have hvalid : n.isValidChar := by
    rw [Nat.isValidChar]
    omega
  have hhigh : 0xD800 + (n - 0x10000) / 0x400 = u.toNat := by omega
  have hlow : 0xDC00 + (n - 0x10000) % 0x400 = v.toNat := by omega
  rw [pairChar, ← hn, units, toNat_ofNat_of_valid hvalid, if_neg (by omega)]
  simp only [hhigh, hlow, UInt16.ofNat_toNat]

/-- A string without unpaired surrogates is recovered from its code points. -/
theorem units_codePoints {s : JsString} (h : hasLoneSurrogate s = false) :
    (codePoints s).flatMap units = s := by
  induction s using codePoints.induct with
  | case1 => rfl
  | case2 u =>
      simp only [hasLoneSurrogate, Bool.or_eq_false_iff] at h
      simp [codePoints, units_unitChar h.1 h.2]
  | case3 u v rest hpair ih =>
      obtain ⟨hlead, htrail⟩ := Bool.and_eq_true_iff.mp hpair
      simp only [hasLoneSurrogate, hlead, htrail, if_true] at h
      rw [codePoints, if_pos hpair, List.flatMap_cons, units_pairChar hlead htrail, ih h]
      rfl
  | case4 u v rest hpair ih =>
      rw [hasLoneSurrogate] at h
      split at h
      · rename_i hlead
        split at h
        · rename_i htrail
          exact absurd (Bool.and_eq_true_iff.mpr ⟨hlead, htrail⟩) hpair
        · cases h
      · rename_i hlead
        split at h
        · cases h
        · rename_i htrail
          rw [codePoints, if_neg hpair, List.flatMap_cons, ih h,
            units_unitChar (by simpa using hlead) (by simpa using htrail)]
          rfl

/-- On strings without unpaired surrogates, the bytes tell strings apart. -/
theorem encodeUtf8_injective {s t : JsString} (hs : hasLoneSurrogate s = false)
    (ht : hasLoneSurrogate t = false) (h : encodeUtf8 s = encodeUtf8 t) : s = t := by
  rw [← units_codePoints hs, ← units_codePoints ht, codePoints_of_encodeUtf8 h]

/-- Strings without unpaired surrogates can be put together. -/
theorem hasLoneSurrogate_append {s t : JsString} (hs : hasLoneSurrogate s = false)
    (ht : hasLoneSurrogate t = false) : hasLoneSurrogate (s ++ t) = false := by
  induction s using hasLoneSurrogate.induct with
  | case1 => exact ht
  | case2 u =>
      obtain ⟨hlead, htrail⟩ := Bool.or_eq_false_iff.mp hs
      cases t with
      | nil => exact hs
      | cons v rest =>
          rw [List.singleton_append, hasLoneSurrogate, hlead, htrail]
          exact ht
  | case3 u v rest hlead htrail ih =>
      rw [hasLoneSurrogate, if_pos hlead, if_pos htrail] at hs
      rw [List.cons_append, List.cons_append, hasLoneSurrogate, if_pos hlead, if_pos htrail]
      exact ih hs
  | case4 u v rest hlead htrail =>
      rw [hasLoneSurrogate, if_pos hlead, if_neg htrail] at hs
      cases hs
  | case5 u v rest hlead htrail =>
      rw [hasLoneSurrogate, if_neg hlead, if_pos htrail] at hs
      cases hs
  | case6 u v rest hlead htrail ih =>
      rw [hasLoneSurrogate, if_neg hlead, if_neg htrail] at hs
      rw [List.cons_append, List.cons_append, hasLoneSurrogate, if_neg hlead, if_neg htrail]
      exact ih hs

/-- A unit outside the surrogates. -/
def isScalar (u : UInt16) : Bool := !isLeadSurrogate u && !isTrailSurrogate u

/-- A unit below the surrogates is none. -/
theorem isScalar_of_lt {u : UInt16} (h : u.toNat < 0xD800) : isScalar u = true := by
  have hlead : isLeadSurrogate u = false := by
    simp only [isLeadSurrogate, Bool.and_eq_false_iff, decide_eq_false_iff_not,
      UInt16.le_iff_toNat_le]
    exact .inl (Nat.not_le.mpr h)
  have htrail : isTrailSurrogate u = false := by
    simp only [isTrailSurrogate, Bool.and_eq_false_iff, decide_eq_false_iff_not,
      UInt16.le_iff_toNat_le]
    exact .inl (Nat.not_le.mpr (h.trans (by decide)))
  rw [isScalar, hlead, htrail]
  rfl

/-- Units outside the surrogates make a string without unpaired ones. -/
theorem hasLoneSurrogate_of_all {s : JsString}
    (h : s.all isScalar = true) :
    hasLoneSurrogate s = false := by
  induction s with
  | nil => rfl
  | cons u rest ih =>
      rw [List.all_cons, Bool.and_eq_true] at h
      obtain ⟨hlead, htrail⟩ := Bool.and_eq_true_iff.mp h.1
      rw [Bool.not_eq_true'] at hlead htrail
      cases rest with
      | nil => simp [hasLoneSurrogate, hlead, htrail]
      | cons v rest =>
          rw [hasLoneSurrogate, hlead, htrail]
          exact ih h.2

theorem isScalar_hexDigit {n : Nat} (h : n < 16) : isScalar (hexDigit n) = true := by
  have hdigits : ∀ n < 16, isScalar (hexDigit n) = true := by decide
  exact hdigits n h

theorem isScalar_shortEscape {u letter : UInt16} (h : shortEscape? u = some letter) :
    isScalar letter = true := by
  obtain ⟨before, after, hlisted, -⟩ := List.lookup_eq_some_iff.mp h
  have hmem : (u, letter) ∈ ([(0x08, 0x62), (0x09, 0x74), (0x0A, 0x6E), (0x0C, 0x66), (0x0D, 0x72),
      (0x22, 0x22), (0x5C, 0x5C)] : List (UInt16 × UInt16)) := by
    rw [hlisted]
    simp
  have hall : ([(0x08, 0x62), (0x09, 0x74), (0x0A, 0x6E), (0x0C, 0x66), (0x0D, 0x72),
      (0x22, 0x22), (0x5C, 0x5C)] : List (UInt16 × UInt16)).all (fun p => isScalar p.2) = true := by
    decide
  exact List.all_eq_true.mp hall _ hmem

theorem isScalar_quoteUnit (u : UInt16) : (quoteUnit u).all isScalar = true := by
  have := u.toNat_lt
  rw [quoteUnit]
  cases hshort : shortEscape? u with
  | some letter =>
      have hletter := isScalar_shortEscape hshort
      simp only [List.all_cons, List.all_nil, hletter]
      decide
  | none =>
      by_cases hplain : (u < 0x20 || isLeadSurrogate u || isTrailSurrogate u) = true
      · simp only [hplain, if_true, unicodeEscape, List.all_cons, List.all_nil, Bool.and_true,
          isScalar_hexDigit (show u.toNat / 4096 < 16 by omega),
          isScalar_hexDigit (show u.toNat / 256 % 16 < 16 by omega),
          isScalar_hexDigit (show u.toNat / 16 % 16 < 16 by omega),
          isScalar_hexDigit (show u.toNat % 16 < 16 by omega)]
        decide
      · simp only [Bool.not_eq_true, Bool.or_eq_false_iff] at hplain
        simp [hplain, isScalar]

theorem hasLoneSurrogate_quoteUnits (s : JsString) : hasLoneSurrogate (quoteUnits s) = false := by
  induction s using quoteUnits.induct with
  | case1 => rfl
  | case2 u => exact hasLoneSurrogate_of_all (isScalar_quoteUnit u)
  | case3 u v rest hpair ih =>
      obtain ⟨hlead, htrail⟩ := Bool.and_eq_true_iff.mp hpair
      rw [quoteUnits, if_pos hpair, hasLoneSurrogate, if_pos hlead, if_pos htrail]
      exact ih
  | case4 u v rest hpair ih =>
      rw [quoteUnits, if_neg hpair]
      exact hasLoneSurrogate_append (hasLoneSurrogate_of_all (isScalar_quoteUnit u)) ih

theorem hasLoneSurrogate_quote (s : JsString) : hasLoneSurrogate (quote s) = false := by
  rw [quote, ← List.singleton_append]
  exact hasLoneSurrogate_append
    (hasLoneSurrogate_append (by decide) (hasLoneSurrogate_quoteUnits s)) (by decide)

theorem hasLoneSurrogate_intercalate {separator : JsString} {texts : List JsString}
    (hseparator : hasLoneSurrogate separator = false)
    (h : ∀ text ∈ texts, hasLoneSurrogate text = false) :
    hasLoneSurrogate (separator.intercalate texts) = false := by
  induction texts with
  | nil => rfl
  | cons text rest ih =>
      have hrest := ih fun text hmem => h text (List.mem_cons_of_mem _ hmem)
      have htext := h text List.mem_cons_self
      cases rest with
      | nil => simpa using htext
      | cons next rest =>
          rw [List.intercalate_cons_cons]
          exact hasLoneSurrogate_append (hasLoneSurrogate_append htext hseparator) hrest

theorem isScalar_numberText {text : JsString} (h : isNumberText text = true) :
    text.all isScalar = true := by
  rw [isNumberText, Bool.and_eq_true] at h
  rw [List.all_eq_true] at h ⊢
  intro u hu
  have hunit := h.1 u hu
  rw [isNumberUnit, Bool.or_eq_true] at hunit
  rcases hunit with hdigit | hsign
  · simp only [isDigit, Bool.and_eq_true, decide_eq_true_eq, UInt16.le_iff_toNat_le,
      UInt16.reduceToNat] at hdigit
    simp only [isScalar, isLeadSurrogate, isTrailSurrogate, UInt16.le_iff_toNat_le,
      UInt16.reduceToNat, Bool.and_eq_true, Bool.not_eq_true', Bool.and_eq_false_iff,
      decide_eq_false_iff_not]
    omega
  · have hsigns : (js "+-.eE").all isScalar = true := by decide
    exact List.all_eq_true.mp hsigns u (of_decide_eq_true hsign)

/-- What `canonicalizeJson` writes has no unpaired surrogate. -/
theorem hasLoneSurrogate_canonicalText {D : Type} {numbers : Doubles D} (hprints : numbers.Prints)
    {v : JsonValue D} (h : JsonValue.Supported numbers v) :
    hasLoneSurrogate (canonicalText numbers v) = false := by
  induction h with
  | null => exact hasLoneSurrogate_of_all (by decide : (js "null").all isScalar = true)
  | bool value =>
      cases value with
      | false => exact hasLoneSurrogate_of_all (by decide : (js "false").all isScalar = true)
      | true => exact hasLoneSurrogate_of_all (by decide : (js "true").all isScalar = true)
  | @number x hfinite _ =>
      apply hasLoneSurrogate_of_all
      apply isScalar_numberText
      have htext := hprints.isText x hfinite
      simp [canonicalText, JsonValue.toJson, JsonValue.toNumber, htext, canon, stringify,
        numberText]
  | string h => exact hasLoneSurrogate_quote _
  | array h ih =>
      rw [canonicalText_array, ← List.singleton_append]
      apply hasLoneSurrogate_append _ (by decide)
      apply hasLoneSurrogate_append (by decide)
      apply hasLoneSurrogate_intercalate (by decide)
      intro text htext
      obtain ⟨item, hitem, rfl⟩ := List.mem_map.mp htext
      exact ih item hitem
  | object hnames h ih =>
      rw [canonicalText_object, ← List.singleton_append]
      apply hasLoneSurrogate_append _ (by decide)
      apply hasLoneSurrogate_append (by decide)
      apply hasLoneSurrogate_intercalate (by decide)
      intro text htext
      obtain ⟨member, hmember, rfl⟩ := List.mem_map.mp htext
      rw [← List.singleton_append]
      apply hasLoneSurrogate_append (hasLoneSurrogate_quote _)
      apply hasLoneSurrogate_append (by decide)
      exact ih member ((byName_perm _).mem_iff.mp hmember)

end KyaOs
