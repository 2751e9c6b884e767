import KyaOs.Utils.Utf8

/-!
# ASCII in UTF-8

The bytes below 0x80 of a text are its ASCII units, in their places: text can be taken
apart at them before or after it is encoded.
-/

open Js Json

namespace KyaOs

/-- The text of ASCII bytes. -/
def asciiText (bytes : List UInt8) : JsString := bytes.map UInt8.toUInt16

section Encode

variable {s t : JsString} {u : UInt16} {b : UInt8}

theorem encodeUtf8_eq (s : JsString) :
    encodeUtf8 s = (codePoints s).flatMap String.utf8EncodeChar := by
  rw [encodeUtf8, String.toByteArray_ofList, List.utf8Encode, List.data_toByteArray]

theorem not_surrogate (hu : u < 0x80) : isLeadSurrogate u = false ∧ isTrailSurrogate u = false := by
  have hlt : u.toNat < 0x80 := hu
  simp only [isLeadSurrogate, isTrailSurrogate, Bool.and_eq_false_iff, decide_eq_false_iff_not,
    UInt16.le_iff_toNat_le, UInt16.reduceToNat, Nat.not_le]
  omega

theorem toNat_unitChar (h : isLeadSurrogate u = false ∧ isTrailSurrogate u = false) :
    (unitChar u).toNat = u.toNat := by
  have hlt := u.toNat_lt
  rw [unitChar, h.1, h.2]
  refine toNat_ofNat_of_valid ?_
  simp only [isLeadSurrogate, isTrailSurrogate, Bool.and_eq_false_iff, decide_eq_false_iff_not,
    UInt16.le_iff_toNat_le, UInt16.reduceToNat, Nat.not_le] at h
  rw [Nat.isValidChar]
  omega

theorem le_toNat_pairChar {v : UInt16} (hlead : isLeadSurrogate u = true)
    (htrail : isTrailSurrogate v = true) : 0x10000 ≤ (pairChar u v).toNat := by
  simp only [isLeadSurrogate, isTrailSurrogate, Bool.and_eq_true, decide_eq_true_eq,
    UInt16.le_iff_toNat_le, UInt16.reduceToNat] at hlead htrail
  rw [pairChar, toNat_ofNat_of_valid]
  · omega
  · rw [Nat.isValidChar]
    omega

/-- Text is encoded apart on both sides of an ASCII unit. -/
theorem codePoints_append_cons (hu : u < 0x80) (s t : JsString) :
    codePoints (s ++ u :: t) = codePoints s ++ unitChar u :: codePoints t := by
  obtain ⟨hlead, htrail⟩ := not_surrogate hu
  have hrest : codePoints (u :: t) = unitChar u :: codePoints t := by
    cases t with
    | nil => rfl
    | cons v rest =>
        rw [codePoints, if_neg]
        simp [hlead]
  induction s using codePoints.induct with
  | case1 => exact hrest
  | case2 v =>
      show codePoints (v :: u :: t) = unitChar v :: unitChar u :: codePoints t
      rw [codePoints, if_neg (by simp [htrail]), hrest]
  | case3 v w rest hpair ih =>
      rw [List.cons_append, List.cons_append, codePoints, if_pos hpair, codePoints, if_pos hpair,
        ih, List.cons_append]
  | case4 v w rest hpair ih =>
      rw [List.cons_append, List.cons_append, codePoints, if_neg hpair, codePoints, if_neg hpair,
        ← List.cons_append, ih, List.cons_append]

theorem utf8EncodeChar_of_lt {c : Char} (h : c.toNat < 0x80) :
    String.utf8EncodeChar c = [UInt8.ofNat c.toNat] := by
  rw [String.utf8EncodeChar]
  exact if_pos (Nat.le_of_lt_succ h)

/-- Every byte of another code point is above ASCII. -/
theorem le_of_mem_utf8EncodeChar {c : Char} (h : 0x80 ≤ c.toNat) :
    ∀ b ∈ String.utf8EncodeChar c, 0x80 ≤ b.toNat := by
  have hvalid : c.toNat < 0x110000 := by
    have hchar : c.toNat < 0xD800 ∨ 0xDFFF < c.toNat ∧ c.toNat < 0x110000 := c.valid
    omega
  have hbyte : ∀ n, 0x80 ≤ n → n < 0x100 → 0x80 ≤ (UInt8.ofNat n).toNat := by
    intro n hle hlt
    rwa [UInt8.toNat_ofNat', Nat.mod_eq_of_lt hlt]
  have hnil : ∀ b ∈ ([] : List UInt8), 0x80 ≤ b.toNat := by simp
  simp only [String.utf8EncodeChar, show c.val.toNat = c.toNat from rfl]
  split_ifs with hone htwo hthree
  · omega
  · simp only [List.forall_mem_cons]
    exact ⟨hbyte _ (by omega) (by omega), hbyte _ (by omega) (by omega), hnil⟩
  · simp only [List.forall_mem_cons]
    exact ⟨hbyte _ (by omega) (by omega), hbyte _ (by omega) (by omega),
      hbyte _ (by omega) (by omega), hnil⟩
  · simp only [List.forall_mem_cons]
    exact ⟨hbyte _ (by omega) (by omega), hbyte _ (by omega) (by omega),
      hbyte _ (by omega) (by omega), hbyte _ (by omega) (by omega), hnil⟩

/-- An ASCII code point of a text is one of its units. -/
theorem mem_of_mem_codePoints {c : Char} (hc : c ∈ codePoints s) (h : c.toNat < 0x80) :
    ∃ u ∈ s, u.toNat = c.toNat := by
  have hunit : ∀ u : UInt16, (unitChar u).toNat < 0x80 → u.toNat = (unitChar u).toNat := by
    intro u hu
    cases hsurrogate : (isLeadSurrogate u || isTrailSurrogate u) with
    | false => exact (toNat_unitChar (Bool.or_eq_false_iff.mp hsurrogate)).symm
    | true =>
        rw [unitChar, hsurrogate, if_pos rfl] at hu
        exact absurd hu (by decide)
  induction s using codePoints.induct with
  | case1 => cases hc
  | case2 u =>
      obtain rfl := List.mem_singleton.mp hc
      exact ⟨u, List.mem_cons_self, hunit u h⟩
  | case3 u v rest hpair ih =>
      rw [codePoints, if_pos hpair] at hc
      obtain hchar | hc := List.mem_cons.mp hc
      · obtain ⟨hlead, htrail⟩ := Bool.and_eq_true_iff.mp hpair
        have hlarge := le_toNat_pairChar hlead htrail
        rw [hchar] at h
        exact absurd h (Nat.not_lt.mpr (Nat.le_trans (by decide) hlarge))
      · obtain ⟨w, hw, hsame⟩ := ih hc
        exact ⟨w, List.mem_cons_of_mem _ (List.mem_cons_of_mem _ hw), hsame⟩
  | case4 u v rest hpair ih =>
      rw [codePoints, if_neg hpair] at hc
      obtain rfl | hc := List.mem_cons.mp hc
      · exact ⟨u, List.mem_cons_self, hunit u h⟩
      · obtain ⟨w, hw, hsame⟩ := ih hc
        exact ⟨w, List.mem_cons_of_mem _ hw, hsame⟩

/-- An ASCII byte of an encoded text is one of its units. -/
theorem mem_of_mem_encodeUtf8 (hb : b ∈ encodeUtf8 s) (h : b < 0x80) : b.toUInt16 ∈ s := by
  rw [encodeUtf8_eq] at hb
  obtain ⟨c, hc, hb⟩ := List.mem_flatMap.mp hb
  have hascii : c.toNat < 0x80 := by
    by_contra hlarge
    have hle := le_of_mem_utf8EncodeChar (Nat.not_lt.mp hlarge) b hb
    exact absurd (UInt8.lt_iff_toNat_lt.mp h) (Nat.not_lt.mpr hle)
  rw [utf8EncodeChar_of_lt hascii, List.mem_singleton] at hb
  obtain ⟨u, hu, hsame⟩ := mem_of_mem_codePoints hc hascii
  have hunit : b.toUInt16 = u := by
    apply UInt16.toNat_inj.mp
    rw [hb, hsame, UInt8.toNat_toUInt16, UInt8.toNat_ofNat']
    exact Nat.mod_eq_of_lt (by omega)
  rwa [hunit]

/-- Text is encoded apart on both sides of an ASCII unit. -/
theorem encodeUtf8_append_cons (hu : u < 0x80) (s t : JsString) :
    encodeUtf8 (s ++ u :: t) = encodeUtf8 s ++ u.toUInt8 :: encodeUtf8 t := by
  have hchar : String.utf8EncodeChar (unitChar u) = [u.toUInt8] := by
    have htoNat := toNat_unitChar (not_surrogate hu)
    have hlt : (unitChar u).toNat < 0x80 := htoNat ▸ hu
    rw [utf8EncodeChar_of_lt hlt, htoNat, UInt8.ofNat_uInt16ToNat]
  simp only [encodeUtf8_eq, codePoints_append_cons hu, List.flatMap_append, List.flatMap_cons,
    hchar]
  rfl

theorem encodeUtf8_cons (hu : u < 0x80) (s : JsString) :
    encodeUtf8 (u :: s) = u.toUInt8 :: encodeUtf8 s :=
  encodeUtf8_append_cons hu [] s

theorem encodeUtf8_append (hs : ∀ u ∈ s, u < 0x80) (t : JsString) :
    encodeUtf8 (s ++ t) = s.map UInt16.toUInt8 ++ encodeUtf8 t := by
  induction s with
  | nil => rfl
  | cons u rest ih =>
      rw [List.cons_append, encodeUtf8_cons (hs u List.mem_cons_self),
        ih fun u hu => hs u (List.mem_cons_of_mem _ hu)]
      rfl

theorem encodeUtf8_ascii (hs : ∀ u ∈ s, u < 0x80) : encodeUtf8 s = s.map UInt16.toUInt8 := by
  simpa [encodeUtf8_eq, codePoints] using encodeUtf8_append hs []

end Encode

section Ascii

variable {bytes bytes' : List UInt8}

theorem asciiText_injective (h : asciiText bytes = asciiText bytes') : bytes = bytes' :=
  List.map_injective_iff.mpr (fun b b' hb => by
    apply UInt8.toNat_inj.mp
    simpa using congrArg UInt16.toNat hb) h

theorem lt_of_mem_asciiText (h : ∀ b ∈ bytes, b < 0x80) : ∀ u ∈ asciiText bytes, u < 0x80 := by
  intro u hu
  obtain ⟨b, hb, rfl⟩ := List.mem_map.mp hu
  rw [UInt16.lt_iff_toNat_lt, UInt8.toNat_toUInt16]
  exact UInt8.lt_iff_toNat_lt.mp (h b hb)

theorem encodeUtf8_asciiText (h : ∀ b ∈ bytes, b < 0x80) :
    encodeUtf8 (asciiText bytes) = bytes := by
  rw [encodeUtf8_ascii (lt_of_mem_asciiText h), asciiText, List.map_map]
  exact List.map_id'' (fun b => UInt8.toUInt8_toUInt16 b) bytes

/-- ASCII text is the text of its bytes. -/
theorem asciiText_encodeUtf8 {s : JsString} (h : ∀ u ∈ s, u < 0x80) :
    asciiText (encodeUtf8 s) = s := by
  rw [encodeUtf8_ascii h, asciiText, List.map_map]
  conv_rhs => rw [← List.map_id s]
  refine List.map_congr_left fun u hu => ?_
  have hlt : u.toNat < 0x80 := h u hu
  apply UInt16.toNat_inj.mp
  simp only [Function.comp, UInt8.toNat_toUInt16, UInt16.toNat_toUInt8, id]
  omega

end Ascii

end KyaOs
