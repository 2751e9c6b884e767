import KyaOs.Delegation.CachingVerifier

/-!
# Keys of the signature cache

A key joins the wire form, the credential's id and its canonical text or token with a zero
unit. A canonical text holds no such unit, and a token that parses holds none in its first
segment, so that a key is of one canonical text, or of one token.
-/

open Js

namespace Json

theorem zero_notMem_quoteUnit (u : UInt16) : (0 : UInt16) ∉ quoteUnit u := by
  have hdigits : ∀ n < 16, (0 : UInt16) ≠ hexDigit n := by decide
  have hu := u.toNat_lt
  rw [quoteUnit]
  cases hshort : shortEscape? u with
  | some letter =>
      have hletter : (0 : UInt16) ≠ letter := by
        rintro rfl
        have hnone : longEscape? 0 = none := by decide
        have hsome := (shortEscape?_some hshort).1.symm.trans hnone
        cases hsome
      simp [hletter]
  | none =>
      by_cases hplain : (u < 0x20 || isLeadSurrogate u || isTrailSurrogate u) = true
      · simp [hplain, unicodeEscape, hdigits (u.toNat / 4096) (by omega),
          hdigits (u.toNat / 256 % 16) (by omega), hdigits (u.toNat / 16 % 16) (by omega),
          hdigits (u.toNat % 16) (by omega)]
      · rw [if_neg hplain, List.mem_singleton]
        rintro rfl
        exact hplain (by decide)

theorem zero_notMem_quoteUnits (s : JsString) : (0 : UInt16) ∉ quoteUnits s := by
  induction s using quoteUnits.induct with
  | case1 => simp [quoteUnits]
  | case2 u => exact zero_notMem_quoteUnit u
  | case3 u v rest hpair ih =>
      obtain ⟨hlead, htrail⟩ := Bool.and_eq_true_iff.mp hpair
      have hu : (0 : UInt16) ≠ u := by
        rintro rfl
        cases hlead
      have hv : (0 : UInt16) ≠ v := by
        rintro rfl
        cases htrail
      simp [quoteUnits, hpair, hu, hv, ih]
  | case4 u v rest hpair ih =>
      rw [quoteUnits, if_neg hpair, List.mem_append, not_or]
      exact ⟨zero_notMem_quoteUnit u, ih⟩

theorem zero_notMem_quote (s : JsString) : (0 : UInt16) ∉ quote s := by
  simp [quote, zero_notMem_quoteUnits]

theorem zero_notMem_intercalate {texts : List JsString}
    (h : ∀ text ∈ texts, (0 : UInt16) ∉ text) : (0 : UInt16) ∉ (js ",").intercalate texts := by
  induction texts with
  | nil => simp
  | cons text rest ih =>
      have htext := h text List.mem_cons_self
      have hrest := ih fun text hmem => h text (List.mem_cons_of_mem _ hmem)
      cases rest with
      | nil => simpa using htext
      | cons next rest =>
          rw [List.intercalate_cons_cons, List.mem_append, List.mem_append]
          rintro ((hmem | hmem) | hmem)
          · exact htext hmem
          · exact absurd hmem (by decide)
          · exact hrest hmem

/-- The text of a value has no zero unit. -/
theorem zero_notMem_stringify {v : Json} (hv : v.WellFormed) : (0 : UInt16) ∉ stringify v := by
  induction hv with
  | null => decide
  | bool value => cases value <;> decide
  | number n =>
      cases n with
      | finite text =>
          intro hmem
          have htext := text.2
          rw [isNumberText, Bool.and_eq_true, List.all_eq_true] at htext
          exact absurd (htext.1 0 hmem) (by decide)
      | infinity negative => exact (by decide : (0 : UInt16) ∉ js "null")
  | string text => exact zero_notMem_quote text
  | @array items h ih =>
      have hitems : (0 : UInt16) ∉ (js ",").intercalate (items.map stringify) := by
        apply zero_notMem_intercalate
        intro text htext
        obtain ⟨item, hitem, rfl⟩ := List.mem_map.mp htext
        exact ih item hitem
      simp [stringify, stringifyItems_eq, hitems]
  | @object members hkeys h ih =>
      have hmembers : (0 : UInt16) ∉
          (js ",").intercalate (members.map fun m => quote m.1 ++ 0x3A :: stringify m.2) := by
        apply zero_notMem_intercalate
        intro text htext
        obtain ⟨member, hmember, rfl⟩ := List.mem_map.mp htext
        simp [zero_notMem_quote, ih member hmember]
      simp [stringify, stringifyMembers_eq, hmembers]

end Json

section Segments

variable {sep u : UInt16} {a b : JsString}

theorem splitOn_append_of_notMem (h : sep ∉ a) :
    (a ++ b).splitOn sep = (b.splitOn sep).modifyHead (a ++ ·) := by
  induction a with
  | nil => exact (List.modifyHead_id).symm ▸ rfl
  | cons first rest ih =>
      rw [List.mem_cons, not_or] at h
      rw [List.cons_append, List.splitOn_cons_eq_if_modifyHead, ih h.2,
        if_neg (by simpa using Ne.symm h.1), List.modifyHead_modifyHead]
      rfl

theorem length_splitOn_le (a b : JsString) :
    (b.splitOn sep).length ≤ ((a ++ b).splitOn sep).length := by
  induction a with
  | nil => exact le_rfl
  | cons first rest ih =>
      rw [List.cons_append, List.splitOn_cons_eq_if_modifyHead]
      split_ifs with hsep
      · exact ih.trans (Nat.le_succ _)
      · rwa [List.length_modifyHead]

/-- Text in front of a separator adds a segment. -/
theorem length_splitOn_lt (h : sep ∈ a) :
    (b.splitOn sep).length < ((a ++ b).splitOn sep).length := by
  obtain ⟨before, after, rfl⟩ := List.append_of_mem h
  rw [List.append_assoc, List.cons_append, List.splitOn_append_cons_self, List.length_append]
  have hbefore : 0 < (before.splitOn sep).length :=
    List.length_pos_iff.mpr (List.splitOn_ne_nil _ _)
  have hafter := @length_splitOn_le sep after b
  omega

end Segments

namespace KyaOs

/-- Text that decodes has no zero unit. -/
theorem zero_notMem_of_decoded {segment text : JsString}
    (h : base64urlDecodeToString segment = .ok text) : (0 : UInt16) ∉ segment := by
  intro hmem
  have hpadded : (0 : UInt16) ∈ (addPadding segment).map fromUrlUnit := by
    refine List.mem_map.mpr ⟨0, ?_, by decide⟩
    rw [addPadding]
    split_ifs
    · exact hmem
    · exact List.mem_append_left _ hmem
  rw [base64urlDecodeToString] at h
  have hbase64 : isBase64 ((addPadding segment).map fromUrlUnit) = true := by
    by_contra hnot
    rw [Bool.not_eq_true] at hnot
    simp only [hnot] at h
    cases h
  rw [isBase64, Bool.and_eq_true] at hbase64
  rw [← List.takeWhile_append_dropWhile (p := fun u => (sextetValue u).isSome)
    (l := (addPadding segment).map fromUrlUnit), List.mem_append] at hpadded
  cases hpadded with
  | inl hvalue => exact absurd (List.mem_takeWhile_imp hvalue) (by decide)
  | inr hpadding => exact absurd (List.all_eq_true.mp hbase64.2 0 hpadding) (by decide)

namespace CachingVerifier

open Untyped Untrusted JsonValue

/-- What a signature result is about: a credential with its proof, or a token. -/
inductive Form where
  | credential (vc : CredentialValue)
  | token (jwt : JsString)

/-- One wire form, and in it one credential up to the order of members, or one token. -/
def SameForm (numbers : Doubles JsNumber) : Form → Form → Prop
  | .credential vc, .credential vc' => Option.Rel (Same numbers) vc.value vc'.value
  | .token jwt, .token jwt' => jwt = jwt'
  | _, _ => False

namespace VerifierConfig

/-- The key of a form in the cache. -/
def formKey (config : VerifierConfig) : Form → Option JsString
  | .credential vc => (config.credentialKey vc.value).toOption
  | .token jwt => do
    let parsed ← parseVCJWT config.runtime jwt
    (Untrusted.cacheKeyForJwt config.runtime jwt
      (Untyped.member? (some parsed.payload) (js "vc"))).toOption

variable {config : VerifierConfig}

/-- What follows a zero unit, and holds none, is told from the joined text. -/
theorem eq_of_join {a b s t : JsString} (hs : (0 : UInt16) ∉ s) (ht : (0 : UInt16) ∉ t)
    (h : a ++ 0 :: s = b ++ 0 :: t) : s = t := by
  obtain ⟨middle, -, hjoined⟩ | ⟨middle, -, hjoined⟩ := List.append_eq_append_iff.mp h
  · cases middle with
    | nil => exact (List.cons.inj hjoined).2
    | cons first rest =>
        obtain ⟨-, rfl⟩ := List.cons.inj hjoined
        exact absurd (by simp) hs
  · cases middle with
    | nil => exact (List.cons.inj hjoined).2.symm
    | cons first rest =>
        obtain ⟨-, rfl⟩ := List.cons.inj hjoined
        exact absurd (by simp) ht

/-- A token's first segment has no zero unit. -/
theorem segments_of_parseVCJWT {jwt : JsString} {parsed : ParsedVCJWT}
    (h : parseVCJWT config.runtime jwt = some parsed) :
    ∃ header payload signature, jwt.splitOn 0x2E = [header, payload, signature] ∧
      (0 : UInt16) ∉ header := by
  rw [parseVCJWT] at h
  split at h
  · rename_i header payload signature hsegments
    obtain ⟨value, hheader, -⟩ := Option.bind_eq_some_iff.mp h
    rw [parseSegment] at hheader
    split at hheader
    · rename_i text htext
      exact ⟨header, payload, signature, hsegments, zero_notMem_of_decoded htext⟩
    · cases hheader
  · cases h

/-- A token is not the end of another that a zero unit comes before. -/
theorem not_zero_before_token {jwt jwt' before : JsString} {parsed parsed' : ParsedVCJWT}
    (h : parseVCJWT config.runtime jwt = some parsed)
    (h' : parseVCJWT config.runtime jwt' = some parsed') : jwt ≠ before ++ 0 :: jwt' := by
  rintro rfl
  obtain ⟨header, payload, signature, hsegments, hzero⟩ := segments_of_parseVCJWT h
  obtain ⟨header', payload', signature', hsegments', -⟩ := segments_of_parseVCJWT h'
  have hbefore : (0x2E : UInt16) ∉ before := by
    intro hmem
    have hlonger := length_splitOn_lt (b := 0 :: jwt') hmem
    have hinner := @length_splitOn_le 0x2E [0] jwt'
    rw [hsegments] at hlonger
    rw [hsegments', List.singleton_append] at hinner
    simp only [List.length_cons, List.length_nil] at hlonger hinner
    omega
  have hdot : (0x2E : UInt16) ∉ before ++ [0] := by simpa using hbefore
  have hsplit := splitOn_append_of_notMem (b := jwt') hdot
  rw [List.append_assoc, List.singleton_append, hsegments, hsegments'] at hsplit
  obtain ⟨rfl, -⟩ := List.cons.inj hsplit
  exact hzero (by simp)

theorem credentialKey_ok (hprints : config.runtime.numbers.Prints) {vc : CredentialValue}
    {key : JsString} (h : config.credentialKey vc.value = .ok key) :
    ∃ v id, vc.value = some v ∧ Supported config.runtime.numbers v ∧
      key = js "di" ++ 0 :: id ++ 0 :: canonicalText config.runtime.numbers v := by
  obtain ⟨id, -, h⟩ := bind_eq_ok.mp h
  obtain ⟨idText, -, h⟩ := bind_eq_ok.mp h
  split at h
  · rename_i v hv
    obtain ⟨text, htext, h⟩ := bind_eq_ok.mp h
    obtain ⟨hsupported, rfl⟩ := (serialize_ok hprints (vc.wellFormed v hv) _ _).mp htext
    cases h
    exact ⟨v, idText, hv, hsupported, rfl⟩
  · cases h

theorem tokenKey_ok {jwt key : JsString} {vc : Untyped}
    (h : Untrusted.cacheKeyForJwt config.runtime jwt vc = .ok key) :
    ∃ id, key = js "jwt" ++ 0 :: id ++ 0 :: jwt := by
  obtain ⟨id, -, h⟩ := bind_eq_ok.mp h
  cases h
  exact ⟨id, rfl⟩

/-- A key is of one form. -/
theorem sameForm_of_formKey (hprints : config.runtime.numbers.Prints) {form form' : Form}
    {key : JsString} (h : config.formKey form = some key) (h' : config.formKey form' = some key) :
    SameForm config.runtime.numbers form form' := by
  cases form with
  | credential vc =>
      obtain ⟨v, id, hv, hsupported, rfl⟩ := credentialKey_ok hprints (toOption_eq_some.mp h)
      cases form' with
      | credential vc' =>
          obtain ⟨v', id', hv', hsupported', hkey⟩ :=
            credentialKey_ok hprints (toOption_eq_some.mp h')
          have hzero : ∀ w : JsonValue JsNumber, w.WellFormed →
              (0 : UInt16) ∉ canonicalText config.runtime.numbers w := fun w hw =>
            Json.zero_notMem_stringify (Json.wellFormed_canon (wellFormed_toJson hw))
          have htext := eq_of_join (hzero v (vc.wellFormed v hv)) (hzero v' (vc'.wellFormed v' hv'))
            hkey
          rw [SameForm, hv, hv']
          exact .some ((canonicalText_eq_iff hprints (vc.wellFormed v hv)
            (vc'.wellFormed v' hv') hsupported hsupported').mp htext)
      | token jwt =>
          obtain ⟨parsed, -, hkey⟩ := Option.bind_eq_some_iff.mp h'
          obtain ⟨id', hkey⟩ := tokenKey_ok (toOption_eq_some.mp hkey)
          exact absurd (congrArg List.head? hkey) (show some (0x64 : UInt16) ≠ some 0x6A by decide)
  | token jwt =>
      obtain ⟨parsed, hparsed, hkey⟩ := Option.bind_eq_some_iff.mp h
      obtain ⟨id, rfl⟩ := tokenKey_ok (toOption_eq_some.mp hkey)
      cases form' with
      | credential vc' =>
          obtain ⟨v', id', -, -, hkey'⟩ := credentialKey_ok hprints (toOption_eq_some.mp h')
          exact absurd (congrArg List.head? hkey') (show some (0x6A : UInt16) ≠ some 0x64 by decide)
      | token jwt' =>
          obtain ⟨parsed', hparsed', hkey'⟩ := Option.bind_eq_some_iff.mp h'
          obtain ⟨id', hkey'⟩ := tokenKey_ok (toOption_eq_some.mp hkey')
          obtain ⟨middle, -, hjoined⟩ | ⟨middle, -, hjoined⟩ :=
            List.append_eq_append_iff.mp hkey'
          · cases middle with
            | nil => exact (List.cons.inj hjoined).2
            | cons first rest =>
                obtain ⟨-, hjwt⟩ := List.cons.inj hjoined
                exact absurd hjwt (not_zero_before_token hparsed hparsed')
          · cases middle with
            | nil => exact (List.cons.inj hjoined).2.symm
            | cons first rest =>
                obtain ⟨-, hjwt⟩ := List.cons.inj hjoined
                exact absurd hjwt (not_zero_before_token hparsed' hparsed)

end VerifierConfig

end CachingVerifier

end KyaOs
