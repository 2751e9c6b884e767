import KyaOs.Audit.Digests
import KyaOs.Card.ProofVerification

/-!
# The HTTP message signature of a card proof

`httpSignatureBase`: the covered claims of a proof as the lines that a stock verifier
rebuilds. Only the request hash may hold line breaks, so the lines are read back from the end.
-/

namespace KyaOs.Card

open Js Audit

section Base

variable (proof : CardProofMeta)

/-- The list of covered components. -/
def coveredComponents : JsString :=
  let comps := [js "\"content-digest\"", js "\"kya-audience\"", js "\"kya-nonce\""] ++
    if proof.cnf.isSome then [js "\"kya-cnf\""] else []
  js "(" ++ (js " ").intercalate comps ++ js ")"

def sigParams : JsString :=
  let label := if proof.alg = .ES256 then js "ecdsa-p256-sha256" else js "ed25519"
  js "created=" ++ decimalString proof.created ++ js ";expires=" ++ decimalString proof.expires ++
    js ";keyid=\"" ++ proof.kid ++ js "\";alg=\"" ++ label ++ js "\""

/-- The exact text that `httpSig` signs. -/
def httpSignatureBase : JsString :=
  let lines := [js "\"content-digest\": " ++ proof.requestHash,
      js "\"kya-audience\": " ++ proof.audience, js "\"kya-nonce\": " ++ proof.nonce] ++
    (proof.cnf.map fun jkt => js "\"kya-cnf\": " ++ jkt).toList ++
    [js "\"@signature-params\": " ++ coveredComponents proof ++ js ";" ++ sigParams proof]
  (js "\n").intercalate lines

end Base

section Fields

variable {text : JsString}

theorem newline_notMem_of_all (h : text.all (!isLineTerminator ·) = true) : 0x0A ∉ text := by
  intro hmem
  have hunit := List.all_eq_true.mp h _ hmem
  revert hunit
  decide

/-- A method's own units hold no line break. -/
theorem newline_notMem_of_rest {rest : JsString} (h : afterDidMethod text = some rest)
    (hrest : 0x0A ∉ rest) : 0x0A ∉ text := by
  have hmethods : ∀ method ∈ [js "did:key:", js "did:web:"],
      method.length = 8 ∧ 0x0A ∉ method := by decide
  have hdropped : ∀ method ∈ [js "did:key:", js "did:web:"], method <+: text →
      0x0A ∉ text.drop 8 → 0x0A ∉ text := by
    rintro method hmethod ⟨rest, rfl⟩ hrest
    obtain ⟨hlength, hfirst⟩ := hmethods method hmethod
    rw [← hlength, List.drop_left] at hrest
    exact List.mem_append.not.mpr (not_or.mpr ⟨hfirst, hrest⟩)
  rw [afterDidMethod] at h
  split_ifs at h with hmethod
  cases h
  obtain hprefix | hprefix := hmethod
  · exact hdropped _ (by simp) (startsWith_iff.mp hprefix) hrest
  · exact hdropped _ (by simp) (startsWith_iff.mp hprefix) hrest

theorem newline_notMem_of_isDid (h : isDid text = true) : 0x0A ∉ text := by
  rw [isDid, Option.any_eq_true] at h
  obtain ⟨rest, hrest, hunits⟩ := h
  exact newline_notMem_of_rest hrest (newline_notMem_of_all (of_decide_eq_true hunits).2)

theorem newline_notMem_of_isKid (h : isKid text = true) : 0x0A ∉ text := by
  rw [isKid, Option.any_eq_true] at h
  obtain ⟨rest, hrest, hunits⟩ := h
  exact newline_notMem_of_rest hrest (newline_notMem_of_all (of_decide_eq_true hunits).1)

theorem newline_notMem_of_isBase64url (h : isBase64url text = true) : 0x0A ∉ text := by
  intro hmem
  have hunit := List.all_eq_true.mp (of_decide_eq_true h).2 _ hmem
  revert hunit
  decide

theorem textField_accepts {members : Members JsNumber} {field : String}
    {accepts : JsString → Bool} (h : textField members field accepts = some text) :
    accepts text = true := by
  rw [textField] at h
  split at h
  · split_ifs at h with haccepts
    cases h
    exact haccepts
  · cases h

/-- What the schema says of the fields that are signed. -/
structure Lined (proof : CardProofMeta) : Prop where
  kid : 0x0A ∉ proof.kid
  audience : 0x0A ∉ proof.audience
  nonce : 0x0A ∉ proof.nonce
  cnf : ∀ jkt ∈ proof.cnf, 0x0A ∉ jkt

theorem lined_of_schema {value : JsonValue JsNumber} {proof : CardProofMeta}
    (h : cardProofMetaSchema value = some proof) : Lined proof := by
  cases value with
  | object members =>
      rw [cardProofMetaSchema] at h
      split_ifs at h
      simp only [Option.bind_eq_bind, Option.bind_eq_some_iff] at h
      obtain ⟨prf, -, alg, -, did, -, kid, hkid, audience, haudience, nonce, hnonce, created, -,
        expires, -, requestHash, -, cnf, hcnf, jws, -, httpSig, -, h⟩ := h
      cases h
      refine ⟨newline_notMem_of_isKid (textField_accepts hkid),
        newline_notMem_of_isDid (textField_accepts haudience),
        newline_notMem_of_isBase64url (textField_accepts hnonce), ?_⟩
      intro jkt hjkt
      rw [cnfField] at hcnf
      split at hcnf
      · cases hcnf
        cases hjkt
      · obtain ⟨text, htext, rfl⟩ := Option.map_eq_some_iff.mp hcnf
        cases hjkt
        exact newline_notMem_of_isBase64url (textField_accepts htext)
      · cases hcnf
  | _ => cases h

end Fields

section Injective

/-- The line of the signature's parameters, after its name. -/
def paramsLine (proof : CardProofMeta) : JsString :=
  js "\"@signature-params\": " ++ coveredComponents proof ++ js ";" ++ sigParams proof

/-- The lines of the covered components. -/
def componentLines (proof : CardProofMeta) : JsString :=
  let claims := js "\"content-digest\": " ++ proof.requestHash ++ 0x0A ::
    (js "\"kya-audience\": " ++ proof.audience) ++ 0x0A :: (js "\"kya-nonce\": " ++ proof.nonce)
  match proof.cnf with
  | none => claims
  | some jkt => claims ++ 0x0A :: (js "\"kya-cnf\": " ++ jkt)

theorem httpSignatureBase_eq (proof : CardProofMeta) :
    httpSignatureBase proof = componentLines proof ++ 0x0A :: paramsLine proof := by
  have hnewline : js "\n" = [0x0A] := by decide
  rw [httpSignatureBase, componentLines, paramsLine, hnewline]
  cases proof.cnf <;> simp [List.intercalate, List.intersperse]

/-- The parameters' line up to the creation time. -/
def paramsHead : Bool → JsString
  | true =>
    js "\"@signature-params\": (\"content-digest\" \"kya-audience\" \"kya-nonce\" " ++
      js "\"kya-cnf\");created="
  | false =>
    js "\"@signature-params\": (\"content-digest\" \"kya-audience\" \"kya-nonce\");created="

/-- The parameters' line after the key's id. -/
def algTail : ProofAlg → JsString
  | .EdDSA => js "\";alg=\"ed25519\""
  | .ES256 => js "\";alg=\"ecdsa-p256-sha256\""

theorem paramsLine_eq (proof : CardProofMeta) :
    paramsLine proof = paramsHead proof.cnf.isSome ++ (decimalString proof.created ++ 0x3B ::
      (js "expires=" ++ (decimalString proof.expires ++ 0x3B ::
        (js "keyid=\"" ++ (proof.kid ++ algTail proof.alg))))) := by
  have hhead : js "\"@signature-params\": " ++ coveredComponents proof ++ js ";" ++ js "created=" =
      paramsHead proof.cnf.isSome := by
    rw [coveredComponents]
    cases proof.cnf.isSome <;> decide
  have hexpires : js ";expires=" = 0x3B :: js "expires=" := by decide
  have hkeyid : js ";keyid=\"" = 0x3B :: js "keyid=\"" := by decide
  have htail : js "\";alg=\"" ++ (if proof.alg = .ES256 then js "ecdsa-p256-sha256"
      else js "ed25519") ++ js "\"" = algTail proof.alg := by
    cases proof.alg <;> decide
  rw [paramsLine, sigParams, ← hhead, ← htail, hexpires, hkeyid]
  simp only [List.append_assoc, List.cons_append]

theorem newline_notMem_paramsLine {proof : CardProofMeta} (h : Lined proof) :
    0x0A ∉ paramsLine proof := by
  have hhead : ∀ cnf, 0x0A ∉ paramsHead cnf := by decide
  have htail : ∀ alg, 0x0A ∉ algTail alg := by
    intro alg
    cases alg <;> decide
  have hexpires : 0x0A ∉ js "expires=" := by decide
  have hkeyid : 0x0A ∉ js "keyid=\"" := by decide
  have hdigits : ∀ n, 0x0A ∉ decimalString n := notMem_decimalString (by decide)
  rw [paramsLine_eq]
  simp [hhead, htail, hexpires, hkeyid, hdigits, h.kid]

/-- The names of the algorithms end differently. -/
theorem eq_of_algTail {kid kid' : JsString} {alg alg' : ProofAlg}
    (h : kid ++ algTail alg = kid' ++ algTail alg') : kid = kid' ∧ alg = alg' := by
  have hreversed := congrArg List.reverse h
  rw [List.reverse_append, List.reverse_append] at hreversed
  have hEd : (algTail .EdDSA).reverse = 0x22 :: 0x39 :: (algTail .EdDSA).reverse.drop 2 := by decide
  have hES : (algTail .ES256).reverse = 0x22 :: 0x36 :: (algTail .ES256).reverse.drop 2 := by decide
  cases alg with
  | EdDSA =>
      cases alg' with
      | EdDSA => exact ⟨List.append_cancel_right h, rfl⟩
      | ES256 =>
          rw [hEd, hES] at hreversed
          simp at hreversed
  | ES256 =>
      cases alg' with
      | EdDSA =>
          rw [hEd, hES] at hreversed
          simp at hreversed
      | ES256 => exact ⟨List.append_cancel_right h, rfl⟩

theorem eq_of_paramsHead {cnf cnf' : Bool} {t t' : JsString}
    (h : paramsHead cnf ++ t = paramsHead cnf' ++ t') : cnf = cnf' ∧ t = t' := by
  -- After the nonce's name comes a blank, or the bracket.
  obtain ⟨common, blank, bracket, hblank, hbracket⟩ : ∃ common blank bracket : JsString,
      paramsHead true = common ++ 0x20 :: blank ∧ paramsHead false = common ++ 0x29 :: bracket :=
    ⟨(paramsHead false).take 65, (paramsHead true).drop 66, (paramsHead false).drop 66,
      by decide, by decide⟩
  cases cnf with
  | true =>
      cases cnf' with
      | true => exact ⟨rfl, List.append_cancel_left h⟩
      | false =>
          rw [hblank, hbracket, List.append_assoc, List.append_assoc] at h
          exact absurd (List.cons.inj (List.append_cancel_left h)).1 (by decide)
  | false =>
      cases cnf' with
      | true =>
          rw [hblank, hbracket, List.append_assoc, List.append_assoc] at h
          exact absurd (List.cons.inj (List.append_cancel_left h)).1 (by decide)
      | false => exact ⟨rfl, List.append_cancel_left h⟩

/-- The parameters' line tells its values. -/
theorem eq_of_paramsLine {p q : CardProofMeta} (h : paramsLine p = paramsLine q) :
    p.cnf.isSome = q.cnf.isSome ∧ p.created = q.created ∧ p.expires = q.expires ∧
      p.kid = q.kid ∧ p.alg = q.alg := by
  have hdigits : ∀ n, 0x3B ∉ decimalString n := notMem_decimalString (by decide)
  rw [paramsLine_eq, paramsLine_eq] at h
  obtain ⟨hcnf, h⟩ := eq_of_paramsHead h
  obtain ⟨hcreated, h⟩ := eq_of_join_eq (hdigits _) (hdigits _) h
  obtain ⟨hexpires, h⟩ := eq_of_join_eq (hdigits _) (hdigits _) (List.append_cancel_left h)
  obtain ⟨hkid, halg⟩ := eq_of_algTail (List.append_cancel_left h)
  exact ⟨hcnf, decimalString_injective hcreated, decimalString_injective hexpires, hkid, halg⟩

theorem eq_of_claimLine {name : String} {value value' first first' : JsString}
    (hname : 0x0A ∉ js name) (h : 0x0A ∉ value) (h' : 0x0A ∉ value')
    (heq : first ++ 0x0A :: (js name ++ value) = first' ++ 0x0A :: (js name ++ value')) :
    first = first' ∧ value = value' := by
  obtain ⟨hfirst, hvalue⟩ := eq_of_join_last_eq (List.mem_append.not.mpr (not_or.mpr ⟨hname, h⟩))
    (List.mem_append.not.mpr (not_or.mpr ⟨hname, h'⟩)) heq
  exact ⟨hfirst, List.append_cancel_left hvalue⟩

/-- The lines of the components tell their values, where they are as many. -/
theorem eq_of_componentLines {p q : CardProofMeta} (hp : Lined p) (hq : Lined q)
    (hcnf : p.cnf.isSome = q.cnf.isSome) (h : componentLines p = componentLines q) :
    p.requestHash = q.requestHash ∧ p.audience = q.audience ∧ p.nonce = q.nonce ∧
      p.cnf = q.cnf := by
  have hclaims : ∀ {r r' a a' n n' : JsString}, 0x0A ∉ a → 0x0A ∉ a' → 0x0A ∉ n → 0x0A ∉ n' →
      js "\"content-digest\": " ++ r ++ 0x0A :: (js "\"kya-audience\": " ++ a) ++
          0x0A :: (js "\"kya-nonce\": " ++ n) =
        js "\"content-digest\": " ++ r' ++ 0x0A :: (js "\"kya-audience\": " ++ a') ++
          0x0A :: (js "\"kya-nonce\": " ++ n') → r = r' ∧ a = a' ∧ n = n' := by
    intro r r' a a' n n' ha ha' hn hn' h
    obtain ⟨h, hnonce⟩ := eq_of_claimLine (by decide) hn hn' h
    obtain ⟨h, haudience⟩ := eq_of_claimLine (by decide) ha ha' h
    exact ⟨List.append_cancel_left h, haudience, hnonce⟩
  rw [componentLines, componentLines] at h
  cases hpcnf : p.cnf with
  | none =>
      cases hqcnf : q.cnf with
      | none =>
          rw [hpcnf, hqcnf] at h
          obtain ⟨hhash, haudience, hnonce⟩ :=
            hclaims hp.audience hq.audience hp.nonce hq.nonce h
          exact ⟨hhash, haudience, hnonce, rfl⟩
      | some jkt => simp [hpcnf, hqcnf] at hcnf
  | some jkt =>
      cases hqcnf : q.cnf with
      | none => simp [hpcnf, hqcnf] at hcnf
      | some jkt' =>
          rw [hpcnf, hqcnf] at h
          obtain ⟨hlines, hjkt⟩ :=
            eq_of_claimLine (by decide) (hp.cnf jkt hpcnf) (hq.cnf jkt' hqcnf) h
          obtain ⟨hhash, haudience, hnonce⟩ :=
            hclaims hp.audience hq.audience hp.nonce hq.nonce hlines
          exact ⟨hhash, haudience, hnonce, congrArg some hjkt⟩

/-- One signature base is of one set of claims. -/
theorem httpSignatureBase_injective {value value' : JsonValue JsNumber} {p q : CardProofMeta}
    (hp : cardProofMetaSchema value = some p) (hq : cardProofMetaSchema value' = some q)
    (h : httpSignatureBase p = httpSignatureBase q) :
    p.alg = q.alg ∧ p.kid = q.kid ∧ p.audience = q.audience ∧ p.nonce = q.nonce ∧
      p.created = q.created ∧ p.expires = q.expires ∧ p.requestHash = q.requestHash ∧
      p.cnf = q.cnf := by
  have hlinedP := lined_of_schema hp
  have hlinedQ := lined_of_schema hq
  rw [httpSignatureBase_eq, httpSignatureBase_eq] at h
  obtain ⟨hcomponents, hparams⟩ := eq_of_join_last_eq (newline_notMem_paramsLine hlinedP)
    (newline_notMem_paramsLine hlinedQ) h
  obtain ⟨hcnf, hcreated, hexpires, hkid, halg⟩ := eq_of_paramsLine hparams
  obtain ⟨hhash, haudience, hnonce, hjkt⟩ :=
    eq_of_componentLines hlinedP hlinedQ hcnf hcomponents
  exact ⟨halg, hkid, haudience, hnonce, hcreated, hexpires, hhash, hjkt⟩

/-- A proof whose request hash holds a line of the base itself. -/
def linedProof (jws : JsString) : JsonValue JsNumber :=
  .object [(js "prf", .string (js "org.kya-os/proof.v1")), (js "alg", .string (js "ES256")),
    (js "did", .string (js "did:web:host")), (js "kid", .string (js "did:web:host#\";k")),
    (js "audience", .string (js "did:key:z6Mk")), (js "nonce", .string (js "n-1")),
    (js "created", .number (.ofNat 1)), (js "expires", .number (.ofNat 2)),
    (js "requestHash", .string (js "h\n\"kya-audience\": did:web:other")),
    (js "cnf", .object [(js "jkt", .string (js "t_1"))]), (js "jws", .string jws)]

def linedClaims (jws : JsString) : CardProofMeta where
  prf := js "org.kya-os/proof.v1"
  alg := .ES256
  did := js "did:web:host"
  kid := js "did:web:host#\";k"
  audience := js "did:key:z6Mk"
  nonce := js "n-1"
  created := 1
  expires := 2
  requestHash := js "h\n\"kya-audience\": did:web:other"
  cnf := some (js "t_1")
  jws := jws

/-- The base is the same under another `jws`. -/
theorem httpSignatureBase_injective_sample :
    cardProofMetaSchema (linedProof (js "a")) = some (linedClaims (js "a")) ∧
      (linedClaims (js "a")).requestHash = (linedClaims (js "b")).requestHash := by
  have ha : cardProofMetaSchema (linedProof (js "a")) = some (linedClaims (js "a")) := by
    decide +kernel
  have hb : cardProofMetaSchema (linedProof (js "b")) = some (linedClaims (js "b")) := by
    decide +kernel
  obtain ⟨-, -, -, -, -, -, hhash, -⟩ := httpSignatureBase_injective ha hb rfl
  exact ⟨ha, hhash⟩

end Injective

end KyaOs.Card
