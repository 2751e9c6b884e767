import KyaOs.Card.StatusListProof
import KyaOs.Json.SortKeys

/-!
# What a status list's proof covers

A list whose proof verifies is signed, every member of it but the signature and the
`@context` entries beyond the proof's own, with a key of the issuer that the list names.
-/

open Js

namespace Json

/-- Objects that show the same show the same under each name. -/
theorem SameShown.lookup {members members' : List (JsString × Json)}
    (h : SameShown (.object members) (.object members')) (name : JsString) :
    Option.Rel SameShown (members.lookup name) (members'.lookup name) := by
  cases hmember : members.lookup name with
  | none =>
      cases hmember' : members'.lookup name with
      | none => exact .none
      | some value' =>
          obtain ⟨value, hvalue, -⟩ := h.symm.child (.key name) hmember'
          cases hmember.symm.trans hvalue
  | some value =>
      obtain ⟨value', hvalue', hsame⟩ := h.child (.key name) hmember
      rw [show members'.lookup name = some value' from hvalue']
      exact .some hsame

theorem sameShown_rel_refl (value : Option Json) : Option.Rel SameShown value value := by
  cases value with
  | none => exact .none
  | some value => exact .some fun _ => rfl

theorem sameShown_rel_trans {a b c : Option Json} (h : Option.Rel SameShown a b)
    (h' : Option.Rel SameShown b c) : Option.Rel SameShown a c := by
  cases h with
  | none => exact h'
  | some hfirst =>
      cases h' with
      | some hsecond => exact .some fun path => (hfirst path).trans (hsecond path)

theorem WellFormed.withoutKeys {members : List (JsString × Json)}
    (h : (Json.object members).WellFormed) (drop : JsString → Bool) :
    (Json.object (KyaOs.withoutKeys members drop)).WellFormed := by
  cases h with
  | object hkeys hmembers =>
      refine .object (hkeys.sublist (List.filter_sublist.map _)) fun member hmem => ?_
      exact hmembers member (List.mem_filter.mp hmem).1

theorem WellFormed.assignMember {members : List (JsString × Json)} {name : JsString}
    {value : Json} (h : (Json.object members).WellFormed) (hvalue : value.WellFormed) :
    (Json.object (KyaOs.assignMember name value members)).WellFormed := by
  cases h with
  | object hkeys hmembers =>
      refine .object ?_ fun member hmem => ?_
      · rw [KyaOs.map_fst_assignMember]
        split_ifs with hmem
        · exact hkeys
        · exact List.nodup_append.mpr ⟨hkeys, List.nodup_singleton _, fun a ha b hb => by
            obtain rfl := List.mem_singleton.mp hb
            exact fun hab => hmem (hab ▸ ha)⟩
      · obtain rfl | hold := KyaOs.mem_assignMember hmem
        · exact hvalue
        · exact hmembers member hold

theorem WellFormed.of_lookup {members : List (JsString × Json)} {name : JsString}
    {value : Json} (h : (Json.object members).WellFormed)
    (hlookup : members.lookup name = some value) : value.WellFormed :=
  @wellFormed_child _ _ (.key name) h hlookup

end Json

namespace KyaOs.Card

open Audit DidDocuments Json

def Unsecured.WellFormed (covered : Unsecured) : Prop :=
  (Json.object covered.options).WellFormed ∧ (Json.object covered.document).WellFormed

/-- What was signed is what a credential and its proof say, but for the signature itself and
the entries of the credential's `@context` beyond those the proof has. -/
structure CoversList (covered : Unsecured) (credential : List (JsString × Json))
    (proof : ListProof) : Prop where
  document : ∀ name, name ≠ contextName → name ≠ js "proof" →
    Option.Rel SameShown (covered.document.lookup name) (credential.lookup name)
  options : ∀ name, name ≠ contextName → name ≠ js "proofValue" →
    Option.Rel SameShown (covered.options.lookup name) (proof.members.lookup name)
  context : proof.members.lookup contextName = none →
    Option.Rel SameShown (covered.document.lookup contextName) (credential.lookup contextName)
  ownContext : ∀ own, proof.members.lookup contextName = some own →
    Option.Rel SameShown (covered.document.lookup contextName) (some own) ∧
      List.Forall₂ SameShown (contexts (some own))
        ((contexts (credential.lookup contextName)).take (contexts (some own)).length)

section Assumptions

variable {K : Type} (crypto : ListProofCrypto K) (signed : K → Unsecured → Prop)

/-- What the cryptography is relied on for; `signed` is what the holders of the keys have
signed. -/
structure Sound : Prop where
  unforgeable : ∀ key signature data, crypto.isSmallOrderEd25519CryptoKey key = .ok false →
    crypto.verify key signature data = .ok true →
    ∃ covered, signed key covered ∧ covered.WellFormed ∧ hashData crypto covered = .ok data
  digests : ∀ a b a' b' digestA digestB digestA' digestB',
    crypto.sha256 a = .ok digestA → crypto.sha256 b = .ok digestB →
    crypto.sha256 a' = .ok digestA' → crypto.sha256 b' = .ok digestB' →
    digestA ++ digestB = digestA' ++ digestB' → a = a' ∧ b = b'
  canonical : ∀ v w : Json, ∀ text text', v.WellFormed → w.WellFormed →
    crypto.canonicalize v = .ok text → crypto.canonicalize w = .ok text' →
    encodeUtf8 text = encodeUtf8 text' → SameShown v w

end Assumptions

section Covered

variable {K : Type} {crypto : ListProofCrypto K} {signed : K → Unsecured → Prop}

theorem hashData_ok {covered : Unsecured} {data : Bytes}
    (h : hashData crypto covered = .ok data) :
    ∃ options document digest digest', crypto.canonicalize (.object covered.options) = .ok options ∧
      crypto.canonicalize (.object covered.document) = .ok document ∧
      crypto.sha256 (encodeUtf8 options) = .ok digest ∧
      crypto.sha256 (encodeUtf8 document) = .ok digest' ∧ data = digest ++ digest' := by
  obtain ⟨digest, hdigest, h⟩ := bind_eq_ok.mp h
  obtain ⟨digest', hdigest', h⟩ := bind_eq_ok.mp h
  obtain ⟨options, hoptions, hdigest⟩ := bind_eq_ok.mp hdigest
  obtain ⟨document, hdocument, hdigest'⟩ := bind_eq_ok.mp hdigest'
  exact ⟨options, document, digest, digest', hoptions, hdocument, hdigest, hdigest',
    (Except.ok.inj h).symm⟩

/-- One hash is of one thing that was covered. -/
theorem sameShown_of_hashData (hsound : Sound crypto signed) {covered covered' : Unsecured}
    {data : Bytes} (hwf : covered.WellFormed) (hwf' : covered'.WellFormed)
    (h : hashData crypto covered = .ok data) (h' : hashData crypto covered' = .ok data) :
    SameShown (.object covered.options) (.object covered'.options) ∧
      SameShown (.object covered.document) (.object covered'.document) := by
  obtain ⟨options, document, digest, digest', hoptions, hdocument, hdigest, hdigest', rfl⟩ :=
    hashData_ok h
  obtain ⟨options', document', _, _, hoptions', hdocument', hhash, hhash', hdata⟩ := hashData_ok h'
  obtain ⟨hleft, hright⟩ := hsound.digests _ _ _ _ _ _ _ _ hdigest hdigest' hhash hhash' hdata
  exact ⟨hsound.canonical _ _ _ _ hwf.1 hwf'.1 hoptions hoptions' hleft,
    hsound.canonical _ _ _ _ hwf.2 hwf'.2 hdocument hdocument' hright⟩

theorem everyEntry_true (hsound : Sound crypto signed) {whole entries : List Json}
    (hwhole : ∀ entry ∈ whole, entry.WellFormed) (hentries : ∀ entry ∈ entries, entry.WellFormed)
    (hlength : entries.length ≤ whole.length) (h : everyEntry crypto whole entries = .ok true) :
    List.Forall₂ SameShown entries (whole.take entries.length) := by
  induction entries generalizing whole with
  | nil => exact .nil
  | cons entry rest ih =>
      cases whole with
      | nil => simp at hlength
      | cons first wholeRest =>
          obtain ⟨text, htext, h⟩ := bind_eq_ok.mp h
          obtain ⟨text', htext', h⟩ := bind_eq_ok.mp h
          split_ifs at h with hsame
          · subst hsame
            refine .cons ?_ (ih (fun e he => hwhole e (List.mem_cons_of_mem _ he))
              (fun e he => hentries e (List.mem_cons_of_mem _ he)) (by simpa using hlength) h)
            exact hsound.canonical _ _ _ _ (hentries entry List.mem_cons_self)
              (hwhole first List.mem_cons_self) htext htext' rfl
          · cases h

theorem wellFormed_contexts {value : Option Json} (h : ∀ context, value = some context →
    context.WellFormed) : ∀ entry ∈ contexts value, entry.WellFormed := by
  intro entry hmem
  cases value with
  | none => cases hmem
  | some context =>
      have hcontext := h context rfl
      cases context with
      | array items =>
          cases hcontext with
          | array hitems => exact hitems entry hmem
      | _ =>
          obtain rfl := List.mem_singleton.mp hmem
          exact hcontext

theorem wellFormed_withContext {options document : List (JsString × Json)}
    (hoptions : (Json.object options).WellFormed) (hdocument : (Json.object document).WellFormed) :
    (withContext options document).WellFormed := by
  refine ⟨?_, hdocument⟩
  rw [withContext]
  split
  · rename_i context hcontext
    exact hoptions.assignMember (hdocument.of_lookup hcontext)
  · exact hoptions

theorem lookup_withContext {options document : List (JsString × Json)} {name : JsString}
    (hname : name ≠ contextName) :
    (withContext options document).options.lookup name = options.lookup name := by
  rw [withContext]
  dsimp only
  split
  · rw [lookup_assignMember, if_neg hname]
  · rfl

/-- The code hashes what it is to cover. -/
theorem coversList_of_unsecured (hsound : Sound crypto signed)
    {credential : List (JsString × Json)} {proof : ListProof} {covered : Unsecured}
    (hcredential : (Json.object credential).WellFormed)
    (hproof : (Json.object proof.members).WellFormed)
    (h : unsecured crypto credential proof = .ok (some covered)) :
    covered.WellFormed ∧ CoversList covered credential proof := by
  have hdocument := hcredential.withoutKeys (· = js "proof")
  have hoptions := hproof.withoutKeys (· = js "proofValue")
  have hown : (withoutKeys proof.members (· = js "proofValue")).lookup contextName =
      proof.members.lookup contextName := by
    rw [lookup_withoutKeys]
    rfl
  have hrest : ∀ name, name ≠ contextName → name ≠ js "proofValue" → ∀ document,
      Option.Rel SameShown
        ((withContext (withoutKeys proof.members (· = js "proofValue")) document).options.lookup
          name)
        (proof.members.lookup name) := by
    intro name hcontext hvalue document
    rw [lookup_withContext hcontext, lookup_withoutKeys, if_neg (by simpa using hvalue)]
    exact sameShown_rel_refl _
  have hkept : ∀ name, name ≠ js "proof" →
      (withoutKeys credential (· = js "proof")).lookup name = credential.lookup name := by
    intro name hname
    rw [lookup_withoutKeys, if_neg (by simpa using hname)]
  rw [unsecured] at h
  cases hcase : proof.members.lookup contextName with
  | none =>
      rw [hown, hcase] at h
      cases h
      refine ⟨wellFormed_withContext hoptions hdocument, ?_, fun name hcontext hvalue =>
        hrest name hcontext hvalue _, fun _ => ?_, by simp [hcase]⟩
      · intro name _ hname
        rw [withContext, hkept name hname]
        exact sameShown_rel_refl _
      · rw [withContext, hkept contextName (by decide)]
        exact sameShown_rel_refl _
  | some own =>
      rw [hown, hcase] at h
      obtain ⟨starts, hstarts, h⟩ := bind_eq_ok.mp h
      have hcontext : own.WellFormed := hproof.of_lookup hcase
      cases starts with
      | false => cases h
      | true =>
          cases h
          refine ⟨wellFormed_withContext hoptions (hdocument.assignMember hcontext), ?_,
            fun name hname hvalue => hrest name hname hvalue _, by simp [hcase], ?_⟩
          · intro name hname hproofName
            rw [withContext, lookup_assignMember, if_neg hname, hkept name hproofName]
            exact sameShown_rel_refl _
          · intro own' hown'
            obtain rfl := Option.some.inj (hcase.symm.trans hown')
            rw [withContext, lookup_assignMember, if_pos rfl]
            refine ⟨sameShown_rel_refl _, ?_⟩
            rw [startsWithEntries] at hstarts
            split_ifs at hstarts with hlength
            · refine everyEntry_true hsound (wellFormed_contexts fun context hlookup => ?_)
                (wellFormed_contexts fun context hsome => ?_) hlength hstarts
              · exact hcredential.of_lookup hlookup
              · cases hsome
                exact hcontext
            · cases hstarts

/-- What shows the same as something covered is covered. -/
theorem CoversList.of_sameShown {covered covered' : Unsecured} {credential : List (JsString × Json)}
    {proof : ListProof} (h : CoversList covered credential proof)
    (hoptions : SameShown (.object covered'.options) (.object covered.options))
    (hdocument : SameShown (.object covered'.document) (.object covered.document)) :
    CoversList covered' credential proof where
  document name hcontext hproof :=
    sameShown_rel_trans (hdocument.lookup name) (h.document name hcontext hproof)
  options name hcontext hvalue :=
    sameShown_rel_trans (hoptions.lookup name) (h.options name hcontext hvalue)
  context hnone := sameShown_rel_trans (hdocument.lookup contextName) (h.context hnone)
  ownContext own hown :=
    ⟨sameShown_rel_trans (hdocument.lookup contextName) (h.ownContext own hown).1,
      (h.ownContext own hown).2⟩

end Covered

section Signers

variable {K : Type} (crypto : ListProofCrypto K) (signed : K → Unsecured → Prop)
  (didResolver : DIDResolver)

/-- The key of a verification method of a DID, as its document publishes it. -/
def MethodKey (did verificationMethod : JsString) (key : K) : Prop :=
  didOf verificationMethod = did ∧
    ∃ didDocument method jwk, didResolver did = .ok didDocument ∧
      findMethod didDocument did verificationMethod = some method ∧
      verificationMethodJwk method = some jwk ∧ importJwk crypto jwk = .ok key

/-- What a credential says, under the proof it carries, is signed with a key of the DID. -/
def SignedBy (did : JsString) : Json → Prop
  | .object credential => ∃ proof key covered, readListProof credential = some proof ∧
      MethodKey crypto didResolver did proof.verificationMethod key ∧ signed key covered ∧
      CoversList covered credential proof
  | _ => False

/-- The DID that a list names as its issuer. -/
def listIssuer : Json → Option JsString
  | .object credential => issuerOf credential
  | _ => none

variable {crypto signed didResolver}

theorem verifyRaw_true {jwk : Json} {signature data : Bytes}
    (h : ed25519VerifyRaw crypto jwk signature data = true) :
    ∃ key, importJwk crypto jwk = .ok key ∧
      crypto.isSmallOrderEd25519CryptoKey key = .ok false ∧
      crypto.verify key signature data = .ok true := by
  rw [ed25519VerifyRaw, decide_eq_true_eq, toOption_eq_some] at h
  obtain ⟨key, hkey, h⟩ := bind_eq_ok.mp h
  obtain ⟨small, hsmall, h⟩ := bind_eq_ok.mp h
  cases small with
  | false => exact ⟨key, hkey, hsmall, h⟩
  | true => cases h

theorem readListProof_members {credential : List (JsString × Json)} {proof : ListProof}
    (h : readListProof credential = some proof) :
    credential.lookup (js "proof") = some (.object proof.members) := by
  rw [readListProof] at h
  split at h
  · rename_i members hmembers
    split_ifs at h with hshape
    obtain ⟨proofValue, -, h⟩ := Option.bind_eq_some_iff.mp h
    obtain ⟨verificationMethod, -, h⟩ := Option.bind_eq_some_iff.mp h
    split_ifs at h with hmultibase
    cases h
    exact hmembers
  · cases h

theorem verifyUnderMethod_true (hsound : Sound crypto signed)
    {credential : List (JsString × Json)} {proof : ListProof} {did : JsString}
    (hcredential : (Json.object credential).WellFormed)
    (hproof : (Json.object proof.members).WellFormed)
    (hdid : didOf proof.verificationMethod = did)
    (h : verifyUnderMethod crypto didResolver credential proof did = .ok true) :
    ∃ key covered, MethodKey crypto didResolver did proof.verificationMethod key ∧
      signed key covered ∧ CoversList covered credential proof := by
  obtain ⟨signature, -, h⟩ := bind_eq_ok.mp h
  split_ifs at h with hlength
  · cases h
  · obtain ⟨didDocument, hdocument, h⟩ := bind_eq_ok.mp h
    split at h
    · cases h
    · rename_i jwk hjwk
      obtain ⟨method, hmethod, hjwk⟩ := Option.bind_eq_some_iff.mp hjwk
      split_ifs at h with hkind
      · obtain ⟨covered, hcovered, h⟩ := bind_eq_ok.mp h
        cases covered with
        | none => cases h
        | some covered =>
            obtain ⟨data, hdata, h⟩ := bind_eq_ok.mp h
            obtain ⟨key, hkey, hsmall, hverify⟩ := verifyRaw_true (Except.ok.inj h)
            obtain ⟨signedCovered, hsigned, hwf, hhash⟩ :=
              hsound.unforgeable key signature data hsmall hverify
            obtain ⟨hwellFormed, hcovers⟩ :=
              coversList_of_unsecured hsound hcredential hproof hcovered
            obtain ⟨hoptions, hdata'⟩ := sameShown_of_hashData hsound hwf hwellFormed hhash hdata
            exact ⟨key, signedCovered, ⟨hdid, didDocument, method, jwk, hdocument, hmethod, hjwk,
              hkey⟩, hsigned, hcovers.of_sameShown hoptions hdata'⟩
      · cases h

/-- A list whose proof verifies is signed with a key of the issuer it names, and of no other
DID. -/
theorem signedBy_iff (hsound : Sound crypto signed) {body : Json} (hbody : body.WellFormed)
    (h : createStatusListProofVerifier crypto didResolver body = .ok true) (did : JsString) :
    SignedBy crypto signed didResolver did body ↔ listIssuer body = some did := by
  cases body with
  | object credential =>
      cases hverify : verifyEddsaJcs2022 crypto didResolver credential with
      | error thrown =>
          rw [createStatusListProofVerifier, hverify] at h
          cases h
      | ok verified =>
          rw [createStatusListProofVerifier, hverify] at h
          obtain rfl : verified = true := Except.ok.inj h
          rw [verifyEddsaJcs2022] at hverify
          split at hverify
          · cases hverify
          · rename_i proof hproof
            dsimp only at hverify
            split_ifs at hverify with hissuer
            · constructor
              · rintro ⟨proof', _, _, hproof', ⟨hdid, -⟩, -, -⟩
                obtain rfl := Option.some.inj (hproof.symm.trans hproof')
                rw [listIssuer, hissuer, hdid]
              · intro hnamed
                obtain hdid := Option.some.inj (hissuer.symm.trans hnamed)
                have hmembers := hbody.of_lookup (readListProof_members hproof)
                rw [hdid] at hverify
                obtain ⟨key, covered, hkey, hsigned, hcovers⟩ :=
                  verifyUnderMethod_true hsound hbody hmembers hdid hverify
                exact ⟨proof, key, covered, hproof, hkey, hsigned, hcovers⟩
            · cases hverify
  | _ => cases h

end Signers

end KyaOs.Card
