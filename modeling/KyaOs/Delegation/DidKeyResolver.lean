import KyaOs.Delegation.HolderBinding
import KyaOs.Delegation.VerificationMethodKey
import KyaOs.Utils.Base58Codec

/-!
# Resolving a `did:key`

`createDidKeyResolver` and `generateDidKeyFromBytes`. The DIDs that resolve are the encodings
of the Ed25519 keys, one each: a number of 34 bytes that begins with the multicodec prefix has
47 base58 digits, of which the first three are always the same.
-/

namespace KyaOs.DidKey

open Js Positional

/-- `text.replace(pattern, '')`: the first occurrence goes. -/
def removeFirst (pattern : JsString) : JsString → JsString
  | [] => []
  | u :: rest =>
    if startsWith (u :: rest) pattern then (u :: rest).drop pattern.length
    else u :: removeFirst pattern rest

structure VerificationMethod where
  id : JsString
  type : JsString
  controller : JsString
  publicKeyJwk : Json
  publicKeyMultibase : JsString

structure DIDDocument where
  id : JsString
  verificationMethod : List VerificationMethod
  authentication : List JsString
  assertionMethod : List JsString

def isEd25519DidKey (did : JsString) : Bool := startsWith did (js "did:key:z6Mk")

/-- The document of a DID whose key has been read. -/
def documentOf (did : JsString) (publicKeyBytes : List UInt8) : DIDDocument where
  id := did
  verificationMethod := [{
    id := did ++ js "#" ++ didKeyFragment did
    type := js "Ed25519VerificationKey2020"
    controller := did
    publicKeyJwk := DidDocuments.publicKeyToJwk publicKeyBytes
    publicKeyMultibase := removeFirst (js "did:key:") did }]
  authentication := [did ++ js "#" ++ didKeyFragment did]
  assertionMethod := [did ++ js "#" ++ didKeyFragment did]

/-- What `createDidKeyResolver().resolve` answers. -/
def resolve (did : JsString) : Option DIDDocument :=
  if !isEd25519DidKey did then none
  else (extractPublicKeyFromDidKey did).map (documentOf did)

def generateDidKeyFromBytes (publicKeyBytes : List UInt8) : JsString :=
  js "did:key:z" ++ base58Encode (DidDocuments.ed25519MulticodecPrefix ++ publicKeyBytes)

section Number

variable {key : List UInt8}

/-- The multicodec prefix and the key, as digits. -/
def prefixed (key : List UInt8) : List Nat :=
  (DidDocuments.ed25519MulticodecPrefix ++ key).map UInt8.toNat

theorem prefixed_eq (key : List UInt8) : prefixed key = [0xED, 0x01] ++ key.map UInt8.toNat := by
  rw [prefixed, List.map_append]
  rfl

/-- Whatever the key, the number begins with the same three digits of 47. -/
theorem value_prefixed_div (h : key.length = 32) :
    value 256 (prefixed key) / 58 ^ 44 = 18023 := by
  have hkey : value 256 (key.map UInt8.toNat) < 256 ^ 32 := by
    have hlt := value_lt (by decide) (bytes_lt key)
    rwa [List.length_map, h] at hlt
  have hvalue : value 256 (prefixed key) =
      0xED01 * 256 ^ 32 + value 256 (key.map UInt8.toNat) := by
    rw [prefixed_eq, value, List.foldl_append, foldl_eq_value, List.length_map, h]
    rfl
  have hlow : 18023 * 58 ^ 44 ≤ 0xED01 * 256 ^ 32 := by norm_num
  have hhigh : 0xED02 * 256 ^ 32 ≤ 18024 * 58 ^ 44 := by norm_num
  rw [hvalue, Nat.div_eq_iff (by positivity)]
  omega

/-- The text of a prefixed key: `6Mk` and 44 digits more. -/
theorem base58Encode_prefixed (h : key.length = 32) : ∃ rest : JsString, rest.length = 44 ∧
    base58Encode (DidDocuments.ed25519MulticodecPrefix ++ key) = js "6Mk" ++ rest := by
  have hdiv := value_prefixed_div h
  obtain ⟨digits, hlength, hdigits⟩ :=
    canonical_append (b := 58) (n := value 256 (prefixed key)) (by decide) 44 (by omega)
  have hfirst : (canonical 58 18023).map base58Char = js "6Mk" := by
    rw [canonical_eq_concat (by decide) (by decide), canonical_eq_concat (by decide) (by decide),
      canonical_of_lt (by decide) (by decide)]
    decide
  have hzeros : zeros (prefixed key) = 0 := by
    rw [prefixed_eq]
    rfl
  refine ⟨digits.map base58Char, by rw [List.length_map, hlength], ?_⟩
  rw [base58Encode_eq]
  change (convert 256 58 (prefixed key)).map base58Char = _
  rw [convert, hzeros, hdigits, hdiv, List.replicate_zero, List.nil_append, List.map_append, hfirst]

end Number

/-- A document publishes a key: as a JWK, and as the multibase text that decodes to it. -/
def DIDDocument.Publishes (document : DIDDocument) (key : List UInt8) : Prop :=
  ∃ method, document.verificationMethod = [method] ∧
    method.publicKeyJwk = DidDocuments.publicKeyToJwk key ∧
    method.publicKeyMultibase =
      js "z" ++ base58Encode (DidDocuments.ed25519MulticodecPrefix ++ key)

section Resolve

variable {did : JsString} {key : List UInt8} {document : DIDDocument}

/-- A generated DID has the length and the beginning that the resolver asks for. -/
theorem generateDidKeyFromBytes_bounds (h : key.length = 32) :
    isEd25519DidKey (generateDidKeyFromBytes key) = true ∧
      (base58Encode (DidDocuments.ed25519MulticodecPrefix ++ key)).length = 47 := by
  obtain ⟨rest, hlength, htext⟩ := base58Encode_prefixed h
  constructor
  · have hstart : js "did:key:z6Mk" = js "did:key:z" ++ js "6Mk" := by decide
    rw [isEd25519DidKey, startsWith_iff, generateDidKeyFromBytes, htext, hstart,
      ← List.append_assoc]
    exact List.prefix_append _ _
  · rw [htext, List.length_append, hlength]
    rfl

theorem extractPublicKeyFromDidKey_generate (h : key.length = 32) :
    extractPublicKeyFromDidKey (generateDidKeyFromBytes key) = some key := by
  have hdrop : (generateDidKeyFromBytes key).drop 9 =
      base58Encode (DidDocuments.ed25519MulticodecPrefix ++ key) := by
    rw [generateDidKeyFromBytes, show 9 = (js "did:key:z").length by decide, List.drop_left]
  have hstart : startsWith (generateDidKeyFromBytes key) (js "did:key:z") = true :=
    startsWith_append _ _
  have hlength := (generateDidKeyFromBytes_bounds h).2
  have hdecoded : base58Decode (base58Encode (DidDocuments.ed25519MulticodecPrefix ++ key)) 64 =
      .ok (DidDocuments.ed25519MulticodecPrefix ++ key) := by
    rw [base58Decode_eq, if_neg (by omega), base58DecodeUnbounded_encode]
  rw [extractPublicKeyFromDidKey, if_pos hstart, hdrop, hdecoded]
  have hwhole : (DidDocuments.ed25519MulticodecPrefix ++ key).length = 34 ∧
      (DidDocuments.ed25519MulticodecPrefix ++ key).take 2 = [0xed, 0x01] := by
    rw [List.length_append, h]
    exact ⟨rfl, rfl⟩
  simp only [if_pos hwhole]
  rfl

/-- A key is read from the DID that is generated from it alone. -/
theorem eq_generate_of_extract (h : extractPublicKeyFromDidKey did = some key) :
    key.length = 32 ∧ did = generateDidKeyFromBytes key := by
  rw [extractPublicKeyFromDidKey] at h
  split_ifs at h with hstart
  split at h
  · rename_i bytes hdecoded
    split_ifs at h with hprefix
    obtain ⟨hlength, htake⟩ := hprefix
    obtain rfl := Option.some.inj h
    obtain ⟨encoded, rfl⟩ := startsWith_iff.mp hstart
    rw [show 9 = (js "did:key:z").length by decide, List.drop_left, base58Decode_eq] at hdecoded
    split_ifs at hdecoded
    have hbytes : bytes = DidDocuments.ed25519MulticodecPrefix ++ bytes.drop 2 := by
      rw [DidDocuments.ed25519MulticodecPrefix, ← htake, List.take_append_drop]
    refine ⟨by rw [List.length_drop, hlength], ?_⟩
    rw [generateDidKeyFromBytes, ← hbytes, base58Encode_of_decode hdecoded]
  · cases h

theorem removeFirst_generate (key : List UInt8) :
    removeFirst (js "did:key:") (generateDidKeyFromBytes key) =
      js "z" ++ base58Encode (DidDocuments.ed25519MulticodecPrefix ++ key) := by
  have hsplit : js "did:key:z" = js "did:key:" ++ js "z" := by decide
  have hfirst : js "did:key:" = 0x64 :: js "id:key:" := by decide
  rw [generateDidKeyFromBytes, hsplit, List.append_assoc]
  generalize js "z" ++ base58Encode (DidDocuments.ed25519MulticodecPrefix ++ key) = rest
  have hstart : startsWith (js "did:key:" ++ rest) (js "did:key:") = true := startsWith_append _ _
  have hdrop : (js "did:key:" ++ rest).drop (js "did:key:").length = rest := List.drop_left
  revert hstart hdrop
  generalize hpattern : js "did:key:" = pattern
  rw [hfirst] at hpattern
  subst hpattern
  intro hstart hdrop
  rw [List.cons_append, removeFirst, ← List.cons_append, if_pos hstart, hdrop]

theorem publishes_documentOf (key : List UInt8) :
    (documentOf (generateDidKeyFromBytes key) key).Publishes key :=
  ⟨_, rfl, rfl, removeFirst_generate key⟩

/-- The DID of each key resolves to it. -/
theorem resolve_generate (h : key.length = 32) :
    ∃ document, resolve (generateDidKeyFromBytes key) = some document ∧ document.Publishes key := by
  refine ⟨documentOf (generateDidKeyFromBytes key) key, ?_, publishes_documentOf key⟩
  rw [resolve, (generateDidKeyFromBytes_bounds h).1, extractPublicKeyFromDidKey_generate h]
  rfl

/-- What resolves is the DID of the key it publishes. -/
theorem eq_generate_of_resolve (h : resolve did = some document) :
    ∃ key, key.length = 32 ∧ document.Publishes key ∧ did = generateDidKeyFromBytes key := by
  rw [resolve] at h
  split_ifs at h with hed25519
  obtain ⟨key, hkey, rfl⟩ := Option.map_eq_some_iff.mp h
  obtain ⟨hlength, rfl⟩ := eq_generate_of_extract hkey
  exact ⟨key, hlength, publishes_documentOf key, rfl⟩

/-- One document publishes one key. -/
theorem DIDDocument.Publishes.unique {key' : List UInt8} (h : document.Publishes key)
    (h' : document.Publishes key') : key = key' := by
  obtain ⟨method, hmethod, hjwk, -⟩ := h
  obtain ⟨method', hmethod', hjwk', -⟩ := h'
  rw [hmethod] at hmethod'
  obtain rfl := (List.cons.inj hmethod').1
  have htexts : base64urlEncodeFromBytes key = base64urlEncodeFromBytes key' := by
    rw [hjwk] at hjwk'
    simpa [DidDocuments.publicKeyToJwk] using hjwk'
  have hdecoded := base64urlDecodeToBytes_encode key
  rw [htexts, base64urlDecodeToBytes_encode] at hdecoded
  exact (Except.ok.inj hdecoded).symm

/-- Base58 is undone both ways, and the DIDs that resolve are those of the keys, one each. -/
theorem didKey_bijection :
    (∀ bytes, base58DecodeUnbounded (base58Encode bytes) = .ok bytes) ∧
      (∀ text : JsString, (∀ char ∈ text, char ∈ base58Alphabet) →
        ∃ bytes, base58DecodeUnbounded text = .ok bytes ∧ base58Encode bytes = text) ∧
      (∀ key : List UInt8, key.length = 32 →
        isEd25519DidKey (generateDidKeyFromBytes key) = true ∧
          (base58Encode (DidDocuments.ed25519MulticodecPrefix ++ key)).length ≤ 64 ∧
          ∃ document, resolve (generateDidKeyFromBytes key) = some document ∧
            document.Publishes key ∧ ∀ key', document.Publishes key' → key' = key) ∧
      (∀ did document, resolve did = some document →
        ∃ key, key.length = 32 ∧ document.Publishes key ∧ did = generateDidKeyFromBytes key) ∧
      ∀ did did' document document' key, resolve did = some document →
        resolve did' = some document' → document.Publishes key → document'.Publishes key →
          did = did' := by
  refine ⟨base58DecodeUnbounded_encode, fun _ => base58Encode_decode, ?_,
    fun _ _ => eq_generate_of_resolve, ?_⟩
  · intro key hkey
    obtain ⟨hstart, hlength⟩ := generateDidKeyFromBytes_bounds hkey
    obtain ⟨document, hdocument, hpublishes⟩ := resolve_generate hkey
    exact ⟨hstart, by omega, document, hdocument, hpublishes, fun _ h => h.unique hpublishes⟩
  · intro did did' document document' key hdid hdid' hkey hkey'
    obtain ⟨published, -, hpublished, rfl⟩ := eq_generate_of_resolve hdid
    obtain ⟨published', -, hpublished', rfl⟩ := eq_generate_of_resolve hdid'
    rw [hpublished.unique hkey, hpublished'.unique hkey']

/-- The key of zeros. -/
theorem didKey_bijection_sample :
    ∃ document, resolve (generateDidKeyFromBytes (List.replicate 32 0)) = some document ∧
      document.Publishes (List.replicate 32 0) := by
  obtain ⟨-, -, hkeys, -⟩ := didKey_bijection
  obtain ⟨-, -, document, hdocument, hpublishes, -⟩ :=
    hkeys (List.replicate 32 0) List.length_replicate
  exact ⟨document, hdocument, hpublishes⟩

end Resolve

end KyaOs.DidKey
