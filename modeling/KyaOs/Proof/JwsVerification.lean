import KyaOs.Proof.Verifier
import KyaOs.Utils.UriComponent
import KyaOs.Utils.Untyped

/-!
# JWS verification

`CryptoService.verifyJWS`: a compact or detached JWS against an Ed25519 key. The Ed25519
provider is a parameter. What the parser throws is only logged, so it is `none` here.
-/

namespace KyaOs.Proof

open Js Audit

structure ParsedJWS where
  header : JsonValue JsNumber
  payload : Option (JsonValue JsNumber)
  signatureBytes : Bytes
  signingInput : JsString

/-- The options of `verifyJWS`, whose `alg` can be `EdDSA` only. A payload that is text is taken
as its UTF-8 bytes. -/
structure VerifyJWSOptions where
  detachedPayload : Option Bytes := none
  expectedKid : Option JsString := none

structure CryptoService where
  numbers : Doubles JsNumber
  /-- `cryptoProvider.verify`. -/
  verify : Bytes → Bytes → JsString → Except Error Bool

def jwkToBase64PublicKey (jwk : Ed25519JWK) : Except Error JsString := do
  let publicKeyBytes ← base64urlDecodeToBytes jwk.x
  if publicKeyBytes.length ≠ 32 then
    throw (.error (js "Invalid Ed25519 public key length: " ++
      js (toString publicKeyBytes.length)))
  return btoa publicKeyBytes

namespace CryptoService

variable (crypto : CryptoService)

def verifyEd25519 (data signature : Bytes) (publicKey : JsString) : Bool :=
  match crypto.verify data signature publicKey with
  | .ok result => result
  | .error _ => false

/-- `JSON.parse(base64urlDecodeToString(segment))`. -/
def parseSegment (segment : JsString) : Option (JsonValue JsNumber) :=
  match base64urlDecodeToString segment with
  | .ok text => JsonValue.parse crypto.numbers text
  | .error _ => none

def parseJWS (jws : JsString) : Option ParsedJWS :=
  match jws.splitOn 0x2E with
  | [headerB64, payloadB64, signatureB64] => do
    let header ← crypto.parseSegment headerB64
    let payload ← if payloadB64 = [] then some none else some <$> crypto.parseSegment payloadB64
    let signatureBytes ← (base64urlDecodeToBytes signatureB64).toOption
    return { header, payload, signatureBytes, signingInput := headerB64 ++ 0x2E :: payloadB64 }
  | _ => none

/-- What `verifyJWS` makes of a JWS without a payload that does not parse. -/
def parseDetachedJWS (jws : JsString) : Option ParsedJWS :=
  match jws.splitOn 0x2E with
  | [headerB64, [], signatureB64] => do
    let header ← crypto.parseSegment headerB64
    let signatureBytes ← (base64urlDecodeToBytes signatureB64).toOption
    return { header, payload := none, signatureBytes, signingInput := [] }
  | _ => none

/-- The text that was signed, and the one of a different payload that the JWS embeds. -/
def signingInputs (jws : JsString) (parsed : ParsedJWS) :
    Option Bytes → Option (JsString × Option JsString)
  | some detachedPayload =>
    match jws.splitOn 0x2E with
    | headerB64 :: embeddedPayloadB64 :: _ =>
      let payloadB64 := base64urlEncodeFromBytes detachedPayload
      some (headerB64 ++ 0x2E :: payloadB64,
        if embeddedPayloadB64 ≠ [] ∧ embeddedPayloadB64 ≠ payloadB64 then
          some (headerB64 ++ 0x2E :: embeddedPayloadB64)
        else none)
    | _ => none
  | none => if parsed.signingInput = [] then none else some (parsed.signingInput, none)

def verifyJWS (jws : JsString) (publicKeyJwk : Ed25519JWK) (options : VerifyJWSOptions) : Bool :=
  -- `isValidEd25519JWK`; the key type and the curve are those of the type.
  if publicKeyJwk.x = [] then false
  else if options.expectedKid.any fun kid => kid ≠ [] && publicKeyJwk.kid ≠ some kid then false
  else
    let parsed := (crypto.parseJWS jws).orElse fun _ =>
      if options.detachedPayload.isSome then crypto.parseDetachedJWS jws else none
    match parsed with
    | none => false
    | some parsed =>
      if !(Untyped.member? (some parsed.header) (js "alg")).isString (js "EdDSA") then false
      else if options.expectedKid.any fun kid =>
          !(Untyped.member? (some parsed.header) (js "kid")).isString kid then false
      else
        match signingInputs jws parsed options.detachedPayload,
          jwkToBase64PublicKey publicKeyJwk with
        | some (signingInput, embeddedSigningInput), .ok publicKey =>
          crypto.verifyEd25519 (encodeUtf8 signingInput) parsed.signatureBytes publicKey &&
            embeddedSigningInput.all fun embedded =>
              crypto.verifyEd25519 (encodeUtf8 embedded) parsed.signatureBytes publicKey
        | _, _ => false

end CryptoService

/-- `{ alg: 'EdDSA', kid }`. -/
def protectedHeader (kid : JsString) : Json :=
  .object [(js "alg", .string (js "EdDSA")), (js "kid", .string kid)]

/-- What a compact JWS is a signature of. -/
def signingInput (kid : JsString) (payload : Bytes) : JsString :=
  base64urlEncodeFromBytes (encodeUtf8 (Json.stringify (protectedHeader kid))) ++
    0x2E :: base64urlEncodeFromBytes payload

def compactJws (kid : JsString) (payload signature : Bytes) : JsString :=
  signingInput kid payload ++ 0x2E :: base64urlEncodeFromBytes signature

section Compact

variable {crypto : CryptoService} {kid text publicKey : JsString} {payload signature : Bytes}

theorem dot_notMem_encode (bytes : Bytes) : 0x2E ∉ base64urlEncodeFromBytes bytes := by
  have hunit : ∀ n < 64, toUrlUnit (sextetUnit n) ≠ 0x2E := by decide +kernel
  rw [base64urlEncodeFromBytes_eq]
  intro hmem
  obtain ⟨n, hn, hdot⟩ := List.mem_map.mp hmem
  exact hunit n (sextets_lt bytes n hn) hdot

theorem splitOn_compactJws : (compactJws kid payload signature).splitOn 0x2E =
    [base64urlEncodeFromBytes (encodeUtf8 (Json.stringify (protectedHeader kid))),
      base64urlEncodeFromBytes payload, base64urlEncodeFromBytes signature] := by
  have hjoin : ∀ header payload signature : JsString,
      header ++ 0x2E :: payload ++ 0x2E :: signature =
        [0x2E].intercalate [header, payload, signature] := by
    intro header payload signature
    simp
  rw [compactJws, signingInput, hjoin]
  refine List.splitOn_intercalate 0x2E ?_ (List.cons_ne_nil _ _)
  simp only [List.forall_mem_cons]
  exact ⟨dot_notMem_encode _, dot_notMem_encode _, dot_notMem_encode _, nofun⟩

theorem parseSegment_encode (h : hasLoneSurrogate text = false) :
    crypto.parseSegment (base64urlEncodeFromBytes (encodeUtf8 text)) =
      JsonValue.parse crypto.numbers text := by
  rw [CryptoService.parseSegment, base64urlDecodeToString_encode, decodeUtf8_encodeUtf8 h]

/-- The header is read back. -/
theorem parseSegment_protectedHeader : crypto.parseSegment
    (base64urlEncodeFromBytes (encodeUtf8 (Json.stringify (protectedHeader kid)))) =
      some (.object [(js "alg", .string (js "EdDSA")), (js "kid", .string kid)]) := by
  have htext : Json.stringify (protectedHeader kid) =
      js "\x7b\"alg\":\"EdDSA\",\"kid\":" ++ (Json.quote kid ++ js "\x7d") := rfl
  have hwellFormed : (protectedHeader kid).WellFormed := by
    refine .object (by simp only [List.map_cons, List.map_nil]; decide) ?_
    simp only [List.forall_mem_cons]
    exact ⟨.string _, .string _, nofun⟩
  have hpaired : hasLoneSurrogate (Json.stringify (protectedHeader kid)) = false := by
    rw [htext]
    exact hasLoneSurrogate_append (by decide)
      (hasLoneSurrogate_append (hasLoneSurrogate_quote kid) (by decide))
  rw [parseSegment_encode hpaired, JsonValue.parse, Json.parse_stringify hwellFormed]
  rfl

/-- A compact JWS over JSON text verifies against its payload under the key it was signed for. -/
theorem verifyJWS_compact {jwk : Ed25519JWK} {parsed : JsonValue JsNumber}
    (hkid : jwk.kid = some kid) (hkey : jwkToBase64PublicKey jwk = .ok publicKey)
    (hpaired : hasLoneSurrogate text = false)
    (hparsed : JsonValue.parse crypto.numbers text = some parsed)
    (hverify : crypto.verify (encodeUtf8 (signingInput kid (encodeUtf8 text))) signature publicKey =
      .ok true) :
    crypto.verifyJWS (compactJws kid (encodeUtf8 text) signature) jwk
      { detachedPayload := some (encodeUtf8 text), expectedKid := some kid } = true := by
  have hx : jwk.x ≠ [] := by
    intro hnil
    rw [jwkToBase64PublicKey, hnil] at hkey
    cases hkey
  obtain ⟨payload, hpayload⟩ : ∃ payload,
      crypto.parseJWS (compactJws kid (encodeUtf8 text) signature) = some
        { header := .object [(js "alg", .string (js "EdDSA")), (js "kid", .string kid)]
          payload
          signatureBytes := signature
          signingInput := signingInput kid (encodeUtf8 text) } := by
    rw [CryptoService.parseJWS, splitOn_compactJws]
    simp only [parseSegment_protectedHeader, parseSegment_encode hpaired, hparsed,
      base64urlDecodeToBytes_encode, Except.toOption]
    split_ifs
    · exact ⟨_, rfl⟩
    · exact ⟨_, rfl⟩
  have halg : (Untyped.member? (some (.object
      [(js "alg", .string (js "EdDSA")), (js "kid", .string kid)])) (js "alg")).isString
        (js "EdDSA") = true := by
    rfl
  have hheaderKid : (Untyped.member? (some (.object
      [(js "alg", .string (js "EdDSA")), (js "kid", .string kid)])) (js "kid")).isString kid =
        true := by
    exact Untyped.isString_iff.mpr rfl
  have hinputs : CryptoService.signingInputs (compactJws kid (encodeUtf8 text) signature)
      { header := .object [(js "alg", .string (js "EdDSA")), (js "kid", .string kid)]
        payload
        signatureBytes := signature
        signingInput := signingInput kid (encodeUtf8 text) } (some (encodeUtf8 text)) =
      some (signingInput kid (encodeUtf8 text), none) := by
    rw [CryptoService.signingInputs, splitOn_compactJws]
    simp only [ne_eq, not_true_eq_false, and_false, if_false]
    rfl
  rw [CryptoService.verifyJWS, if_neg hx, hpayload]
  simp only [Option.any_some, hkid, ne_eq, not_true_eq_false, decide_false, Bool.and_false,
    Bool.false_eq_true, if_false, Option.orElse_some, halg, hheaderKid, Bool.not_true, hinputs,
    hkey, CryptoService.verifyEd25519, hverify, Option.all_none, Bool.and_self]

end Compact

end KyaOs.Proof
