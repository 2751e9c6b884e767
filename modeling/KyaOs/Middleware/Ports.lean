import KyaOs.Concurrency.Conversations
import KyaOs.Delegation.Credential
import KyaOs.Middleware.Calls
import KyaOs.Proof.Verifier
import KyaOs.Providers.GrantStore
import KyaOs.Utils.PlainObject

/-!
# What the gates ask of others

The calls of a gate that leave it: the clock, the hasher, the resolvers, the checks of
signatures and statuses, the proof verifier, the grant store, the audit, the policy engine,
the proof layer and the wrapped handler. A call may be answered by a value or throw.
-/

namespace KyaOs.Middleware

open Js Audit Proof Providers Concurrency

/-- A credential as an object: the same object is the same one. -/
structure Presented where
  object : Nat
  value : JsonValue JsNumber

/-- A verification method of a DID document, with the key that `verificationMethodJwk`
reads from it. -/
structure VerificationMethod where
  id : JsString
  publicKeyJwk : Untyped

inductive GateRequest where
  | now
  | hash (bytes : Bytes)
  | resolveDid (did : Untyped)
  | verifyEd25519 (data signature publicKey : Bytes)
  /-- `importJWK`; whether the key is a small-order point. -/
  | importKey (publicKeyJwk : Untyped)
  /-- Throws unless the signature is valid. -/
  | compactVerify (jwt : JsString) (publicKeyJwk : Untyped)
  | checkStatus (credentialStatus : Untyped)
  | resolveDelegationChain (leaf : Presented)
  | isRevoked (delegationId : Untyped)
  | bindGrant (grant : Grant)
  | getByAgent (agentDid : JsString) (requiredScopes : List JsString)
  | getBySession (sessionId : JsString) (requiredScopes : List JsString)
  | verifyProof (proof : Untyped) (publicKeyJwk : Ed25519JWK) (request : ToolRequest JsNumber)
  | requireProofLayer
  | recordAudit (event : GateEvent)
  | randomBytes (length : Nat)
  | formatChallenge (authError : JsonValue JsNumber)
  | attachOutcomeProof (result : ToolResult) (toolName : JsString) (args : PlainObject JsNumber)
      (sessionId : Option JsString) (reason : JsString) (outcome : JsString)
  | resolveNamespace (args : PlainObject JsNumber)
  | classify (toolName resourceNamespace : JsString)
  | evaluatePolicy (request : PolicyRequest)
  | isValidApprovalSignature (grant : JsonValue JsNumber)
  | callHandler (args : PlainObject JsNumber) (sessionId : Option JsString)
      (context : Option CallContext)

abbrev GateRequest.Answer : GateRequest → Type
  | .now => ℚ
  | .hash _ => Digest
  | .resolveDid _ => Option (List VerificationMethod)
  | .verifyEd25519 .. => Bool
  | .importKey _ => Bool
  | .compactVerify .. => Unit
  | .checkStatus _ => Bool
  | .resolveDelegationChain _ => List Presented
  | .isRevoked _ => Revocation
  | .bindGrant _ => Unit
  | .getByAgent .. => List Grant
  | .getBySession .. => List Grant
  | .verifyProof .. => ProofVerificationResult
  | .requireProofLayer => Unit
  | .recordAudit _ => Unit
  | .randomBytes _ => Bytes
  | .formatChallenge _ => Untyped
  | .attachOutcomeProof .. => ToolResult
  | .resolveNamespace _ => JsString
  | .classify .. => RiskAssessment
  | .evaluatePolicy _ => PolicyDecision
  | .isValidApprovalSignature _ => Bool
  | .callHandler .. => ToolResult

abbrev Gates : Setting where
  State := Unit
  Error := Error
  Request := GateRequest
  Answer := GateRequest.Answer

abbrev GateM := Async Gates

end KyaOs.Middleware
