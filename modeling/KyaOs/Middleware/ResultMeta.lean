import KyaOs.Middleware.Calls

/-!
# The `_meta` of a tool result

The members of a result's `_meta` that only the middleware may set, and the copies of a
result without them.
-/

namespace KyaOs.Middleware

open Js Untyped JsonValue

def kyaOsProofMetaKey : JsString := js "org.kya-os/response-proof"
def legacyNamespacedProofMetaKey : JsString := js "org.kya-os/proof"
def legacyProofMetaKey : JsString := js "proof"
def auditMetaKey : JsString := js "org.kya-os/audit"
def lifecycleStampMetaKey : JsString := js "org.kya-os/lifecycle-stamp"
def pendingProofMetaKey : JsString := js "org.kya-os/pending-proof"

/-- The members only the middleware sets on a result for itself, never sent. -/
def privateMetaKeys : List JsString := [lifecycleStampMetaKey, pendingProofMetaKey]

/-- The members a response proof is placed under. -/
def proofMetaKeys : List JsString :=
  [kyaOsProofMetaKey, legacyNamespacedProofMetaKey, legacyProofMetaKey]

/-- The members only the middleware itself may set. -/
def outcomeMetaKeys : List JsString :=
  proofMetaKeys ++ [js "proofError", auditMetaKey] ++ privateMetaKeys

/-- `{ ...result, _meta: meta }`. -/
def withMeta (result : ToolResult) (metadata : Members JsNumber) : ToolResult :=
  match result with
  | .object members => .object (assignMember (js "_meta") (.object metadata) members)
  | result => result

/-- `result` without the `_meta` members in `keys`, and without an emptied `_meta`
unless `keepEmptyMeta`. -/
def withoutMetaKeys (result : ToolResult) (keys : List JsString) (keepEmptyMeta : Bool) :
    ToolResult :=
  match result with
  | .object members =>
    match members.lookup (js "_meta") with
    | some (.object metadata) =>
      if keys.any (fun key => (metadata.map Prod.fst).contains key) then
        let kept := withoutKeys metadata keys.contains
        if keepEmptyMeta || !kept.isEmpty then withMeta result kept
        else .object (withoutKeys members fun key => key = js "_meta")
      else result
    | _ => result
  | result => result

/-- A result the middleware did not produce, without the members only it may set. -/
def withoutOutcomeMeta (result : ToolResult) : ToolResult :=
  withoutMetaKeys result outcomeMetaKeys false

/-- A `_meta` that `Object.hasOwn` cannot read. -/
def cannotReadMeta : Error := .typeError (js "Cannot convert undefined or null to object")

/-- `withoutMetaKeys` of any result: `Object.hasOwn` throws on a `null` `_meta`. -/
def tryWithoutMetaKeys (result : ToolResult) (keys : List JsString) (keepEmptyMeta : Bool) :
    Except Error ToolResult :=
  match Untyped.member? (some result) (js "_meta") with
  | some .null => if keys = [] then .ok result else .error cannotReadMeta
  | _ => .ok (withoutMetaKeys result keys keepEmptyMeta)

/-- The members that a spread copies from an array or a string. -/
def indexedMembers (items : List (JsonValue JsNumber)) : Members JsNumber :=
  items.zipIdx.map fun item => (js (toString item.2), item.1)

/-- `{ ...value }`. -/
def spreadOf : Untyped → Members JsNumber
  | some (.object members) => members
  | some (.array items) => indexedMembers items
  | some (.string text) => indexedMembers (text.map fun u => .string [u])
  | _ => []

/-- `result._meta`, of a result that is an object. -/
def metaOf (result : ToolResult) : Untyped := Untyped.member? (some result) (js "_meta")

end KyaOs.Middleware
